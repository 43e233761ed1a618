import ProxyTiming.Phase
import ProxyTiming.Error

/-!
# The record of one trial

A trial leaves behind how long each of its phases took, and how it ended.  A
phase that was not observed is zero.  The record is filled by a *collector*
that is carried down the dial chain; stopping the collector turns it, and the
outcome of the trial, into the record.
-/

namespace ProxyTiming

structure Timings where
  proxyDns : Duration
  proxyTcpConnect : Duration
  socks5Handshake : Duration
  targetDnsLookup : Duration
  targetTcpConnect : Duration
  tlsHandshake : Duration
  timeToFirstByte : Duration
  total : Duration
  success : Bool
  /-- Zero when no response was received. -/
  statusCode : UInt16
  errorMessage : Option String
deriving DecidableEq

namespace Timings

def zero : Timings where
  proxyDns := .zero
  proxyTcpConnect := .zero
  socks5Handshake := .zero
  targetDnsLookup := .zero
  targetTcpConnect := .zero
  tlsHandshake := .zero
  timeToFirstByte := .zero
  total := .zero
  success := false
  statusCode := 0
  errorMessage := none

def get (t : Timings) : Phase → Duration
  | .proxyDns => t.proxyDns
  | .proxyTcpConnect => t.proxyTcpConnect
  | .socks5Handshake => t.socks5Handshake
  | .targetDnsLookup => t.targetDnsLookup
  | .targetTcpConnect => t.targetTcpConnect
  | .tlsHandshake => t.tlsHandshake
  | .timeToFirstByte => t.timeToFirstByte
  | .total => t.total

/-- The record whose phases took what `f` assigns to them. -/
def withPhases (t : Timings) (f : Phase → Duration) : Timings :=
  { t with
    proxyDns := f .proxyDns
    proxyTcpConnect := f .proxyTcpConnect
    socks5Handshake := f .socks5Handshake
    targetDnsLookup := f .targetDnsLookup
    targetTcpConnect := f .targetTcpConnect
    tlsHandshake := f .tlsHandshake
    timeToFirstByte := f .timeToFirstByte
    total := f .total }

end Timings

structure TrialFailure where
  timings : Timings
  error : TrialError
deriving DecidableEq

def TrialFailure.message (f : TrialFailure) : String := f.error.message

def isSuccessStatus (status : UInt16) : Bool :=
  decide (200 ≤ status.toNat) && decide (status.toNat < 400)

/-- The time of the negotiation with a proxy, which is not measured on its own: what is left
of the whole dial after looking the proxy up and connecting to it. -/
def deriveHandshake (dial connect dns : Duration) : Duration :=
  (dial.monus connect).monus dns

/-! ### Collecting -/

/-- The state of a trial's measurements.  The first byte is an instant, counted from the start
of the trial. -/
structure Collector where
  proxyDns : Duration
  proxyTcpConnect : Duration
  socks5Handshake : Duration
  targetDnsLookup : Duration
  targetTcpConnect : Duration
  tlsHandshake : Duration
  firstByte : Option Duration
deriving DecidableEq

namespace Collector

def start : Collector := ⟨.zero, .zero, .zero, .zero, .zero, .zero, none⟩

/-- Notes the instant of the first byte; only the first note counts. -/
def markFirstByte (c : Collector) (instant : Duration) : Collector :=
  { c with firstByte := some (c.firstByte.getD instant) }

def firstByteSeen (c : Collector) : Bool := c.firstByte.isSome

/-- The record of a trial that took `total` altogether.  The first byte is never later than
the end. -/
def record (c : Collector) (total : Duration) : Timings where
  proxyDns := c.proxyDns
  proxyTcpConnect := c.proxyTcpConnect
  socks5Handshake := c.socks5Handshake
  targetDnsLookup := c.targetDnsLookup
  targetTcpConnect := c.targetTcpConnect
  tlsHandshake := c.tlsHandshake
  timeToFirstByte := (c.firstByte.getD .zero).min total
  total := total
  success := false
  statusCode := 0
  errorMessage := none

/-- Stops the clock after `total`.  The outcome of the trial is the status of its response, or
the error that prevented one. -/
def finish (c : Collector) (total : Duration) :
    Except TrialError UInt16 → Except TrialFailure Timings
  | .ok status =>
    if isSuccessStatus status then
      .ok { c.record total with success := true, statusCode := status }
    else
      let error := TrialError.httpStatus status
      .error ⟨{ c.record total with statusCode := status, errorMessage := some error.message },
        error⟩
  | .error error => .error ⟨{ c.record total with errorMessage := some error.message }, error⟩

end Collector

end ProxyTiming
