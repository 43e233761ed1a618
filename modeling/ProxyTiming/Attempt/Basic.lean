import ProxyTiming.Attempt.Dial
import ProxyTiming.Http.Request
import ProxyTiming.Http.Response

/-!
# Attempts

An attempt is one request from start to end, under a deadline.  After the dial it
sets up a secure channel if the URL asks for one, sends the head of the request and
reads the head of the response.  It is never repeated and never follows anything up.

What comes before the request has been sent is not the response to it, and neither is
the end of the connection.  An attempt that finds one or the other sends nothing.

Whatever stops it, the attempt ends with a record: the collector is stopped once,
with the status of the response or with the error.
-/

namespace ProxyTiming

open ProxyTiming.Net ProxyTiming.Socks ProxyTiming.Http

/-! ### The secure channel -/

/-- The first byte of a client's offer to secure a channel.  What follows it can only be read by
a peer that secures channels. -/
def hello : List UInt8 := [22]

/-- How many bytes it takes to see that an answer to the offer is none. -/
def recordHeaderLength : Nat := 5

/-- The client secures a connection.  This needs a peer that does so too, and nothing in the way. -/
def Link.secure (l : Link) : Fate Unit × Link :=
  if l.peer.secure ∧ ¬ l.peer.hasty ∧ l.isQuiet then
    (.value (), { l with secured := true })
  else
    let l := l.send hello
    if recordHeaderLength ≤ l.unread.length ∨ l.isClosed then (.lost "no secure channel", l)
    else (.stalled, l)

def secureChannel (w : Watch) (link : Link) : Step Link := do
  match ← Step.await w with
  | some d => do
    Step.note (.secure (hello.take d.sent))
    Step.keep (link.send (hello.take d.sent))
    Step.stop .stalled
  | none =>
    match link.secure with
    | (.value (), link) => do
      Step.note (.secure [])
      Step.keep link
      Step.measure fun c => { c with tlsHandshake := w.time .tlsHandshake }
      pure link
    | (.lost reason, link) => do
      Step.note (.secure hello)
      Step.keep link
      Step.measure fun c => { c with tlsHandshake := w.time .tlsHandshake }
      Step.fail (.tls reason)
    | (.stalled, link) => do
      Step.note (.secure hello)
      Step.keep link
      Step.stop .stalled

/-! ### The exchange -/

def noteFirstByte (w : Watch) (bytes : List UInt8) (c : Collector) : Collector :=
  if bytes.isEmpty then c else c.markFirstByte (w.time .timeToFirstByte)

/-- The status that the bytes from a peer amount to. -/
def received (l : Link) : Except Stop UInt16 :=
  match responseStatus l.unread with
  | .ok status => .ok status
  | .error (.fault f) => .error (.failed (.connection f.message))
  | .error .short =>
    if l.isClosed then .error (.failed (.connection ResponseFault.incomplete.message))
    else .error .stalled

def readResponse (w : Watch) (bytes : List UInt8) : Step Unit := do
  Step.modify fun s => { s with response := s.response ++ bytes }
  Step.measure (noteFirstByte w bytes)

/-- Looks at the connection before anything of a request is sent.  If it is not quiet, what there is
is read, and the request is given up. -/
def expectQuiet (w : Watch) (link : Link) : Step Unit :=
  if link.isQuiet then pure ()
  else do
    match ← Step.await w with
    | some d => do
      readResponse w (link.unread.take d.received)
      Step.stop .stalled
    | none => do
      readResponse w link.unread
      Step.fail (.connection ResponseFault.canceled.message)

/-- Sends the head of a request and reads the head of the response. -/
def ask (w : Watch) (request : Request) (link : Link) : Step UInt16 := do
  let head := Text.utf8 request.head
  match ← Step.await w with
  | some d => do
    let link := link.send (head.take d.sent)
    Step.note (.request (head.take d.sent))
    Step.keep link
    readResponse w (link.unread.take d.received)
    Step.stop .stalled
  | none => do
    let link := link.send head
    Step.note (.request head)
    Step.keep link
    readResponse w link.unread
    match received link with
    | .ok status => pure status
    | .error reason => Step.stop reason

def exchange (w : Watch) (request : Request) (link : Link) : Step UInt16 := do
  expectQuiet w link
  ask w request link

/-! ### The whole -/

def targetOf (url : String) : Except TrialError Target :=
  match Target.parse url with
  | .ok t => .ok t
  | .error fault => .error (.invalidTarget (url ++ ": " ++ fault.message))

def requestFor (c : Client) (t : Target) : Except TrialError Request :=
  match Request.forTarget t c.userAgent with
  | .ok request => .ok request
  | .error fault => .error (.invalidTarget fault.message)

/-- All that is needed before anything is done. -/
def Client.prepare (c : Client) (url : String) : Except TrialError (Target × Request) := do
  let t ← targetOf url
  let request ← requestFor c t
  pure (t, request)

def converse (w : Watch) (t : Target) (request : Request) (link : Link) : Step UInt16 := do
  let link ← if t.secure then secureChannel w link else pure link
  exchange w request link

def roundTrip (w : Watch) (n : Network) (c : Client) (url : String) : Step UInt16 := do
  let (t, request) ← Step.ofExcept (c.prepare url)
  let link ← dialRoute w n c t
  converse w t request link

/-- What the deadline makes of the reason to stop. -/
def Client.errorOf (c : Client) : Stop → TrialError
  | .failed e => e
  | .stalled => .timeout c.timeout

structure Attempt where
  /-- The record of the trial; in case of failure together with the error. -/
  result : Except TrialFailure Timings
  session : Session

namespace Attempt

def timings (a : Attempt) : Timings :=
  match a.result with
  | .ok t => t
  | .error f => f.timings

def socks (a : Attempt) : List UInt8 :=
  match a.session.link with
  | some l => l.reaction.socks
  | none => []

def head (a : Attempt) : List UInt8 :=
  match a.session.link with
  | some l => l.reaction.head
  | none => []

end Attempt

def Client.attempt (w : Watch) (n : Network) (c : Client) (url : String) : Attempt :=
  let (outcome, s) := (roundTrip w n c url).run .start
  { result := s.collector.finish (w.time .total) (outcome.mapError c.errorOf)
    session := s }

end ProxyTiming
