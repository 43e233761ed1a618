/-!
# Phases of a request

One request through a proxy passes through named phases.  Their causal order is
the order of `Phase.all`, and every table of phases in this library is listed
in it.
-/

namespace ProxyTiming

/-- One named slice of a request's latency. -/
inductive Phase where
  | proxyDns
  | proxyTcpConnect
  | socks5Handshake
  | targetDnsLookup
  | targetTcpConnect
  | tlsHandshake
  | timeToFirstByte
  | total
deriving DecidableEq

namespace Phase

def all : List Phase :=
  [proxyDns, proxyTcpConnect, socks5Handshake, targetDnsLookup, targetTcpConnect, tlsHandshake,
    timeToFirstByte, total]

def name : Phase → String
  | proxyDns => "proxy_dns"
  | proxyTcpConnect => "proxy_tcp_connect"
  | socks5Handshake => "socks5_handshake"
  | targetDnsLookup => "target_dns_lookup"
  | targetTcpConnect => "target_tcp_connect"
  | tlsHandshake => "tls_handshake"
  | timeToFirstByte => "time_to_first_byte"
  | total => "total"

def position : Phase → Nat
  | proxyDns => 0
  | proxyTcpConnect => 1
  | socks5Handshake => 2
  | targetDnsLookup => 3
  | targetTcpConnect => 4
  | tlsHandshake => 5
  | timeToFirstByte => 6
  | total => 7

def ofName? (s : String) : Option Phase := all.find? fun p => p.name == s

end Phase

/-- A value for some of the phases. -/
abbrev PhaseTable (α : Type) := Phase → Option α

namespace PhaseTable

variable {α β : Type}

def empty : PhaseTable α := fun _ => none

def insert (t : PhaseTable α) (p : Phase) (a : α) : PhaseTable α :=
  fun q => if q = p then some a else t q

def full (f : Phase → α) : PhaseTable α := fun p => some (f p)

def toList (t : PhaseTable α) : List (Phase × α) :=
  Phase.all.filterMap fun p => (t p).map fun a => (p, a)

end PhaseTable

end ProxyTiming
