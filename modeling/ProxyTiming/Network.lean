import ProxyTiming.Net.IpText
import ProxyTiming.Peer

/-!
# Networks

A network tells three things: which addresses a name has, which addresses refuse
a connection, and whom one meets at all the others.  None of it changes while
trials run, so a trial on a network is a function.
-/

namespace ProxyTiming

open ProxyTiming.Net

inductive Refusal where
  | refused
  | unreachable
  | timedOut
  | noRoute
  | denied
deriving DecidableEq

def Refusal.message : Refusal → String
  | refused => "Connection refused (os error 111)"
  | unreachable => "Network is unreachable (os error 101)"
  | timedOut => "Connection timed out (os error 110)"
  | noRoute => "No route to host (os error 113)"
  | denied => "Permission denied (os error 13)"

inductive Refusals where
  /-- All of them, for one reason. -/
  | all (reason : Refusal)
  /-- Some, each under its text. -/
  | some (reasons : List (String × Refusal))
deriving DecidableEq

def Refusals.find (r : Refusals) (ip : IpAddr) : Option Refusal :=
  match r with
  | .all reason => Option.some reason
  | .some reasons => (reasons.find? fun (text, _) => text == ip.text).map Prod.snd

structure Network where
  /-- The addresses of names, in the order in which a lookup yields them. -/
  hosts : List (String × List IpAddr)
  refusals : Refusals
  peer : Peer

def Network.unplugged : Network where
  hosts := []
  refusals := .all .unreachable
  peer := ⟨false, fun _ => none, none, false, false⟩

inductive LookupFault where
  /-- A name that holds the character NUL cannot even be asked for. -/
  | nulInName
  | unknownName
deriving DecidableEq

def LookupFault.message : LookupFault → String
  | nulInName => "file name contained an unexpected NUL byte"
  | unknownName => "failed to lookup address information: Name or service not known"

namespace Network

/-- The name that every machine has for itself. -/
def ownName : String := "localhost"

def ownAddress : IpAddr := .v4 (Ipv4.ofBytes 127 0 0 1)

def canAsk (name : String) : Bool := !name.toList.contains '\x00'

def lookup (n : Network) (name : String) : Except LookupFault (List IpAddr) :=
  if !canAsk name then .error .nulInName
  else
    match n.hosts.find? fun (known, _) => known == name with
    | some (_, addresses) => .ok addresses
    | none => if name = ownName then .ok [ownAddress] else .error .unknownName

/-- The connection that one gets to an address, or the refusal. -/
def connect (n : Network) (a : SocketAddr) : Except Refusal Link :=
  match n.refusals.find a.ip with
  | some reason => .error reason
  | none => .ok (Link.toPeer n.peer)

/-- Every connection is a new one, and to the same peer. -/
theorem connect_eq_ok {n : Network} {a : SocketAddr} {link : Link} (h : n.connect a = .ok link) :
    link = Link.toPeer n.peer := by
  unfold connect at h
  split at h
  · cases h
  · exact (Except.ok.inj h).symm

end Network

end ProxyTiming
