import ProxyTiming.Socks.Message

/-!
# The proxy's side of the messages

A proxy takes the client's three messages off the front of whatever has arrived
and leaves the rest.  The layouts are those of RFC 1928 and RFC 1929, read here
without a look at how the messages are composed; a message that is not complete
yet is simply not there.
-/

namespace ProxyTiming.Socks

open ProxyTiming.Net

/-- Takes something off the front of the bytes, if it is there. -/
abbrev Taking (α : Type) := List UInt8 → Option (α × List UInt8)

def takeBytes (n : Nat) : Taking (List UInt8) := fun bs =>
  if n ≤ bs.length then some (bs.take n, bs.drop n) else none

theorem takeBytes_append (xs rest : List UInt8) :
    takeBytes xs.length (xs ++ rest) = some (xs, rest) := by
  simp [takeBytes]

def takeCounted : Taking (List UInt8)
  | [] => none
  | n :: rest => takeBytes n.toNat rest

def takePort : Taking UInt16
  | high :: low :: rest => some (ofBigEndian high low, rest)
  | _ => none

theorem takePort_bigEndian (port : UInt16) (rest : List UInt8) :
    takePort (bigEndian port ++ rest) = some (port, rest) := by
  simp [bigEndian, takePort, ofBigEndian_bigEndian]

def takeGreeting : Taking (List UInt8)
  | v :: rest => if v = version then takeCounted rest else none
  | [] => none

structure Login where
  username : List UInt8
  password : List UInt8
deriving DecidableEq

def takeLogin : Taking Login
  | v :: rest =>
    if v = loginVersion then
      match takeCounted rest with
      | none => none
      | some (username, rest) =>
        match takeCounted rest with
        | none => none
        | some (password, rest) => some (⟨username, password⟩, rest)
    else none
  | [] => none

/-- Where a request to connect leads: its address is of one of three kinds. -/
inductive Goal where
  | ipv4 (octets : List UInt8) (port : UInt16)
  | ipv6 (octets : List UInt8) (port : UInt16)
  | name (bytes : List UInt8) (port : UInt16)
deriving DecidableEq

def takeGoal (address : Taking (List UInt8)) (make : List UInt8 → UInt16 → Goal) : Taking Goal :=
  fun bs =>
    match address bs with
    | none => none
    | some (a, rest) =>
      match takePort rest with
      | none => none
      | some (port, rest) => some (make a port, rest)

def takeConnect : Taking Goal
  | v :: command :: _ :: kind :: rest =>
    if v = version ∧ command = commandConnect then
      if kind = kindIpv4 then takeGoal (takeBytes 4) .ipv4 rest
      else if kind = kindIpv6 then takeGoal (takeBytes 16) .ipv6 rest
      else if kind = kindDomain then takeGoal takeCounted .name rest
      else none
    else none
  | _ => none

end ProxyTiming.Socks
