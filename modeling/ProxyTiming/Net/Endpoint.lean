import ProxyTiming.Text.Printable
import ProxyTiming.Text.Decimal

/-!
# Endpoints

An endpoint is a host and a port, as written in proxy definitions: `host:port`,
or `[host]:port` when the host itself holds colons.  The brackets are no part of
the host.
-/

namespace ProxyTiming.Net

open ProxyTiming.Text

structure Endpoint where
  host : String
  port : UInt16
deriving DecidableEq

namespace Endpoint

/-- Writes the host in brackets if it holds a colon. -/
def text (e : Endpoint) : String :=
  if e.host.toList.contains ':' then "[" ++ e.host ++ "]:" ++ toString e.port.toNat
  else e.host ++ ":" ++ toString e.port.toNat

def splitBracket? : List Char → Option (List Char × List Char)
  | ']' :: ':' :: rest => some ([], rest)
  | c :: rest => (splitBracket? rest).map fun (host, port) => (c :: host, port)
  | [] => none

def splitLastColon? : List Char → Option (List Char × List Char)
  | [] => none
  | c :: rest =>
    match splitLastColon? rest with
    | some (host, port) => some (c :: host, port)
    | none => if c = ':' then some ([], rest) else none

/-- Host and port of an address without blanks around it. -/
def ofChars? (cs : List Char) : Option Endpoint := do
  let (host, port) ← match cs with
    | '[' :: rest => splitBracket? rest
    | _ => do
      let (host, port) ← splitLastColon? cs
      if host.contains ':' then none else some (host, port)
  if host.isEmpty then none
  else
    let port ← port? port
    if port = 0 then none else some ⟨String.ofList host, port⟩

structure Malformed where
  address : String
deriving DecidableEq

def Malformed.message (m : Malformed) : String :=
  "invalid host:port address: " ++ quoted m.address

/-- Reads an endpoint, with or without blanks around it.  The port is not zero. -/
def parse (s : String) : Except Malformed Endpoint :=
  match ofChars? (trimChars s.toList) with
  | some e => .ok e
  | none => .error ⟨trim s⟩

end Endpoint

end ProxyTiming.Net
