import ProxyTiming.Net.Ip
import ProxyTiming.Text.Decimal
import ProxyTiming.Text.Hex

/-!
# Internet addresses as texts

Written, an address of four bytes is four decimal numbers; an address of sixteen
bytes is its eight groups in base sixteen, with the first of the longest runs of
two or more zero groups left out.  The addresses that embed a four-byte one
behind `ffff` show it in its own form.

The reader takes these forms and the usual liberties: leading zeros and either
case in groups, any one run of zero groups left out, and a four-byte address in
place of the last two groups.  In a four-byte address numbers have no leading
zeros.
-/

namespace ProxyTiming.Net

open ProxyTiming.Text

/-! ### Writing -/

def joined (separator : String) : List String → String
  | [] => ""
  | [s] => s
  | s :: rest => s ++ separator ++ joined separator rest

def dotted (octets : List UInt8) : String :=
  joined "." (octets.map fun b => toString b.toNat)

def coloned (groups : List UInt16) : String :=
  joined ":" (groups.map fun g => hexNumber g.toNat)

/-- A run of zero groups: where it starts and how long it is. -/
structure ZeroRun where
  start : Nat
  length : Nat

/-- The first of the longest runs of zeros.  `current` is the run that ends just before index
`i`. -/
def longestZeros (best current : ZeroRun) (i : Nat) : List UInt16 → ZeroRun
  | [] => best
  | g :: gs =>
    if g = 0 then
      let grown : ZeroRun :=
        if current.length = 0 then ⟨i, 1⟩ else ⟨current.start, current.length + 1⟩
      longestZeros (if best.length < grown.length then grown else best) grown (i + 1) gs
    else longestZeros best ⟨0, 0⟩ (i + 1) gs

def groupsText (groups : List UInt16) : String :=
  let zeros := longestZeros ⟨0, 0⟩ ⟨0, 0⟩ 0 groups
  if 1 < zeros.length then
    coloned (groups.take zeros.start) ++ "::" ++ coloned (groups.drop (zeros.start + zeros.length))
  else coloned groups

def Ipv6.text (a : Ipv6) : String :=
  match a.groups with
  | [0, 0, 0, 0, 0, 0xffff, _, _] => "::ffff:" ++ dotted (a.octets.drop 12)
  | groups => groupsText groups

def IpAddr.text : IpAddr → String
  | .v4 a => dotted a.octets
  | .v6 a => a.text

/-- The text of an address with a port; colons are kept apart by brackets. -/
def SocketAddr.text (a : SocketAddr) : String :=
  match a.ip with
  | .v4 _ => a.ip.text ++ ":" ++ toString a.port.toNat
  | .v6 _ => "[" ++ a.ip.text ++ "]:" ++ toString a.port.toNat

/-! ### Reading

Each reader takes the longest form at the front of the text and returns what
follows it. -/

/-- A decimal number below 256 of one to three digits, without a leading zero. -/
def readOctet (cs : List Char) : Option (UInt8 × List Char) :=
  match spanDigits cs with
  | ([], _) => none
  | (digits, rest) =>
    if 3 < digits.length || (digits.head? == some '0' && 1 < digits.length)
        || 255 < digitsValue digits then none
    else some (UInt8.ofNat (digitsValue digits), rest)

def readDotOctet : List Char → Option (UInt8 × List Char)
  | '.' :: cs => readOctet cs
  | _ => none

def readIpv4 (cs : List Char) : Option (Ipv4 × List Char) := do
  let (a, cs) ← readOctet cs
  let (b, cs) ← readDotOctet cs
  let (c, cs) ← readDotOctet cs
  let (d, cs) ← readDotOctet cs
  some (Ipv4.ofBytes a b c d, cs)

def isHexDigit (c : Char) : Bool := (hexValue? c).isSome

def hexDigitsValue (cs : List Char) : Nat :=
  cs.foldl (fun n c => n * 16 + (hexValue? c).getD 0) 0

def readGroup (cs : List Char) : Option (UInt16 × List Char) :=
  let digits := cs.takeWhile isHexDigit
  if digits.isEmpty || 4 < digits.length then none
  else some (UInt16.ofNat (hexDigitsValue digits), cs.dropWhile isHexDigit)

/-- What follows a colon, or the text itself at the start of a list of groups. -/
def afterColon (first : Bool) (cs : List Char) : Option (List Char) :=
  if first then some cs
  else match cs with
    | ':' :: rest => some rest
    | _ => none

/-- Groups with colons between them, at most `room` of them.  A four-byte address counts for
two groups and ends the list; the `Bool` tells whether there was one. -/
def readGroups (first : Bool) : Nat → List Char → List UInt16 × Bool × List Char
  | 0, cs => ([], false, cs)
  | room + 1, cs =>
    match afterColon first cs with
    | none => ([], false, cs)
    | some inner =>
      match (if 1 ≤ room then readIpv4 inner else none) with
      | some (a, rest) => (Ipv6.pairs a.octets, true, rest)
      | none =>
        match readGroup inner with
        | none => ([], false, cs)
        | some (g, rest) =>
          let (gs, embedded, rest) := readGroups false room rest
          (g :: gs, embedded, rest)

def readIpv6 (cs : List Char) : Option (Ipv6 × List Char) :=
  let (front, embedded, rest) := readGroups true 8 cs
  if front.length = 8 then (Ipv6.ofGroups? front).map fun a => (a, rest)
  else if embedded then none
  else
    match rest with
    | ':' :: ':' :: rest =>
      let (back, _, rest) := readGroups true (7 - front.length) rest
      let zeros := List.replicate (8 - front.length - back.length) (0 : UInt16)
      (Ipv6.ofGroups? (front ++ zeros ++ back)).map fun a => (a, rest)
    | _ => none

def IpAddr.ofChars? (cs : List Char) : Option IpAddr :=
  match readIpv4 cs with
  | some (a, rest) => if rest.isEmpty then some (.v4 a) else none
  | none =>
    match readIpv6 cs with
    | some (a, []) => some (.v6 a)
    | _ => none

def IpAddr.ofText? (s : String) : Option IpAddr := IpAddr.ofChars? s.toList

end ProxyTiming.Net
