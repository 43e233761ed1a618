import ProxyTiming.Text.Hex

/-!
# Run identifiers

A universally unique identifier is sixteen bytes.  It is written in lower-case
hexadecimal digits in five groups, and read in that form, without the hyphens, in
braces, or as a URN.

When a text is none of these, the complaint names the first character that has no
business in it, and failing that the count or the length of the groups.
-/

namespace ProxyTiming

open ProxyTiming.Text

@[ext] structure Uuid where
  octets : List UInt8
  length_octets : octets.length = 16

namespace Uuid

instance : DecidableEq Uuid := fun a b =>
  decidable_of_iff (a.octets = b.octets) ⟨Uuid.ext, fun h => h ▸ rfl⟩

def nil : Uuid := ⟨List.replicate 16 0, by decide⟩

instance : Inhabited Uuid := ⟨nil⟩

def text (u : Uuid) : String :=
  let digits := hexChars u.octets
  String.ofList (digits.take 8 ++ '-' :: ((digits.drop 8).take 4 ++ '-' ::
    ((digits.drop 12).take 4 ++ '-' :: ((digits.drop 16).take 4 ++ '-' :: digits.drop 20))))

inductive ParseFault where
  | character (c : Char) (position : Nat)
  | simpleLength (found : Nat)
  | groupCount (found : Nat)
  | groupLength (group : Nat) (found : Nat)
deriving DecidableEq

def groupLengths : List Nat := [8, 4, 4, 4, 12]

def ParseFault.message : ParseFault → String
  | character c position =>
    "invalid character: found `" ++ String.ofList [c] ++ "` at " ++ toString position
  | simpleLength found =>
    "invalid length: expected length 32 for simple format, found " ++ toString found
  | groupCount found => "invalid group count: expected 5, found " ++ toString found
  | groupLength group found =>
    "invalid group length in group " ++ toString group ++ ": expected " ++
      toString (groupLengths[group]?.getD 0) ++ ", found " ++ toString found

def byteCount (cs : List Char) : Nat := cs.foldl (fun n c => n + c.utf8Size) 0

def urnMarks : List Char := "urn:uuid:".toList

def inBraces? (cs : List Char) : Option (List Char) :=
  match cs with
  | '\x7b' :: rest => if rest.getLast? = some '\x7d' then some rest.dropLast else none
  | _ => none

def inUrn? (cs : List Char) : Option (List Char) :=
  if urnMarks.isPrefixOf cs then some (cs.drop urnMarks.length) else none

def ofDigits? (cs : List Char) : Option Uuid :=
  match unhexChars? cs with
  | some bytes => if h : bytes.length = 16 then some ⟨bytes, h⟩ else none
  | none => none

/-- The digits of a text with hyphens in the four places. -/
def ofGroups? (cs : List Char) : Option Uuid :=
  if cs.length = 36 ∧ cs[8]? = some '-' ∧ cs[13]? = some '-' ∧ cs[18]? = some '-' ∧
      cs[23]? = some '-' then
    ofDigits? (cs.take 8 ++ (cs.drop 9).take 4 ++ (cs.drop 14).take 4 ++ (cs.drop 19).take 4 ++
      cs.drop 24)
  else none

/-- The places of the hyphens, counted in bytes, or the first character that is neither a
hyphen nor a digit. -/
def hyphens (offset : Nat) : Nat → List Char → Except ParseFault (List Nat)
  | _, [] => .ok []
  | index, c :: rest =>
    if c = '-' then do
      let more ← hyphens offset (index + 1) rest
      .ok (index :: more)
    else if (hexValue? c).isSome then hyphens offset (index + 1) rest
    else .error (.character c (index + offset + 1))

/-- The first group whose length is off, given the places of the hyphens and the starts of the
groups. -/
def wrongGroup (length : Nat) (group start : Nat) : List Nat → List Nat → ParseFault
  | place :: places, size :: sizes =>
    if place = start + size then wrongGroup length (group + 1) (start + size + 1) places sizes
    else .groupLength group (place - start)
  | _, _ => .groupLength group (length - start)

def diagnose (cs : List Char) : ParseFault :=
  let (body, offset, simple) :=
    match inBraces? cs with
    | some body => (body, 1, false)
    | none =>
      match inUrn? cs with
      | some body => (body, urnMarks.length, false)
      | none => (cs, 0, true)
  match hyphens offset 0 body with
  | .error fault => fault
  | .ok places =>
    if places.isEmpty && simple then .simpleLength (byteCount cs)
    else if places.length ≠ 4 then .groupCount (places.length + 1)
    else wrongGroup (byteCount cs) 0 0 places groupLengths

/-- The identifier of a text without anything around it, or what is wrong. -/
def orDiagnose (found : Option Uuid) (cs : List Char) : Except ParseFault Uuid :=
  match found with
  | some u => .ok u
  | none => .error (diagnose cs)

/-- Reads an identifier in any of its four forms. -/
def parseChars (cs : List Char) : Except ParseFault Uuid :=
  let length := byteCount cs
  if length = 32 then orDiagnose (ofDigits? cs) cs
  else if length = 36 then orDiagnose (ofGroups? cs) cs
  else
    match inBraces? cs, inUrn? cs with
    | some body, _ =>
      if length = 38 then orDiagnose (ofGroups? body) body else .error (diagnose cs)
    | none, some body =>
      if length = 45 then orDiagnose (ofGroups? body) body else .error (diagnose cs)
    | none, none => .error (diagnose cs)

/-- Reads an identifier in any of its four forms. -/
def parse (s : String) : Except ParseFault Uuid := parseChars s.toList

end Uuid

end ProxyTiming
