import ProxyTiming.Json.Fault
import ProxyTiming.Text.Hex

/-!
# Reading a document

A document is not turned into a tree first.  A reader for the wanted type takes
its value off the front of the text, and the first thing it cannot use decides
the fault; so a value of a wrong type is reported even if the text behind it is
broken, and the other way round.

A reader also knows how many containers it may still enter.  This module holds
the readers' plumbing and the ones that every other reader is made of: blanks,
literals and strings.
-/

namespace ProxyTiming.Json

/-- Takes a value off the front of a text, with room for some levels of containers. -/
def Reader (α : Type) : Type := Nat → List Char → Except Fault (α × List Char)

namespace Reader

variable {α β : Type}

def pure (a : α) : Reader α := fun _ cs => .ok (a, cs)

def bind (r : Reader α) (f : α → Reader β) : Reader β := fun room cs =>
  match r room cs with
  | .ok (a, rest) => f a room rest
  | .error e => .error e

instance : Monad Reader where
  pure := pure
  bind := bind

theorem bind_apply (r : Reader α) (f : α → Reader β) (room : Nat) (cs : List Char) :
    (r >>= f) room cs =
      match r room cs with
      | .ok (a, rest) => f a room rest
      | .error e => .error e := rfl

def fail (fault : Fault) : Reader α := fun _ _ => .error fault

def ended (place : Place) : Reader α := fail (.ended place)

def malformed (defect : Defect) : Reader α := fail (.malformed defect)

def mismatch (cause : Mismatch) : Reader α := fail (.mismatch cause)

def peek : Reader (Option Char) := fun _ cs => .ok (cs.head?, cs)

def skip : Reader Unit := fun _ cs => .ok ((), cs.tail)

def isBlank (c : Char) : Bool := c == ' ' || c == '\n' || c == '\t' || c == '\r'

/-- Drops blanks, and looks at the character behind them. -/
def peekToken : Reader (Option Char) := fun _ cs =>
  let rest := cs.dropWhile isBlank
  .ok (rest.head?, rest)

def remaining : Reader (List Char) := fun _ cs => .ok (cs, cs)

/-- The reader inside of a container.  The innermost level that there is room for is not
entered. -/
def nested (r : Reader α) : Reader α := fun room cs =>
  if room ≤ 1 then .error (.malformed .tooDeep) else r (room - 1) cs

def literal : List Char → Reader Unit
  | [], _, cs => .ok ((), cs)
  | _ :: _, _, [] => .error (.ended .value)
  | c :: more, room, d :: cs =>
    if c = d then literal more room cs else .error (.malformed .expectedLiteral)

/-! ### Strings

The reader of a string starts behind the opening quote.  A code point beyond the
first 65536 may be written as two escapes, a leading and a trailing surrogate;
one without the other is refused. -/

/-- Whether at least four bytes of text are left. -/
def hasFourBytes (cs : List Char) : Bool :=
  decide (4 ≤ (cs.take 4).foldl (fun n c => n + c.utf8Size) 0)

def hexEscape : Reader Nat := fun _ cs =>
  match cs with
  | a :: b :: c :: d :: rest =>
    match Text.hexValue? a, Text.hexValue? b, Text.hexValue? c, Text.hexValue? d with
    | some a, some b, some c, some d => .ok (((a * 16 + b) * 16 + c) * 16 + d, rest)
    | _, _, _, _ => .error (.malformed .invalidEscape)
  | cs =>
    if hasFourBytes cs then .error (.malformed .invalidEscape) else .error (.ended .string)

/-- Takes the character that has to come in the middle of a surrogate pair. -/
def pairMark (mark : Char) : Reader Unit := fun _ cs =>
  match cs with
  | [] => .error (.ended .string)
  | c :: rest =>
    if c = mark then .ok ((), rest) else .error (.malformed .brokenSurrogatePair)

def unicodeEscape : Reader Char := do
  let n ← hexEscape
  if 0xDC00 ≤ n ∧ n ≤ 0xDFFF then malformed .loneSurrogate
  else if n < 0xD800 ∨ 0xDBFF < n then pure (Char.ofNat n)
  else
    pairMark '\\'
    pairMark 'u'
    let m ← hexEscape
    if m < 0xDC00 ∨ 0xDFFF < m then malformed .loneSurrogate
    else pure (Char.ofNat (0x10000 + (n - 0xD800) * 1024 + (m - 0xDC00)))

/-- What a backslash and one more character stand for. -/
def shortEscape? : Char → Option Char
  | '"' => some '"'
  | '\\' => some '\\'
  | '/' => some '/'
  | 'b' => some '\x08'
  | 'f' => some '\x0c'
  | 'n' => some '\n'
  | 'r' => some '\r'
  | 't' => some '\t'
  | _ => none

/-- The character of an escape, behind its backslash. -/
def escape : Reader Char := do
  match ← peek with
  | none => ended .string
  | some c =>
    skip
    match shortEscape? c with
    | some d => pure d
    | none => if c = 'u' then unicodeEscape else malformed .invalidEscape

/-- The rest of a string in front of which `done` has been read, in reverse.  Every step takes
a character, so that the length of the text is fuel enough. -/
def stringFrom : Nat → List Char → Reader String
  | 0, _ => ended .string
  | fuel + 1, done => do
    match ← peek with
    | none => ended .string
    | some c =>
      skip
      if c = '"' then pure (String.ofList done.reverse)
      else if c = '\\' then
        let d ← escape
        stringFrom fuel (d :: done)
      else if c.toNat < 32 then malformed .controlCharacter
      else stringFrom fuel (c :: done)

/-- The rest of a string, behind its opening quote. -/
def stringBody : Reader String := do
  let cs ← remaining
  stringFrom (cs.length + 1) []

end Reader

end ProxyTiming.Json
