import ProxyTiming.Json.Reader
import ProxyTiming.Text.Decimal

/-!
# Passing over a value

The value of a member that nobody asked for is checked against the grammar and
dropped.  Nothing is built, so any depth is allowed, numbers may be of any size,
and surrogates are not paired.
-/

namespace ProxyTiming.Json

inductive Bracket where
  | list
  | object
deriving DecidableEq

def Bracket.ended : Bracket → Fault
  | .list => .ended .list
  | .object => .ended .object

def Bracket.expectedComma : Bracket → Fault
  | .list => .malformed .expectedListCommaOrEnd
  | .object => .malformed .expectedObjectCommaOrEnd

def Bracket.close : Bracket → Char
  | .list => ']'
  | .object => '\x7d'

namespace Reader

/-- Passes over the rest of a string, behind its opening quote. -/
def skipStringFrom : Nat → Reader Unit
  | 0 => ended .string
  | fuel + 1 => do
    match ← peek with
    | none => ended .string
    | some c =>
      skip
      if c = '"' then pure ()
      else if c = '\\' then
        match ← peek with
        | none => ended .string
        | some d =>
          skip
          if (shortEscape? d).isSome then skipStringFrom fuel
          else if d = 'u' then
            let _ ← hexEscape
            skipStringFrom fuel
          else malformed .invalidEscape
      else if c.toNat < 32 then malformed .controlCharacter
      else skipStringFrom fuel

def skipString : Reader Unit := do
  let cs ← remaining
  skipStringFrom (cs.length + 1)

def skipDigits : Reader Bool := fun _ cs =>
  let (ds, rest) := Text.spanDigits cs
  .ok (!ds.isEmpty, rest)

def skipExponent : Reader Unit := do
  match ← peek with
  | some '+' => skip
  | some '-' => skip
  | _ => pure ()
  if ← skipDigits then pure () else malformed .invalidNumber

def skipOptionalExponent : Reader Unit := do
  match ← peek with
  | some 'e' => skip; skipExponent
  | some 'E' => skip; skipExponent
  | _ => pure ()

def skipNumber : Reader Unit := do
  match ← (fun _ cs => .ok (Text.spanDigits cs) : Reader (List Char)) with
  | [] => malformed .invalidNumber
  | '0' :: _ :: _ => malformed .invalidNumber
  | _ =>
    match ← peek with
    | some '.' =>
      skip
      if ← skipDigits then skipOptionalExponent else malformed .invalidNumber
    | _ => skipOptionalExponent

/-- What comes next inside of the open containers, innermost first, when a value has just ended
(`afterValue`) or a container has just been opened: further values, or the end of everything.
The answer is the containers that are still open. -/
def closeContainers (afterValue : Bool) : List Bracket → Reader (List Bracket)
  | [] => pure []
  | inner :: outer => do
    match ← peekToken with
    | none => fail inner.ended
    | some c =>
      if c = ',' ∧ afterValue then
        skip
        pure (inner :: outer)
      else if c = inner.close then
        skip
        closeContainers true outer
      else if afterValue then fail inner.expectedComma
      else pure (inner :: outer)

def skipName : Reader Unit := do
  match ← peekToken with
  | none => ended .object
  | some '"' =>
    skip
    skipString
    match ← peekToken with
    | none => ended .object
    | some ':' => skip
    | some _ => malformed .expectedColon
  | some _ => malformed .keyMustBeString

/-- Passes over one scalar, or opens a container. -/
def skipScalar (first : Char) : Reader (Option Bracket) := do
  match first with
  | 'n' => skip; literal ['u', 'l', 'l']; pure none
  | 't' => skip; literal ['r', 'u', 'e']; pure none
  | 'f' => skip; literal ['a', 'l', 's', 'e']; pure none
  | '-' => skip; skipNumber; pure none
  | '"' => skip; skipString; pure none
  | '[' => skip; pure (some .list)
  | '\x7b' => skip; pure (some .object)
  | c => if Text.isDigit c then do skipNumber; pure none else malformed .expectedValue

/-- Passes over values until all open containers are closed.  Every round takes a character, so
that the length of the text is fuel enough. -/
def skipValues : Nat → List Bracket → Reader Unit
  | 0, _ => ended .value
  | fuel + 1, containers => do
    match ← peekToken with
    | none => ended .value
    | some c =>
      let containers ← do
        match ← skipScalar c with
        | none => closeContainers true containers
        | some inner => closeContainers false (inner :: containers)
      match containers with
      | [] => pure ()
      | inner :: _ =>
        match inner with
        | .object => skipName
        | .list => pure ()
        skipValues fuel containers

def skipValue : Reader Unit := do
  let cs ← remaining
  skipValues (cs.length + 1) []

end Reader

end ProxyTiming.Json
