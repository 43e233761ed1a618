import ProxyTiming.Json.Number
import ProxyTiming.Json.Skip

/-!
# Readers for the shapes of values

Scalars, optional values, lists, tables and names of alternatives.  Each reader
says in words what it expects; when something else stands there, that something
is itself read as far as its description needs, and the description becomes part
of the fault.
-/

namespace ProxyTiming.Json.Reader

variable {α β : Type}

def unexpected (expected : String) : Reader α := do
  match ← peekToken with
  | some 'n' => skip; literal ['u', 'l', 'l']; mismatch (.invalidType .null expected)
  | some 't' => skip; literal ['r', 'u', 'e']; mismatch (.invalidType (.boolean true) expected)
  | some 'f' =>
    skip; literal ['a', 'l', 's', 'e']; mismatch (.invalidType (.boolean false) expected)
  | some '"' => do
    skip
    let s ← stringBody
    mismatch (.invalidType (.string s) expected)
  | some '[' => mismatch (.invalidType .sequence expected)
  | some '\x7b' => mismatch (.invalidType .map expected)
  | some c =>
    if c = '-' ∨ Text.isDigit c then
      match ← number with
      | .integer n => mismatch (.invalidType (.integer n) expected)
      | .float x => mismatch (.invalidType (.float x) expected)
    else malformed .expectedValue
  | none => malformed .expectedValue

def valueStart : Reader Char := do
  match ← peekToken with
  | some c => pure c
  | none => ended .value

/-! ### Scalars -/

def bool : Reader Bool := do
  match ← valueStart with
  | 't' => skip; literal ['r', 'u', 'e']; pure true
  | 'f' => skip; literal ['a', 'l', 's', 'e']; pure false
  | _ => unexpected "a boolean"

/-- A string, where one is `expected`. -/
def stringExpecting (expected : String) : Reader String := do
  match ← valueStart with
  | '"' => skip; stringBody
  | _ => unexpected expected

def string : Reader String := stringExpecting "a string"

def formatted (expected : String) (parse : String → Except String α) : Reader α := do
  let s ← stringExpecting expected
  match parse s with
  | .ok a => pure a
  | .error reason => mismatch (.rejected reason)

/-- A number, where one is `expected`. -/
def numberExpecting (expected : String) : Reader Number := do
  let c ← valueStart
  if c = '-' ∨ Text.isDigit c then number else unexpected expected

def natural (limit : Nat) (expected : String) : Reader Nat := do
  match ← numberExpecting expected with
  | .integer n =>
    if 0 ≤ n ∧ n ≤ limit then pure n.toNat
    else mismatch (.invalidValue (.integer n) expected)
  | .float x => mismatch (.invalidType (.float x) expected)

def signed : Reader Int := do
  match ← numberExpecting "i64" with
  | .integer n =>
    if n ≤ 9223372036854775807 then pure n else mismatch (.invalidValue (.integer n) "i64")
  | .float x => mismatch (.invalidType (.float x) "i64")

def float : Reader Binary64 := do
  match ← numberExpecting "f64" with
  | .integer n => pure (Binary64.ofInt n)
  | .float x => pure x

def unit : Reader Unit := do
  match ← valueStart with
  | 'n' => skip; literal ['u', 'l', 'l']
  | _ => unexpected "unit"

def option (r : Reader α) : Reader (Option α) := do
  match ← peekToken with
  | some 'n' => skip; literal ['u', 'l', 'l']; pure none
  | _ => some <$> r

/-! ### Lists -/

/-- Whether a list goes on with a further element, in front of which the reader is then. -/
def moreItems (first : Bool) : Reader Bool := do
  match ← peekToken with
  | none => ended .list
  | some ']' => pure false
  | some c =>
    if first then pure true
    else if c = ',' then
      skip
      match ← peekToken with
      | none => ended .value
      | some ']' => malformed .trailingComma
      | some _ => pure true
    else malformed .expectedListCommaOrEnd

def endItems : Reader Unit := do
  match ← peekToken with
  | none => ended .list
  | some ']' => skip
  | some ',' =>
    skip
    match ← peekToken with
    | some ']' => malformed .trailingComma
    | _ => malformed .trailingCharacters
  | some _ => malformed .trailingCharacters

/-- Elements up to the end of the list.  Every element but the first takes a comma, so that the
length of the text is fuel enough. -/
def itemsFrom (r : Reader α) : Nat → Bool → Reader (List α)
  | 0, _ => ended .list
  | fuel + 1, first => do
    if ← moreItems first then
      let a ← r
      let rest ← itemsFrom r fuel false
      pure (a :: rest)
    else
      endItems
      pure []

def list (r : Reader α) : Reader (List α) := do
  match ← valueStart with
  | '[' =>
    nested do
      skip
      let cs ← remaining
      itemsFrom r (cs.length + 1) true
  | _ => unexpected "a sequence"

/-! ### Members -/

/-- Whether an object goes on with a further member, in front of whose name the reader is
then. -/
def moreMembers (first : Bool) : Reader Bool := do
  match ← peekToken with
  | none => ended .object
  | some '\x7d' => pure false
  | some c =>
    if first then
      if c = '"' then pure true else malformed .keyMustBeString
    else if c = ',' then
      skip
      match ← peekToken with
      | none => ended .value
      | some '"' => pure true
      | some '\x7d' => malformed .trailingComma
      | some _ => malformed .keyMustBeString
    else malformed .expectedObjectCommaOrEnd

def colon : Reader Unit := do
  match ← peekToken with
  | none => ended .object
  | some ':' => skip
  | some _ => malformed .expectedColon

def name : Reader String := do
  skip
  stringBody

/-- Members up to the end of the object, each handled by `step` in front of its name. -/
def membersFrom (step : β → Reader β) : Nat → Bool → β → Reader β
  | 0, _, _ => ended .object
  | fuel + 1, first, b => do
    if ← moreMembers first then
      let b ← step b
      membersFrom step fuel false b
    else
      pure b

/-- The members of an object, behind its opening brace; the closing one is taken. -/
def members (step : β → Reader β) (b : β) : Reader β := do
  let cs ← remaining
  let b ← membersFrom step (cs.length + 1) true b
  skip
  pure b

def table (key : Reader α) (r : Reader β) {τ : Type} (insert : τ → α → β → τ) (empty : τ) :
    Reader τ := do
  match ← valueStart with
  | '\x7b' =>
    nested do
      skip
      members (fun t => do
        let a ← key
        colon
        let b ← r
        pure (insert t a b)) empty
  | _ => unexpected "a map"

/-! ### Alternatives -/

/-- The alternative whose name stands in front of the reader. -/
def variantName (known : List String) (ofName : String → Option α) : Reader α := do
  let s ← stringExpecting "variant identifier"
  match ofName s with
  | some a => pure a
  | none => mismatch (.unknownVariant s known)

/-- An alternative without contents: its name, or an object that gives the name a `null`. -/
def variant (known : List String) (ofName : String → Option α) : Reader α := do
  match ← valueStart with
  | '"' => variantName known ofName
  | '\x7b' =>
    nested do
      skip
      let a ← variantName known ofName
      colon
      unit
      match ← peekToken with
      | none => ended .object
      | some '\x7d' => skip; pure a
      | some _ => malformed .expectedValue
  | _ => malformed .expectedValue

/-! ### Whole documents -/

/-- The levels of containers that a document may have, and one more. -/
def maxDepth : Nat := 128

def document (r : Reader α) (text : String) : Except Fault α :=
  match (do
    let a ← r
    match ← peekToken with
    | none => pure a
    | some _ => malformed .trailingCharacters : Reader α) maxDepth text.toList with
  | .ok (a, _) => .ok a
  | .error e => .error e

end ProxyTiming.Json.Reader
