import ProxyTiming.Json.Shape

/-!
# Reading whatever there is

Where the type of a value depends on a member that may come later, the value is
kept as a tree and looked at afterwards.  The tree is built one level of
containers at a time, so that the number of levels bounds the recursion.
-/

namespace ProxyTiming.Json

namespace Reader

def anyWithin : Nat → Reader Value
  | 0 => malformed .tooDeep
  | levels + 1 => do
    match ← valueStart with
    | 'n' => skip; literal ['u', 'l', 'l']; pure .null
    | 't' => skip; literal ['r', 'u', 'e']; pure (.bool true)
    | 'f' => skip; literal ['a', 'l', 's', 'e']; pure (.bool false)
    | '"' => do
      skip
      let s ← stringBody
      pure (.string s)
    | '[' => do
      let items ← list (anyWithin levels)
      pure (.array items)
    | '\x7b' => do
      let entries ← table name (anyWithin levels) (fun t key v => (key, v) :: t) []
      pure (.object entries.reverse)
    | c =>
      if c = '-' ∨ Text.isDigit c then do
        let n ← number
        pure (.number n)
      else malformed .expectedValue

def any : Reader Value := anyWithin maxDepth

end Reader

/-- How a value is described in faults. -/
def Value.found : Value → Found
  | .null => .null
  | .bool b => .boolean b
  | .number (.integer n) => .integer n
  | .number (.float x) => .float x
  | .string s => .string s
  | .array _ => .sequence
  | .object _ => .map

def Value.count : Value → Except Mismatch Nat
  | .number (.integer n) =>
    if 0 ≤ n ∧ n ≤ maxUnsigned then .ok n.toNat else .error (.invalidValue (.integer n) "usize")
  | v => .error (.invalidType v.found "usize")

def Value.variant {α : Type} (known : List String) (ofName : String → Option α) :
    Value → Except Mismatch α
  | .string s => named s
  | .object [(s, contents)] => do
    let a ← named s
    match contents with
    | .null => .ok a
    | .object [] => .ok a
    | v => .error (.invalidType v.found "unit")
  | .object _ => .error (.invalidValue .map "map with a single key")
  | v => .error (.invalidType v.found "string or map")
where
  named (s : String) : Except Mismatch α :=
    match ofName s with
    | some a => .ok a
    | none => .error (.unknownVariant s known)

end ProxyTiming.Json
