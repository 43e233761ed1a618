import ProxyTiming.Binary64.Decimal
import ProxyTiming.Text.Hex

/-!
# Documents and how they are written

A JSON document as a tree.  The members of an object keep their order, and a name
may occur more than once, as it may in a text.

There are two written forms.  The compact one has no blanks at all.  The pretty
one puts every element and member on a line of its own, indented by two blanks
for each container around it; an empty container stays on its line.
-/

namespace ProxyTiming.Json

inductive Number where
  | integer (n : Int)
  | float (x : Binary64)
deriving DecidableEq

inductive Value where
  | null
  | bool (b : Bool)
  | number (n : Number)
  | string (s : String)
  | array (items : List Value)
  | object (members : List (String × Value))

namespace Value

def nat (n : Nat) : Value := .number (.integer n)

/-! ### Strings -/

/-- How one character stands in a string.  Only quotes, backslashes and control characters are
escaped. -/
def escaped (c : Char) : List Char :=
  if c = '"' then ['\\', '"']
  else if c = '\\' then ['\\', '\\']
  else if c = '\x08' then ['\\', 'b']
  else if c = '\x0c' then ['\\', 'f']
  else if c = '\n' then ['\\', 'n']
  else if c = '\r' then ['\\', 'r']
  else if c = '\t' then ['\\', 't']
  else if c.toNat < 32 then
    ['\\', 'u', '0', '0', Text.hexDigit (c.toNat / 16), Text.hexDigit c.toNat]
  else [c]

def stringChars (s : String) : List Char :=
  '"' :: (s.toList.flatMap escaped ++ ['"'])

def numberChars : Number → List Char
  | .integer n => (toString n).toList
  | .float x =>
    match x with
    | .nan => "null".toList
    | .infinite _ => "null".toList
    | x => x.text.toList

/-! ### Compact form -/

mutual

def compactChars : Value → List Char
  | .null => "null".toList
  | .bool b => (if b then "true" else "false").toList
  | .number n => numberChars n
  | .string s => stringChars s
  | .array items => '[' :: (compactItems items ++ [']'])
  | .object members => '\x7b' :: (compactMembers members ++ ['\x7d'])

def compactItems : List Value → List Char
  | [] => []
  | [v] => compactChars v
  | v :: rest => compactChars v ++ ',' :: compactItems rest

def compactMembers : List (String × Value) → List Char
  | [] => []
  | [(key, v)] => stringChars key ++ ':' :: compactChars v
  | (key, v) :: rest => stringChars key ++ ':' :: (compactChars v ++ ',' :: compactMembers rest)

end

def compact (v : Value) : String := String.ofList v.compactChars

/-! ### Pretty form -/

def newline (level : Nat) : List Char := '\n' :: List.replicate (2 * level) ' '

mutual

/-- The document on lines of its own, inside of `level` containers. -/
def prettyChars (level : Nat) : Value → List Char
  | .null => "null".toList
  | .bool b => (if b then "true" else "false").toList
  | .number n => numberChars n
  | .string s => stringChars s
  | .array items =>
    match items with
    | [] => ['[', ']']
    | v :: rest =>
      '[' :: (newline (level + 1) ++ prettyChars (level + 1) v ++ prettyItems (level + 1) rest ++
        newline level ++ [']'])
  | .object members =>
    match members with
    | [] => ['\x7b', '\x7d']
    | (key, v) :: rest =>
      '\x7b' :: (newline (level + 1) ++ stringChars key ++ ':' :: ' ' ::
        prettyChars (level + 1) v ++ prettyMembers (level + 1) rest ++ newline level ++ ['\x7d'])

def prettyItems (level : Nat) : List Value → List Char
  | [] => []
  | v :: rest => ',' :: (newline level ++ prettyChars level v ++ prettyItems level rest)

def prettyMembers (level : Nat) : List (String × Value) → List Char
  | [] => []
  | (key, v) :: rest =>
    ',' :: (newline level ++ stringChars key ++ ':' :: ' ' :: prettyChars level v ++
      prettyMembers level rest)

end

def pretty (v : Value) : String := String.ofList (v.prettyChars 0)

end Value

end ProxyTiming.Json
