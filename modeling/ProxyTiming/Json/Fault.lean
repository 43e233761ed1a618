import ProxyTiming.Text.Printable
import ProxyTiming.Binary64.Decimal

/-!
# What can be wrong with a document

A document can end too early, it can break the grammar, or it can be grammatical
and still not describe a value of the type that was asked for.  Each fault is
kept as its cause; `Fault.message` has the one wording of each, and
`Fault.category` tells the three kinds apart.
-/

namespace ProxyTiming.Json

/-- What was being read when the document ended. -/
inductive Place where
  | list
  | object
  | string
  | value
deriving DecidableEq

inductive Defect where
  | expectedColon
  | expectedListCommaOrEnd
  | expectedObjectCommaOrEnd
  | expectedLiteral
  | expectedValue
  | invalidEscape
  | invalidNumber
  | numberOutOfRange
  | controlCharacter
  | keyMustBeString
  | loneSurrogate
  | brokenSurrogatePair
  | trailingComma
  | trailingCharacters
  | tooDeep
deriving DecidableEq

inductive Found where
  | null
  | boolean (b : Bool)
  | integer (n : Int)
  | float (x : Binary64)
  | string (s : String)
  | sequence
  | map
deriving DecidableEq

inductive Mismatch where
  | invalidType (found : Found) (expected : String)
  | invalidValue (found : Found) (expected : String)
  | invalidLength (length : Nat) (expected : String)
  | unknownVariant (name : String) (known : List String)
  | unknownField (name : String) (known : List String)
  | missingField (name : String)
  | duplicateField (name : String)
  /-- A text or a number that the type refuses, with its own reason. -/
  | rejected (reason : String)
deriving DecidableEq

inductive Fault where
  | ended (place : Place)
  | malformed (defect : Defect)
  | mismatch (cause : Mismatch)
deriving DecidableEq

def Place.message : Place → String
  | list => "EOF while parsing a list"
  | object => "EOF while parsing an object"
  | string => "EOF while parsing a string"
  | value => "EOF while parsing a value"

def Defect.message : Defect → String
  | expectedColon => "expected `:`"
  | expectedListCommaOrEnd => "expected `,` or `]`"
  | expectedObjectCommaOrEnd => "expected `,` or `\x7d`"
  | expectedLiteral => "expected ident"
  | expectedValue => "expected value"
  | invalidEscape => "invalid escape"
  | invalidNumber => "invalid number"
  | numberOutOfRange => "number out of range"
  | controlCharacter => "control character (\\u0000-\\u001F) found while parsing a string"
  | keyMustBeString => "key must be a string"
  | loneSurrogate => "lone leading surrogate in hex escape"
  | brokenSurrogatePair => "unexpected end of hex escape"
  | trailingComma => "trailing comma"
  | trailingCharacters => "trailing characters"
  | tooDeep => "recursion limit exceeded"

def Found.message : Found → String
  | null => "null"
  | boolean b => "boolean `" ++ (if b then "true" else "false") ++ "`"
  | integer n => "integer `" ++ toString n ++ "`"
  | float x => "floating point `" ++ x.text ++ "`"
  | string s => "string " ++ Text.quoted s
  | sequence => "sequence"
  | map => "map"

def backticked : List String → String
  | [] => ""
  | [name] => "`" ++ name ++ "`"
  | name :: more => "`" ++ name ++ "`, " ++ backticked more

def knownNames : List String → String
  | [a] => "`" ++ a ++ "`"
  | [a, b] => "`" ++ a ++ "` or `" ++ b ++ "`"
  | names => "one of " ++ backticked names

def Mismatch.message : Mismatch → String
  | invalidType found expected => "invalid type: " ++ found.message ++ ", expected " ++ expected
  | invalidValue found expected => "invalid value: " ++ found.message ++ ", expected " ++ expected
  | invalidLength length expected =>
    "invalid length " ++ toString length ++ ", expected " ++ expected
  | unknownVariant name known =>
    "unknown variant `" ++ name ++ "`, expected " ++ knownNames known
  | unknownField name known => "unknown field `" ++ name ++ "`, expected " ++ knownNames known
  | missingField name => "missing field `" ++ name ++ "`"
  | duplicateField name => "duplicate field `" ++ name ++ "`"
  | rejected reason => reason

def Fault.message : Fault → String
  | ended place => place.message
  | malformed defect => defect.message
  | mismatch cause => cause.message

/-- The three kinds of faults. -/
inductive Category where
  | eof
  | grammar
  | data
deriving DecidableEq

def Fault.category : Fault → Category
  | ended _ => .eof
  | malformed _ => .grammar
  | mismatch _ => .data

end ProxyTiming.Json
