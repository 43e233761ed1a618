import ProxyTiming.Json.Record

/-!
# Codecs

A codec is a reader and a writer of one type.  The types of this library have
their codecs beside them; they are all made of the ones here.
-/

namespace ProxyTiming.Json

structure Codec (α : Type) where
  read : Reader α
  write : α → Value

namespace Codec

variable {α β : Type}

def decode (c : Codec α) (text : String) : Except Fault α := c.read.document text

/-- A type that stands for another one. -/
def map (c : Codec α) (make : α → β) (parts : β → α) : Codec β where
  read := make <$> c.read
  write b := c.write (parts b)

def string : Codec String := ⟨Reader.string, .string⟩

def bool : Codec Bool := ⟨Reader.bool, .bool⟩

def count : Codec Nat := ⟨Reader.natural maxUnsigned "usize", .nat⟩

def unsigned : Codec Nat := ⟨Reader.natural maxUnsigned "u64", .nat⟩

def word : Codec UInt16 :=
  map ⟨Reader.natural 65535 "u16", .nat⟩ UInt16.ofNat UInt16.toNat

def option (c : Codec α) : Codec (Option α) where
  read := c.read.option
  write
    | none => .null
    | some a => c.write a

def list (c : Codec α) : Codec (List α) where
  read := c.read.list
  write items := .array (items.map c.write)

def variant (names : List String) (ofName : String → Option α) (nameOf : α → String) : Codec α where
  read := Reader.variant names ofName
  write a := .string (nameOf a)

def formatted (expected : String) (parse : String → Except String α) (text : α → String) :
    Codec α where
  read := Reader.formatted expected parse
  write a := .string (text a)

def record {π ρ : Type} (title : String) (fields : Fields π ρ) : Codec ρ where
  read := fields.read title
  write r := .object (fields.writeMembers r)

/-! ### Fields -/

def field (key : String) (c : Codec α) : RecordField α :=
  ⟨key, c.read, none, fun a => some (c.write a)⟩

/-- A field with a value for the case that it is not there; it is always written. -/
def fieldWithDefault (key : String) (c : Codec α) (absent : α) : RecordField α :=
  ⟨key, c.read, some absent, fun a => some (c.write a)⟩

/-- A field that is left out when it has no value. -/
def optionalField (key : String) (c : Codec α) : RecordField (Option α) :=
  ⟨key, c.read.option, some none, fun a => a.map c.write⟩

end Codec

end ProxyTiming.Json
