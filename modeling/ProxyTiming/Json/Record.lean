import ProxyTiming.Json.Shape

/-!
# Records

A record is described once, by the list of its fields, and is read and written
from that description.  Written it is an object with the fields in order.  Read,
it may be such an object with its members in any order, members that the record
does not know among them, or else a list of the fields' values in order.

The description is indexed by two types.  `ρ` holds a value for every field; `π`
is what is known in the middle of an object, a value for some of them.  Two
values for one field are refused, and a field without a value takes the one that
its description has for this case, or is missed.
-/

namespace ProxyTiming.Json

structure RecordField (α : Type) where
  /-- The name of the member. -/
  key : String
  read : Reader α
  /-- The value of a field that is not there. -/
  absent : Option α
  /-- The written value, unless the field is left out. -/
  write : α → Option Value

inductive Fields : Type → Type → Type 1 where
  | nil : Fields Unit Unit
  | cons {α π ρ : Type} (field : RecordField α) (more : Fields π ρ) : Fields (Option α × π) (α × ρ)

namespace Fields

def blank : {π ρ : Type} → Fields π ρ → π
  | _, _, .nil => ()
  | _, _, .cons _ more => (none, more.blank)

def count : {π ρ : Type} → Fields π ρ → Nat
  | _, _, .nil => 0
  | _, _, .cons _ more => more.count + 1

/-- Reads the colon and the value of the member `key` and adds it to what is known.  The value
of a member that the record does not have is passed over. -/
def readMember : {π ρ : Type} → Fields π ρ → String → π → Reader π
  | _, _, .nil, _, known => do
    Reader.colon
    Reader.skipValue
    pure known
  | _, _, .cons field more, key, (slot, known) =>
    if key = field.key then
      match slot with
      | some _ => Reader.mismatch (.duplicateField key)
      | none => do
        Reader.colon
        let a ← field.read
        pure (some a, known)
    else do
      let known ← more.readMember key known
      pure (slot, known)

def complete : {π ρ : Type} → Fields π ρ → π → Reader ρ
  | _, _, .nil, _ => pure ()
  | _, _, .cons field more, (slot, known) => do
    match (match slot with
      | some a => some a
      | none => field.absent) with
    | none => Reader.mismatch (.missingField field.key)
    | some a =>
      let rest ← more.complete known
      pure (a, rest)

/-- The fields as elements of a list, from the one at `index` on. -/
def readItems (expected : String) :
    {π ρ : Type} → Fields π ρ → Nat → Bool → Reader ρ
  | _, _, .nil, _, _ => pure ()
  | _, _, .cons field more, index, first => do
    if ← Reader.moreItems first then
      let a ← field.read
      let rest ← more.readItems expected (index + 1) false
      pure (a, rest)
    else
      match field.absent with
      | none => Reader.mismatch (.invalidLength index expected)
      | some a =>
        let rest ← more.readItems expected (index + 1) first
        pure (a, rest)

def writeMembers : {π ρ : Type} → Fields π ρ → ρ → List (String × Value)
  | _, _, .nil, _ => []
  | _, _, .cons field more, (a, rest) =>
    match field.write a with
    | some v => (field.key, v) :: more.writeMembers rest
    | none => more.writeMembers rest

def readObject {π ρ : Type} (fields : Fields π ρ) : Reader ρ := do
  Reader.skip
  let known ← Reader.members (fun known => do
    let key ← Reader.name
    fields.readMember key known) fields.blank
  fields.complete known

def readList {π ρ : Type} (expected : String) (fields : Fields π ρ) : Reader ρ := do
  Reader.skip
  let a ← fields.readItems expected 0 true
  Reader.endItems
  pure a

/-- A record in either form.  `title` is what the record is called in faults. -/
def read {π ρ : Type} (title : String) (fields : Fields π ρ) : Reader ρ := do
  match ← Reader.valueStart with
  | '[' =>
    Reader.nested (fields.readList
      (title ++ " with " ++ toString fields.count ++
        (if fields.count = 1 then " element" else " elements")))
  | '\x7b' => Reader.nested fields.readObject
  | _ => Reader.unexpected title

end Fields

end ProxyTiming.Json
