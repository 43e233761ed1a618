import ProxyTiming.Run.Basic
import ProxyTiming.Json.Any
import ProxyTiming.Json.Codec

/-!
# What an observer is told

While a run goes on, an observer may be told that its status has changed, and how
far it has come.

A written event has its kind under `type`, beside its own members.  It is read
from an object whose members stand in any order, so that the others are kept until
the kind is known; or from a list that starts with the kind.
-/

namespace ProxyTiming.Run

open ProxyTiming.Json

inductive Event where
  | statusChange (status : Status)
  | progress (completed succeeded failed total : Nat)
deriving DecidableEq

namespace Event

def text : Event → String
  | statusChange status =>
    let name := match status with
      | .idle => "Idle"
      | .running => "Running"
      | .completed => "Completed"
      | .cancelled => "Cancelled"
    "StatusChange \x7b status: " ++ name ++ " \x7d"
  | progress completed succeeded failed total =>
    "Progress \x7b completed: " ++ toString completed ++ ", succeeded: " ++ toString succeeded ++
      ", failed: " ++ toString failed ++ ", total: " ++ toString total ++ " \x7d"

inductive Kind where
  | statusChange
  | progress
deriving DecidableEq

def Kind.name : Kind → String
  | statusChange => "status_change"
  | progress => "progress"

def Kind.ofName? (s : String) : Option Kind :=
  [Kind.statusChange, .progress].find? fun k => k.name == s

def Kind.names : List String := ["status_change", "progress"]

/-! ### From values that have been kept -/

def statusOf (v : Value) : Except Mismatch Status := v.variant Status.names Status.ofName?

/-- What is known of the members of a progress event. -/
structure Counts where
  completed : Option Nat
  succeeded : Option Nat
  failed : Option Nat
  total : Option Nat

/-- Adds the member `key` to a slot that has to be empty. -/
def fill (key : String) (slot : Option Nat) (v : Value) : Except Mismatch (Option Nat) :=
  match slot with
  | some _ => .error (.duplicateField key)
  | none => v.count.map some

def countsOf (known : Counts) : List (String × Value) → Except Mismatch Counts
  | [] => .ok known
  | (key, v) :: rest => do
    let known ←
      if key = "completed" then do
        let slot ← fill key known.completed v
        pure { known with completed := slot }
      else if key = "succeeded" then do
        let slot ← fill key known.succeeded v
        pure { known with succeeded := slot }
      else if key = "failed" then do
        let slot ← fill key known.failed v
        pure { known with failed := slot }
      else if key = "total" then do
        let slot ← fill key known.total v
        pure { known with total := slot }
      else pure known
    countsOf known rest

def required {α : Type} (key : String) (slot : Option α) : Except Mismatch α :=
  match slot with
  | some n => .ok n
  | none => .error (.missingField key)

def statusAmong (known : Option Status) : List (String × Value) → Except Mismatch (Option Status)
  | [] => .ok known
  | (key, v) :: rest =>
    if key = "status" then
      match known with
      | some _ => .error (.duplicateField key)
      | none => do
        let status ← statusOf v
        statusAmong (some status) rest
    else statusAmong known rest

def ofMembers (kind : Kind) (members : List (String × Value)) : Except Mismatch Event :=
  match kind with
  | .statusChange => do
    let status ← statusAmong none members
    let status ← required "status" status
    pure (.statusChange status)
  | .progress => do
    let counts ← countsOf ⟨none, none, none, none⟩ members
    let completed ← required "completed" counts.completed
    let succeeded ← required "succeeded" counts.succeeded
    let failed ← required "failed" counts.failed
    let total ← required "total" counts.total
    pure (.progress completed succeeded failed total)

/-- The element at `index` of the list form, which is to have `size` elements. -/
def element (title : String) (size : Nat) (items : List Value) (index : Nat) :
    Except Mismatch Value :=
  match items[index]? with
  | some v => .ok v
  | none =>
    .error (.invalidLength index (title ++ " with " ++ toString size ++
      (if size = 1 then " element" else " elements")))

def tooLong (size : Nat) (items : List Value) : Except Mismatch Unit :=
  if size < items.length then
    .error (.invalidLength items.length (toString size ++
      (if size = 1 then " element" else " elements") ++ " in sequence"))
  else .ok ()

def ofItems (kind : Kind) (items : List Value) : Except Mismatch Event :=
  match kind with
  | .statusChange => do
    let v ← element "struct variant RunEvent::StatusChange" 1 items 0
    let status ← statusOf v
    tooLong 1 items
    pure (.statusChange status)
  | .progress => do
    let count (index : Nat) : Except Mismatch Nat := do
      let v ← element "struct variant RunEvent::Progress" 4 items index
      v.count
    let completed ← count 0
    let succeeded ← count 1
    let failed ← count 2
    let total ← count 3
    tooLong 4 items
    pure (.progress completed succeeded failed total)

/-! ### Documents -/

def readKind : Reader Kind := Reader.variantName Kind.names Kind.ofName?

/-- The event that has been found, unless it does not fit. -/
def orMismatch (r : Except Mismatch Event) : Reader Event :=
  match r with
  | .ok e => pure e
  | .error m => Reader.mismatch m

/-- The kind and the other members of an object, the last one first. -/
def readMember (known : Option Kind × List (String × Value)) :
    Reader (Option Kind × List (String × Value)) := do
  let key ← Reader.name
  if key = "type" then
    if known.1.isSome then Reader.mismatch (.duplicateField key)
    else
      Reader.colon
      let kind ← readKind
      pure (some kind, known.2)
  else
    Reader.colon
    let v ← Reader.any
    pure (known.1, (key, v) :: known.2)

def readObject : Reader (Kind × List (String × Value)) := do
  Reader.skip
  match ← Reader.members readMember (none, []) with
  | (some kind, members) => pure (kind, members.reverse)
  | (none, _) => Reader.mismatch (.missingField "type")

def readList : Reader (Kind × List Value) := do
  Reader.skip
  if ← Reader.moreItems true then
    let kind ← readKind
    let cs ← Reader.remaining
    let items ← Reader.itemsFrom Reader.any (cs.length + 1) false
    pure (kind, items)
  else Reader.mismatch (.missingField "type")

def members : Event → List (String × Value)
  | statusChange status =>
    [("type", .string Kind.statusChange.name), ("status", .string status.name)]
  | progress completed succeeded failed total =>
    [("type", .string Kind.progress.name), ("completed", .nat completed),
      ("succeeded", .nat succeeded), ("failed", .nat failed), ("total", .nat total)]

def codec : Codec Event where
  read := do
    match ← Reader.valueStart with
    | '[' => do
      let (kind, items) ← Reader.nested readList
      orMismatch (ofItems kind items)
    | '\x7b' => do
      let (kind, members) ← Reader.nested readObject
      orMismatch (ofMembers kind members)
    | _ => Reader.unexpected "internally tagged enum RunEvent"
  write e := .object e.members

end Event

end ProxyTiming.Run
