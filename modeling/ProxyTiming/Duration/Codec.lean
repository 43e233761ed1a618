import ProxyTiming.Duration
import ProxyTiming.Json.Codec

/-!
# Durations in documents

A duration is written as an object of its seconds and nanoseconds.  It is read
from that object, in which nothing else may stand, or from a list of the two
numbers.  A second or more of nanoseconds is carried over to the seconds.
-/

namespace ProxyTiming.Duration

open ProxyTiming.Json

def partNames : List String := ["secs", "nanos"]

structure Parts where
  secs : Option Nat
  nanos : Option Nat

def readSecs : Reader Nat := Reader.natural maxUnsigned "u64"

/-- The nanoseconds of a document, which may make up whole seconds. -/
def readNanos : Reader Nat := Reader.natural 4294967295 "u32"

def ofParts (secs nanos : Nat) : Reader Duration :=
  if secs + nanos / nanosPerSec < secsBound then pure (ofNanos (secs * nanosPerSec + nanos))
  else Reader.mismatch (.rejected "overflow deserializing Duration")

def readPart (known : Parts) : Reader Parts := do
  let key ← Reader.name
  if key = "secs" then
    if known.secs.isSome then Reader.mismatch (.duplicateField key)
    else
      Reader.colon
      let secs ← readSecs
      pure { known with secs := some secs }
  else if key = "nanos" then
    if known.nanos.isSome then Reader.mismatch (.duplicateField key)
    else
      Reader.colon
      let nanos ← readNanos
      pure { known with nanos := some nanos }
  else Reader.mismatch (.unknownField key partNames)

def readObject : Reader Duration := do
  Reader.skip
  let known ← Reader.members readPart ⟨none, none⟩
  match known.secs, known.nanos with
  | some secs, some nanos => ofParts secs nanos
  | none, _ => Reader.mismatch (.missingField "secs")
  | _, none => Reader.mismatch (.missingField "nanos")

def readElement (index : Nat) (r : Reader Nat) : Reader Nat := do
  if ← Reader.moreItems (index == 0) then r
  else Reader.mismatch (.invalidLength index "struct Duration")

def readList : Reader Duration := do
  Reader.skip
  let secs ← readElement 0 readSecs
  let nanos ← readElement 1 readNanos
  let d ← ofParts secs nanos
  Reader.endItems
  pure d

def codec : Codec Duration where
  read := do
    match ← Reader.valueStart with
    | '[' => Reader.nested readList
    | '\x7b' => Reader.nested readObject
    | _ => Reader.unexpected "struct Duration"
  write d := .object [("secs", .nat d.secs), ("nanos", .nat d.nanos)]

end ProxyTiming.Duration
