import ProxyTiming.Run.Event

/-!
# What a run shows to the outside

A run tells what it does in two ways: it writes lines into a log, and it offers
events to an observer.  Nobody has to listen.  An observer has a box of a certain
capacity; an event that finds the box full is dropped, which leaves a line in the
log, and an event for an observer who has left is dropped without a trace.

Nothing in this module flows back into the run: a journal is only ever written to.
-/

namespace ProxyTiming.Run

/-! ### The log -/

inductive Level where
  | error
  | warn
  | info
  | debug
deriving DecidableEq

def Level.name : Level → String
  | error => "ERROR"
  | warn => "WARN"
  | info => "INFO"
  | debug => "DEBUG"

structure LogLine where
  level : Level
  message : String
  /-- Named texts that go with the message, in order. -/
  fields : List (String × String)
deriving DecidableEq

/-! ### Observers -/

/-- Somebody who listens, with a box for events. -/
structure Observer where
  capacity : Nat
  /-- Events in the box. -/
  pending : List Event
  /-- Events that have been taken out of the box. -/
  taken : List Event
  /-- Whether the observer is still there. -/
  present : Bool
deriving DecidableEq

namespace Observer

def ofCapacity (capacity : Nat) : Observer := ⟨capacity, [], [], true⟩

/-- An observer who has left before anything happened. -/
def gone : Observer := ⟨1, [], [], false⟩

def received (o : Observer) : List Event := o.taken ++ o.pending

def hasRoom (o : Observer) : Bool := decide (o.pending.length < o.capacity)

def take? (o : Observer) : Option Observer :=
  match o.pending with
  | [] => none
  | e :: rest => some { o with pending := rest, taken := o.taken ++ [e] }

def leave? (o : Observer) : Option Observer :=
  if o.present then some { o with present := false } else none

end Observer

/-! ### Journals -/

structure Journal where
  log : List LogLine
  observer : Option Observer
deriving DecidableEq

namespace Journal

def start (observer : Option Observer) : Journal := ⟨[], observer⟩

def note (j : Journal) (level : Level) (message : String)
    (fields : List (String × String)) : Journal :=
  { j with log := j.log ++ [⟨level, message, fields⟩] }

def offer (j : Journal) (e : Event) : Journal :=
  match j.observer with
  | none => j
  | some o =>
    if !o.present then j
    else if o.hasRoom then { j with observer := some { o with pending := o.pending ++ [e] } }
    else j.note .debug ("Event receiver is full; dropping " ++ e.text) []

end Journal

end ProxyTiming.Run
