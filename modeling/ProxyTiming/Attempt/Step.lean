import ProxyTiming.Attempt.Watch
import ProxyTiming.Network
import ProxyTiming.Timings

/-!
# The steps of an attempt

An attempt to time one request goes through steps: look a name up, connect,
negotiate, send.  Each may be the last one.  A step therefore yields a value or
stops the attempt, and it leaves its traces in the *session* either way: what was
measured so far survives a failure, and so does the list of all that the attempt
has done to the world outside of it.

A step may wait, and the deadline may pass while it does.  A step that waits for
something that never comes stops the attempt too: only the deadline can end it
then, and the deadline belongs to the attempt as a whole.  So the two are one to
the steps.
-/

namespace ProxyTiming

open ProxyTiming.Net

inductive Stop where
  | failed (error : TrialError)
  /-- The deadline passes before what it waits for has come, if it ever comes. -/
  | stalled
deriving DecidableEq

inductive Effect where
  | lookup (name : String)
  /-- An address is dialled, and accepts or refuses. -/
  | dial (address : SocketAddr)
  /-- A negotiation is held, with all that was said and heard in it. -/
  | negotiation (said heard : List UInt8)
  /-- A secure channel is asked for.  These bytes got through to a peer that gives none. -/
  | secure (bytes : List UInt8)
  /-- A request is sent, of which these bytes got through. -/
  | request (bytes : List UInt8)
deriving DecidableEq

/-- What an attempt leaves behind. -/
structure Session where
  collector : Collector
  /-- All that was done, in order. -/
  trace : List Effect
  /-- The connection, once there is one. -/
  link : Option Link
  /-- What has been read as a response. -/
  response : List UInt8
  /-- How many waits are over. -/
  waits : Nat

namespace Session

def start : Session := ⟨.start, [], none, [], 0⟩

def lookups (s : Session) : List String :=
  s.trace.filterMap fun
    | .lookup name => some name
    | _ => none

/-- The addresses dialled, in order, with those that refused. -/
def dialed (s : Session) : List SocketAddr :=
  s.trace.filterMap fun
    | .dial address => some address
    | _ => none

end Session

/-- A step of an attempt. -/
structure Step (α : Type) where
  run : Session → Except Stop α × Session

namespace Step

variable {α β : Type}

protected def pure (a : α) : Step α := ⟨fun s => (.ok a, s)⟩

protected def bind (x : Step α) (f : α → Step β) : Step β where
  run := fun s =>
    match x.run s with
    | (.ok a, s) => (f a).run s
    | (.error stop, s) => (.error stop, s)

instance : Monad Step where
  pure := Step.pure
  bind := Step.bind

theorem run_bind (x : Step α) (f : α → Step β) (s : Session) :
    (x >>= f).run s =
      match x.run s with
      | (.ok a, s) => (f a).run s
      | (.error stop, s) => (.error stop, s) := rfl

def stop (reason : Stop) : Step α := ⟨fun s => (.error reason, s)⟩

def fail (e : TrialError) : Step α := stop (.failed e)

def ofExcept : Except TrialError α → Step α
  | .ok a => pure a
  | .error e => fail e

def modify (f : Session → Session) : Step Unit := ⟨fun s => (.ok (), f s)⟩

def measure (f : Collector → Collector) : Step Unit :=
  modify fun s => { s with collector := f s.collector }

def note (e : Effect) : Step Unit := modify fun s => { s with trace := s.trace ++ [e] }

def keep (l : Link) : Step Unit := modify fun s => { s with link := some l }

/-- Waits once; yields the deadline if it passes meanwhile. -/
def await (w : Watch) : Step (Option Deadline) where
  run := fun s => (.ok (w.cut s.waits), { s with waits := s.waits + 1 })

/-- Waits once, and stops if the deadline passes meanwhile. -/
def wait (w : Watch) : Step Unit := do
  match ← await w with
  | some _ => stop .stalled
  | none => pure ()

end Step

end ProxyTiming
