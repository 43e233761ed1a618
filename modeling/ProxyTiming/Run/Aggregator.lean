import ProxyTiming.Run.Basic
import ProxyTiming.Run.Journal

/-!
# Aggregation

The outcomes of trials arrive one by one and in any order.  The aggregator alone
writes them into the run: each outcome into the slot of its trial, and the counters
with it.  A slot is written once; an outcome that finds its slot filled, or finds no
slot, changes nothing.

The first failures are logged in full, the others in short.  Every so many accepted
outcomes, and after the last one, the progress is told.
-/

namespace ProxyTiming.Run

structure Outcome where
  index : Nat
  result : Except TrialFailure Timings

/-- The record of the trial, which a failure carries too. -/
def Outcome.timings (o : Outcome) : Timings :=
  match o.result with
  | .ok t => t
  | .error f => f.timings

/-- Accepted outcomes from one report of progress to the next: a twentieth of all, but not
fewer than ten. -/
def progressInterval (count : Nat) : Nat := max (count / 20) 10

def detailedFailures : Nat := 5

/-- The greatest number that a field of the log can show. -/
def maxField : Nat := 18446744073709551615

/-- A run that is being filled. -/
structure Aggregator where
  run : Run
  failuresSeen : Nat
  journal : Journal

namespace Aggregator

def start (run : Run) (journal : Journal) : Aggregator := ⟨run, 0, journal⟩

def note (a : Aggregator) (level : Level) (message : String)
    (fields : List (String × String)) : Aggregator :=
  { a with journal := a.journal.note level message fields }

def noteFailure (a : Aggregator) (index : Nat) (f : TrialFailure) : Aggregator :=
  let a := { a with failuresSeen := a.failuresSeen + 1 }
  let message := "Trial failed: " ++ f.message
  let names := [("proxy", a.run.proxyName), ("trial", toString index)]
  if a.failuresSeen ≤ detailedFailures then
    a.note .warn message (names ++
      [("status_code", toString f.timings.statusCode.toNat),
        ("elapsed_ms", toString (min f.timings.total.toMillis maxField))])
  else a.note .debug message names

def progress (a : Aggregator) : Event :=
  .progress a.run.completedCount a.run.successCount a.run.failedCount a.run.totalCount

def reportProgress (a : Aggregator) : Aggregator :=
  let r := a.run
  let a := a.note .info
    ("Progress: " ++ toString r.completedCount ++ "/" ++ toString r.totalCount ++ " (" ++
      toString r.successCount ++ " ok, " ++ toString r.failedCount ++ " failed)")
    [("proxy", r.proxyName)]
  { a with journal := a.journal.offer a.progress }

def isReportDue (r : Run) : Bool :=
  decide (r.completedCount % progressInterval r.totalCount = 0) ||
    decide (r.completedCount = r.totalCount)

def noteOutcome (a : Aggregator) (o : Outcome) : Aggregator :=
  match o.result with
  | .ok _ => a
  | .error f => a.noteFailure o.index f

def record (a : Aggregator) (o : Outcome) : Aggregator :=
  let a := a.noteOutcome o
  match a.run.record? o.index o.timings with
  | none =>
    a.note .warn ("Dropping result for trial " ++ toString o.index ++
      ": slot already filled or out of range") []
  | some run =>
    let a := { a with run := run }
    if isReportDue run then a.reportProgress else a

def recordAll (a : Aggregator) (os : List Outcome) : Aggregator := os.foldl record a

end Aggregator

end ProxyTiming.Run
