import ProxyTiming.Timings
import ProxyTiming.Time.Instant
import ProxyTiming.Uuid
import ProxyTiming.Stats

/-!
# Runs

A run is every trial of one scenario against one target by one client.  It has a
slot for each trial that was asked for; a slot is filled once, when its trial
returns, and stays empty if the trial never started or never returned.

The counters are kept beside the slots rather than computed from them, because a
recorded run is read back as it was written.
-/

namespace ProxyTiming.Run

inductive Status where
  | idle
  | running
  /-- Every trial that was asked for has been started and has ended. -/
  | completed
  /-- The run was cancelled before every trial had been started. -/
  | cancelled
deriving DecidableEq

namespace Status

def all : List Status := [idle, running, completed, cancelled]

def name : Status → String
  | idle => "idle"
  | running => "running"
  | completed => "completed"
  | cancelled => "cancelled"

def ofName? (s : String) : Option Status := all.find? fun a => a.name == s

def names : List String := all.map name

def isTerminal : Status → Bool
  | idle => false
  | running => false
  | completed => true
  | cancelled => true

end Status

end ProxyTiming.Run

namespace ProxyTiming

structure Run where
  id : Uuid
  testName : String
  proxyName : String
  targetUrl : String
  status : Run.Status
  /-- How many trials were asked for. -/
  totalCount : Nat
  successCount : Nat
  failedCount : Nat
  trials : List (Option Timings)
  startedAt : Time.Instant
  finishedAt : Time.Instant
deriving DecidableEq

namespace Run

open ProxyTiming.Time

def fresh (id : Uuid) (now : Instant) (testName proxyName targetUrl : String) (count : Nat) :
    Run where
  id := id
  testName := testName
  proxyName := proxyName
  targetUrl := targetUrl
  status := .idle
  totalCount := count
  successCount := 0
  failedCount := 0
  trials := List.replicate count none
  startedAt := now
  finishedAt := now

def start (r : Run) (now : Instant) : Run := { r with status := .running, startedAt := now }

def finish (r : Run) (status : Status) (now : Instant) : Run :=
  { r with status := status, finishedAt := now }

/-- Fills the slot of a trial, if there is such a slot and it is empty. -/
def record? (r : Run) (index : Nat) (t : Timings) : Option Run :=
  match r.trials[index]? with
  | some none =>
    some { r with
      trials := r.trials.set index (some t)
      successCount := if t.success then r.successCount + 1 else r.successCount
      failedCount := if t.success then r.failedCount else r.failedCount + 1 }
  | _ => none

def isCancelled (r : Run) : Bool := decide (r.status = .cancelled)

def completedCount (r : Run) : Nat := r.successCount + r.failedCount

/-- The filled slots from `index` on, with their numbers. -/
def filledFrom (index : Nat) : List (Option Timings) → List (Nat × Timings)
  | [] => []
  | none :: rest => filledFrom (index + 1) rest
  | some t :: rest => (index, t) :: filledFrom (index + 1) rest

def completedTrials (r : Run) : List (Nat × Timings) := filledFrom 0 r.trials

def duration (r : Run) : Duration := r.startedAt.elapsed r.finishedAt

def successRate (r : Run) : Binary64 :=
  if r.totalCount = 0 then .finite 0
  else Binary64.ofNat r.successCount / Binary64.ofNat r.totalCount * Binary64.ofNat 100

def throughput (r : Run) : Binary64 :=
  let seconds := r.duration.toSeconds
  if seconds.atMost 0 then .finite 0 else Binary64.ofNat r.completedCount / seconds

def phaseDurations (r : Run) (p : Phase) : List Duration :=
  (r.completedTrials.filter fun (_, t) => t.success).map fun (_, t) => t.get p

def stats (r : Run) : PhaseTable Stats := PhaseTable.full fun p => summarize (r.phaseDurations p)

end Run

/-! ### Comparing runs -/

/-- A candidate against a baseline, phase by phase. -/
structure Comparison where
  baselineName : String
  candidateName : String
  baselineStats : PhaseTable Stats
  candidateStats : PhaseTable Stats
  differences : PhaseTable Difference
  /-- Success rate of the candidate less that of the baseline, in percentage points. -/
  successRateDelta : Binary64

def Run.compare (baseline candidate : Run) : Comparison where
  baselineName := baseline.proxyName
  candidateName := candidate.proxyName
  baselineStats := baseline.stats
  candidateStats := candidate.stats
  differences := compareStats baseline.stats candidate.stats
  successRateDelta := candidate.successRate - baseline.successRate

end ProxyTiming
