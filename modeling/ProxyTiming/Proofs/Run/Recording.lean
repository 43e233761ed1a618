import Mathlib.Tactic.SplitIfs
import ProxyTiming.Run.Aggregator

/-!
# Recording trials

A trial is recorded in a slot that is there and empty, or not at all.  What one recording
does to a run is told here once: it fills the slot of its trial, leaves all other slots
alone, and keeps the counters equal to what can be counted in the slots.  The aggregator
adds nothing to this but remarks in the journal.
-/

namespace ProxyTiming.Run

variable {r r' : Run} {index n : Nat} {t : Timings}

/-- What is recorded of a trial: the timings it returned, or those that came with its failure. -/
def recordOf : Except TrialFailure Timings → Timings
  | .ok t => t
  | .error f => f.timings

theorem Outcome.timings_eq (o : Outcome) : o.timings = recordOf o.result := by
  rw [timings]
  split <;> simp [recordOf, *]

def isSuccess (slot : Option Timings) : Bool := slot.any fun t => t.success

def isFailure (slot : Option Timings) : Bool := slot.any fun t => !t.success

structure Counted (r : Run) : Prop where
  success : r.successCount = r.trials.countP isSuccess
  failed : r.failedCount = r.trials.countP isFailure

theorem record?_of_empty (h : r.trials[index]? = some none) :
    r.record? index t = some { r with
      trials := r.trials.set index (some t)
      successCount := if t.success then r.successCount + 1 else r.successCount
      failedCount := if t.success then r.failedCount else r.failedCount + 1 } := by
  simp [record?, h]

theorem empty_of_record?_eq_some (h : r.record? index t = some r') :
    r.trials[index]? = some none := by
  rw [record?] at h
  split at h
  · assumption
  · cases h

theorem length_trials_record? (h : r.record? index t = some r') :
    r'.trials.length = r.trials.length := by
  rw [record?_of_empty (empty_of_record?_eq_some h)] at h
  obtain rfl := Option.some.inj h
  exact List.length_set

theorem getElem?_trials_record? (h : r.record? index t = some r') (i : Nat) :
    r'.trials[i]? = if i = index then some (some t) else r.trials[i]? := by
  have hempty := empty_of_record?_eq_some h
  rw [record?_of_empty hempty] at h
  obtain rfl := Option.some.inj h
  have hlt : index < r.trials.length := (List.getElem?_eq_some_iff.mp hempty).1
  by_cases hi : i = index
  · subst hi
    simp [hlt]
  · rw [if_neg hi, List.getElem?_set_ne (Ne.symm hi)]

/-- Filling an empty slot counts for as much as what it is filled with. -/
theorem countP_set_of_empty {slots : List (Option Timings)} {p : Option Timings → Bool}
    (hp : p none = false) (h : slots[index]? = some none) :
    (slots.set index (some t)).countP p = slots.countP p + if p (some t) then 1 else 0 := by
  obtain ⟨hlt, hnone⟩ := List.getElem?_eq_some_iff.mp h
  rw [List.countP_set hlt, hnone, hp]
  simp

theorem Counted.record? (hc : Counted r) (h : r.record? index t = some r') : Counted r' := by
  have hempty := empty_of_record?_eq_some h
  rw [record?_of_empty hempty] at h
  obtain rfl := Option.some.inj h
  constructor
  · rw [countP_set_of_empty rfl hempty, ← hc.success]
    cases hs : t.success <;> simp [isSuccess, hs]
  · rw [countP_set_of_empty rfl hempty, ← hc.failed]
    cases hs : t.success <;> simp [isFailure, hs]

/-! ### What stays the same -/

structure Heading where
  testName : String
  clientName : String
  targetUrl : String
  count : Nat
deriving DecidableEq

def heading (r : Run) : Heading := ⟨r.testName, r.proxyName, r.targetUrl, r.totalCount⟩

theorem heading_record? (h : r.record? index t = some r') : r'.heading = r.heading := by
  rw [record?_of_empty (empty_of_record?_eq_some h)] at h
  obtain rfl := Option.some.inj h
  rfl

/-- A trial that is recorded counts as one more. -/
theorem completedCount_record? (h : r.record? index t = some r') :
    r'.completedCount = r.completedCount + 1 := by
  rw [record?_of_empty (empty_of_record?_eq_some h)] at h
  obtain rfl := Option.some.inj h
  simp only [completedCount]
  split_ifs <;> omega

theorem counted_of_empty (h : r.trials = List.replicate n none) (hs : r.successCount = 0)
    (hf : r.failedCount = 0) : Counted r where
  success := by simp [hs, h, isSuccess, List.countP_replicate]
  failed := by simp [hf, h, isFailure, List.countP_replicate]

/-! ### Aggregation -/

@[simp] theorem Aggregator.run_noteOutcome (a : Aggregator) (o : Outcome) :
    (a.noteOutcome o).run = a.run := by
  rw [noteOutcome]
  split
  · rfl
  · rw [noteFailure]
    dsimp only
    split <;> rfl

/-- An outcome changes the run only where its own trial is recorded. -/
theorem Aggregator.run_record (a : Aggregator) (o : Outcome) :
    (a.record o).run = (a.run.record? o.index o.timings).getD a.run := by
  rw [record]
  dsimp only
  rw [run_noteOutcome]
  cases h : a.run.record? o.index o.timings with
  | none => simp [note]
  | some run =>
      dsimp only
      split <;> rfl

end ProxyTiming.Run
