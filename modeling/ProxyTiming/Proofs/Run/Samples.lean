import Mathlib.Data.List.Forall2
import Mathlib.Data.List.ReduceOption
import ProxyTiming.Run.Basic

/-!
# What the statistics of a run are computed of

The statistics of a run know nothing but the durations of its successful trials, in the order of
their slots.  Whatever else the run records, of trials that failed or never returned, of its
counters, its end and its texts, has no influence on them, and so none on a comparison with another
run, but for the success rates.
-/

namespace ProxyTiming.Run

variable {r r' : Run} {slots : List (Option Timings)} {index : Nat} {phase : Phase}

def successes (r : Run) : List Timings := r.trials.reduceOption.filter fun t => t.success

/-- The successful trials of two runs took the same time in each phase, one after the other. -/
def SameDurations (r r' : Run) : Prop :=
  List.Forall₂ (fun t t' => ∀ phase, t.get phase = t'.get phase) r.successes r'.successes

theorem map_snd_filledFrom (index : Nat) (slots : List (Option Timings)) :
    (filledFrom index slots).map Prod.snd = slots.reduceOption := by
  induction slots generalizing index with
  | nil => rfl
  | cons slot slots ih =>
      cases slot with
      | none => exact ih (index + 1)
      | some t => exact congrArg (t :: ·) (ih (index + 1))

/-- The number of a trial does not matter. -/
theorem phaseDurations_eq (r : Run) (phase : Phase) :
    r.phaseDurations phase = r.successes.map fun t => t.get phase := by
  rw [phaseDurations, successes, ← map_snd_filledFrom 0, List.filter_map, List.map_map]
  rfl

theorem SameDurations.phaseDurations_eq (h : SameDurations r r') (phase : Phase) :
    r.phaseDurations phase = r'.phaseDurations phase := by
  rw [Run.phaseDurations_eq, Run.phaseDurations_eq]
  have hmap : List.Forall₂ (· = ·) (r.successes.map fun t => t.get phase)
      (r'.successes.map fun t => t.get phase) := by
    rw [List.forall₂_map_left_iff, List.forall₂_map_right_iff]
    exact h.imp fun _ _ hsame => hsame phase
  exact List.forall₂_eq_eq_eq ▸ hmap

theorem SameDurations.stats_eq (h : SameDurations r r') : r.stats = r'.stats :=
  congrArg PhaseTable.full (funext fun phase => congrArg summarize (h.phaseDurations_eq phase))

theorem stats_apply (r : Run) (phase : Phase) :
    r.stats phase = some (summarize (r.successes.map fun t => t.get phase)) := by
  rw [← phaseDurations_eq]
  rfl

structure Summarized (r : Run) : Prop where
  /-- There is an entry for each phase. -/
  phases : r.stats.toList.map Prod.fst = Phase.all
  of_successes (phase : Phase) :
    r.stats phase = some (summarize (r.successes.map fun t => t.get phase))
  of_failures : (∀ t, some t ∈ r.trials → t.success = false) →
    ∀ phase, r.stats phase = some Stats.zero

/-- The phases of two runs cannot be told apart by their statistics, nor by comparing them with a
third run. -/
structure Indistinct (r r' : Run) : Prop where
  stats : r.stats = r'.stats
  as_candidate (baseline : Run) :
    (baseline.compare r).baselineStats = (baseline.compare r').baselineStats ∧
      (baseline.compare r).candidateStats = (baseline.compare r').candidateStats ∧
      (baseline.compare r).differences = (baseline.compare r').differences
  as_baseline (candidate : Run) :
    (r.compare candidate).baselineStats = (r'.compare candidate).baselineStats ∧
      (r.compare candidate).candidateStats = (r'.compare candidate).candidateStats ∧
      (r.compare candidate).differences = (r'.compare candidate).differences

theorem successes_eq_nil (h : ∀ t, some t ∈ r.trials → t.success = false) : r.successes = [] := by
  rw [successes, List.filter_eq_nil_iff]
  intro t ht
  simpa using h t (List.reduceOption_mem_iff.mp ht)

theorem summarized (r : Run) : Summarized r where
  phases := rfl
  of_successes := stats_apply r
  of_failures h phase := by
    rw [stats_apply, successes_eq_nil h]
    rfl

/-- Two runs whose successful trials took the same time have the same statistics, and compare alike
with any other run. -/
theorem stats_of_same_durations (same : SameDurations r r') :
    Summarized r ∧ Summarized r' ∧ Indistinct r r' := by
  have hstats := same.stats_eq
  refine ⟨summarized r, summarized r', hstats, fun baseline => ?_, fun candidate => ?_⟩
  · rw [compare, compare, hstats]
    exact ⟨rfl, rfl, rfl⟩
  · rw [compare, compare, hstats]
    exact ⟨rfl, rfl, rfl⟩

/-- One run was cancelled after a trial had failed, the other one has a single trial and counters
that do not fit to it. -/
theorem stats_of_same_durations_of_failed_trial :
    let good : Timings := { Timings.zero with total := .ofMillis 100, success := true }
    let bad : Timings := { Timings.zero with total := .ofMillis 5000, statusCode := 503 }
    let r : Run := { Run.fresh .nil .epoch "t" "c" "u" 3 with
      status := .cancelled, successCount := 1, failedCount := 1
      trials := [some bad, some good, none] }
    let r' : Run := { Run.fresh .nil .epoch "other" "direct" "u" 1 with
      successCount := 7, trials := [some { good with statusCode := 204 }] }
    SameDurations r r' ∧ Summarized r ∧ Summarized r' ∧ Indistinct r r' ∧
      r.stats .total = some (summarize [.ofMillis 100]) := by
  intro good bad r r'
  have hsame : SameDurations r r' := .cons (fun phase => by cases phase <;> rfl) .nil
  obtain ⟨hsummarized, hsummarized', hindistinct⟩ := stats_of_same_durations hsame
  exact ⟨hsame, hsummarized, hsummarized', hindistinct, hsummarized.of_successes .total⟩

end ProxyTiming.Run
