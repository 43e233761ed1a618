import ProxyTiming.Proofs.Stats.Differences
import ProxyTiming.Run.Basic

/-!
# Comparing runs

Two tables of statistics are compared in the phases that both of them have.  The tables of two runs
have all phases, so that runs are compared in each of them; and there the differences behave as
those of numbers do: the way back is the way there with the other sign, and two ways one after the
other add up, however long the means are.
-/

namespace ProxyTiming

variable {α : Type} {s t : PhaseTable Stats} {phase : Phase}

theorem PhaseTable.map_fst_toList (t : PhaseTable α) :
    t.toList.map Prod.fst = Phase.all.filter fun p => (t p).isSome := by
  rw [toList, List.map_filterMap, ← List.filterMap_eq_filter]
  refine List.filterMap_congr fun p _ => ?_
  cases h : t p <;> simp [Option.guard, h]

/-! ### Tables -/

theorem compareStats_eq_some_iff {d : Difference} : compareStats s t phase = some d ↔
    ∃ base cand, s phase = some base ∧ t phase = some cand ∧
      d = .between base.mean cand.mean := by
  rw [compareStats]
  cases s phase <;> cases t phase <;> simp [eq_comm]

theorem isSome_compareStats (s t : PhaseTable Stats) (phase : Phase) :
    (compareStats s t phase).isSome = ((s phase).isSome && (t phase).isSome) := by
  rw [compareStats]
  cases s phase <;> cases t phase <;> rfl

structure SharedPhases (s t : PhaseTable Stats) : Prop where
  phases : (compareStats s t).toList.map Prod.fst =
    Phase.all.filter fun p => (s p).isSome && (t p).isSome
  entry (p : Phase) (d : Difference) : compareStats s t p = some d ↔
    ∃ base cand, s p = some base ∧ t p = some cand ∧ d = .between base.mean cand.mean

theorem sharedPhases (s t : PhaseTable Stats) : SharedPhases s t where
  phases := by
    rw [PhaseTable.map_fst_toList]
    exact List.filter_congr fun p _ => isSome_compareStats s t p
  entry _ _ := compareStats_eq_some_iff

/-! ### Runs -/

namespace Run

/-- The nanoseconds from one run to another in a phase, if they are compared in it. -/
def nanosTo? (baseline candidate : Run) (phase : Phase) : Option ℤ :=
  ((baseline.compare candidate).differences phase).map Difference.absoluteNanos

def signedMean (r : Run) (phase : Phase) : ℤ :=
  Difference.signedNanos (summarize (r.phaseDurations phase)).mean

theorem nanosTo?_eq (baseline candidate : Run) (phase : Phase) :
    baseline.nanosTo? candidate phase =
      some (candidate.signedMean phase - baseline.signedMean phase) :=
  congrArg some (Difference.absoluteNanos_between _ _)

/-- One phase of three runs, compared with each other. -/
structure AddUp (a b c : Run) (phase : Phase) : Prop where
  means : (a.compare b).differences phase = some (.between
    (summarize (a.phaseDurations phase)).mean (summarize (b.phaseDurations phase)).mean)
  nanos : a.nanosTo? b phase = some (b.signedMean phase - a.signedMean phase)
  ways : ∃ x y : ℤ, a.nanosTo? b phase = some x ∧ b.nanosTo? a phase = some (-x) ∧
    b.nanosTo? c phase = some y ∧ a.nanosTo? c phase = some (x + y)
  self : (a.compare a).differences phase = some ⟨0, .finite 0⟩

theorem addUp (a b c : Run) (phase : Phase) : AddUp a b c phase where
  means := rfl
  nanos := nanosTo?_eq a b phase
  ways := by
    simp only [nanosTo?_eq]
    refine ⟨_, _, rfl, ?_, rfl, ?_⟩
    · rw [neg_sub]
    · rw [add_comm, sub_add_sub_cancel]
  self := congrArg some (Difference.between_self _)

end Run

/-- The algebra of comparisons: which phases are compared, how the differences between runs add up,
and what the difference of any two means is. -/
theorem comparisons_exact (s t : PhaseTable Stats) (a b c : Run) (phase : Phase)
    (base cand : Duration) :
    SharedPhases s t ∧ Run.AddUp a b c phase ∧
      Difference.Exact base cand (.between base cand) :=
  ⟨sharedPhases s t, Run.addUp a b c phase, Difference.exact_between base cand⟩

end ProxyTiming
