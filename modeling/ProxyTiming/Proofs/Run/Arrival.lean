import Mathlib.Data.List.Nodup
import ProxyTiming.Proofs.Run.Recording

/-!
# The order in which outcomes arrive

Workers finish when they finish, so the outcomes of a run reach the aggregator in any order.
It makes no difference.  An outcome concerns the slot of its own trial and one of the two
counters; for two different trials the slots are different, and a counter does not mind in
which order it is raised.  So two outcomes can change places, and a whole sequence can be
put into any other order.

Two outcomes of the *same* trial cannot change places, since the first of them keeps the
slot.  That is why the trials are asked to be different.
-/

namespace ProxyTiming.Run

variable {r : Run} {o o' : Outcome} {os os' : List Outcome} {i : Nat}

def receive (r : Run) (o : Outcome) : Run := (r.record? o.index o.timings).getD r

theorem receive_of_empty (h : r.trials[o.index]? = some none) :
    r.receive o = { r with
      trials := r.trials.set o.index (some o.timings)
      successCount := if o.timings.success then r.successCount + 1 else r.successCount
      failedCount := if o.timings.success then r.failedCount else r.failedCount + 1 } := by
  rw [receive, record?_of_empty h, Option.getD_some]

/-- An outcome that finds no empty slot is dropped. -/
theorem receive_of_not_empty (h : r.trials[o.index]? ≠ some none) : r.receive o = r := by
  have hnone : r.record? o.index o.timings = none := by
    rw [Option.eq_none_iff_forall_ne_some]
    exact fun r' hr' => h (empty_of_record?_eq_some hr')
  rw [receive, hnone, Option.getD_none]

theorem getElem?_trials_receive (r : Run) (o : Outcome) (i : Nat) :
    (r.receive o).trials[i]? =
      if i = o.index ∧ r.trials[i]? = some none then some (some o.timings)
      else r.trials[i]? := by
  by_cases hempty : r.trials[o.index]? = some none
  · have hrecord := getElem?_trials_record? (record?_of_empty hempty (t := o.timings)) i
    rw [receive, record?_of_empty hempty, Option.getD_some, hrecord]
    by_cases hi : i = o.index
    · subst hi
      simp [hempty]
    · simp [hi]
  · rw [receive_of_not_empty hempty, if_neg]
    rintro ⟨rfl, h⟩
    exact hempty h

theorem getElem?_trials_receive_of_ne (hne : i ≠ o.index) :
    (r.receive o).trials[i]? = r.trials[i]? := by
  rw [getElem?_trials_receive, if_neg fun h => hne h.1]

/-- The outcomes of two trials can change places. -/
theorem receive_comm (hne : o.index ≠ o'.index) (r : Run) :
    (r.receive o).receive o' = (r.receive o').receive o := by
  have hslot := getElem?_trials_receive_of_ne (r := r) hne
  have hslot' := getElem?_trials_receive_of_ne (r := r) hne.symm
  -- Neither outcome changes whether the other one finds an empty slot.
  by_cases hempty : r.trials[o.index]? = some none
  · by_cases hempty' : r.trials[o'.index]? = some none
    · rw [receive_of_empty (hslot'.trans hempty'), receive_of_empty (hslot.trans hempty),
        receive_of_empty hempty, receive_of_empty hempty']
      dsimp only
      rw [List.set_comm _ _ hne]
      split_ifs <;> rfl
    · rw [receive_of_not_empty (r := r) hempty']
      refine receive_of_not_empty ?_
      rw [hslot']
      exact hempty'
  · rw [receive_of_not_empty hempty]
    refine (receive_of_not_empty ?_).symm
    rw [hslot]
    exact hempty

/-! ### Sequences of outcomes -/

theorem Aggregator.run_recordAll (a : Aggregator) (os : List Outcome) :
    (a.recordAll os).run = os.foldl receive a.run := by
  induction os generalizing a with
  | nil => rfl
  | cons o os ih =>
      rw [List.foldl_cons, receive, ← Aggregator.run_record]
      exact ih (a.record o)

theorem foldl_receive_of_perm (distinct : (os.map Outcome.index).Nodup) (h : os.Perm os')
    (r : Run) : os.foldl receive r = os'.foldl receive r := by
  refine h.foldl_eq' (fun o ho o' ho' r => ?_) r
  -- The trials are different, so two outcomes of one trial are one outcome.
  by_cases hindex : o.index = o'.index
  · obtain rfl := List.inj_on_of_nodup_map distinct ho ho' hindex
    rfl
  · exact receive_comm hindex r

/-- Each slot that was empty has got the first outcome of its trial. -/
theorem getElem?_trials_foldl_receive (os : List Outcome) (r : Run) (i : Nat) :
    (os.foldl receive r).trials[i]? =
      if r.trials[i]? = some none then
        some ((os.find? fun o => o.index == i).map Outcome.timings)
      else r.trials[i]? := by
  induction os generalizing r with
  | nil =>
      split_ifs with hempty
      · exact hempty
      · rfl
  | cons o os ih =>
      rw [List.foldl_cons, ih, getElem?_trials_receive]
      by_cases hi : i = o.index
      · subst hi
        by_cases hempty : r.trials[o.index]? = some none <;> simp [hempty]
      · have hother : (o.index == i) = false := by simpa using Ne.symm hi
        simp [hi, hother]

theorem Counted.receive (h : Counted r) (o : Outcome) : Counted (r.receive o) := by
  rw [Run.receive]
  cases hrecord : r.record? o.index o.timings with
  | none => exact h
  | some r' => exact h.record? hrecord

theorem Counted.foldl_receive (h : Counted r) (os : List Outcome) :
    Counted (os.foldl Run.receive r) := by
  induction os generalizing r with
  | nil => exact h
  | cons o os ih => exact ih (h.receive o)

/-! ### What can be told from a run -/

structure SameRecords (a b : Run) : Prop where
  trials : a.trials = b.trials
  success : a.successCount = b.successCount
  failed : a.failedCount = b.failedCount
  stats : a.stats = b.stats
  as_baseline : ∀ c, a.compare c = b.compare c
  as_candidate : ∀ c : Run, c.compare a = c.compare b

/-- Outcomes of different trials may arrive in any order: in the end each of them is in its slot,
the counters agree with the slots, and so do the statistics and all comparisons. -/
theorem Aggregator.recordAll_of_perm (distinct : (os.map Outcome.index).Nodup)
    (h : os.Perm os') (r : Run) (journal journal' : Journal) :
    SameRecords ((Aggregator.start r journal).recordAll os).run
        ((Aggregator.start r journal').recordAll os').run ∧
      (∀ i, ((Aggregator.start r journal).recordAll os).run.trials[i]? =
        if r.trials[i]? = some none then
          some ((os.find? fun o => o.index == i).map Outcome.timings)
        else r.trials[i]?) ∧
      (Counted r → Counted ((Aggregator.start r journal).recordAll os).run) := by
  have hsame : ((Aggregator.start r journal).recordAll os).run =
      ((Aggregator.start r journal').recordAll os').run := by
    rw [run_recordAll, run_recordAll]
    exact foldl_receive_of_perm distinct h r
  refine ⟨?_, fun i => ?_, fun hcounted => ?_⟩
  · rw [hsame]
    exact ⟨rfl, rfl, rfl, rfl, fun _ => rfl, fun _ => rfl⟩
  · rw [run_recordAll]
    exact getElem?_trials_foldl_receive os r i
  · rw [run_recordAll]
    exact hcounted.foldl_receive os

/-- A failure and a success that arrive in either order. -/
theorem recordAll_of_swapped_failure :
    let r := Run.fresh .nil .epoch "t" "c" "u" 3
    let o : Outcome := ⟨2, .error ⟨.zero, .timeout .zero⟩⟩
    let o' : Outcome := ⟨0, .ok { Timings.zero with success := true }⟩
    ([o, o'].map Outcome.index).Nodup ∧ [o, o'].Perm [o', o] ∧
      SameRecords ((Aggregator.start r (.start none)).recordAll [o, o']).run
        ((Aggregator.start r (.start none)).recordAll [o', o]).run := by
  intro r o o'
  have hdistinct : ([o, o'].map Outcome.index).Nodup := by simp [o, o']
  have hperm : [o, o'].Perm [o', o] := List.Perm.swap o' o []
  exact ⟨hdistinct, hperm, (Aggregator.recordAll_of_perm hdistinct hperm r _ _).1⟩

end ProxyTiming.Run
