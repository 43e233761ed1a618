import ProxyTiming.Proofs.Run.Arrival
import ProxyTiming.Proofs.Run.Observers
import ProxyTiming.Proofs.Run.Outcomes

/-!
# Which outcomes are accepted

Nothing is asked of the outcomes that come in: there may be several of one trial, and some of
trials that the run does not have.  An outcome is *accepted* if the run has its trial and none came
before it of the same one, which can be told from the outcomes alone.

The accepted outcomes are all that is left of a stream.  They are in the slots, the counters count
them, and one in so many of them is told, with what had been accepted until then.  Everything else
that comes in might as well not have come, wherever it comes.
-/

namespace ProxyTiming.Run

variable {r : Run} {count : Nat} {o : Outcome} {os : List Outcome}

/-! ### Acceptance -/

/-- An outcome is of a trial of the run, and there was none of this trial before. -/
def accepts (count : Nat) (before : List Outcome) (o : Outcome) : Bool :=
  decide (o.index < count) && before.all fun o' => o'.index != o.index

def acceptedAfter (count : Nat) (before : List Outcome) : List Outcome → List Outcome
  | [] => []
  | o :: os =>
    if accepts count before o then o :: acceptedAfter count (before ++ [o]) os
    else acceptedAfter count (before ++ [o]) os

def accepted (count : Nat) (os : List Outcome) : List Outcome := acceptedAfter count [] os

theorem acceptedAfter_concat (before os : List Outcome) (o : Outcome) :
    acceptedAfter count before (os ++ [o]) = acceptedAfter count before os ++
      if accepts count (before ++ os) o then [o] else [] := by
  induction os generalizing before with
  | nil => simp [acceptedAfter]
  | cons o' os ih =>
      have hbefore : before ++ o' :: os = before ++ [o'] ++ os := by simp
      rw [List.cons_append, acceptedAfter, acceptedAfter, ih, hbefore]
      split_ifs <;> rfl

theorem accepted_concat_of_accepts (h : accepts count os o = true) :
    accepted count (os ++ [o]) = accepted count os ++ [o] := by
  rw [accepted, acceptedAfter_concat, List.nil_append, if_pos h, accepted]

theorem accepted_concat_of_not_accepts (h : accepts count os o = false) :
    accepted count (os ++ [o]) = accepted count os := by
  rw [accepted, acceptedAfter_concat, List.nil_append, h, if_neg Bool.false_ne_true,
    List.append_nil, accepted]

theorem accepts_iff : accepts count os o = true ↔
    o.index < count ∧ os.find? (fun o' => o'.index == o.index) = none := by
  simp [accepts]

/-! ### What is told of the accepted outcomes -/

def succeeded (os : List Outcome) : Nat := os.countP fun o => o.timings.success

def failed (os : List Outcome) : Nat := os.countP fun o => !o.timings.success

/-- What there is to tell of the first so many accepted outcomes. -/
def milestone (count : Nat) (taken : List Outcome) (completed : Nat) : Event :=
  .progress completed (succeeded (taken.take completed)) (failed (taken.take completed)) count

def milestones (count : Nat) (taken : List Outcome) : List Event :=
  ((List.range' 1 taken.length).filter (isDueAt count)).map (milestone count taken)

def news (count : Nat) (taken : List Outcome) : List Event :=
  if isDueAt count taken.length then [milestone count taken taken.length] else []

theorem milestone_concat {completed : Nat} (taken : List Outcome) (o : Outcome)
    (h : completed ≤ taken.length) :
    milestone count (taken ++ [o]) completed = milestone count taken completed := by
  rw [milestone, milestone, List.take_append_of_le_length h]

theorem milestones_concat (taken : List Outcome) (o : Outcome) :
    milestones count (taken ++ [o]) = milestones count taken ++ news count (taken ++ [o]) := by
  have hrange : List.range' 1 (taken ++ [o]).length =
      List.range' 1 taken.length ++ [(taken ++ [o]).length] := by
    rw [List.length_append, List.length_singleton, List.range'_concat, Nat.one_mul, Nat.add_comm]
  have hearlier : ((List.range' 1 taken.length).filter (isDueAt count)).map
      (milestone count (taken ++ [o])) = milestones count taken := by
    refine List.map_congr_left fun completed hmem => milestone_concat taken o ?_
    have hle := List.mem_range'_1.mp (List.mem_filter.mp hmem).1
    omega
  rw [milestones, hrange, List.filter_append, List.map_append, hearlier, news]
  cases hdue : isDueAt count (taken ++ [o]).length with
  | true => rw [List.filter_cons_of_pos hdue, if_pos rfl, List.filter_nil, List.map_singleton]
  | false =>
      rw [List.filter_cons_of_neg (Bool.eq_false_iff.mp hdue), if_neg Bool.false_ne_true]
      rfl

/-! ### A run that takes them in -/

structure Unfilled (r : Run) : Prop where
  trials : r.trials = List.replicate r.totalCount none
  success : r.successCount = 0
  failed : r.failedCount = 0

theorem unfilled_fresh (id : Uuid) (now : Time.Instant) (testName proxyName targetUrl : String)
    (count : Nat) : Unfilled (Run.fresh id now testName proxyName targetUrl count) :=
  ⟨rfl, rfl, rfl⟩

theorem Unfilled.counted (h : r.Unfilled) : Counted r :=
  counted_of_empty h.trials h.success h.failed

theorem Unfilled.getElem?_trials (h : r.Unfilled) (i : Nat) :
    r.trials[i]? = if i < r.totalCount then some none else none := by
  rw [h.trials, List.getElem?_replicate]

structure Filled (r : Run) (os : List Outcome) (r' : Run) : Prop where
  total : r'.totalCount = r.totalCount
  slots : r'.trials.length = r.totalCount
  slot : ∀ i < r.totalCount,
    r'.trials[i]? = some ((os.find? fun o => o.index == i).map Outcome.timings)
  success : r'.successCount = succeeded (accepted r.totalCount os)
  failed : r'.failedCount = failed (accepted r.totalCount os)

namespace Filled

variable {r' : Run}

theorem zero (h : r.Unfilled) : Filled r [] r where
  total := rfl
  slots := by rw [h.trials, List.length_replicate]
  slot i hi := by rw [h.getElem?_trials, if_pos hi]; rfl
  success := h.success
  failed := h.failed

theorem completedCount_eq (h : Filled r os r') :
    r'.completedCount = (accepted r.totalCount os).length := by
  rw [completedCount, h.success, h.failed,
    List.length_eq_countP_add_countP fun o : Outcome => o.timings.success]
  simp [succeeded, Run.failed]

theorem empty_iff (h : Filled r os r') (o : Outcome) :
    r'.trials[o.index]? = some none ↔ accepts r.totalCount os o = true := by
  rw [accepts_iff]
  by_cases hi : o.index < r.totalCount
  · rw [h.slot o.index hi]
    simp [hi]
  · have hle : r'.trials.length ≤ o.index := by
      rw [h.slots]
      exact Nat.le_of_not_lt hi
    simp [hi, List.getElem?_eq_none hle]

theorem receive_of_not_accepts (h : Filled r os r') (ho : accepts r.totalCount os o = false) :
    r'.receive o = r' := by
  refine Run.receive_of_not_empty fun hempty => ?_
  rw [(h.empty_iff o).mp hempty] at ho
  cases ho

theorem receive (h : Filled r os r') (o : Outcome) : Filled r (os ++ [o]) (r'.receive o) := by
  have hslot (i : Nat) (hi : i < r.totalCount) : (r'.receive o).trials[i]? =
      some (((os ++ [o]).find? fun o => o.index == i).map Outcome.timings) := by
    have hfold := getElem?_trials_foldl_receive [o] r' i
    rw [List.foldl_cons, List.foldl_nil, h.slot i hi] at hfold
    rw [hfold, List.find?_append]
    cases os.find? fun o => o.index == i <;> simp
  cases ho : accepts r.totalCount os o with
  | false =>
      rw [h.receive_of_not_accepts ho] at hslot ⊢
      have hsame := accepted_concat_of_not_accepts ho
      exact ⟨h.total, h.slots, hslot, hsame ▸ h.success, hsame ▸ h.failed⟩
  | true =>
      have hempty := (h.empty_iff o).mpr ho
      have hmore := accepted_concat_of_accepts ho
      rw [Run.receive_of_empty hempty] at hslot ⊢
      refine ⟨h.total, ?_, hslot, ?_, ?_⟩
      · rw [List.length_set, h.slots]
      · rw [hmore, succeeded, List.countP_append, List.countP_singleton, h.success]
        split_ifs <;> rfl
      · rw [hmore, Run.failed, List.countP_append, List.countP_singleton, h.failed]
        cases o.timings.success <;> rfl

/-- What there is to tell of a run is what there is to tell of the accepted outcomes. -/
theorem reportOf_some (h : Filled r os r') :
    reportOf (some r') = news r.totalCount (accepted r.totalCount os) := by
  have hdue : Aggregator.isReportDue r' =
      isDueAt r.totalCount (accepted r.totalCount os).length := by
    rw [← h.completedCount_eq, ← h.total]
    rfl
  have hevent : r'.progress =
      milestone r.totalCount (accepted r.totalCount os) (accepted r.totalCount os).length := by
    rw [milestone, List.take_length, progress, h.completedCount_eq, h.success, h.failed, h.total]
  rw [reportOf, hdue, hevent, news]

theorem observer_record {a : Aggregator} (h : Filled r os a.run) (o : Outcome) :
    (a.record o).journal.observer = a.journal.observer.map (·.listen
      (if accepts r.totalCount os o then news r.totalCount (accepted r.totalCount (os ++ [o]))
        else [])) := by
  have hreceive := h.receive o
  rw [Aggregator.observer_record]
  cases ho : accepts r.totalCount os o with
  | true =>
      have hrecord := record?_of_empty ((h.empty_iff o).mpr ho) (t := o.timings)
      rw [Run.receive, hrecord, Option.getD_some] at hreceive
      rw [hrecord, hreceive.reportOf_some, if_pos rfl]
  | false =>
      have hrecord : a.run.record? o.index o.timings = none := by
        by_contra hsome
        obtain ⟨r'', hr''⟩ := Option.ne_none_iff_exists'.mp hsome
        rw [(h.empty_iff o).mp (empty_of_record?_eq_some hr'')] at ho
        cases ho
      rw [hrecord]
      rfl

end Filled

/-! ### A stream of outcomes -/

namespace Aggregator

theorem recordAll_concat (a : Aggregator) (os : List Outcome) (o : Outcome) :
    a.recordAll (os ++ [o]) = (a.recordAll os).record o := by
  rw [recordAll, List.foldl_concat, recordAll]

theorem filled_recordAll (h : r.Unfilled) (journal : Journal) (os : List Outcome) :
    Filled r os ((start r journal).recordAll os).run := by
  induction os using List.reverseRecOn with
  | nil => exact .zero h
  | append_singleton os o ih =>
      rw [recordAll_concat, run_record]
      exact ih.receive o

/-- The observer of a stream of outcomes is told the milestones of those that are accepted. -/
theorem observer_recordAll (h : r.Unfilled) (journal : Journal) (os : List Outcome) :
    ((start r journal).recordAll os).journal.observer =
      journal.observer.map (·.listen (milestones r.totalCount (accepted r.totalCount os))) := by
  induction os using List.reverseRecOn with
  | nil => exact Option.map_id'.symm
  | append_singleton os o ih =>
      rw [recordAll_concat, (filled_recordAll h journal os).observer_record, ih, Option.map_map]
      congr 1
      funext o'
      cases ho : accepts r.totalCount os o with
      | true =>
          rw [accepted_concat_of_accepts ho, milestones_concat]
          exact (List.foldl_append).symm
      | false =>
          rw [accepted_concat_of_not_accepts ho]
          rfl

end Aggregator

/-- What is known of a run, and of what was told, when some outcomes have come in. -/
structure Aggregated (r : Run) (journal : Journal) (os : List Outcome) (a : Aggregator) : Prop where
  /-- The first outcome of each trial is in its slot, and the counters count the accepted ones. -/
  filled : Filled r os a.run
  /-- They are as many as the filled slots, with success and without. -/
  counted : Counted a.run
  within : a.run.completedCount ≤ r.totalCount
  /-- An outcome of a trial that has come in, or that there is not, makes no difference. -/
  dropped : ∀ o, (r.totalCount ≤ o.index ∨ ∃ o' ∈ os, o'.index = o.index) →
    (a.record o).run = a.run ∧ (a.record o).journal.observer = a.journal.observer
  /-- All that has been told are the milestones of the accepted outcomes. -/
  told : a.journal.observer =
    journal.observer.map (·.listen (milestones r.totalCount (accepted r.totalCount os)))
  /-- Whatever the observer has done by then, the next thing told is the next milestone. -/
  told_next : ∀ o j, ({ a with journal := j }.record o).journal.observer =
    j.observer.map (·.listen (if accepts r.totalCount os o then
      news r.totalCount (accepted r.totalCount (os ++ [o])) else []))

theorem Counted.completedCount_le (h : Counted r) : r.completedCount ≤ r.trials.length := by
  rw [completedCount, h.returned]
  exact List.countP_le_length

theorem not_accepts_iff : accepts count os o = false ↔
    count ≤ o.index ∨ ∃ o' ∈ os, o'.index = o.index := by
  simp only [accepts, Bool.and_eq_false_iff, decide_eq_false_iff_not, Nat.not_lt,
    List.all_eq_false, bne_iff_ne, ne_eq, not_not]

/-- A run takes the first outcome of each of its trials in, whatever comes with it, and tells how
far it has come by these alone. -/
theorem Aggregator.recordAll_accepts (h : r.Unfilled) (journal : Journal) (os : List Outcome) :
    Aggregated r journal os ((Aggregator.start r journal).recordAll os) := by
  have hfilled := filled_recordAll h journal os
  have hcounted : Counted ((Aggregator.start r journal).recordAll os).run := by
    rw [run_recordAll]
    exact h.counted.foldl_receive os
  refine ⟨hfilled, hcounted, ?_, fun o ho => ?_, observer_recordAll h journal os, fun o j => ?_⟩
  · rw [← hfilled.slots]
    exact hcounted.completedCount_le
  · have hrejected := not_accepts_iff.mpr ho
    refine ⟨?_, ?_⟩
    · rw [run_record]
      exact hfilled.receive_of_not_accepts hrejected
    · rw [hfilled.observer_record, hrejected]
      exact Option.map_id'
  · let a := { (Aggregator.start r journal).recordAll os with journal := j }
    exact Filled.observer_record (a := a) hfilled o

/-- Of five outcomes of a run of three trials one is of a trial that there is not, and one is of a
trial whose outcome has come before. -/
theorem recordAll_accepts_three_of_five :
    let r := Run.fresh .nil .epoch "t" "c" "u" 3
    let good : Timings := { Timings.zero with success := true }
    let os : List Outcome := [⟨2, .error ⟨.zero, .timeout .zero⟩⟩, ⟨3, .ok good⟩, ⟨2, .ok good⟩,
      ⟨0, .ok good⟩, ⟨1, .ok good⟩]
    let journal : Journal := .start (some (.ofCapacity 1))
    r.Unfilled ∧ milestones 3 (accepted 3 os) = [.progress 3 2 1 3] ∧
      Aggregated r journal os ((Aggregator.start r journal).recordAll os) := by
  intro r good os journal
  have hunfilled : r.Unfilled := unfilled_fresh _ _ _ _ _ 3
  exact ⟨hunfilled, by decide, Aggregator.recordAll_accepts hunfilled journal os⟩

end ProxyTiming.Run
