import ProxyTiming.Proofs.Run.Places

/-!
# What becomes of the trials

Suppose that it is settled beforehand how each trial ends: with a result, or by ending its
worker.  Then what a run comes to does not depend on anything else, except for the number
of trials that it has admitted.  Each of these has the record of its own result in its own
slot, or an empty slot if it has none; all other slots are empty; and the counters and the
status follow.

The order of the parties decides when an outcome is where.  It never decides what the
outcome is, and that is the invariant: wherever a result is found, it is that of the trial
whose number goes with it.
-/

namespace ProxyTiming.Run

open ProxyTiming.Time

/-- Whether a step lets a trial end as it is fated to: with a result, or without one. -/
def Label.Obeys (fate : Nat → Option (Except TrialFailure Timings)) : Label → Prop
  | .complete index result => fate index = some result
  | .panic index => fate index = none
  | _ => True

namespace Engine

/-- Wherever the result of a trial is, it is the one that the trial was fated to have. -/
structure Faithful (fate : Nat → Option (Except TrialFailure Timings)) (e : Engine) : Prop where
  returned : ∀ w ∈ e.workers, ∀ result, w.stage = .returned result → fate w.index = some result
  queued : ∀ o ∈ e.queue, fate o.index = some o.result
  recorded : ∀ i t, e.run.trials[i]? = some (some t) → (fate i).map recordOf = some t

variable {fate : Nat → Option (Except TrialFailure Timings)} {e e' : Engine} {l : Label}
  {ls : List Label} {index : Nat} {s : Stage}

theorem Faithful.start (p : Plan) (now : Instant) (cancelled : Bool) (journal : Journal) :
    (Engine.start p now cancelled journal).Faithful fate where
  returned := nofun
  queued := nofun
  recorded i t h := by
    have hmem : some t ∈ List.replicate p.count none := List.mem_of_getElem? h
    simp at hmem

theorem mem_workers_setStage {w : Worker} (h : w ∈ (e.setStage index s).workers) :
    w = ⟨index, s⟩ ∨ w ∈ e.workers := by
  obtain ⟨v, hv, rfl⟩ := List.mem_map.mp h
  split
  · exact .inl rfl
  · exact .inr hv

/-- A worker that goes on to a stage without a result keeps what is known about the results. -/
theorem Faithful.setStage (h : e.Faithful fate)
    (hs : ∀ result, s = .returned result → fate index = some result) :
    (e.setStage index s).Faithful fate where
  returned w hw result hresult := by
    obtain rfl | hw := mem_workers_setStage hw
    · exact hs result hresult
    · exact h.returned w hw result hresult
  queued := h.queued
  recorded := h.recorded

theorem Faithful.endWorker (h : e.Faithful fate) (ending : Ending) :
    (e.endWorker index ending).Faithful fate where
  returned w hw := h.returned w (List.mem_of_mem_filter hw)
  queued := h.queued
  recorded := h.recorded

theorem mem_workers_of_stage? (unique : (e.workers.map Worker.index).Nodup)
    (at_stage : e.stage? index = some s) : ⟨index, s⟩ ∈ e.workers :=
  (workers_perm unique at_stage).mem_iff.mpr List.mem_cons_self

theorem Faithful.fires {p : Plan} (hs : e.Sound p) (h : e.Faithful fate) (hl : l.Obeys fate)
    (r : e.Fires l e') : e'.Faithful fate := by
  cases r with
  | grant =>
      refine ⟨fun w hw result hresult => ?_, h.queued, h.recorded⟩
      obtain hw | hw := List.mem_append.mp hw
      · exact h.returned w hw result hresult
      · obtain rfl := List.mem_singleton.mp hw
        cases hresult
  | call | wake => exact h.setStage nofun
  | complete => exact h.setStage fun _ hresult => by cases hresult; exact hl
  | panic | retire => exact h.endWorker _
  | @handIn index result at_stage =>
      have hfate := h.returned _ (mem_workers_of_stage? hs.unique at_stage) result rfl
      have hqueue : ({ e with queue := e.queue ++ [Outcome.mk index result] } : Engine).Faithful
          fate := by
        refine ⟨h.returned, fun o ho => ?_, h.recorded⟩
        obtain ho | ho := List.mem_append.mp ho
        · exact h.queued o ho
        · obtain rfl := List.mem_singleton.mp ho
          exact hfate
      refine hqueue.setStage fun _ hresult => ?_
      cases hp : e.paced <;> simp [hp] at hresult
  | @deliver o rest queued =>
      refine ⟨h.returned, fun o' ho' => h.queued o' (queued ▸ List.mem_cons_of_mem o ho'), ?_⟩
      intro i t ht
      rw [run, Aggregator.run_record] at ht
      cases hrec : e.aggregator.run.record? o.index o.timings with
      | none =>
          rw [hrec] at ht
          exact h.recorded i t ht
      | some run =>
          rw [hrec, Option.getD_some, getElem?_trials_record? hrec] at ht
          split at ht
          · rename_i hi
            have hfate := h.queued o (queued ▸ List.mem_cons_self)
            rw [hi, hfate, Option.map_some, ← Outcome.timings_eq]
            exact Option.some.inj ht
          · exact h.recorded i t ht
  | _ => exact ⟨h.returned, h.queued, h.recorded⟩

theorem faithful_of_follow {p : Plan} {now : Instant} {cancelled : Bool} {journal : Journal}
    (h : (Engine.start p now cancelled journal).follow ls = some e)
    (obeys : ∀ l ∈ ls, l.Obeys fate) : e.Faithful fate := by
  refine follow_induction (P := fun ls e => (∀ l ∈ ls, l.Obeys fate) → e.Faithful fate)
    (fun _ => Faithful.start p now cancelled journal) ?_ h obeys
  intro ls e l e' hls hf r hobeys
  refine (hf fun l hl => hobeys l (List.mem_append_left _ hl)).fires (sound_of_follow hls) ?_ r
  exact hobeys l (List.mem_append_right _ (List.mem_singleton_self l))

end Engine

/-! ### The run in the end -/

/-- A trial that is fated to have a result never ends its worker. -/
theorem count_panicked_eq_zero {fate : Nat → Option (Except TrialFailure Timings)}
    {ls : List Label} (obeys : ∀ l ∈ ls, l.Obeys fate) {i : Nat} (h : fate i ≠ none) :
    (panicked ls).count i = 0 := by
  rw [List.count_eq_zero]
  intro hi
  obtain ⟨l, hl, hpanic⟩ := List.mem_filterMap.mp hi
  cases l with
  | panic index =>
      obtain rfl := Option.some.inj hpanic
      exact h (obeys _ hl)
  | _ => cases hpanic

/-- A run of `count` trials of which the first `k` have been executed, and have ended as they were
fated to. -/
structure Intact (count : Nat) (fate : Nat → Option (Except TrialFailure Timings)) (k : Nat)
    (r : Run) : Prop where
  length : r.trials.length = count
  le_count : k ≤ count
  /-- A trial that has been executed has its record in its slot, if there is a record. -/
  executed : ∀ i < k, r.trials[i]? = some ((fate i).map recordOf)
  /-- All other slots are empty. -/
  unexecuted : ∀ i, k ≤ i → i < count → r.trials[i]? = some none
  success : r.successCount = r.trials.countP isSuccess
  failed : r.failedCount = r.trials.countP isFailure
  returned : r.successCount + r.failedCount = r.trials.countP Option.isSome
  status : r.status = if k = count then .completed else .cancelled

theorem Counted.returned {r : Run} (h : Counted r) :
    r.successCount + r.failedCount = r.trials.countP Option.isSome := by
  rw [h.success, h.failed]
  induction r.trials with
  | nil => rfl
  | cons slot slots ih =>
      simp only [List.countP_cons]
      cases slot with
      | none => simpa [isSuccess, isFailure] using ih
      | some t => cases hs : t.success <;> simp [isSuccess, isFailure, hs] <;> omega

namespace Engine

variable {fate : Nat → Option (Except TrialFailure Timings)} {e : Engine} {ls : List Label}
  {p : Plan} {now : Instant} {cancelled : Bool} {journal : Journal}

/-- When nothing is left to do, every outcome has arrived. -/
theorem slot_of_isSettled (h : (Engine.start p now cancelled journal).follow ls = some e)
    (obeys : ∀ l ∈ ls, l.Obeys fate) (settled : e.isSettled = true) {i : Nat}
    (hi : i < e.dispatched) : e.run.trials[i]? = some ((fate i).map recordOf) := by
  have hs := sound_of_follow h
  have hf := faithful_of_follow h obeys
  have hsum := outcomes_conserved h i
  obtain ⟨-, hworkers, -, hqueue⟩ := (isSettled_iff e).mp settled
  rw [workersAt, hworkers, hqueue, if_pos hi] at hsum
  simp only [List.countP_nil, Nat.add_zero] at hsum
  have hlt : i < e.run.trials.length := by
    have hle := hs.dispatched_le
    rw [hs.slots]
    omega
  rw [List.getElem?_eq_getElem hlt]
  -- The trial is in its slot or has ended its worker: there is no other place left.
  cases hslot : e.run.trials[i] with
  | some t =>
      have hrec := hf.recorded i t (by rw [List.getElem?_eq_getElem hlt, hslot])
      rw [hrec]
  | none =>
      have hfilled : filled e.run i = 0 :=
        filled_eq_zero_of_empty (by rw [List.getElem?_eq_getElem hlt, hslot])
      have hnone : fate i = none := by
        by_contra hne
        have hzero := count_panicked_eq_zero obeys hne
        omega
      rw [hnone]
      rfl

theorem slot_of_undispatched (h : (Engine.start p now cancelled journal).follow ls = some e)
    {i : Nat} (hge : e.dispatched ≤ i) (hi : i < p.count) : e.run.trials[i]? = some none := by
  have hs := sound_of_follow h
  have hsum := outcomes_conserved h i
  rw [if_neg (by omega)] at hsum
  exact empty_of_filled_eq_zero (by rw [hs.slots, hs.count]; exact hi) (by omega)

/-- A run that is over is intact. -/
theorem intact_of_closed (h : (Engine.start p now cancelled journal).follow ls = some e)
    (obeys : ∀ l ∈ ls, l.Obeys fate) (closed : e.closed = true) :
    Intact p.count fate e.dispatched e.run := by
  have hs := sound_of_follow h
  obtain ⟨hsettled, hstatus⟩ := hs.finished closed
  have hle : e.dispatched ≤ p.count := hs.count ▸ hs.dispatched_le
  refine
    { length := hs.slots.trans hs.count
      le_count := hle
      executed := fun i hi => slot_of_isSettled h obeys hsettled hi
      unexecuted := fun i hge hi => slot_of_undispatched h hge hi
      success := hs.counted.success
      failed := hs.counted.failed
      returned := hs.counted.returned
      status := ?_ }
  rw [hstatus, finalStatus, hs.count]
  split_ifs <;> first | rfl | omega

/-- When nothing is left to do, the trials that have been admitted have been called, each once. -/
theorem called_perm_of_isSettled (h : (Engine.start p now cancelled journal).follow ls = some e)
    (settled : e.isSettled = true) : (called ls).Perm (List.range e.dispatched) := by
  rw [List.perm_iff_count]
  intro i
  have hsum := passage_callee.conserved h i
  obtain ⟨-, hworkers, -⟩ := (isSettled_iff e).mp settled
  rw [workersAt, hworkers, List.countP_nil, Nat.add_zero] at hsum
  rw [called, hsum, List.count_range]

end Engine

end ProxyTiming.Run
