import ProxyTiming.Proofs.Run.Sound

/-!
# Where each trial is

Outcomes travel: from the trial to its worker, from there into the queue, and through the
aggregator into a slot.  On that way none may be lost, none may be doubled, and none may
end up in the slot of another trial, in whatever order the parties act.

The law behind it is one of conservation.  A worker goes through the stages of its life in
one direction, and a step takes it at most from one stage to the next.  Choose some of the
stages, the first one among them.  Then each trial that has been admitted has a worker in
one of these stages, or the history tells by which step the worker has left them, and that
step has been taken once.

This law is proved once, and different choices of stages say different things.  With the
first stage alone it says that each trial is called once.  With all stages it says that each
permit is given back once.  With the stages in which a worker owes an outcome it says that
each outcome is handed in once, and from there the queue and the slots carry on.
-/

namespace ProxyTiming.Run

open ProxyTiming.Time

/-! ### How workers move -/

/-- The steps that take a worker from a stage to the next one, or to its end. -/
inductive Label.Moves : Label → Nat → Stage → Option Stage → Prop where
  | call (index : Nat) : Moves (.call index) index .admitted (some .executing)
  | complete (index : Nat) (result : Except TrialFailure Timings) :
      Moves (.complete index result) index .executing (some (.returned result))
  | panic (index : Nat) : Moves (.panic index) index .executing none
  | handIn (index : Nat) (result : Except TrialFailure Timings) (paced : Bool) :
      Moves (.handIn index) index (.returned result) (some (if paced then .pacing else .leaving))
  | wake (index : Nat) : Moves (.wake index) index .pacing (some .leaving)
  | retire (index : Nat) : Moves (.retire index) index .leaving none

namespace Engine

variable {e e' : Engine} {l : Label} {index : Nat} {s : Stage}

/-- What a step does to the workers: it moves one of them and leaves the others alone, or it adds
one, or it does nothing to them. -/
theorem workers_of_fires (unique : (e.workers.map Worker.index).Nodup) (r : e.Fires l e') :
    (∃ i s s', l.Moves i s s' ∧ e'.dispatched = e.dispatched ∧
      e.workers.Perm (⟨i, s⟩ :: e.others i) ∧
      e'.workers.Perm (s'.toList.map (Worker.mk i) ++ e.others i)) ∨
    (∀ i s s', ¬l.Moves i s s') ∧
      ((e'.dispatched = e.dispatched + 1 ∧
        e'.workers = e.workers ++ [⟨e.dispatched, .admitted⟩]) ∨
      (e'.dispatched = e.dispatched ∧ e'.workers = e.workers)) := by
  cases r with
  | @call index at_stage =>
      exact .inl ⟨index, _, _, .call index, rfl, workers_perm unique at_stage,
        workers_setStage_perm unique at_stage⟩
  | @complete index result at_stage =>
      exact .inl ⟨index, _, _, .complete index result, rfl, workers_perm unique at_stage,
        workers_setStage_perm unique at_stage⟩
  | @panic index at_stage =>
      exact .inl ⟨index, _, none, .panic index, rfl, workers_perm unique at_stage,
        List.Perm.refl (e.others index)⟩
  | @handIn index result at_stage =>
      have hafter := workers_afterHandIn_perm unique at_stage result
      exact .inl ⟨index, _, some (if e.paced then .pacing else .leaving),
        .handIn index result e.paced, rfl, workers_perm unique at_stage, hafter⟩
  | @wake index at_stage =>
      exact .inl ⟨index, _, _, .wake index, rfl, workers_perm unique at_stage,
        workers_setStage_perm unique at_stage⟩
  | @retire index at_stage =>
      exact .inl ⟨index, _, none, .retire index, rfl, workers_perm unique at_stage,
        List.Perm.refl (e.others index)⟩
  | grant => exact .inr ⟨by rintro i s s' ⟨⟩, .inl ⟨rfl, rfl⟩⟩
  | _ => exact .inr ⟨by rintro i s s' ⟨⟩, .inr ⟨rfl, rfl⟩⟩

def workersAt (e : Engine) (i : Nat) (inside : Stage → Bool) : Nat :=
  e.workers.countP fun w => w.index == i && inside w.stage

end Engine

/-! ### Conservation -/

/-- The history tells, in some steps, which worker leaves some of the stages for good. -/
structure Passage (inside : Stage → Bool) (exit? : Label → Option Nat) : Prop where
  /-- Every worker starts inside. -/
  admitted : inside .admitted = true
  /-- No worker comes in from the outside. -/
  outward : ∀ {l i s s'}, Label.Moves l i s s' → s'.any inside = true → inside s = true
  /-- The steps that are told are those in which a worker goes out. -/
  told : ∀ {l i s s'}, Label.Moves l i s s' →
    exit? l = if inside s = true ∧ s'.any inside = false then some i else none
  silent : ∀ {l}, (∀ i s s', ¬Label.Moves l i s s') → exit? l = none

theorem filterMap_concat (f : Label → Option Nat) (ls : List Label) (l : Label) :
    (ls ++ [l]).filterMap f = ls.filterMap f ++ (f l).toList := by
  cases h : f l <;> simp [h]

namespace Passage

open Engine

variable {inside : Stage → Bool} {exit? : Label → Option Nat} {e e' : Engine} {l : Label}
  {ls : List Label}

theorem workersAt_of_fires (h : Passage inside exit?)
    (unique : (e.workers.map Worker.index).Nodup) (r : e.Fires l e') (i : Nat) :
    (exit? l).toList.count i + e'.workersAt i inside + (if i < e.dispatched then 1 else 0) =
      e.workersAt i inside + if i < e'.dispatched then 1 else 0 := by
  unfold workersAt
  obtain ⟨index, s, s', hmove, hdispatched, hbefore, hafter⟩ | ⟨hstill, hrest⟩ :=
    workers_of_fires unique r
  · have hout := h.outward hmove
    rw [h.told hmove, hdispatched, hbefore.countP_eq, hafter.countP_eq, List.countP_append,
      List.countP_cons]
    -- The others count the same before and after; what is left is the worker that moves.
    cases s' with
    | none =>
        cases hs : inside s with
        | false => simp
        | true =>
            simp [List.count_singleton]
            omega
    | some s' =>
        cases hs : inside s <;> cases hs' : inside s' <;>
          simp_all [List.count_singleton] <;> omega
  · rw [h.silent hstill]
    obtain ⟨hdispatched, hworkers⟩ | ⟨hdispatched, hworkers⟩ := hrest
    · rw [hdispatched, hworkers, List.countP_append, List.countP_singleton]
      simp only [Option.toList_none, List.count_nil, h.admitted, Bool.and_true, beq_iff_eq]
      split_ifs <;> omega
    · rw [hdispatched, hworkers]
      simp

/-- Each trial that has been admitted has a worker inside, or its worker has gone out once. -/
theorem conserved (h : Passage inside exit?) {p : Plan} {now : Instant} {cancelled : Bool}
    {journal : Journal} (hls : (Engine.start p now cancelled journal).follow ls = some e)
    (i : Nat) :
    (ls.filterMap exit?).count i + e.workersAt i inside = if i < e.dispatched then 1 else 0 := by
  refine follow_induction (P := fun ls e => (ls.filterMap exit?).count i + e.workersAt i inside =
    if i < e.dispatched then 1 else 0) rfl ?_ hls
  intro ls e l e' hls hsum r
  have hmove := h.workersAt_of_fires (sound_of_follow hls).unique r i
  rw [filterMap_concat, List.count_append]
  omega

end Passage

/-! ### Four passages -/

def Label.callee? : Label → Option Nat
  | .call index => some index
  | _ => none

def Label.finisher? : Label → Option Nat
  | .complete index _ => some index
  | .panic index => some index
  | _ => none

/-- The trial whose worker owes no outcome any more after a step. -/
def Label.settler? : Label → Option Nat
  | .panic index => some index
  | .handIn index => some index
  | _ => none

def Label.releaser? : Label → Option Nat
  | .panic index => some index
  | .retire index => some index
  | _ => none

def Stage.isUncalled : Stage → Bool
  | .admitted => true
  | _ => false

def Stage.isUnfinished : Stage → Bool
  | .admitted => true
  | .executing => true
  | _ => false

def Stage.isOwing : Stage → Bool
  | .admitted => true
  | .executing => true
  | .returned _ => true
  | _ => false

theorem passage_callee : Passage Stage.isUncalled Label.callee? where
  admitted := rfl
  outward hmove := by
    cases hmove with
    | handIn index result paced => cases paced <;> simp [Stage.isUncalled]
    | _ => simp [Stage.isUncalled]
  told hmove := by cases hmove <;> simp [Stage.isUncalled, Label.callee?]
  silent {l} hstill := by
    cases l with
    | call index => exact absurd (.call index) (hstill _ _ _)
    | _ => rfl

theorem passage_finisher : Passage Stage.isUnfinished Label.finisher? where
  admitted := rfl
  outward hmove := by
    cases hmove with
    | handIn index result paced => cases paced <;> simp [Stage.isUnfinished]
    | _ => simp [Stage.isUnfinished]
  told hmove := by cases hmove <;> simp [Stage.isUnfinished, Label.finisher?]
  silent {l} hstill := by
    cases l with
    | complete index result => exact absurd (.complete index result) (hstill _ _ _)
    | panic index => exact absurd (.panic index) (hstill _ _ _)
    | _ => rfl

theorem passage_settler : Passage Stage.isOwing Label.settler? where
  admitted := rfl
  outward hmove := by cases hmove <;> simp [Stage.isOwing]
  told hmove := by
    cases hmove with
    | handIn index result paced => cases paced <;> simp [Stage.isOwing, Label.settler?]
    | _ => simp [Stage.isOwing, Label.settler?]
  silent {l} hstill := by
    cases l with
    | panic index => exact absurd (.panic index) (hstill _ _ _)
    | handIn index => exact absurd (.handIn index (.ok .zero) true) (hstill _ _ _)
    | _ => rfl

theorem passage_releaser : Passage (fun _ => true) Label.releaser? where
  admitted := rfl
  outward _ _ := rfl
  told hmove := by cases hmove <;> simp [Label.releaser?]
  silent {l} hstill := by
    cases l with
    | panic index => exact absurd (.panic index) (hstill _ _ _)
    | retire index => exact absurd (.retire index) (hstill _ _ _)
    | _ => rfl

/-! ### From the worker to the slot -/

def Label.panicker? : Label → Option Nat
  | .panic index => some index
  | _ => none

def Label.handler? : Label → Option Nat
  | .handIn index => some index
  | _ => none

def called (ls : List Label) : List Nat := ls.filterMap Label.callee?

def finished (ls : List Label) : List Nat := ls.filterMap Label.finisher?

def panicked (ls : List Label) : List Nat := ls.filterMap Label.panicker?

def handedIn (ls : List Label) : List Nat := ls.filterMap Label.handler?

def released (ls : List Label) : List Nat := ls.filterMap Label.releaser?

theorem called_concat (ls : List Label) (l : Label) :
    called (ls ++ [l]) = called ls ++ l.callee?.toList := filterMap_concat _ ls l

/-- A worker owes no outcome any more when it has handed it in, or has been ended by its trial. -/
theorem count_settled (ls : List Label) (i : Nat) :
    (ls.filterMap Label.settler?).count i = (panicked ls).count i + (handedIn ls).count i := by
  rw [panicked, handedIn]
  induction ls with
  | nil => rfl
  | cons l ls ih =>
      cases l with
      | panic index | handIn index =>
          simp only [List.filterMap_cons, Label.settler?, Label.panicker?, Label.handler?,
            List.count_cons]
          omega
      | _ => exact ih

def filled (r : Run) (i : Nat) : Nat :=
  match r.trials[i]? with
  | some (some _) => 1
  | _ => 0

theorem filled_eq_zero_of_empty {r : Run} {i : Nat} (h : r.trials[i]? = some none) :
    filled r i = 0 := by
  simp [filled, h]

theorem empty_of_filled_eq_zero {r : Run} {i : Nat} (hi : i < r.trials.length)
    (h : filled r i = 0) : r.trials[i]? = some none := by
  unfold filled at h
  rw [List.getElem?_eq_getElem hi] at h ⊢
  cases hslot : r.trials[i] with
  | none => rfl
  | some t => simp [hslot] at h

theorem filled_record? {r r' : Run} {index : Nat} {t : Timings}
    (h : r.record? index t = some r') (i : Nat) :
    filled r' i = filled r i + if index = i then 1 else 0 := by
  have hempty := filled_eq_zero_of_empty (empty_of_record?_eq_some h)
  unfold filled at hempty ⊢
  rw [getElem?_trials_record? h]
  by_cases hi : i = index
  · subst hi
    simp [hempty]
  · simp [hi, Ne.symm hi]

namespace Engine

variable {p : Plan} {now : Instant} {cancelled : Bool} {journal : Journal} {e : Engine}
  {ls : List Label}

theorem filled_start (i : Nat) : filled (Engine.start p now cancelled journal).run i = 0 := by
  rw [filled]
  split
  · rename_i t h
    have hmem : some t ∈ List.replicate p.count none := List.mem_of_getElem? h
    simp at hmem
  · rfl

/-- Whatever is queued belongs to a trial that has been admitted, and whose slot is empty. -/
theorem slot_empty (h : (Engine.start p now cancelled journal).follow ls = some e) {o : Outcome}
    {rest : List Outcome} (queued : e.queue = o :: rest)
    (hsum : (handedIn ls).count o.index =
      (e.queue.countP fun o' => o'.index == o.index) + filled e.run o.index) :
    e.run.trials[o.index]? = some none := by
  have hs := sound_of_follow h
  have hsettled := passage_settler.conserved h o.index
  rw [count_settled, hsum, queued, List.countP_cons_of_pos (by simp)] at hsettled
  have hlt : o.index < e.dispatched := by
    by_contra hge
    rw [if_neg hge] at hsettled
    omega
  rw [if_pos hlt] at hsettled
  have hle := hs.dispatched_le
  exact empty_of_filled_eq_zero (by rw [hs.slots]; omega) (by omega)

/-- An outcome that has been handed in is in the queue or in its slot. -/
theorem count_handedIn (h : (Engine.start p now cancelled journal).follow ls = some e) (i : Nat) :
    (handedIn ls).count i = (e.queue.countP fun o => o.index == i) + filled e.run i := by
  refine follow_induction (P := fun ls e => ∀ i, (handedIn ls).count i =
    (e.queue.countP fun o => o.index == i) + filled e.run i) ?_ ?_ h i
  · intro i
    rw [filled_start]
    rfl
  · intro ls e l e' hls hsum r i
    have hbefore := hsum i
    rw [handedIn, filterMap_concat, List.count_append, ← handedIn]
    cases r with
    | @handIn index result at_stage =>
        show _ + [index].count i =
          ((e.queue ++ [Outcome.mk index result]).countP fun o => o.index == i) + filled e.run i
        rw [List.countP_append, List.countP_singleton, List.count_singleton]
        simp only [beq_iff_eq]
        omega
    | @deliver o rest queued =>
        have hrecorded := record?_of_empty (slot_empty hls queued (hsum o.index)) (t := o.timings)
        rw [queued, List.countP_cons] at hbefore
        show _ + 0 = (rest.countP fun o => o.index == i) + filled (e.aggregator.record o).run i
        change e.aggregator.run.record? _ _ = _ at hrecorded
        rw [Aggregator.run_record, hrecorded, Option.getD_some, filled_record? hrecorded]
        change _ = _ + filled e.aggregator.run i at hbefore
        simp only [beq_iff_eq] at hbefore
        omega
    | _ => exact hbefore

/-- Each trial that has been admitted has ended its worker, or its outcome is with the worker, in
the queue or in its slot. -/
theorem outcomes_conserved (h : (Engine.start p now cancelled journal).follow ls = some e)
    (i : Nat) :
    (panicked ls).count i + e.workersAt i Stage.isOwing +
      (e.queue.countP fun o => o.index == i) + filled e.run i =
        if i < e.dispatched then 1 else 0 := by
  have hsettled := passage_settler.conserved h i
  have hhanded := count_handedIn h i
  rw [count_settled] at hsettled
  omega

end Engine

end ProxyTiming.Run
