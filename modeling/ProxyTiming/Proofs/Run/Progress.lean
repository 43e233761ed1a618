import ProxyTiming.Proofs.Run.Outcomes

/-!
# Every run ends

Two things together make a run end.  As long as it is not over, some party can take a step;
and every step of a party gets some of the work done that was there at the start, which
nobody makes more of.

The first is not obvious, because the parties wait for each other: the dispatcher waits for
permits, workers wait for room in the queue, and the aggregator waits for outcomes.  But
the aggregator waits only when the queue is empty, in which case there is room in it; so a
worker waits for nothing but its own trial and its own rest.  And when no worker lives, all
permits are free.
-/

namespace ProxyTiming.Run

open ProxyTiming.Time

/-! ### Kinds of steps -/

/-- Whether one of the parties takes a step.  Whoever cancels and whoever observes stands
outside. -/
def Label.isInner : Label → Bool
  | .cancel => false
  | .observe => false
  | .leave => false
  | _ => true

/-- Whether a step of a party waits neither for a trial nor for the clock. -/
def Label.isPrompt : Label → Bool
  | .complete _ _ => false
  | .panic _ => false
  | .wake _ => false
  | l => l.isInner

theorem Label.isInner_of_isPrompt {l : Label} (h : l.isPrompt = true) : l.isInner = true := by
  cases l <;> first | rfl | cases h

theorem Label.obeys_of_isPrompt {fate : Nat → Option (Except TrialFailure Timings)} {l : Label}
    (h : l.isPrompt = true) : l.Obeys fate := by
  cases l with
  | complete | panic => cases h
  | _ => trivial

theorem Stage.two_le_work (s : Stage) : 2 ≤ s.work := by
  cases s <;> simp [work]

/-- A permit more does not make more work for the dispatcher. -/
theorem Dispatcher.work_succ_le (d : Dispatcher) (permits : Nat) :
    d.work (permits + 1) ≤ d.work permits := by
  cases d with
  | reaching => cases permits <;> simp [work]
  | _ => exact Nat.le_refl _

namespace Engine

variable {e e' : Engine} {l : Label} {ls : List Label} {index : Nat} {s : Stage} {p : Plan}

/-! ### Some party can take a step -/

theorem stage?_of_mem {w : Worker} (unique : (e.workers.map Worker.index).Nodup)
    (hw : w ∈ e.workers) : e.stage? w.index = some w.stage := by
  rw [stage?, find?_of_mem Worker.index e.workers unique hw, Option.map_some]

/-- A worker that neither executes nor rests can go on, as long as there is room in the queue. -/
theorem exists_prompt_of_worker {w : Worker} (unique : (e.workers.map Worker.index).Nodup)
    (hw : w ∈ e.workers) (executing : w.stage ≠ .executing) (pacing : w.stage ≠ .pacing)
    (room : e.queue.length < queueCapacity) :
    ∃ l e', l.isPrompt = true ∧ e.Fires l e' := by
  have at_stage := stage?_of_mem unique hw
  cases hstage : w.stage with
  | admitted => exact ⟨_, _, rfl, .call (hstage ▸ at_stage)⟩
  | executing => exact absurd hstage executing
  | returned result => exact ⟨_, _, rfl, .handIn (hstage ▸ at_stage) room⟩
  | pacing => exact absurd hstage pacing
  | leaving => exact ⟨_, _, rfl, .retire (hstage ▸ at_stage)⟩

/-- A dispatcher with a free permit looks if it may, and stops if not. -/
theorem exists_prompt_of_idle (idle : e.dispatcher = .looking ∨ e.dispatcher = .waiting)
    (free : 0 < e.permits) : ∃ l e', l.isPrompt = true ∧ e.Fires l e' := by
  by_cases reason : e.cancelled = true ∨ e.count ≤ e.dispatched
  · exact ⟨_, _, rfl, .stop idle reason⟩
  · obtain ⟨uncancelled, left⟩ := not_or.mp reason
    have may : e.mayLook = true := by
      obtain h | h := idle <;> simp [mayLook, h, free]
    exact ⟨_, _, rfl, .look may (by simpa using uncancelled) (Nat.lt_of_not_le left)⟩

/-- With nobody living and nothing queued, it is the dispatcher's turn. -/
theorem exists_prompt_of_alone (free : 0 < e.permits) (workers : e.workers = [])
    (queue : e.queue = []) (running : e.closed = false) :
    ∃ l e', l.isPrompt = true ∧ e.Fires l e' := by
  cases hd : e.dispatcher with
  | looking => exact exists_prompt_of_idle (.inl hd) free
  | waiting => exact exists_prompt_of_idle (.inr hd) free
  | reaching => exact ⟨_, _, rfl, .grant hd free⟩
  | through =>
      cases hended : e.ended with
      | nil =>
          have settled : e.isSettled = true := (isSettled_iff e).mpr ⟨hd, workers, hended, queue⟩
          exact ⟨.close .epoch, _, rfl, .close settled running⟩
      | cons ending rest =>
          cases ending with
          | regular => exact ⟨_, _, rfl, .reapRegular hd hended⟩
          | panicked => exact ⟨_, _, rfl, .reapPanicked hd hended⟩

/-- Unless a trial is executed or a worker rests, some party can take a step that waits for
nothing. -/
theorem exists_prompt (hs : e.Sound p) (running : e.closed = false)
    (executing : ∀ w ∈ e.workers, w.stage ≠ .executing)
    (pacing : ∀ w ∈ e.workers, w.stage ≠ .pacing) :
    ∃ l e', l.isPrompt = true ∧ e.Fires l e' := by
  cases hqueue : e.queue with
  | cons o rest => exact ⟨_, _, rfl, .deliver hqueue⟩
  | nil =>
      cases hworkers : e.workers with
      | cons w ws =>
          have hw : w ∈ e.workers := hworkers ▸ List.mem_cons_self
          have room : e.queue.length < queueCapacity := by rw [hqueue]; decide
          exact exists_prompt_of_worker hs.unique hw (executing w hw) (pacing w hw) room
      | nil =>
          have free : 0 < e.permits := by
            have hsum := hs.permits
            have hwidth := p.strategy.one_le_width
            rw [hworkers, List.length_nil] at hsum
            omega
          exact exists_prompt_of_alone free hworkers hqueue running

/-- As long as a run is not over, some party can take a step, and a trial can end as it is fated
to. -/
theorem exists_inner (fate : Nat → Option (Except TrialFailure Timings)) (hs : e.Sound p)
    (running : e.closed = false) : ∃ l e', l.isInner = true ∧ l.Obeys fate ∧ e.Fires l e' := by
  by_cases executing : ∃ w ∈ e.workers, w.stage = .executing
  · obtain ⟨w, hw, hstage⟩ := executing
    have at_stage := hstage ▸ stage?_of_mem hs.unique hw
    cases hfate : fate w.index with
    | none => exact ⟨.panic w.index, _, rfl, hfate, .panic at_stage⟩
    | some result => exact ⟨.complete w.index result, _, rfl, hfate, .complete at_stage⟩
  by_cases pacing : ∃ w ∈ e.workers, w.stage = .pacing
  · obtain ⟨w, hw, hstage⟩ := pacing
    exact ⟨.wake w.index, _, rfl, trivial, .wake (hstage ▸ stage?_of_mem hs.unique hw)⟩
  obtain ⟨l, e', hl, r⟩ := exists_prompt hs running
    (fun w hw h => executing ⟨w, hw, h⟩) (fun w hw h => pacing ⟨w, hw, h⟩)
  exact ⟨l, e', Label.isInner_of_isPrompt hl, Label.obeys_of_isPrompt hl, r⟩

/-! ### Every step gets some work done -/

theorem workOf_append (ws ws' : List Worker) : workOf (ws ++ ws') = workOf ws + workOf ws' := by
  induction ws with
  | nil => simp [workOf]
  | cons w ws ih =>
      rw [List.cons_append, workOf, workOf, ih]
      omega

theorem workOf_of_perm {ws ws' : List Worker} (h : ws.Perm ws') : workOf ws = workOf ws' := by
  induction h with
  | nil => rfl
  | cons w _ ih => rw [workOf, workOf, ih]
  | swap w w' ws =>
      simp only [workOf]
      omega
  | trans _ _ ih ih' => exact ih.trans ih'

/-- The dispatcher goes on to something that leaves it less work. -/
theorem work_dispatcher_lt {d : Dispatcher}
    (hless : d.work e.permits < e.dispatcher.work e.permits) :
    ({ e with dispatcher := d } : Engine).work < e.work := by
  simp only [work]
  omega

/-- A worker goes on to another stage. -/
theorem work_setStage (unique : (e.workers.map Worker.index).Nodup)
    (at_stage : e.stage? index = some s) (s' : Stage) :
    (e.setStage index s').work + s.work = e.work + s'.work := by
  have hbefore := workOf_of_perm (workers_perm unique at_stage)
  have hperm : (e.setStage index s').workers.Perm (⟨index, s'⟩ :: e.others index) :=
    workers_setStage_perm unique at_stage
  have hafter := workOf_of_perm hperm
  rw [workOf] at hbefore hafter
  simp only [work, hbefore, hafter]
  simp only [setStage]
  omega

/-- A worker goes on to a stage that leaves it less work. -/
theorem work_setStage_lt (unique : (e.workers.map Worker.index).Nodup)
    (at_stage : e.stage? index = some s) {s' : Stage} (hless : s'.work < s.work) :
    (e.setStage index s').work < e.work := by
  have hmove := work_setStage unique at_stage s'
  omega

/-- A worker ends; it remains to be seen to. -/
theorem work_endWorker_lt (unique : (e.workers.map Worker.index).Nodup)
    (at_stage : e.stage? index = some s) (ending : Ending) :
    (e.endWorker index ending).work < e.work := by
  have hbefore := workOf_of_perm (workers_perm unique at_stage)
  have hdispatcher := e.dispatcher.work_succ_le e.permits
  have hstage := s.two_le_work
  rw [workOf] at hbefore
  simp only [work, hbefore, workers_endWorker]
  simp only [endWorker, List.length_append, List.length_singleton]
  omega

/-- A worker hands its outcome in; it remains to be taken out of the queue. -/
theorem work_afterHandIn_lt (unique : (e.workers.map Worker.index).Nodup)
    {result : Except TrialFailure Timings} (at_stage : e.stage? index = some (.returned result)) :
    (e.afterHandIn index result).work < e.work := by
  have hqueue : ({ e with queue := e.queue ++ [Outcome.mk index result] } : Engine).work =
      e.work + 1 := by
    simp only [work, List.length_append, List.length_singleton]
    omega
  have hmove := work_setStage (e := { e with queue := e.queue ++ [Outcome.mk index result] })
    unique at_stage (if e.paced then .pacing else .leaving)
  have hnext : (if e.paced then Stage.pacing else .leaving).work ≤ 3 := by
    cases e.paced <;> decide
  rw [hqueue, Stage.work] at hmove
  rw [afterHandIn]
  omega

/-- Every step of a party lowers the work that is left, and no other step raises it. -/
theorem work_add_le_of_fires (hs : e.Sound p) (r : e.Fires l e') :
    e'.work + (if l.isInner then 1 else 0) ≤ e.work := by
  cases r with
  | look may =>
      refine work_dispatcher_lt ?_
      obtain h | ⟨h, free⟩ : e.dispatcher = .looking ∨ e.dispatcher = .waiting ∧ 0 < e.permits := by
        simpa [mayLook] using may
      · rw [h]
        simp only [Dispatcher.work]
        split_ifs <;> omega
      · rw [h]
        simp only [Dispatcher.work, if_neg (Nat.ne_of_gt free)]
        omega
  | grant reaching free =>
      have left := hs.left (.inl reaching)
      simp only [work, reaching, Dispatcher.work, if_neg (Nat.ne_of_gt free), workOf_append, workOf,
        Stage.work, Label.isInner, if_true]
      omega
  | park reaching none_free =>
      refine work_dispatcher_lt ?_
      simp [reaching, Dispatcher.work, none_free]
  | stop idle =>
      refine work_dispatcher_lt ?_
      obtain h | h := idle <;> simp [h, Dispatcher.work]
  | call at_stage => exact work_setStage_lt hs.unique at_stage (by decide)
  | complete at_stage => exact work_setStage_lt hs.unique at_stage (by simp [Stage.work])
  | handIn at_stage => exact work_afterHandIn_lt hs.unique at_stage
  | wake at_stage => exact work_setStage_lt hs.unique at_stage (by decide)
  | panic at_stage => exact work_endWorker_lt hs.unique at_stage .panicked
  | retire at_stage => exact work_endWorker_lt hs.unique at_stage .regular
  | deliver queued =>
      simp only [work, queued, List.length_cons, Label.isInner, if_true]
      omega
  | reapRegular _ ended | reapPanicked _ ended =>
      simp only [work, ended, List.length_cons, Label.isInner, if_true, note]
      omega
  | close _ running =>
      simp only [work, running, finish, Label.isInner, if_true, Bool.not_false, Bool.not_true,
        Bool.toNat_true, Bool.toNat_false]
      omega
  | cancel | observe | leave => exact Nat.le_refl _

/-- The steps that the parties take from some state on, and the work that is left in the end, are
no more than the work that there was. -/
theorem countP_isInner_add_work_le_of_follow {e₀ : Engine} (h₀ : e₀.Sound p)
    (h : e₀.follow ls = some e) : ls.countP Label.isInner + e.work ≤ e₀.work := by
  refine follow_induction (P := fun ls e => ls.countP Label.isInner + e.work ≤ e₀.work)
    (Nat.le_of_eq (Nat.zero_add _)) (fun {ls e l e'} hls hle r => ?_) h
  have hless := work_add_le_of_fires (h₀.follow hls) r
  rw [List.countP_append, List.countP_singleton]
  omega

theorem countP_isInner_add_work_le {now : Instant} {cancelled : Bool} {journal : Journal}
    (h : (Engine.start p now cancelled journal).follow ls = some e) :
    ls.countP Label.isInner + e.work ≤ 11 * p.count + 5 :=
  countP_isInner_add_work_le_of_follow (Sound.start p now cancelled journal) h

/-! ### The end -/

/-- From every sound state the parties can go on until the run is over, and the trials can end as
they are fated to. -/
theorem Sound.exists_closed (fate : Nat → Option (Except TrialFailure Timings)) (hs : e.Sound p) :
    ∃ ls' e', e.follow ls' = some e' ∧ (∀ l ∈ ls', l.isInner = true ∧ l.Obeys fate) ∧
      e'.closed = true := by
  -- The induction is on the work that is left; every step of a party lowers it.
  induction hw : e.work using Nat.strongRecOn generalizing e with
  | ind n ih =>
      cases hclosed : e.closed with
      | true => exact ⟨[], e, rfl, nofun, hclosed⟩
      | false =>
          obtain ⟨l, e₁, hl, hobeys, r⟩ := exists_inner fate hs hclosed
          have hless := work_add_le_of_fires hs r
          rw [if_pos hl] at hless
          obtain ⟨ls', e', hfollow, hls', hend⟩ := ih e₁.work (by omega) (hs.fires r) rfl
          refine ⟨l :: ls', e', ?_, ?_, hend⟩
          · rw [← List.singleton_append, follow_append, follow_singleton, r.step]
            exact hfollow
          · exact List.forall_mem_cons.mpr ⟨⟨hl, hobeys⟩, hls'⟩

/-- Whatever has happened, the parties can go on until the run is over, and the trials can end as
they are fated to. -/
theorem exists_closed {now : Instant} {cancelled : Bool} {journal : Journal}
    (fate : Nat → Option (Except TrialFailure Timings))
    (h : (Engine.start p now cancelled journal).follow ls = some e) :
    ∃ ls' e', e.follow ls' = some e' ∧ (∀ l ∈ ls', l.isInner = true ∧ l.Obeys fate) ∧
      e'.closed = true :=
  (sound_of_follow h).exists_closed fate

end Engine

end ProxyTiming.Run
