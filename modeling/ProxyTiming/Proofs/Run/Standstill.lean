import Mathlib.Algebra.BigOperators.Group.List.Basic
import Mathlib.Algebra.GroupWithZero.Nat
import ProxyTiming.Proofs.Run.Cancellation
import ProxyTiming.Proofs.Run.Observers
import ProxyTiming.Proofs.Run.Progress

/-!
# No standstill

Dispatcher, workers and aggregator wait for each other: the dispatcher for permits, which
the workers have; the workers for room in the queue, which the aggregator makes; and the
aggregator for outcomes, or for the news that there will be none.  That news is nobody's
message.  It is that nobody is left who could send one: the dispatcher can, as long as it may
still admit a trial, and so can each worker that has not handed in its outcome.

These senders are counted here.  Each of them is made by another one and given up once, in
whichever way its owner ends; and when the last one is gone the queue stays as empty as the
aggregator has left it.  With the work that is left as a measure, a run goes on until it is
over, and it cannot go on forever.
-/

namespace ProxyTiming.Run

open ProxyTiming.Time

/-! ### Senders -/

def Dispatcher.senders : Dispatcher → Nat
  | .looking | .reaching | .waiting => 1
  | .through => 0

def Stage.senders : Stage → Nat
  | .admitted | .executing | .returned _ => 1
  | .pacing | .leaving => 0

def Label.givesUp : Label → Bool
  | .stop | .panic _ | .handIn _ => true
  | _ => false

namespace Engine

variable {e e' : Engine} {l : Label} {ls : List Label} {index : Nat} {s : Stage} {p : Plan}

def senders (e : Engine) : Nat := e.dispatcher.senders + (e.workers.map (·.stage.senders)).sum

theorem senders_setStage (unique : (e.workers.map Worker.index).Nodup)
    (at_stage : e.stage? index = some s) (s' : Stage) :
    (e.setStage index s').senders + s.senders = e.senders + s'.senders := by
  have hbefore := ((workers_perm unique at_stage).map (·.stage.senders)).sum_eq
  have hperm : (e.setStage index s').workers.Perm (⟨index, s'⟩ :: e.others index) :=
    workers_setStage_perm unique at_stage
  have hafter := (hperm.map (·.stage.senders)).sum_eq
  rw [List.map_cons, List.sum_cons] at hbefore hafter
  simp only [senders, hbefore, hafter]
  simp only [setStage]
  omega

theorem senders_endWorker (unique : (e.workers.map Worker.index).Nodup)
    (at_stage : e.stage? index = some s) (ending : Ending) :
    (e.endWorker index ending).senders + s.senders = e.senders := by
  have hbefore := ((workers_perm unique at_stage).map (·.stage.senders)).sum_eq
  rw [List.map_cons, List.sum_cons] at hbefore
  simp only [senders, hbefore, workers_endWorker]
  simp only [endWorker]
  omega

/-- A sender is made as a trial is admitted, and one is given up as the dispatcher stops, as a
worker hands in its outcome, and as a trial ends its worker. -/
theorem senders_of_fires (unique : (e.workers.map Worker.index).Nodup) (r : e.Fires l e') :
    e'.senders + l.givesUp.toNat = e.senders + l.isGrant.toNat := by
  cases r with
  | look may =>
      have hstill : e.dispatcher.senders = 1 := by
        obtain h | ⟨h, -⟩ : e.dispatcher = .looking ∨ e.dispatcher = .waiting ∧ 0 < e.permits := by
          simpa [mayLook] using may
        · rw [h, Dispatcher.senders]
        · rw [h, Dispatcher.senders]
      simp only [senders, hstill]
      rfl
  | grant reaching =>
      simp only [senders, reaching, List.map_append, List.sum_append]
      rfl
  | park reaching =>
      simp only [senders, reaching]
      rfl
  | stop idle =>
      have hone : e.dispatcher.senders = 1 := by
        obtain h | h := idle <;> rw [h, Dispatcher.senders]
      simp only [senders, hone]
      simp only [Dispatcher.senders, Label.givesUp, Label.isGrant, Bool.toNat_true, Bool.toNat_false]
      omega
  | call at_stage => exact Nat.add_right_cancel (senders_setStage unique at_stage .executing)
  | complete at_stage =>
      exact Nat.add_right_cancel (senders_setStage unique at_stage (.returned _))
  | panic at_stage => exact senders_endWorker unique at_stage .panicked
  | @handIn index result at_stage =>
      have hmove := senders_setStage (e := { e with queue := e.queue ++ [Outcome.mk index result] })
        unique at_stage (if e.paced then .pacing else .leaving)
      -- Whichever comes next, the sender is gone.
      have hnext : (if e.paced then Stage.pacing else .leaving).senders = 0 := by
        cases e.paced <;> rfl
      rw [hnext] at hmove
      exact hmove
  | wake at_stage => exact senders_setStage unique at_stage .leaving
  | retire at_stage => exact senders_endWorker unique at_stage .regular
  | _ => rfl

structure Drained (e : Engine) : Prop where
  queue : e.queue = []
  senders : e.senders = 0

theorem Drained.through (h : e.Drained) : e.dispatcher = .through := by
  have hzero := h.senders
  cases hd : e.dispatcher with
  | through => rfl
  | _ =>
      simp only [Engine.senders, hd, Dispatcher.senders] at hzero
      omega

/-- Nobody makes a sender when there is none, so nothing is queued any more. -/
theorem Drained.fires (unique : (e.workers.map Worker.index).Nodup) (h : e.Drained)
    (r : e.Fires l e') : e'.Drained := by
  have hthrough := h.through
  have hsenders := senders_of_fires unique r
  rw [h.senders] at hsenders
  -- Senders are made by the dispatcher, and it is through.
  have hgrant : l.isGrant = false := by
    cases r with
    | grant reaching =>
        rw [hthrough] at reaching
        cases reaching
    | _ => rfl
  rw [hgrant, Bool.toNat_false] at hsenders
  refine ⟨?_, by omega⟩
  cases r with
  | deliver queued =>
      rw [h.queue] at queued
      cases queued
  | handIn =>
      rw [Label.givesUp, Bool.toNat_true] at hsenders
      omega
  | _ => exact h.queue

/-- All parties are through if and only if the dispatcher has seen to all workers, and the
aggregator has nothing to expect. -/
theorem isSettled_iff_drained (e : Engine) :
    e.isSettled = true ↔ (e.dispatcher = .through ∧ e.workers = [] ∧ e.ended = []) ∧ e.Drained := by
  rw [isSettled_iff]
  constructor
  · rintro ⟨through, workers, ended, queue⟩
    refine ⟨⟨through, workers, ended⟩, queue, ?_⟩
    rw [senders, through, workers]
    rfl
  · rintro ⟨⟨through, workers, ended⟩, drained⟩
    exact ⟨through, workers, ended, drained.queue⟩

/-! ### Several steps more -/

theorem Drained.follow (hs : e.Sound p) (h : e.follow ls = some e') (drained : e.Drained) :
    e'.Drained :=
  follow_induction (P := fun _ e => e.Drained) drained
    (fun hls hd r => hd.fires (hs.follow hls).unique r) h

end Engine

/-! ### A measure of all steps

Whoever cancels does so once, and the observer leaves once.  But it takes out of the box what
the parties put in, so their work counts twice. -/

def Observer.work (o : Observer) : Nat := o.pending.length + o.present.toNat

theorem Observer.work_listen_le (o : Observer) (evs : List Event) :
    (o.listen evs).work ≤ o.work + evs.length := by
  induction evs generalizing o with
  | nil => exact Nat.le_refl _
  | cons ev evs ih =>
      have hrest := ih (o.offered ev)
      have hone : (o.offered ev).work ≤ o.work + 1 := by
        rw [offered]
        split_ifs
        · simp only [work, List.length_append, List.length_singleton]
          omega
        · exact Nat.le_succ _
      rw [listen, List.foldl_cons, List.length_cons]
      rw [listen] at hrest
      omega

theorem Observer.work_take?_lt {o o' : Observer} (h : o.take? = some o') : o'.work < o.work := by
  rw [take?] at h
  split at h
  · cases h
  · rename_i hpending
    obtain rfl := Option.some.inj h
    simp only [work, hpending, List.length_cons]
    omega

theorem Observer.work_leave?_lt {o o' : Observer} (h : o.leave? = some o') : o'.work < o.work := by
  obtain ⟨hpresent, h⟩ := Option.ite_none_right_eq_some.mp h
  obtain rfl := Option.some.inj h
  simp [work, hpresent]

def Journal.work (j : Journal) : Nat := (j.observer.map Observer.work).getD 0

namespace Engine

variable {e e' : Engine} {l : Label} {ls : List Label} {p : Plan}

/-- What bounds the steps of all, those who cancel and observe among them. -/
def allWork (e : Engine) : Nat := 2 * e.work + (!e.cancelled).toNat + e.journal.work

/-- A step puts one event in the box at most. -/
theorem work_journal_le (r : e.Fires l e') (hl : l.isObservers = false) :
    e'.journal.work ≤ e.journal.work + 1 := by
  have hone := length_tells_le e l
  rw [Journal.work, Journal.work, observer_of_fires r hl]
  cases e.journal.observer with
  | none => exact Nat.zero_le _
  | some o =>
      have hlisten := o.work_listen_le (e.tells l)
      simp only [Option.map_some, Option.getD_some]
      omega

theorem allWork_withJournal_lt {o o' : Observer} (ho : e.journal.observer = some o)
    (hless : o'.work < o.work) :
    (e.withJournal { e.journal with observer := some o' }).allWork < e.allWork := by
  have hbefore : e.journal.work = o.work := by rw [Journal.work, ho]; rfl
  have hafter : (e.withJournal { e.journal with observer := some o' }).allWork =
      2 * e.work + (!e.cancelled).toNat + o'.work := rfl
  rw [hafter, allWork]
  omega

theorem allWork_lt_of_fires (hs : e.Sound p) (r : e.Fires l e') : e'.allWork < e.allWork := by
  have hwork := work_add_le_of_fires hs r
  cases hl : l.isInner with
  | true =>
      have hobservers : l.isObservers = false := by
        cases l <;> first | rfl | cases hl
      -- A step of the parties takes two off, and puts one event in the box at most.
      have hjournal := work_journal_le r hobservers
      have hcancelled : e'.cancelled = e.cancelled := by
        cases r with
        | cancel => cases hl
        | _ => rfl
      rw [if_pos hl] at hwork
      rw [allWork, allWork, hcancelled]
      omega
  | false =>
      cases r with
      | cancel uncancelled =>
          have hsame : ({ e with cancelled := true } : Engine).work = e.work := rfl
          simp only [allWork, hsame, uncancelled]
          exact Nat.add_lt_add_right (Nat.lt_succ_self _) _
      | observe taken =>
          obtain ⟨o, ho, htake⟩ := Option.bind_eq_some_iff.mp taken
          exact allWork_withJournal_lt ho (Observer.work_take?_lt htake)
      | leave left =>
          obtain ⟨o, ho, hleave⟩ := Option.bind_eq_some_iff.mp left
          exact allWork_withJournal_lt ho (Observer.work_leave?_lt hleave)
      | _ => cases hl

theorem length_add_allWork_le {e₀ : Engine} (h₀ : e₀.Sound p) (h : e₀.follow ls = some e) :
    ls.length + e.allWork ≤ e₀.allWork := by
  refine follow_induction (P := fun ls e => ls.length + e.allWork ≤ e₀.allWork)
    (Nat.le_of_eq (Nat.zero_add _)) ?_ h
  intro ls e l e' hls hle r
  have hless := allWork_lt_of_fires (h₀.follow hls) r
  rw [List.length_append, List.length_singleton]
  omega

/-- Nobody can take steps forever, not even all of them together. -/
theorem not_forever (hs : e.Sound p) :
    ¬∃ states : Nat → Engine, states 0 = e ∧ ∀ n, ∃ l, (states n).step l = some (states (n + 1)) := by
  rintro ⟨states, rfl, hsteps⟩
  have hless (n : Nat) : (states n).Sound p ∧ n + (states n).allWork ≤ (states 0).allWork := by
    induction n with
    | zero => exact ⟨hs, Nat.le_of_eq (Nat.zero_add _)⟩
    | succ n ih =>
        obtain ⟨hn, hle⟩ := ih
        obtain ⟨l, hstep⟩ := hsteps n
        have r := fires_of_step hstep
        have hone := allWork_lt_of_fires hn r
        exact ⟨hn.fires r, by omega⟩
  -- One state more than the measure allows.
  obtain ⟨-, hle⟩ := hless ((states 0).allWork + 1)
  omega

end Engine

open Engine

/-! ### The parties -/

/-- Who takes steps in a run.  Whoever cancels or observes stands outside, and so does whoever
waits for the end of the run. -/
inductive Party where
  | dispatcher
  | worker (index : Nat)
  | aggregator

def Label.party? : Label → Option Party
  | .look | .grant | .park | .stop | .reap => some .dispatcher
  | .call index | .complete index _ | .panic index | .handIn index | .wake index
  | .retire index => some (.worker index)
  | .deliver => some .aggregator
  | .cancel | .observe | .leave | .close _ => none

/-- What keeps a run from standing still in a state, and from going on forever. -/
structure GoesOn (e : Engine) : Prop where
  /-- As long as the parties are not through, one of them can take a step; and unless a trial is
  executed or a worker rests, it can do so at once. -/
  step : e.isSettled = false →
    (∃ l party e', l.party? = some party ∧ e.step l = some e') ∧
    ((∀ w ∈ e.workers, w.stage ≠ .executing) → (∀ w ∈ e.workers, w.stage ≠ .pacing) →
      ∃ l party e', l.party? = some party ∧ l.isPrompt = true ∧ e.step l = some e')
  /-- They are through when the dispatcher has seen to all workers and the aggregator has nothing
  to expect, and then the run can end. -/
  close : (e.isSettled = true ↔
      (e.dispatcher = .through ∧ e.workers = [] ∧ e.ended = []) ∧ e.Drained) ∧
    (e.isSettled = true → e.closed = false → ∀ now, ∃ e', e.step (.close now) = some e')
  /-- There are only senders whose owners can give them up, and who are not made anew. -/
  senders : ∀ l e', e.step l = some e' →
    e'.senders + l.givesUp.toNat = e.senders + l.isGrant.toNat
  /-- An aggregator that has stopped has not missed anything. -/
  drained : e.Drained → ∀ ls e', e.follow ls = some e' → e'.Drained
  /-- Where the parties cannot go on any more, the run is over and nobody is waiting. -/
  ends : (∀ l, l.isInner = true → e.step l = none) → e.closed = true ∧ e.Drained
  /-- Each step of a party takes something off the trials that are not yet admitted, in flight,
  not taken in or resting. -/
  inner : ∀ ls e', e.follow ls = some e' → ls.countP Label.isInner + e'.work ≤ e.work
  bounded : ∀ ls e', e.follow ls = some e' → ls.length + e'.allWork ≤ e.allWork
  finite : ¬∃ states : Nat → Engine, states 0 = e ∧
    ∀ n, ∃ l, (states n).step l = some (states (n + 1))

theorem party?_of_isInner {e e' : Engine} {l : Label} (hl : l.isInner = true) (r : e.Fires l e')
    (unsettled : e.isSettled = false) : ∃ party, l.party? = some party := by
  cases r with
  | cancel | observe | leave => cases hl
  | close settled =>
      rw [unsettled] at settled
      cases settled
  | _ => exact ⟨_, rfl⟩

/-- A run never comes to a standstill before its end, and it does come to its end. -/
theorem Plan.goesOn {p : Plan} {now : Instant} {cancelled : Bool} {journal : Journal}
    {ls : List Label} {e : Engine}
    (h : (Engine.start p now cancelled journal).follow ls = some e) : GoesOn e := by
  have hs := sound_of_follow h
  have hrunning (unsettled : e.isSettled = false) : e.closed = false := by
    by_contra hclosed
    rw [(hs.finished (by simpa using hclosed)).1] at unsettled
    cases unsettled
  refine
    { step := fun unsettled => ⟨?_, fun executing pacing => ?_⟩
      close := ⟨isSettled_iff_drained e, fun settled running now => ?_⟩
      senders := fun l e' hstep => senders_of_fires hs.unique (fires_of_step hstep)
      drained := fun drained ls e' hfollow => drained.follow hs hfollow
      ends := fun stuck => ?_
      inner := fun ls e' hfollow => countP_isInner_add_work_le_of_follow hs hfollow
      bounded := fun ls e' hfollow => length_add_allWork_le hs hfollow
      finite := not_forever hs }
  · obtain ⟨l, e', hl, -, r⟩ := exists_inner (fun _ => none) hs (hrunning unsettled)
    obtain ⟨party, hparty⟩ := party?_of_isInner hl r unsettled
    exact ⟨l, party, e', hparty, r.step⟩
  · obtain ⟨l, e', hl, r⟩ := exists_prompt hs (hrunning unsettled) executing pacing
    obtain ⟨party, hparty⟩ := party?_of_isInner (Label.isInner_of_isPrompt hl) r unsettled
    exact ⟨l, party, e', hparty, hl, r.step⟩
  · exact ⟨_, (Fires.close settled running).step⟩
  · have hclosed : e.closed = true := by
      by_contra hopen
      obtain ⟨l, e', hl, -, r⟩ := exists_inner (fun _ => none) hs (by simpa using hopen)
      have hstep := r.step
      rw [stuck l hl] at hstep
      cases hstep
    exact ⟨hclosed, ((isSettled_iff_drained e).mp (hs.finished hclosed).1).2⟩

/-- The dispatcher waits for a permit, its worker has handed in the first of three thousand
outcomes and has yet to end, and the aggregator has taken the outcome in and waits for the next
one. -/
theorem goesOn_while_all_wait :
    let p : Plan := ⟨.nil, "t", "c", "u", .sequential 1 .zero, 3000⟩
    let ls : List Label := [.look, .grant, .look, .park, .call 0, .complete 0 (.ok .zero),
      .handIn 0, .deliver]
    ∃ e, (Engine.start p .epoch false (.start none)).follow ls = some e ∧
      e.dispatcher = .waiting ∧ e.permits = 0 ∧ e.queue = [] ∧ e.senders = 1 ∧ GoesOn e := by
  intro p ls
  have hfollow : ∃ e, (Engine.start p .epoch false (.start none)).follow ls = some e ∧
      e.dispatcher = .waiting ∧ e.permits = 0 ∧ e.queue = [] ∧ e.senders = 1 :=
    ⟨_, rfl, rfl, rfl, rfl, rfl⟩
  obtain ⟨e, hfollow, hdispatcher, hpermits, hqueue, hsenders⟩ := hfollow
  exact ⟨e, hfollow, hdispatcher, hpermits, hqueue, hsenders, Plan.goesOn hfollow⟩

end ProxyTiming.Run
