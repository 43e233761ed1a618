import ProxyTiming.Proofs.Run.Clock

/-!
# What cancelling does

Somebody who cancels wakes the dispatcher and the workers that rest, and they compete: a
worker whose rest is cut short gives its permit back early, and the dispatcher may have been
waiting for that very permit.  It must not be used.

Each trial that is admitted has been looked after: the dispatcher has looked whether
somebody had cancelled, nobody had, and between the look and the admission it has done
nothing else.  As nobody takes a cancellation back, there is no such look after it.  One
look may have been made just before; so after a cancellation one trial may still be
admitted, and none if the dispatcher was waiting.

Everything that has been admitted is waited for.  A run is called cancelled if some of its
trials have not been admitted, and not because somebody has cancelled.
-/

namespace ProxyTiming.Run

open ProxyTiming.Time

def Label.isGrant : Label → Bool
  | .grant => true
  | _ => false

namespace Engine

variable {p : Plan} {now : Instant} {cancelled : Bool} {journal : Journal} {e e₀ : Engine}
  {ls before after : List Label} {fate : Nat → Option (Except TrialFailure Timings)}

/-! ### Looks and admissions -/

/-- Nobody takes a cancellation back. -/
theorem cancelled_iff (h : e₀.follow ls = some e) :
    e.cancelled = true ↔ e₀.cancelled = true ∨ .cancel ∈ ls := by
  refine follow_induction
    (P := fun ls e => e.cancelled = true ↔ e₀.cancelled = true ∨ .cancel ∈ ls) ?_ ?_ h
  · simp
  · intro ls e l e' _ ih r
    cases r with
    | cancel => simp
    | _ => exact ih.trans (by simp)

/-- Nobody has cancelled before a look. -/
theorem uncancelled_of_look (h : e₀.follow (before ++ .look :: after) = some e) :
    e₀.cancelled = false ∧ .cancel ∉ before := by
  obtain ⟨e₁, e₂, hbefore, r, -⟩ := follow_split h
  cases r with
  | look _ uncancelled =>
      have hnot := mt (cancelled_iff hbefore).mpr (by simp [uncancelled])
      simpa using hnot

/-- A dispatcher that reaches for a permit has looked, and has done nothing else since. -/
theorem looked_of_reaching (idle : e₀.dispatcher ≠ .reaching) (h : e₀.follow ls = some e)
    (reaching : e.dispatcher = .reaching) :
    ∃ earlier since, ls = earlier ++ .look :: since ∧ ∀ l ∈ since, l.isDispatcher = false := by
  refine follow_induction (P := fun ls e => e.dispatcher = .reaching →
    ∃ earlier since, ls = earlier ++ .look :: since ∧ ∀ l ∈ since, l.isDispatcher = false)
      (fun reaching => absurd reaching idle) ?_ h reaching
  intro ls e l e' _ ih r reaching
  have hkept (hl : l.isDispatcher = false) (hsame : e.dispatcher = .reaching) :
      ∃ earlier since, ls ++ [l] = earlier ++ .look :: since ∧
        ∀ l ∈ since, l.isDispatcher = false := by
    obtain ⟨earlier, since, rfl, hsince⟩ := ih hsame
    refine ⟨earlier, since ++ [l], by simp, ?_⟩
    exact List.forall_mem_append.mpr ⟨hsince, List.forall_mem_singleton.mpr hl⟩
  -- A look begins anew; after any other step of the dispatcher it does not reach for a permit.
  cases r with
  | look => exact ⟨ls, [], rfl, nofun⟩
  | grant => cases reaching
  | park => cases reaching
  | stop => cases reaching
  | reapRegular through | reapPanicked through =>
      change e.dispatcher = .reaching at reaching
      rw [through] at reaching
      cases reaching
  | _ => exact hkept rfl reaching

/-- Every admission has been preceded by a look of its own. -/
theorem looked_of_grant (idle : e₀.dispatcher ≠ .reaching)
    (h : e₀.follow (before ++ .grant :: after) = some e) :
    ∃ earlier since, before = earlier ++ .look :: since ∧
      (∀ l ∈ since, l.isDispatcher = false) ∧ e₀.cancelled = false ∧ .cancel ∉ earlier := by
  obtain ⟨e₁, e₂, hbefore, r, -⟩ := follow_split h
  cases r with
  | grant reaching =>
      obtain ⟨earlier, since, rfl, hsince⟩ := looked_of_reaching idle hbefore reaching
      obtain ⟨hinitial, hearlier⟩ := uncancelled_of_look hbefore
      exact ⟨earlier, since, rfl, hsince, hinitial, hearlier⟩

/-- Trials are admitted one by one. -/
theorem dispatched_eq (h : e₀.follow ls = some e) :
    e.dispatched = e₀.dispatched + ls.countP Label.isGrant := by
  refine follow_induction
    (P := fun ls e => e.dispatched = e₀.dispatched + ls.countP Label.isGrant) rfl ?_ h
  intro ls e l e' _ ih r
  rw [List.countP_append, List.countP_singleton]
  cases r with
  | grant => exact congrArg (· + 1) ih
  | _ => exact ih

/-- How many trials the dispatcher is about to admit. -/
def inHand (e : Engine) : Nat := if e.dispatcher = .reaching then 1 else 0

/-- When somebody has cancelled, a trial is admitted only if the dispatcher was about to. -/
theorem isGrant_add_inHand_le {e' : Engine} {l : Label} (hcancelled : e.cancelled = true)
    (r : e.Fires l e') : l.isGrant.toNat + e'.inHand ≤ e.inHand := by
  cases r with
  | look _ uncancelled =>
      rw [hcancelled] at uncancelled
      cases uncancelled
  | grant reaching => simp [inHand, reaching, Label.isGrant]
  | park | stop => exact Nat.zero_le e.inHand
  | _ => exact Nat.le_of_eq (Nat.zero_add _)

/-- When somebody has cancelled, nothing is admitted but the trial that the dispatcher was about
to admit. -/
theorem grants_le_inHand (h : e₀.follow ls = some e) (hcancelled : e₀.cancelled = true) :
    ls.countP Label.isGrant ≤ e₀.inHand := by
  have hinvariant : ls.countP Label.isGrant + e.inHand ≤ e₀.inHand := by
    refine follow_induction (P := fun ls e => ls.countP Label.isGrant + e.inHand ≤ e₀.inHand)
      (by simp) ?_ h
    intro ls e l e' hls ih r
    have hstep := isGrant_add_inHand_le ((cancelled_iff hls).mpr (.inl hcancelled)) r
    rw [List.countP_append, List.countP_singleton]
    cases hl : l.isGrant <;> simp [hl] at hstep ⊢ <;> omega
  omega

/-! ### What has been admitted -/

/-- Trials are called that have been admitted, and none is called twice. -/
theorem nodup_called (h : (Engine.start p now cancelled journal).follow ls = some e) :
    (called ls).Nodup ∧ ∀ i ∈ called ls, i < e.dispatched := by
  have hconserved (i : Nat) := passage_callee.conserved h i
  constructor
  · rw [List.nodup_iff_count_le_one]
    intro i
    have hsum := hconserved i
    rw [← called] at hsum
    split_ifs at hsum <;> omega
  · intro i hi
    have hsum := hconserved i
    have hpos := List.count_pos_iff.mpr hi
    rw [← called] at hsum
    by_contra hge
    rw [if_neg hge] at hsum
    omega

/-- When nothing is left to do, all trials that have been admitted are over. -/
theorem finished_perm_of_isSettled
    (h : (Engine.start p now cancelled journal).follow ls = some e)
    (settled : e.isSettled = true) : (finished ls).Perm (List.range e.dispatched) := by
  rw [List.perm_iff_count]
  intro i
  have hsum := passage_finisher.conserved h i
  obtain ⟨-, hworkers, -⟩ := (isSettled_iff e).mp settled
  rw [workersAt, hworkers, List.countP_nil, Nat.add_zero] at hsum
  rw [finished, hsum, List.count_range]

end Engine

open Engine

/-- What a history keeps to, whenever somebody cancels in it. -/
structure CancelsSafely (p : Plan) (fate : Nat → Option (Except TrialFailure Timings))
    (e₀ : Engine) (ls : List Label) (e : Engine) : Prop where
  /-- Every trial is admitted after a look of its own, before which nobody had cancelled. -/
  looked : ∀ before after, ls = before ++ .grant :: after → ∃ earlier since,
    before = earlier ++ .look :: since ∧ (∀ l ∈ since, l.isDispatcher = false) ∧
      e₀.cancelled = false ∧ .cancel ∉ earlier
  /-- After a cancellation one trial at most is admitted, and none unless its look had been
  made. -/
  late : ∀ before after e₁, ls = before ++ .cancel :: after → e₀.follow before = some e₁ →
    after.countP Label.isGrant ≤ if e₁.dispatcher = .reaching then 1 else 0
  /-- A run that has been cancelled before it starts admits nothing. -/
  never : e₀.cancelled = true → e.dispatched = 0
  /-- The numbers of the trials that have been admitted leave no gap. -/
  numbered : ls.countP Label.isGrant = e.dispatched ∧ e.dispatched ≤ p.count ∧
    (called ls).Nodup ∧ ∀ i ∈ called ls, i < e.dispatched
  /-- The run is not over before all of them have been called and are over. -/
  awaited : e.closed = true → (called ls).Perm (List.range e.dispatched) ∧
    (finished ls).Perm (List.range e.dispatched)
  /-- What they have left behind is in their slots, and nothing is in any other slot. -/
  kept : e.closed = true → ∀ i < p.count,
    e.run.trials[i]? = some (if i < e.dispatched then (fate i).map recordOf else none)
  cancelled_iff : e.closed = true → (e.run.status = .cancelled ↔ e.dispatched < p.count)
  completed_iff : e.closed = true → (e.run.status = .completed ↔ e.dispatched = p.count)
  /-- Nothing but a cancellation keeps a trial from being admitted. -/
  reason : e.closed = true → e.dispatched < p.count → e₀.cancelled = true ∨ .cancel ∈ ls
  /-- Whoever cancels when all trials have been admitted is too late. -/
  too_late : ∀ before after e₁, ls = before ++ .cancel :: after → e₀.follow before = some e₁ →
    e₁.dispatched = p.count → e.closed = true → e.run.status = .completed
  empty : p.count = 0 → e.closed = true → e.run.status = .completed

/-- Cancelling is safe at every moment. -/
theorem Plan.cancelsSafely (p : Plan) {now : Instant} {cancelled : Bool} {journal : Journal}
    {ls : List Label} {e : Engine} {fate : Nat → Option (Except TrialFailure Timings)}
    (h : (Engine.start p now cancelled journal).follow ls = some e)
    (obeys : ∀ l ∈ ls, l.Obeys fate) :
    CancelsSafely p fate (Engine.start p now cancelled journal) ls e := by
  have hs := sound_of_follow h
  have hcount : e.dispatched = 0 + ls.countP Label.isGrant := dispatched_eq h
  have hle : e.dispatched ≤ p.count := hs.count ▸ hs.dispatched_le
  have hstatus (closed : e.closed = true) := (intact_of_closed h obeys closed).status
  have hcompleted (closed : e.closed = true) :
      e.run.status = .completed ↔ e.dispatched = p.count := by
    rw [hstatus closed]
    split_ifs with hall <;> simp [hall]
  refine
    { looked := ?_
      late := ?_
      never := ?_
      numbered := ⟨by omega, hle, nodup_called h⟩
      awaited := fun closed => ?_
      kept := fun closed i hi => ?_
      cancelled_iff := fun closed => ?_
      completed_iff := hcompleted
      reason := fun closed hlt => ?_
      too_late := ?_
      empty := fun hzero closed => (hcompleted closed).mpr (by omega) }
  · rintro before after rfl
    exact looked_of_grant nofun h
  · rintro before after e₁ rfl hbefore
    obtain ⟨e₁', e₂, hbefore', r, hafter⟩ := follow_split h
    obtain rfl : e₁' = e₁ := Option.some.inj (hbefore'.symm.trans hbefore)
    cases r with
    | cancel =>
        have hlate := grants_le_inHand hafter rfl
        exact hlate
  · intro hcancelled
    have hnone := grants_le_inHand h hcancelled
    change _ ≤ 0 at hnone
    omega
  · have settled := (hs.finished closed).1
    exact ⟨called_perm_of_isSettled h settled, finished_perm_of_isSettled h settled⟩
  · have hintact := intact_of_closed h obeys closed
    split_ifs with hlt
    · exact hintact.executed i hlt
    · exact hintact.unexecuted i (Nat.le_of_not_lt hlt) hi
  · rw [hstatus closed]
    split_ifs <;> simp <;> omega
  · obtain ⟨through, -⟩ := (isSettled_iff e).mp (hs.finished closed).1
    have hcount := hs.count
    obtain hcancelled | hall := hs.through through
    · exact (Engine.cancelled_iff h).mp hcancelled
    · omega
  · rintro before after e₁ rfl hbefore hall closed
    obtain ⟨e₁', e₂, hbefore', r, hafter⟩ := follow_split h
    obtain rfl : e₁' = e₁ := Option.some.inj (hbefore'.symm.trans hbefore)
    have hmore := dispatched_eq hafter
    cases r with
    | cancel =>
        change e.dispatched = e₁'.dispatched + _ at hmore
        exact (hcompleted closed).mpr (by omega)

/-- The first of two workers rests when somebody cancels.  Its permit comes back early, and the
dispatcher, who has been waiting for a permit, does not use it. -/
theorem cancelsSafely_while_pacing :
    let p : Plan := ⟨.nil, "t", "c", "u", .sequential 1 (.ofNanos 5), 2⟩
    let fate : Nat → Option (Except TrialFailure Timings) := fun _ => some (.ok .zero)
    let ls : List Label := [.look, .grant, .look, .park, .call 0, .complete 0 (.ok .zero),
      .handIn 0, .deliver, .cancel, .wake 0, .retire 0, .stop, .reap, .close .epoch]
    ∃ e, (Engine.start p .epoch false (.start none)).follow ls = some e ∧
      (∀ l ∈ ls, l.Obeys fate) ∧ e.dispatched = 1 ∧
      CancelsSafely p fate (Engine.start p .epoch false (.start none)) ls e := by
  intro p fate ls
  have hobeys : ∀ l ∈ ls, l.Obeys fate := by
    simp [ls, fate, Label.Obeys]
  exact ⟨_, rfl, hobeys, rfl, p.cancelsSafely rfl hobeys⟩

end ProxyTiming.Run
