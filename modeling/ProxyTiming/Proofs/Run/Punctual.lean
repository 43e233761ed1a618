import ProxyTiming.Proofs.Run.Timetable
import ProxyTiming.Proofs.Run.Undisturbed

/-!
# Workers are on time

The dispatcher and the workers of a run on a clock know nothing of timetables.  A worker that has
been admitted starts its trial at once; it goes on when its trial is over, and again when it has
rested; and then it gives its place back to whoever waits for one.

Between any two steps it is known of each worker, from when its trial has started, when it is going
to go on, and no worker goes on before or after that.  So a worker that has ended has given its
place back when it should, and workers who are admitted in the order of their numbers start their
trials in this order.
-/

namespace ProxyTiming.Run

open ProxyTiming.Time

/-- Nobody cancels as a trial starts, and every trial returns. -/
structure Script.Smooth (s : Script) (count : Nat) : Prop where
  quiet : s.cancelOnCall = none
  returns : ∀ i < count, (s.trial i).result ≠ none

/-- How long a trial holds its place: as long as it takes, and as long as its worker rests. -/
def Script.hold (s : Script) (i : Nat) : Nat :=
  (s.trial i).delay.toNanos + waitOf s.interval

namespace Engine

variable {e e' : Engine} {l : Label} {i j : Nat} {st st' : Stage} {ending : Ending}

/-! ### Stages -/

theorem stage?_setStage_self (at_stage : e.stage? i = some st) :
    (e.setStage i st').stage? i = some st' := by
  obtain ⟨w, hw, -⟩ := Option.map_eq_some_iff.mp at_stage
  have hfind := find?_exchange Worker.index e.workers i i ⟨i, st'⟩ rfl
  rw [if_pos rfl, hw] at hfind
  exact congrArg (Option.map Worker.stage) hfind

theorem stage?_setStage_of_ne (hne : j ≠ i) : (e.setStage i st').stage? j = e.stage? j := by
  have hfind := find?_exchange Worker.index e.workers i j ⟨i, st'⟩ rfl
  rw [if_neg hne] at hfind
  exact congrArg (Option.map Worker.stage) hfind

theorem stage?_endWorker_self : (e.endWorker i ending).stage? i = none := by
  have hfind := find?_remove Worker.index e.workers i i
  rw [if_pos rfl] at hfind
  exact congrArg (Option.map Worker.stage) hfind

theorem stage?_endWorker_of_ne (hne : j ≠ i) : (e.endWorker i ending).stage? j = e.stage? j := by
  have hfind := find?_remove Worker.index e.workers i j
  rw [if_neg hne] at hfind
  exact congrArg (Option.map Worker.stage) hfind

theorem mem_indices_of_stage? {p : Plan} (hs : e.Sound p) (at_stage : e.stage? i = some st) :
    i ∈ e.workers.map Worker.index :=
  List.mem_map_of_mem (f := Worker.index) (mem_workers_of_stage? hs.unique at_stage)

theorem lt_of_stage? {p : Plan} (hs : e.Sound p) (at_stage : e.stage? i = some st) :
    i < e.dispatched :=
  List.mem_range.mp (hs.indices.subset (mem_indices_of_stage? hs at_stage))

theorem paced_of_step (h : e.step l = some e') : e'.paced = e.paced := by
  cases fires_of_step h <;> rfl

end Engine

namespace Timeline

open Engine

variable {p : Plan} {s : Script} {e₀ : Engine} {t t' : Timeline} {first now' i j instant : Nat}
  {st st' : Stage} {calls calls' : List Nat}

/-! ### When somebody goes on -/

theorem due?_setDue_self {before : Nat} (h : t.due? i = some before) :
    (t.setDue i instant).due? i = some instant := by
  obtain ⟨d, hd, -⟩ := Option.map_eq_some_iff.mp h
  have hfind := find?_exchange Due.index t.dues i i ⟨i, instant⟩ rfl
  rw [if_pos rfl, hd] at hfind
  exact congrArg (Option.map Due.instant) hfind

theorem due?_setDue_of_ne (hne : j ≠ i) : (t.setDue i instant).due? j = t.due? j := by
  have hfind := find?_exchange Due.index t.dues i j ⟨i, instant⟩ rfl
  rw [if_neg hne] at hfind
  exact congrArg (Option.map Due.instant) hfind

theorem due?_dropDue_of_ne (hne : j ≠ i) : (t.dropDue i).due? j = t.due? j := by
  have hfind := find?_remove Due.index t.dues i j
  rw [if_neg hne] at hfind
  exact congrArg (Option.map Due.instant) hfind

theorem isDue_iff : t.isDue i = true ↔ ∃ instant, t.due? i = some instant ∧ instant ≤ t.now := by
  rw [isDue]
  cases t.due? i <;> simp

/-- When a worker goes on, by what it is about and when its trial has started.  One that could go
on already, and waits for its turn, has not waited. -/
inductive OnTime (s : Script) (calls : List Nat) (now i : Nat) : Stage → Nat → Prop where
  | admitted : OnTime s calls now i .admitted now
  | executing {start : Nat} (called : calls[i]? = some start) :
      OnTime s calls now i .executing (start + (s.trial i).delay.toNanos)
  | returned {start : Nat} {result : Except TrialFailure Timings} (called : calls[i]? = some start)
      (expired : start + (s.trial i).delay.toNanos = now) :
      OnTime s calls now i (.returned result) now
  | pacing {start : Nat} (called : calls[i]? = some start) :
      OnTime s calls now i .pacing (start + s.hold i)
  | leaving {start : Nat} (called : calls[i]? = some start) (expired : start + s.hold i = now) :
      OnTime s calls now i .leaving now

theorem OnTime.congr (h : OnTime s calls t.now i st instant) (same : calls'[i]? = calls[i]?) :
    OnTime s calls' t.now i st instant := by
  cases h with
  | admitted => exact .admitted
  | executing called => exact .executing (same.trans called)
  | returned called expired => exact .returned (same.trans called) expired
  | pacing called => exact .pacing (same.trans called)
  | leaving called expired => exact .leaving (same.trans called) expired

/-- The clock moves on, but not past the instant. -/
theorem OnTime.tick (h : OnTime s calls t.now i st instant) (hle : t.now ≤ now')
    (hnow : now' ≤ instant) : OnTime s calls now' i st instant := by
  rcases hle.eq_or_lt with rfl | hlt
  · exact h
  · cases h with
    | executing called => exact .executing called
    | pacing called => exact .pacing called
    | admitted | returned | leaving => exact absurd hnow (Nat.not_le.mpr hlt)

/-- A worker whose trial has started goes on when it gives its place back, or before. -/
theorem OnTime.le_release (h : OnTime s calls t.now i st instant) (hne : st ≠ .admitted) :
    ∃ release, (releases s.hold calls)[i]? = some release ∧ instant ≤ release := by
  have hrelease {start : Nat} (called : calls[i]? = some start) :
      (releases s.hold calls)[i]? = some (start + s.hold i) := by
    rw [getElem?_releases, called, Option.map_some]
  have hhold (start : Nat) : start + (s.trial i).delay.toNanos ≤ start + s.hold i := by
    rw [Script.hold]
    omega
  cases h with
  | admitted => exact absurd rfl hne
  | executing called => exact ⟨_, hrelease called, hhold _⟩
  | returned called expired => exact ⟨_, hrelease called, expired ▸ hhold _⟩
  | pacing called => exact ⟨_, hrelease called, Nat.le_refl _⟩
  | leaving called expired => exact ⟨_, hrelease called, expired.ge⟩

def Uncalled (t : Timeline) (i : Nat) : Prop := t.calls.length ≤ i ∧ i < t.engine.dispatched

structure Timely (s : Script) (t : Timeline) (i : Nat) : Prop where
  uncalled : t.engine.stage? i = some .admitted ↔ t.Uncalled i
  /-- It is known when a living worker goes on, and this has not been missed. -/
  on_time : ∀ st, t.engine.stage? i = some st → ∃ instant, t.due? i = some instant ∧
    t.now ≤ instant ∧ OnTime s t.calls t.now i st instant
  /-- A worker that has ended has given its place back. -/
  released : ∀ start, t.calls[i]? = some start → t.engine.stage? i = none →
    start + s.hold i ≤ t.now

/-- Some history leads to a state, and so many trials start in it, in the order of their numbers. -/
def FollowsInOrder (s : Script) (e₀ : Engine) (n : Nat) (e : Engine) : Prop :=
  ∃ ls, e₀.follow ls = some e ∧ (∀ l ∈ ls, l.Obeys s.fate) ∧ called ls = List.range n

/-- What is known of a run that nobody cancels between any two steps. -/
structure Punctual (p : Plan) (s : Script) (e₀ : Engine) (first : Nat) (t : Timeline) : Prop where
  history : FollowsInOrder s e₀ t.calls.length t.engine
  uncancelled : t.engine.cancelled = false
  paced : t.engine.paced = !s.interval.isZero
  called_le : t.calls.length ≤ t.engine.dispatched
  timely : ∀ i, Timely s t i
  timetable : Timetable p.strategy.width p.count first s.hold t.calls t.now

/-- The history goes on, and no trial starts. -/
theorem FollowsInOrder.fires {n : Nat} {e e' : Engine} {l : Label} (h : FollowsInOrder s e₀ n e)
    (r : e.Fires l e') (obeys : l.Obeys s.fate) (quiet : l.callee? = none) :
    FollowsInOrder s e₀ n e' := by
  obtain ⟨ls, hls, hobeys, hcalled⟩ := h
  refine ⟨ls ++ [l], follow_concat hls r, ?_, ?_⟩
  · exact List.forall_mem_append.mpr ⟨hobeys, List.forall_mem_singleton.mpr obeys⟩
  · rw [called_concat, quiet, hcalled, Option.toList_none, List.append_nil]

/-- What happens to one worker is nothing to another one. -/
theorem Timely.of_same (h : Timely s t j) (now : t'.now = t.now)
    (stage : t'.engine.stage? j = t.engine.stage? j) (due : t'.due? j = t.due? j)
    (called : t'.calls[j]? = t.calls[j]?) (uncalled : t'.Uncalled j ↔ t.Uncalled j) :
    Timely s t' j where
  uncalled := by rw [stage, h.uncalled, uncalled]
  on_time st hst := by
    obtain ⟨instant, hdue, hle, hon_time⟩ := h.on_time st (stage ▸ hst)
    rw [due, now]
    exact ⟨instant, hdue, hle, hon_time.congr called⟩
  released start hstart hst := by
    rw [now]
    exact h.released start (called ▸ hstart) (stage ▸ hst)

/-- A living worker whose trial has started is about something and goes on at some time. -/
theorem Timely.of_called (at_stage : t.engine.stage? i = some st) (called : st.isUncalled = false)
    (not_uncalled : ¬t.Uncalled i) (due : t.due? i = some instant) (hle : t.now ≤ instant)
    (on_time : OnTime s t.calls t.now i st instant) : Timely s t i where
  uncalled := by
    refine iff_of_false (fun hst => ?_) not_uncalled
    obtain rfl := Option.some.inj (at_stage.symm.trans hst)
    cases called
  on_time st' hst' := by
    obtain rfl := Option.some.inj (at_stage.symm.trans hst')
    exact ⟨instant, due, hle, on_time⟩
  released start _ hst := by cases at_stage.symm.trans hst

theorem Timely.not_uncalled (h : Timely s t i) (at_stage : t.engine.stage? i = some st)
    (called : st.isUncalled = false) : ¬t.Uncalled i := by
  intro hi
  obtain rfl := Option.some.inj (at_stage.symm.trans (h.uncalled.mpr hi))
  cases called

structure SameStarts (t t' : Timeline) : Prop where
  calls : t'.calls = t.calls
  dispatched : t'.engine.dispatched = t.engine.dispatched

theorem SameStarts.refl (t : Timeline) : SameStarts t t := ⟨rfl, rfl⟩

theorem SameStarts.trans {t'' : Timeline} (h : SameStarts t t') (h' : SameStarts t' t'') :
    SameStarts t t'' :=
  ⟨h'.calls.trans h.calls, h'.dispatched.trans h.dispatched⟩

/-- A worker whose trial has started goes on to another stage, and nobody else does. -/
theorem Punctual.move (h : t.Punctual p s e₀ first) {l : Label} {queue : List Outcome}
    {dues : List Due} {woken : Bool}
    (r : t.engine.Fires l ({ t.engine with queue := queue }.setStage i st'))
    (at_stage : t.engine.stage? i = some st) (called : st.isUncalled = false)
    (called' : st'.isUncalled = false)
    (obeys : l.Obeys s.fate) (quiet : l.callee? = none)
    (due : ({ t with dues := dues } : Timeline).due? i = some instant)
    (others : ∀ j ≠ i, ({ t with dues := dues } : Timeline).due? j = t.due? j)
    (hle : t.now ≤ instant) (on_time : OnTime s t.calls t.now i st' instant) :
    Punctual p s e₀ first { t with
      engine := { t.engine with queue := queue }.setStage i st', dues := dues, woken := woken } := by
  refine
    { history := h.history.fires r obeys quiet
      uncancelled := h.uncancelled
      paced := h.paced
      called_le := h.called_le
      timely := fun j => ?_
      timetable := h.timetable }
  by_cases hne : j = i
  · subst hne
    exact .of_called (stage?_setStage_self at_stage) called'
      ((h.timely j).not_uncalled at_stage called) due hle on_time
  · exact (h.timely j).of_same rfl (stage?_setStage_of_ne hne) (others j hne) rfl .rfl

theorem Punctual.endTrial (h : t.Punctual p s e₀ first) (hs : t.engine.Sound p)
    (smooth : s.Smooth p.count) :
    (t.endTrial s i).Punctual p s e₀ first ∧ SameStarts t (t.endTrial s i) := by
  rw [Timeline.endTrial]
  split
  · rename_i hdue
    cases hfate : (s.trial i).result with
    | some result =>
        dsimp only
        rw [advance]
        cases hstep : t.engine.step (.complete i result) with
        | none => exact ⟨h, .refl t⟩
        | some e =>
            cases fires_of_step hstep with
            | complete at_stage =>
                obtain ⟨instant, hinstant, hle, hon_time⟩ := (h.timely i).on_time _ at_stage
                obtain ⟨_, hinstant', hle'⟩ := isDue_iff.mp hdue
                obtain rfl := Option.some.inj (hinstant.symm.trans hinstant')
                have hnow := Nat.le_antisymm hle' hle
                cases hon_time with
                | executing called =>
                    have hdue' : t.due? i = some t.now := by rw [hinstant, hnow]
                    refine ⟨?_, rfl, rfl⟩
                    exact h.move (.complete at_stage) at_stage rfl rfl hfate rfl
                      hdue' (fun _ _ => rfl) (Nat.le_refl _) (.returned called hnow)
    | none =>
        dsimp only
        cases hstep : t.engine.step (.panic i) with
        | none => exact ⟨h, .refl t⟩
        | some e =>
            cases fires_of_step hstep with
            | panic at_stage =>
                have hlt := Nat.lt_of_lt_of_le (lt_of_stage? hs at_stage) hs.dispatched_le
                exact absurd hfate (smooth.returns i (hs.count ▸ hlt))
  · exact ⟨h, .refl t⟩

/-- A worker hands in its outcome when its trial is over, and rests from then on if workers rest. -/
theorem Punctual.handIn (h : t.Punctual p s e₀ first) :
    (t.handIn s i).Punctual p s e₀ first ∧ SameStarts t (t.handIn s i) := by
  rw [Timeline.handIn]
  cases hstep : t.engine.step (.handIn i) with
  | none => exact ⟨h, .refl t⟩
  | some e =>
      cases fires_of_step hstep with
      | @handIn _ result at_stage room =>
          obtain ⟨_, hinstant, -, hon_time⟩ := (h.timely i).on_time _ at_stage
          cases hon_time with
          | returned called expired =>
              have r := Fires.handIn at_stage room
              have hcancelled : ¬(t.engine.afterHandIn i result).cancelled = true :=
                Bool.eq_false_iff.mp h.uncancelled
              dsimp only
              cases hpaced : t.engine.paced with
              | true =>
                  have hpaced' : (t.engine.afterHandIn i result).paced = true := hpaced
                  have hrest : OnTime s t.calls t.now i .pacing (t.now + waitOf s.interval) := by
                    rw [← expired, Nat.add_assoc]
                    exact .pacing called
                  have hafter : t.engine.afterHandIn i result =
                      { t.engine with
                        queue := t.engine.queue ++ [Outcome.mk i result] }.setStage i .pacing :=
                    congrArg (setStage _ i) (if_pos hpaced)
                  rw [if_pos hpaced', if_neg hcancelled]
                  refine ⟨?_, rfl, rfl⟩
                  rw [hafter] at r ⊢
                  exact h.move r at_stage rfl rfl trivial rfl
                    (due?_setDue_self hinstant)
                    (fun _ hne => due?_setDue_of_ne hne) (Nat.le_add_right _ _) hrest
              | false =>
                  have hpaced' : ¬(t.engine.afterHandIn i result).paced = true :=
                    Bool.eq_false_iff.mp hpaced
                  -- A worker that does not rest leaves as if it had rested for no time.
                  have hleave : t.now + waitOf s.interval = t.now := by
                    have hzero := h.paced
                    rw [hpaced, eq_comm, Bool.not_eq_false'] at hzero
                    rw [waitOf, (Duration.isZero_iff _).mp hzero, Duration.toNanos_zero,
                      Nat.zero_min, Nat.add_zero]
                  have hexpired : OnTime s t.calls t.now i .leaving t.now := by
                    refine .leaving called ?_
                    rw [Script.hold, ← Nat.add_assoc, expired, hleave]
                  have hafter : t.engine.afterHandIn i result =
                      { t.engine with
                        queue := t.engine.queue ++ [Outcome.mk i result] }.setStage i .leaving :=
                    congrArg (setStage _ i) (if_neg (Bool.eq_false_iff.mp hpaced))
                  rw [if_neg hpaced']
                  refine ⟨?_, rfl, rfl⟩
                  rw [hafter] at r ⊢
                  exact h.move r at_stage rfl rfl trivial rfl hinstant (fun _ _ => rfl)
                    (Nat.le_refl _) hexpired

theorem Punctual.wake (h : t.Punctual p s e₀ first) :
    (t.wake i).Punctual p s e₀ first ∧ SameStarts t (t.wake i) := by
  rw [Timeline.wake]
  split
  · rename_i hdue
    rw [advance]
    cases hstep : t.engine.step (.wake i) with
    | none => exact ⟨h, .refl t⟩
    | some e =>
        cases fires_of_step hstep with
        | wake at_stage =>
            obtain ⟨instant, hinstant, hle, hon_time⟩ := (h.timely i).on_time _ at_stage
            obtain ⟨_, hinstant', hle'⟩ := isDue_iff.mp hdue
            obtain rfl := Option.some.inj (hinstant.symm.trans hinstant')
            have hnow := Nat.le_antisymm hle' hle
            cases hon_time with
            | pacing called =>
                have hdue' : t.due? i = some t.now := by rw [hinstant, hnow]
                refine ⟨?_, rfl, rfl⟩
                exact h.move (.wake at_stage) at_stage rfl rfl trivial rfl hdue'
                  (fun _ _ => rfl) (Nat.le_refl _) (.leaving called hnow)
  · exact ⟨h, .refl t⟩

theorem Punctual.retire (h : t.Punctual p s e₀ first) :
    (t.retire i).Punctual p s e₀ first ∧ SameStarts t (t.retire i) := by
  rw [Timeline.retire]
  cases hstep : t.engine.step (.retire i) with
  | none => exact ⟨h, .refl t⟩
  | some e =>
      cases fires_of_step hstep with
      | retire at_stage =>
          obtain ⟨instant, -, -, hon_time⟩ := (h.timely i).on_time _ at_stage
          have hself : (t.engine.endWorker i .regular).stage? i = none := stage?_endWorker_self
          refine ⟨?_, rfl, rfl⟩
          refine
            { history := h.history.fires (.retire at_stage) trivial rfl
              uncancelled := h.uncancelled
              paced := h.paced
              called_le := h.called_le
              timely := fun j => ?_
              timetable := h.timetable }
          by_cases hne : j = i
          · subst hne
            have hcalled : ¬t.Uncalled j := (h.timely j).not_uncalled at_stage rfl
            constructor
            · exact iff_of_false (by simp [hself]) hcalled
            · intro st hj
              cases hself.symm.trans hj
            · intro start hstart _
              cases hon_time with
              | leaving called expired =>
                  obtain rfl := Option.some.inj (called.symm.trans hstart)
                  exact expired.le
          · exact (h.timely j).of_same rfl (stage?_endWorker_of_ne hne) (due?_dropDue_of_ne hne) rfl
              .rfl

/-! ### Trials start -/

theorem SameStarts.uncalled (h : SameStarts t t') (hj : t'.Uncalled j) : t.Uncalled j := by
  rwa [Uncalled, h.calls, h.dispatched] at hj

/-- Whoever has been admitted has a place, so one of the places has been given back. -/
theorem Punctual.free (h : t.Punctual p s e₀ first) (hs : t.engine.Sound p)
    (next : t.engine.stage? t.calls.length = some .admitted) :
    t.calls.length < (releases s.hold t.calls).countP (· ≤ t.now) + p.strategy.width := by
  have hmem := mem_indices_of_stage? hs next
  have hplaces : (releases s.hold t.calls).length ≤ (releases s.hold t.calls).countP (· ≤ t.now) +
      ((t.engine.workers.map Worker.index).erase t.calls.length).length := by
    refine length_le_countP_add fun i release hrelease => ?_
    rw [getElem?_releases, Option.map_eq_some_iff] at hrelease
    obtain ⟨start, hstart, rfl⟩ := hrelease
    have hlt : i < t.calls.length := (List.getElem?_eq_some_iff.mp hstart).1
    cases hstage : t.engine.stage? i with
    | none => exact .inl (by simpa using (h.timely i).released start hstart hstage)
    | some st => exact .inr ((List.mem_erase_of_ne hlt.ne).mpr (mem_indices_of_stage? hs hstage))
  have hpos := List.length_pos_of_mem hmem
  have hwidth := hs.permits
  rw [length_releases, List.length_erase_of_mem hmem] at hplaces
  rw [List.length_map] at hplaces hpos
  omega

/-- The next trial starts. -/
theorem Punctual.call (h : t.Punctual p s e₀ first) (hs : t.engine.Sound p)
    (next : t.engine.stage? t.calls.length = some .admitted) (peak : Nat) :
    Punctual p s e₀ first ({ t with
      engine := t.engine.setStage t.calls.length .executing, calls := t.calls ++ [t.now]
      peak := peak }.setDue t.calls.length (t.now + (s.trial t.calls.length).delay.toNanos)) := by
  have hlt : t.calls.length < t.engine.dispatched := lt_of_stage? hs next
  have hcount : t.calls.length < p.count := Nat.lt_of_lt_of_le hlt (hs.count ▸ hs.dispatched_le)
  have hlength : (t.calls ++ [t.now]).length = t.calls.length + 1 := List.length_append
  refine
    { history := ?_
      uncancelled := h.uncancelled
      paced := h.paced
      called_le := hlength ▸ hlt
      timely := fun j => ?_
      timetable := h.timetable.call hcount (h.free hs next) }
  · obtain ⟨ls, hls, hobeys, hcalled⟩ := h.history
    refine ⟨ls ++ [.call t.calls.length], follow_concat hls (.call next), ?_, ?_⟩
    · exact List.forall_mem_append.mpr ⟨hobeys, List.forall_mem_singleton.mpr trivial⟩
    · show _ = List.range (t.calls ++ [t.now]).length
      rw [called_concat, hcalled, hlength, List.range_succ]
      rfl
  · by_cases hne : j = t.calls.length
    · subst hne
      obtain ⟨_, hdue, -⟩ := (h.timely _).on_time _ next
      have hcalled : ¬((t.calls ++ [t.now]).length ≤ t.calls.length ∧
          t.calls.length < t.engine.dispatched) := by
        rw [hlength]
        omega
      exact .of_called (stage?_setStage_self next) rfl hcalled
        (due?_setDue_self hdue) (Nat.le_add_right _ _)
        (.executing List.getElem?_concat_length)
    · have hsame : (t.calls ++ [t.now])[j]? = t.calls[j]? := by
        obtain hlt | hgt := Nat.lt_or_gt_of_ne hne
        · exact List.getElem?_append_left hlt
        · rw [List.getElem?_eq_none (hlength ▸ hgt), List.getElem?_eq_none hgt.le]
      have huncalled : ((t.calls ++ [t.now]).length ≤ j ∧ j < t.engine.dispatched) ↔
          t.Uncalled j := by
        rw [hlength, Uncalled]
        omega
      exact (h.timely j).of_same rfl (stage?_setStage_of_ne hne) (due?_setDue_of_ne hne) hsame
        huncalled

/-- If a worker is the next one to start its trial, or has started it, then it has started it
now. -/
theorem Punctual.beginTrial (h : t.Punctual p s e₀ first) (hs : t.engine.Sound p)
    (smooth : s.Smooth p.count)
    (next : t.engine.stage? i = some .admitted → i = t.calls.length) :
    (t.beginTrial s i).Punctual p s e₀ first ∧
      ∀ j, (t.beginTrial s i).Uncalled j → t.Uncalled j ∧ j ≠ i := by
  rw [Timeline.beginTrial]
  cases hstep : t.engine.step (.call i) with
  | none =>
      refine ⟨h, fun j hj => ⟨hj, ?_⟩⟩
      rintro rfl
      have r := (Fires.call ((h.timely j).uncalled.mpr hj)).step
      cases hstep.symm.trans r
  | some e =>
      cases fires_of_step hstep with
      | call at_stage =>
          obtain rfl := next at_stage
          rw [smooth.quiet]
          refine ⟨h.call hs at_stage _, fun j hj => ?_⟩
          have hlater : (t.calls ++ [t.now]).length ≤ j := hj.1
          rw [List.length_append, List.length_singleton] at hlater
          exact ⟨⟨by omega, hj.2⟩, by omega⟩

theorem Punctual.goOn (h : t.Punctual p s e₀ first) (ho : t.Orderly p s e₀)
    (smooth : s.Smooth p.count)
    (next : t.engine.stage? i = some .admitted → i = t.calls.length) :
    (t.goOn s i).Punctual p s e₀ first ∧ ∀ j, (t.goOn s i).Uncalled j → t.Uncalled j ∧ j ≠ i := by
  obtain ⟨hbegun, huncalled⟩ := h.beginTrial ho.sound smooth next
  obtain ⟨hended, hend⟩ := hbegun.endTrial (i := i) ho.beginTrial.sound smooth
  obtain ⟨hhanded, hhand⟩ := hended.handIn (i := i)
  obtain ⟨hwoken, hwake⟩ := hhanded.wake (i := i)
  obtain ⟨hretired, hretire⟩ := hwoken.retire (i := i)
  have hsame := ((hend.trans hhand).trans hwake).trans hretire
  exact ⟨hretired, fun j hj => huncalled j (hsame.uncalled hj)⟩

/-- Workers go on in the order of their numbers, so the trials of those who have been admitted
start in this order. -/
theorem Punctual.foldl_goOn (h : t.Punctual p s e₀ first) (ho : t.Orderly p s e₀)
    (smooth : s.Smooth p.count)
    {indices : List Nat} (ascending : indices.Pairwise (· < ·))
    (all : ∀ j, t.Uncalled j → j ∈ indices) :
    (indices.foldl (Timeline.goOn s) t).Punctual p s e₀ first ∧
      ∀ j, ¬(indices.foldl (Timeline.goOn s) t).Uncalled j := by
  induction indices generalizing t with
  | nil => exact ⟨h, fun j hj => List.not_mem_nil (all j hj)⟩
  | cons i indices ih =>
      obtain ⟨hfirst, hrest⟩ := List.pairwise_cons.mp ascending
      have hnext (at_stage : t.engine.stage? i = some .admitted) : i = t.calls.length := by
        obtain ⟨hle, hlt⟩ := (h.timely i).uncalled.mp at_stage
        obtain heq | hmem := List.mem_cons.mp (all t.calls.length ⟨Nat.le_refl _, hle.trans_lt hlt⟩)
        · exact heq.symm
        · have hgt := hfirst _ hmem
          omega
      obtain ⟨hgone, huncalled⟩ := h.goOn ho smooth hnext
      refine ih hgone (ho.goOn i) hrest fun j hj => ?_
      obtain ⟨hj, hne⟩ := huncalled j hj
      exact (List.mem_cons.mp (all j hj)).resolve_left hne

theorem mem_of_due? (h : t.due? i = some instant) : ⟨i, instant⟩ ∈ t.dues := by
  obtain ⟨d, hd, rfl⟩ := Option.map_eq_some_iff.mp h
  have hindex : d.index = i := by simpa using List.find?_some hd
  exact hindex ▸ List.mem_of_find?_eq_some hd

/-- When the workers have gone on, all trials that have been admitted have started. -/
theorem Punctual.work (h : t.Punctual p s e₀ first) (ho : t.Orderly p s e₀)
    (smooth : s.Smooth p.count) :
    (t.work s).Punctual p s e₀ first ∧ (t.work s).calls.length = (t.work s).engine.dispatched := by
  have hsublist : ((t.dues.filter fun d => d.instant ≤ t.now).map Due.index).Sublist
      (List.range t.engine.dispatched) :=
    (List.filter_sublist.map _).trans (ho.dues ▸ ho.sound.indices)
  have hall (j : Nat) (hj : t.Uncalled j) :
      j ∈ (t.dues.filter fun d => d.instant ≤ t.now).map Due.index := by
    obtain ⟨instant, hdue, -, hon_time⟩ := (h.timely j).on_time _ ((h.timely j).uncalled.mpr hj)
    cases hon_time with
    | admitted =>
        have hmem : ⟨j, t.now⟩ ∈ t.dues.filter fun d => d.instant ≤ t.now :=
          List.mem_filter.mpr ⟨mem_of_due? hdue, decide_eq_true (Nat.le_refl t.now)⟩
        exact List.mem_map_of_mem hmem
  obtain ⟨hworked, hnone⟩ :=
    h.foldl_goOn ho smooth (List.pairwise_lt_range.sublist hsublist) hall
  refine ⟨hworked, Nat.le_antisymm hworked.called_le (Nat.not_lt.mp fun hlt => ?_)⟩
  exact hnone _ ⟨Nat.le_refl _, hlt⟩

end Timeline

end ProxyTiming.Run
