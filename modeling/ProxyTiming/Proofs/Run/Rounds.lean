import ProxyTiming.Proofs.Run.Clock
import ProxyTiming.Proofs.Run.Progress

/-!
# A run on a clock comes to its end

A timeline is given a number of rounds in which to end, and it has to be shown that they
are enough.  The work that is left is not a measure of them: a round may do nothing but
have a turn or move the clock on.  But such a round is worth something.  After a turn
nothing concerns dispatcher and aggregator any more; and when the clock moves on, then
either somebody cancels, which happens once, or a worker can go on in the next round.

The potential of a timeline adds these up.  Every round of a run that is not over lowers
it, and at the start it is no more than the number of rounds that are given.
-/

namespace ProxyTiming.Run

open ProxyTiming.Time Engine

namespace Timeline

variable {p : Plan} {s : Script} {e₀ : Engine} {t t' t'' : Timeline} {index n : Nat}

/-! ### A worker goes on -/

def Advances (t t' : Timeline) : Prop := t' = t ∨ t'.engine.work < t.engine.work

theorem Advances.refl (t : Timeline) : Advances t t := .inl rfl

theorem Advances.work_le (h : Advances t t') : t'.engine.work ≤ t.engine.work := by
  obtain rfl | h := h
  · exact Nat.le_refl _
  · exact Nat.le_of_lt h

theorem Advances.trans (h : Advances t t') (h' : Advances t' t'') : Advances t t'' := by
  obtain rfl | h := h
  · exact h'
  · exact .inr (Nat.lt_of_le_of_lt h'.work_le h)

theorem work_lt_of_step {e e' : Engine} {l : Label} (hs : e.Sound p) (inner : l.isInner = true)
    (h : e.step l = some e') : e'.work < e.work := by
  have hle := work_add_le_of_fires hs (fires_of_step h)
  rw [if_pos inner] at hle
  exact hle

theorem work_cancel (t : Timeline) : t.cancel.engine.work = t.engine.work := by
  rw [cancel]
  cases hstep : t.engine.step .cancel with
  | none => rfl
  | some e =>
      cases fires_of_step hstep with
      | cancel => rfl

theorem work_beginTrial_lt (hs : t.engine.Sound p) {e : Engine}
    (h : t.engine.step (.call index) = some e) :
    (t.beginTrial s index).engine.work < t.engine.work := by
  have hlt := work_lt_of_step hs rfl h
  rw [beginTrial, h]
  dsimp only
  split
  · rw [work_cancel]
    exact hlt
  · exact hlt

theorem advances_beginTrial (hs : t.engine.Sound p) : Advances t (t.beginTrial s index) := by
  cases h : t.engine.step (.call index) with
  | none =>
      rw [beginTrial, h]
      exact .refl t
  | some e => exact .inr (work_beginTrial_lt hs h)

theorem advances_endTrial (hs : t.engine.Sound p) : Advances t (t.endTrial s index) := by
  rw [endTrial]
  split
  · cases (s.trial index).result with
    | some result =>
        dsimp only [advance]
        cases h : t.engine.step (.complete index result) with
        | none => exact .refl t
        | some e => exact .inr (work_lt_of_step hs rfl h)
    | none =>
        dsimp only
        cases h : t.engine.step (.panic index) with
        | none => exact .refl t
        | some e => exact .inr (work_lt_of_step hs rfl h)
  · exact .refl t

theorem advances_handIn (hs : t.engine.Sound p) : Advances t (t.handIn s index) := by
  rw [handIn]
  cases h : t.engine.step (.handIn index) with
  | none => exact .refl t
  | some e =>
      dsimp only
      split <;> exact .inr (work_lt_of_step hs rfl h)

theorem advances_wake (hs : t.engine.Sound p) : Advances t (t.wake index) := by
  rw [wake]
  split
  · dsimp only [advance]
    cases h : t.engine.step (.wake index) with
    | none => exact .refl t
    | some e => exact .inr (work_lt_of_step hs rfl h)
  · exact .refl t

theorem advances_retire (hs : t.engine.Sound p) : Advances t (t.retire index) := by
  rw [retire]
  cases h : t.engine.step (.retire index) with
  | none => exact .refl t
  | some e => exact .inr (work_lt_of_step hs rfl h)

theorem advances_afterHandIn (h : t.Orderly p s e₀) :
    Advances t (retire index (wake index t)) :=
  (advances_wake h.sound).trans (advances_retire h.wake.sound)

theorem advances_afterTrial (h : t.Orderly p s e₀) :
    Advances t (retire index (wake index (handIn s index t))) :=
  (advances_handIn h.sound).trans (advances_afterHandIn h.handIn)

theorem advances_afterBegin (h : t.Orderly p s e₀) :
    Advances t (retire index (wake index (handIn s index (endTrial s index t)))) :=
  (advances_endTrial h.sound).trans (advances_afterTrial h.endTrial)

theorem advances_goOn (h : t.Orderly p s e₀) : Advances t (t.goOn s index) :=
  (advances_beginTrial h.sound).trans (advances_afterBegin h.beginTrial)

theorem due?_of_mem (unique : (t.dues.map Due.index).Nodup) {d : Due} (hd : d ∈ t.dues) :
    t.due? d.index = some d.instant := by
  rw [due?, find?_of_mem Due.index t.dues unique hd, Option.map_some]

theorem isDue_of_mem (unique : (t.dues.map Due.index).Nodup) {d : Due} (hd : d ∈ t.dues)
    (hle : d.instant ≤ t.now) : t.isDue d.index = true := by
  rw [isDue, due?_of_mem unique hd]
  exact decide_eq_true hle

/-! Each of the things that a worker does belongs to one stage; at any other stage it does
nothing. -/

variable {st : Stage}

theorem beginTrial_of_stage (at_stage : t.engine.stage? index = some st) (hne : st ≠ .admitted) :
    t.beginTrial s index = t := by
  have hstep : t.engine.step (.call index) = none := by
    apply step_eq_none
    intro e r
    cases r with
    | call h => exact hne (Option.some.inj (at_stage.symm.trans h))
  rw [beginTrial, hstep]

theorem endTrial_of_stage (at_stage : t.engine.stage? index = some st) (hne : st ≠ .executing) :
    t.endTrial s index = t := by
  have hcomplete (result : Except TrialFailure Timings) :
      t.engine.step (.complete index result) = none := by
    apply step_eq_none
    intro e r
    cases r with
    | complete h => exact hne (Option.some.inj (at_stage.symm.trans h))
  have hpanic : t.engine.step (.panic index) = none := by
    apply step_eq_none
    intro e r
    cases r with
    | panic h => exact hne (Option.some.inj (at_stage.symm.trans h))
  rw [endTrial]
  split
  · split
    · rw [advance, hcomplete]
      rfl
    · rw [hpanic]
  · rfl

theorem handIn_of_stage (at_stage : t.engine.stage? index = some st)
    (hne : ∀ result, st ≠ .returned result) : t.handIn s index = t := by
  have hstep : t.engine.step (.handIn index) = none := by
    apply step_eq_none
    intro e r
    cases r with
    | handIn h => exact hne _ (Option.some.inj (at_stage.symm.trans h))
  rw [handIn, hstep]

theorem wake_of_stage (at_stage : t.engine.stage? index = some st) (hne : st ≠ .pacing) :
    t.wake index = t := by
  have hstep : t.engine.step (.wake index) = none := by
    apply step_eq_none
    intro e r
    cases r with
    | wake h => exact hne (Option.some.inj (at_stage.symm.trans h))
  rw [wake]
  split
  · rw [advance, hstep]
    rfl
  · rfl

theorem work_endTrial_lt (hs : t.engine.Sound p) (due : t.isDue index = true)
    (at_stage : t.engine.stage? index = some .executing) :
    (t.endTrial s index).engine.work < t.engine.work := by
  rw [endTrial, if_pos due]
  split
  · rename_i result _
    have hstep : t.engine.step (.complete index result) = some _ :=
      (Fires.complete at_stage).step
    rw [advance, hstep]
    exact work_lt_of_step hs rfl hstep
  · have hstep := (Fires.panic at_stage).step
    rw [hstep]
    exact work_lt_of_step hs rfl hstep

theorem work_handIn_lt (hs : t.engine.Sound p) {result : Except TrialFailure Timings}
    (at_stage : t.engine.stage? index = some (.returned result))
    (room : t.engine.queue.length < queueCapacity) :
    (t.handIn s index).engine.work < t.engine.work := by
  have hstep := (Fires.handIn at_stage room).step
  rw [handIn, hstep]
  dsimp only
  split <;> exact work_lt_of_step hs rfl hstep

theorem work_wake_lt (hs : t.engine.Sound p) (due : t.isDue index = true)
    (at_stage : t.engine.stage? index = some .pacing) :
    (t.wake index).engine.work < t.engine.work := by
  have hstep := (Fires.wake at_stage).step
  rw [wake, if_pos due, advance, hstep]
  exact work_lt_of_step hs rfl hstep

theorem work_retire_lt (hs : t.engine.Sound p)
    (at_stage : t.engine.stage? index = some .leaving) :
    (t.retire index).engine.work < t.engine.work := by
  have hstep := (Fires.retire at_stage).step
  rw [retire, hstep]
  exact work_lt_of_step hs rfl hstep

/-- A worker that is due gets some work done, whatever its stage, if there is room in the queue. -/
theorem work_goOn_lt (h : t.Orderly p s e₀) (due : t.isDue index = true)
    (living : index ∈ t.engine.workers.map Worker.index)
    (room : t.engine.queue.length < queueCapacity) :
    (t.goOn s index).engine.work < t.engine.work := by
  obtain ⟨w, hw, rfl⟩ := List.mem_map.mp living
  have at_stage := stage?_of_mem h.sound.unique hw
  rw [goOn]
  -- Up to its stage the worker does nothing; there it does something; and what it does
  -- afterwards makes no work.
  cases hstage : w.stage with
  | admitted =>
      rw [hstage] at at_stage
      have hlt := work_beginTrial_lt (s := s) h.sound (Fires.call at_stage).step
      exact Nat.lt_of_le_of_lt (advances_afterBegin h.beginTrial).work_le hlt
  | executing =>
      rw [hstage] at at_stage
      have hlt := work_endTrial_lt (s := s) h.sound due at_stage
      rw [beginTrial_of_stage at_stage nofun]
      exact Nat.lt_of_le_of_lt (advances_afterTrial h.endTrial).work_le hlt
  | returned result =>
      rw [hstage] at at_stage
      have hlt := work_handIn_lt (s := s) h.sound at_stage room
      rw [beginTrial_of_stage at_stage nofun, endTrial_of_stage at_stage nofun]
      exact Nat.lt_of_le_of_lt (advances_afterHandIn h.handIn).work_le hlt
  | pacing =>
      rw [hstage] at at_stage
      have hlt := work_wake_lt h.sound due at_stage
      rw [beginTrial_of_stage at_stage nofun, endTrial_of_stage at_stage nofun,
        handIn_of_stage at_stage nofun]
      exact Nat.lt_of_le_of_lt (advances_retire h.wake.sound).work_le hlt
  | leaving =>
      rw [hstage] at at_stage
      rw [beginTrial_of_stage at_stage nofun, endTrial_of_stage at_stage nofun,
        handIn_of_stage at_stage nofun, wake_of_stage at_stage nofun]
      exact work_retire_lt h.sound at_stage

theorem advances_foldl_goOn (h : t.Orderly p s e₀) (indices : List Nat) :
    Advances t (indices.foldl (goOn s) t) := by
  induction indices generalizing t with
  | nil => exact .refl t
  | cons index indices ih => exact (advances_goOn h).trans (ih (h.goOn index))

/-- When some worker is due, the workers get some work done. -/
theorem work_work_lt (h : t.Orderly p s e₀) (queue : t.engine.queue = []) {d : Due}
    (hd : d ∈ t.dues) (hle : d.instant ≤ t.now) :
    (t.work s).engine.work < t.engine.work := by
  rw [work]
  cases hdues : t.dues.filter fun d => d.instant ≤ t.now with
  | nil =>
      have hmem : d ∈ t.dues.filter fun d => d.instant ≤ t.now :=
        List.mem_filter.mpr ⟨hd, by simpa using hle⟩
      rw [hdues] at hmem
      cases hmem
  | cons d' dues =>
      have hmem : d' ∈ t.dues.filter fun d => d.instant ≤ t.now := hdues ▸ List.mem_cons_self
      obtain ⟨hd', hle'⟩ := List.mem_filter.mp hmem
      have due := isDue_of_mem (h.dues ▸ h.sound.unique) hd' (by simpa using hle')
      have living : d'.index ∈ t.engine.workers.map Worker.index :=
        h.dues ▸ List.mem_map_of_mem hd'
      have hlt := work_goOn_lt h due living (by rw [queue]; decide)
      have hrest := advances_foldl_goOn (h.goOn d'.index) (dues.map Due.index)
      exact Nat.lt_of_le_of_lt hrest.work_le hlt

/-! ### The clock -/

theorem earliest_eq_none {l : List Nat} (h : earliest l = none) : l = [] := by
  cases l with
  | nil => rfl
  | cons n rest =>
      rw [earliest] at h
      split at h <;> cases h

theorem earliest_mem {l : List Nat} (h : earliest l = some n) : n ∈ l := by
  induction l generalizing n with
  | nil => cases h
  | cons m rest ih =>
      rw [earliest] at h
      split at h
      · rename_i k hrest
        obtain rfl := Option.some.inj h
        obtain hm | hk := Nat.le_total m k
        · rw [Nat.min_eq_left hm]
          exact List.mem_cons_self
        · rw [Nat.min_eq_right hk]
          exact List.mem_cons_of_mem m (ih hrest)
      · obtain rfl := Option.some.inj h
        exact List.mem_cons_self

theorem earliest_le {l : List Nat} {m n : Nat} (hm : m ∈ l) (h : earliest l = some n) : n ≤ m := by
  induction l generalizing n with
  | nil => cases hm
  | cons k rest ih =>
      rw [earliest] at h
      split at h
      · rename_i n' hrest
        obtain rfl := Option.some.inj h
        obtain rfl | hm := List.mem_cons.mp hm
        · exact min_le_left _ _
        · exact (min_le_right _ _).trans (ih hm hrest)
      · rename_i hrest
        obtain rfl := Option.some.inj h
        obtain rfl | hm := List.mem_cons.mp hm
        · exact Nat.le_refl _
        · rw [earliest_eq_none hrest] at hm
          cases hm

def isIdle (t : Timeline) : Bool := t.dues.all fun d => t.now < d.instant

theorem work_of_isIdle (h : t.isIdle = true) : t.work s = t := by
  have hnone : (t.dues.filter fun d => d.instant ≤ t.now) = [] := by
    rw [List.filter_eq_nil_iff]
    intro d hd
    have hlt := List.all_eq_true.mp h d hd
    simpa using hlt
  rw [work, hnone]
  rfl

@[simp] theorem cancelAt_cancel (t : Timeline) : t.cancel.cancelAt = t.cancelAt := by
  rw [cancel]
  split <;> rfl

theorem queue_cancel (t : Timeline) : t.cancel.engine.queue = t.engine.queue := by
  rw [cancel]
  cases hstep : t.engine.step .cancel with
  | none => rfl
  | some e =>
      cases fires_of_step hstep with
      | cancel => rfl

/-- As the clock moves on, the one who is going to cancel does so, or nothing else changes. -/
theorem tick_cases (t : Timeline) :
    (t.cancelAt.isSome = true ∧ t.tick.cancelAt = none ∧ t.tick.engine.work = t.engine.work ∧
      t.tick.engine.queue = t.engine.queue) ∨
    ∃ now, t.tick = { t with now := now } ∧
      ∀ instant, t.next? = some instant → instant ≤ now ∧ ∀ c ∈ t.cancelAt, now < c := by
  unfold tick
  cases hnext : t.next? with
  | none => exact .inr ⟨t.now, rfl, nofun⟩
  | some instant =>
      dsimp only
      cases hcancel : t.cancelAt with
      | none =>
          refine .inr ⟨max t.now instant, rfl, fun i hi => ⟨?_, nofun⟩⟩
          obtain rfl := Option.some.inj hi
          exact le_max_right _ _
      | some c =>
          dsimp only
          split
          · rw [cancelAt_cancel, work_cancel, queue_cancel]
            exact .inl ⟨rfl, rfl, rfl, rfl⟩
          · rename_i hlate
            refine .inr ⟨max t.now instant, rfl, fun i hi => ⟨?_, fun c' hc' => ?_⟩⟩
            · obtain rfl := Option.some.inj hi
              exact le_max_right _ _
            · obtain rfl := Option.some.inj hc'
              exact Nat.lt_of_not_le hlate

/-- As long as a run is not over and nothing concerns dispatcher and aggregator, some worker is
going to go on. -/
theorem dues_ne_nil (h : t.Orderly p s e₀) (asleep : t.woken = false)
    (unsettled : t.engine.isSettled = false) : t.dues ≠ [] := by
  intro hdues
  have hworkers : t.engine.workers = [] := by
    have hmap := h.dues
    rw [hdues] at hmap
    exact List.map_eq_nil_iff.mp hmap.symm
  obtain ⟨hqueue, ⟨-, none_free, -⟩ | ⟨through, hended⟩⟩ := h.asleep asleep
  · have hsum := h.sound.permits
    have hwidth := p.strategy.one_le_width
    rw [hworkers, none_free, List.length_nil] at hsum
    omega
  · have settled := (isSettled_iff t.engine).mpr ⟨through, hworkers, hended, hqueue⟩
    rw [settled] at unsettled
    cases unsettled

/-- If no worker is due and nobody cancels, the clock moves on to an instant at which one is. -/
theorem isIdle_tick (h : t.Orderly p s e₀) (asleep : t.woken = false)
    (unsettled : t.engine.isSettled = false) {now : Nat}
    (reached : ∀ instant, t.next? = some instant → instant ≤ now ∧ ∀ c ∈ t.cancelAt, now < c) :
    ({ t with now := now } : Timeline).isIdle = false := by
  cases hnext : t.next? with
  | none =>
      have hnil := List.append_eq_nil_iff.mp (earliest_eq_none hnext)
      exact absurd (List.map_eq_nil_iff.mp hnil.2) (dues_ne_nil h asleep unsettled)
  | some instant =>
      obtain ⟨hle, hlate⟩ := reached instant hnext
      -- The next instant is not that of a cancellation, or somebody would have cancelled.
      obtain hc | hinstant := List.mem_append.mp (earliest_mem hnext)
      · have hlt := hlate instant (by simpa using hc)
        omega
      · obtain ⟨d, hd, rfl⟩ := List.mem_map.mp hinstant
        have hdue : ¬now < d.instant := Nat.not_lt.mpr hle
        exact List.all_eq_false.mpr ⟨d, hd, by simpa using hdue⟩

/-! ### The potential -/

/-- An upper bound for the rounds that are left. -/
def potential (t : Timeline) : Nat :=
  3 * t.engine.work + 2 * t.cancelAt.isSome.toNat + t.woken.toNat + t.isIdle.toNat

theorem potential_le_roundsFor (t : Timeline) : t.potential ≤ t.roundsFor := by
  have hcancel := Bool.toNat_le t.cancelAt.isSome
  have hwoken := Bool.toNat_le t.woken
  have hidle := Bool.toNat_le t.isIdle
  rw [potential, roundsFor]
  omega

theorem work_turn_le (h : t.Orderly p s e₀) : t.turn.engine.work ≤ t.engine.work := by
  have hturn : t.turn.engine.Sound p ∧ t.turn.engine.work ≤ t.engine.work := by
    refine (takes_turn t).induction (P := fun e => e.Sound p ∧ e.work ≤ t.engine.work)
      ⟨h.sound, Nat.le_refl _⟩ ?_
    intro l e e' _ ⟨hs, hle⟩ r
    have hless := work_add_le_of_fires hs r
    exact ⟨hs.fires r, by omega⟩
  exact hturn.2

theorem cancelAt_goOn (t : Timeline) (index : Nat) : (t.goOn s index).cancelAt = t.cancelAt := by
  have hbegin (t : Timeline) : (t.beginTrial s index).cancelAt = t.cancelAt := by
    rw [beginTrial]
    dsimp only
    repeat' split
    all_goals simp [setDue]
  have hend (t : Timeline) : (t.endTrial s index).cancelAt = t.cancelAt := by
    rw [endTrial]
    repeat' split
    all_goals rfl
  have hhand (t : Timeline) : (t.handIn s index).cancelAt = t.cancelAt := by
    rw [handIn]
    dsimp only
    repeat' split
    all_goals rfl
  have hwake (t : Timeline) : (t.wake index).cancelAt = t.cancelAt := by
    rw [wake]
    split <;> rfl
  have hretire (t : Timeline) : (t.retire index).cancelAt = t.cancelAt := by
    rw [retire]
    split <;> rfl
  rw [goOn, hretire, hwake, hhand, hend, hbegin]

theorem cancelAt_work (t : Timeline) : (t.work s).cancelAt = t.cancelAt := by
  rw [work]
  generalize ((t.dues.filter fun d => d.instant ≤ t.now).map Due.index) = indices
  induction indices generalizing t with
  | nil => rfl
  | cons index indices ih => exact (ih (t.goOn s index)).trans (cancelAt_goOn t index)

theorem potential_turn_le (h : t.Orderly p s e₀) :
    t.turn.potential ≤ 3 * t.engine.work + 2 * t.cancelAt.isSome.toNat + 1 := by
  have hwork := work_turn_le h
  have hidle := Bool.toNat_le t.turn.isIdle
  show 3 * t.turn.engine.work + 2 * t.cancelAt.isSome.toNat + 0 + t.turn.isIdle.toNat ≤ _
  omega

theorem potential_tick_le (asleep : t.woken = false) :
    t.tick.potential ≤ 3 * t.engine.work + 2 * t.cancelAt.isSome.toNat + 1 := by
  have hwoken := Bool.toNat_le t.tick.woken
  have hidle := Bool.toNat_le t.tick.isIdle
  obtain ⟨hsome, hnone, hwork, -⟩ | ⟨now, htick, -⟩ := tick_cases t
  · simp only [potential, hsome, hnone, hwork, Option.isSome_none, Bool.toNat_true,
      Bool.toNat_false]
    omega
  · rw [htick] at hidle ⊢
    show 3 * t.engine.work + 2 * t.cancelAt.isSome.toNat + t.woken.toNat + _ ≤ _
    rw [asleep, Bool.toNat_false]
    exact Nat.add_le_add_left hidle _

/-- It is worth something that the clock moves on when no worker is due. -/
theorem potential_tick_le_of_isIdle (h : t.Orderly p s e₀) (asleep : t.woken = false)
    (unsettled : t.engine.isSettled = false) :
    t.tick.potential ≤ 3 * t.engine.work + 2 * t.cancelAt.isSome.toNat := by
  have hwoken := Bool.toNat_le t.tick.woken
  have hidle := Bool.toNat_le t.tick.isIdle
  obtain ⟨hsome, hnone, hwork, -⟩ | ⟨now, htick, reached⟩ := tick_cases t
  · simp only [potential, hsome, hnone, hwork, Option.isSome_none, Bool.toNat_true,
      Bool.toNat_false]
    omega
  · rw [htick]
    show 3 * t.engine.work + 2 * t.cancelAt.isSome.toNat + t.woken.toNat +
      ({ t with now := now } : Timeline).isIdle.toNat ≤ _
    rw [isIdle_tick h asleep unsettled reached, asleep]
    exact Nat.le_refl _

/-- Every round of a run that is not over lowers the potential. -/
theorem potential_round_lt (h : t.Orderly p s e₀) (queue : t.engine.queue = [])
    (unsettled : t.engine.isSettled = false) : (t.round s).potential < t.potential := by
  unfold round
  dsimp only
  cases hidle : t.isIdle with
  | true =>
      -- No worker is due.  Either the turn or the clock has to pay for the round.
      rw [work_of_isIdle hidle]
      cases hwoken : t.woken with
      | true =>
          have hle := potential_turn_le h
          simp only [potential, hidle, hwoken, Bool.toNat_true, if_true] at hle ⊢
          omega
      | false =>
          have hle := potential_tick_le_of_isIdle h hwoken unsettled
          simp only [potential, hidle, hwoken, Bool.toNat_true, Bool.false_eq_true, if_false]
            at hle ⊢
          omega
  | false =>
      -- The work that a worker gets done pays for the round, whatever follows.
      obtain ⟨d, hd, hdue⟩ := List.all_eq_false.mp hidle
      have hlt := work_work_lt h queue hd (by simpa using hdue)
      have hcancel := cancelAt_work (s := s) t
      have hle : (if (t.work s).woken then (t.work s).turn else (t.work s).tick).potential ≤
          3 * (t.work s).engine.work + 2 * (t.work s).cancelAt.isSome.toNat + 1 := by
        split
        · exact potential_turn_le h.work
        · exact potential_tick_le (by simpa using ‹¬(t.work s).woken = true›)
      rw [hcancel] at hle
      have hpot : 3 * t.engine.work + 2 * t.cancelAt.isSome.toNat ≤ t.potential := by
        rw [potential]
        omega
      omega

/-- Between rounds the queue is empty. -/
theorem queue_round (h : t.Orderly p s e₀) : (t.round s).engine.queue = [] := by
  unfold round
  dsimp only
  split
  · exact (atRest_turn h.work.idle).1
  · have hqueue := (h.work.asleep (by simpa using ‹¬(t.work s).woken = true›)).1
    obtain ⟨-, -, -, hsame⟩ | ⟨now, htick, -⟩ := tick_cases (t.work s)
    · rw [hsame, hqueue]
    · rw [htick]
      exact hqueue

/-! ### Whole runs -/

theorem Orderly.rounds (h : t.Orderly p s e₀) (queue : t.engine.queue = []) (n : Nat)
    (hn : t.potential ≤ n) :
    (rounds s n t).Orderly p s e₀ ∧ (rounds s n t).engine.isSettled = true := by
  induction n generalizing t with
  | zero =>
      -- There is work left in a run that is not closed, so this is not enough.
      have hrunning := h.running
      rw [potential, Engine.work, hrunning] at hn
      simp at hn
  | succ n ih =>
      unfold Timeline.rounds
      cases hsettled : t.engine.isSettled with
      | true =>
          rw [if_pos rfl]
          exact ⟨h, hsettled⟩
      | false =>
          rw [if_neg Bool.false_ne_true]
          have hlt := potential_round_lt h queue hsettled
          exact ih h.round (queue_round h) (by omega)

/-- A timeline comes to its end, and what it has come to is the end of some history. -/
theorem closed_complete (h : t.Orderly p s e₀) (queue : t.engine.queue = []) (now : Instant) :
    (t.complete s now).engine.closed = true ∧
      Follows s e₀ (t.complete s now).calls.length (t.complete s now).engine ∧
      (t.complete s now).peak ≤ p.strategy.width := by
  obtain ⟨horderly, hsettled⟩ := h.rounds queue t.roundsFor (potential_le_roundsFor t)
  have hclose : Fires _ (.close now) _ := Fires.close hsettled horderly.running
  rw [complete]
  dsimp only
  rw [advance, hclose.step, Option.getD_some]
  exact ⟨rfl, horderly.history.fires hclose trivial (.inl rfl), horderly.peak⟩

end Timeline

/-- Every plan whose gate is not too wide is run to its end.  What comes of it is the end of a
history in which each trial ends as the script says, and nobody cancels between a look and an
admission. -/
theorem Plan.execute_calmly {p : Plan} (hwidth : p.strategy.width ≤ maxWidth) (trial : Nat → Trial)
    (cancelOnCall : Option Nat) (scene : Scene) :
    ∃ t ls, p.execute trial cancelOnCall scene = .ok t ∧
      (Engine.start p .epoch scene.cancelled scene.journal).follow ls = some t.engine ∧
      (∀ l ∈ ls, l.Obeys fun i => (trial i).result) ∧ t.engine.closed = true ∧
      t.calls.length = (called ls).length ∧ t.peak ≤ p.strategy.width ∧
      Steps.Always Engine.step Timeline.Calm (Engine.start p .epoch scene.cancelled scene.journal)
        ls := by
  have hstart : ((Timeline.start (Engine.start p .epoch scene.cancelled scene.journal) scene.now
      scene.cancelAt)).Orderly p (p.script trial cancelOnCall)
        (Engine.start p .epoch scene.cancelled scene.journal) :=
    .start (Sound.start _ _ _ _) rfl rfl nofun _ _
  obtain ⟨hclosed, ⟨ls, hls, hobeys, hcalls, hcalm⟩, hpeak⟩ :=
    Timeline.closed_complete hstart rfl .epoch
  refine ⟨_, ls, ?_, hls, hobeys, hclosed, hcalls.symm, hpeak, hcalm⟩
  rw [execute, if_neg (Nat.not_lt.mpr hwidth)]

theorem Plan.execute_eq_ok {p : Plan} (hwidth : p.strategy.width ≤ maxWidth) (trial : Nat → Trial)
    (cancelOnCall : Option Nat) (scene : Scene) :
    ∃ t ls, p.execute trial cancelOnCall scene = .ok t ∧
      (Engine.start p .epoch scene.cancelled scene.journal).follow ls = some t.engine ∧
      (∀ l ∈ ls, l.Obeys fun i => (trial i).result) ∧ t.engine.closed = true ∧
      t.calls.length = (called ls).length ∧ t.peak ≤ p.strategy.width := by
  obtain ⟨t, ls, hok, hls, hobeys, hclosed, hcalls, hpeak, -⟩ :=
    Plan.execute_calmly hwidth trial cancelOnCall scene
  exact ⟨t, ls, hok, hls, hobeys, hclosed, hcalls, hpeak⟩

end ProxyTiming.Run
