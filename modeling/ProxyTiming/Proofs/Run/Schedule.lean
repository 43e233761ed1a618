import ProxyTiming.Proofs.Run.Punctual

/-!
# When trials start

While the workers are on time, the starts keep to a timetable.  Whoever is admitted has a place that
somebody has given back, so no trial starts too early.  And the clock moves on only when nobody can
do anything; if there are trials left, then the dispatcher waits for a permit, so all places are
held until somebody goes on, and no trial starts too late.

A trial takes as long as it takes.  A worker rests for as long as it should, unless that is longer
than any timer runs.
-/

namespace ProxyTiming.Run

open ProxyTiming.Time

namespace Timeline

open Engine

variable {p : Plan} {s : Script} {e₀ : Engine} {t : Timeline} {first now' i instant : Nat}

/-! ### Turns -/

theorem stage?_of_takes_turn {e e' : Engine} (hs' : e'.Sound p) (h : e.Takes Label.isTurn e')
    (i : Nat) : e'.stage? i =
      if e.dispatched ≤ i ∧ i < e'.dispatched then some .admitted else e.stage? i := by
  obtain ⟨hle, hworkers⟩ := workers_of_takes_turn h
  split_ifs with hi
  · have hmem : Worker.mk i .admitted ∈ e'.workers := by
      rw [hworkers]
      refine List.mem_append_right _ (List.mem_map_of_mem (List.mem_range'_1.mpr ?_))
      omega
    exact stage?_of_mem hs'.unique hmem
  · have hnone : ((List.range' e.dispatched (e'.dispatched - e.dispatched)).map
        (Worker.mk · .admitted)).find? (fun w => w.index == i) = none := by
      rw [List.find?_eq_none]
      intro w hw
      obtain ⟨j, hj, rfl⟩ := List.mem_map.mp hw
      have hrange := List.mem_range'_1.mp hj
      have hne : j ≠ i := by omega
      simpa using hne
    rw [stage?, hworkers, List.find?_append, hnone, Option.or_none, stage?]

/-- Workers who live go on as before, and those who have just been admitted at once. -/
theorem due?_turn (ho : t.Orderly p s e₀) {st : Stage} (at_stage : t.turn.engine.stage? i = some st)
    (hi : t.engine.dispatched ≤ i) : t.turn.due? i = some t.now := by
  have horderly := ho.turn
  have hmem : ⟨i, t.now⟩ ∈ t.turn.dues := by
    refine List.mem_append_right _ (List.mem_map.mpr ⟨⟨i, st⟩, List.mem_filter.mpr ⟨?_, ?_⟩, rfl⟩)
    · exact mem_workers_of_stage? horderly.sound.unique at_stage
    · exact decide_eq_true hi
  exact due?_of_mem (horderly.dues ▸ horderly.sound.unique) hmem

theorem due?_turn_of_some (h : t.due? i = some instant) : t.turn.due? i = some instant := by
  obtain ⟨d, hd, hinstant⟩ := Option.map_eq_some_iff.mp h
  have happend : t.turn.dues = t.dues ++ newDues t.engine.dispatched t.turn := rfl
  rw [due?, happend, List.find?_append, hd, Option.some_or, Option.map_some, hinstant]

theorem Punctual.turn (h : t.Punctual p s e₀ first) (ho : t.Orderly p s e₀)
    (all : t.calls.length = t.engine.dispatched) : t.turn.Punctual p s e₀ first := by
  have htakes := takes_turn t
  have hle := (workers_of_takes_turn htakes).1
  refine
    { history := ?_
      uncancelled := (cancelled_turn t).trans h.uncancelled
      paced := ?_
      called_le := h.called_le.trans hle
      timely := fun i => ?_
      timetable := h.timetable }
  · refine htakes.induction (P := FollowsInOrder s e₀ t.calls.length) h.history ?_
    intro l e e' hl history r
    exact history.fires r (Label.obeys_of_isTurn hl) (Label.callee?_of_isTurn hl)
  · refine htakes.induction (P := fun e => e.paced = !s.interval.isZero) h.paced ?_
    intro l e e' _ hpaced r
    exact (paced_of_step r.step).trans hpaced
  · have hi := h.timely i
    have hstage := stage?_of_takes_turn ho.turn.sound htakes i
    by_cases hnew : t.engine.dispatched ≤ i ∧ i < t.turn.engine.dispatched
    · rw [if_pos hnew] at hstage
      constructor
      · exact iff_of_true hstage ⟨all ▸ hnew.1, hnew.2⟩
      · intro st hst
        have hdue := due?_turn ho hst hnew.1
        obtain rfl := Option.some.inj (hstage.symm.trans hst)
        exact ⟨t.now, hdue, Nat.le_refl _, .admitted⟩
      · intro start _ hnone
        cases hstage.symm.trans hnone
    · rw [if_neg hnew] at hstage
      constructor
      · have huncalled : t.turn.Uncalled i ↔ t.Uncalled i := by
          show t.calls.length ≤ i ∧ _ ↔ t.calls.length ≤ i ∧ _
          omega
        rw [hstage, hi.uncalled, huncalled]
      · intro st hst
        obtain ⟨instant, hdue, hrest⟩ := hi.on_time st (hstage ▸ hst)
        exact ⟨instant, due?_turn_of_some hdue, hrest⟩
      · intro start hstart hnone
        exact hi.released start hstart (hstage ▸ hnone)

/-! ### The clock -/

/-- If nobody is going to cancel, the clock moves on, and not past the instant at which somebody
goes on. -/
theorem tick_eq (never : t.cancelAt = none) : ∃ now, t.tick = { t with now := now } ∧
    (t.now ≤ now ∧ ∀ d ∈ t.dues, t.now ≤ d.instant → now ≤ d.instant) := by
  rw [tick]
  cases hnext : t.next? with
  | none => exact ⟨t.now, rfl, Nat.le_refl _, fun _ _ hd => hd⟩
  | some instant =>
      rw [never]
      refine ⟨max t.now instant, rfl, le_max_left _ _, fun d hd hle => max_le hle ?_⟩
      rw [next?, never] at hnext
      exact earliest_le (List.mem_map_of_mem hd) hnext

/-- When nothing concerns the dispatcher and there are trials left, all places are held until some
worker goes on. -/
theorem Punctual.full (h : t.Punctual p s e₀ first) (ho : t.Orderly p s e₀)
    (asleep : t.woken = false) (all : t.calls.length = t.engine.dispatched)
    (left : t.calls.length < p.count)
    (before : ∀ i instant, t.due? i = some instant → t.now ≤ instant → now' ≤ instant) :
    (releases s.hold t.calls).countP (· < now') + p.strategy.width ≤ t.calls.length := by
  -- Since trials are left, the dispatcher waits for a permit.
  have hwaits : t.engine.permits = 0 := by
    obtain ⟨-, none_free, -⟩ | ⟨through, -⟩ := (ho.asleep asleep).2
    · exact none_free
    · obtain hcancelled | hdone := ho.sound.through through
      · rw [h.uncancelled] at hcancelled
        cases hcancelled
      · rw [all, hdone, ho.sound.count] at left
        exact absurd left (Nat.lt_irrefl _)
  have hheld : (releases s.hold t.calls).countP (· < now') +
      (t.engine.workers.map Worker.index).length ≤ (releases s.hold t.calls).length := by
    refine countP_add_length_le ho.sound.unique fun i hi => ?_
    obtain ⟨w, hw, rfl⟩ := List.mem_map.mp hi
    have at_stage := stage?_of_mem ho.sound.unique hw
    obtain ⟨instant, hdue, hinstant, hon_time⟩ := (h.timely _).on_time _ at_stage
    have hcalled : w.stage ≠ .admitted := by
      intro hstage
      obtain ⟨hge, hlt⟩ := (h.timely _).uncalled.mp (hstage ▸ at_stage)
      omega
    obtain ⟨release, hrelease, hle⟩ := hon_time.le_release hcalled
    exact ⟨release, hrelease, by simpa using (before _ _ hdue hinstant).trans hle⟩
  have hpermits := ho.sound.permits
  rw [length_releases, List.length_map] at hheld
  omega

/-- The clock moves on. -/
theorem Punctual.tick (h : t.Punctual p s e₀ first) (ho : t.Orderly p s e₀)
    (never : t.cancelAt = none) (asleep : t.woken = false)
    (all : t.calls.length = t.engine.dispatched) : t.tick.Punctual p s e₀ first := by
  obtain ⟨now, htick, hle, hdues⟩ := tick_eq never
  have hbefore (i instant : Nat) (hdue : t.due? i = some instant) (hinstant : t.now ≤ instant) :
      now ≤ instant := hdues _ (mem_of_due? hdue) hinstant
  rw [htick]
  refine
    { history := h.history
      uncancelled := h.uncancelled
      paced := h.paced
      called_le := h.called_le
      timely := fun i => ?_
      timetable := h.timetable.tick hle fun left => h.full ho asleep all left hbefore }
  constructor
  · exact (h.timely i).uncalled
  · intro st hst
    obtain ⟨instant, hdue, hinstant, hon_time⟩ := (h.timely i).on_time st hst
    have hnow := hbefore i instant hdue hinstant
    exact ⟨instant, hdue, hnow, hon_time.tick hle hnow⟩
  · intro start hstart hnone
    exact ((h.timely i).released start hstart hnone).trans hle

/-! ### Whole runs -/

theorem Punctual.round (h : t.Punctual p s e₀ first) (ho : t.Orderly p s e₀) (hu : t.Undisturbed)
    (smooth : s.Smooth p.count) :
    (t.round s).Punctual p s e₀ first := by
  obtain ⟨hworked, hall⟩ := h.work ho smooth
  rw [Timeline.round]
  split
  · exact hworked.turn ho.work hall
  · rename_i hasleep
    exact hworked.tick ho.work ((cancelAt_work t).trans hu.cancelAt) (by simpa using hasleep) hall

theorem Punctual.rounds (h : t.Punctual p s e₀ first) (ho : t.Orderly p s e₀) (hu : t.Undisturbed)
    (smooth : s.Smooth p.count) (n : Nat) :
    (t.rounds s n).Punctual p s e₀ first := by
  induction n generalizing t with
  | zero => exact h
  | succ n ih =>
      rw [Timeline.rounds]
      split
      · exact h
      · exact ih (h.round ho hu smooth) ho.round (hu.round smooth.quiet)

theorem Punctual.start (p : Plan) (s : Script) (journal : Journal) (first : Nat)
    (interval : s.interval = p.strategy.interval) :
    Punctual p s (Engine.start p .epoch false journal) first
      (Timeline.start (Engine.start p .epoch false journal) first none) where
  history := ⟨[], rfl, nofun, rfl⟩
  uncancelled := rfl
  paced := by
    rw [interval]
    rfl
  called_le := Nat.le_refl _
  timely i :=
    { uncalled := iff_of_false nofun fun hi => Nat.not_lt_zero i hi.2
      on_time := nofun
      released := nofun }
  timetable := .nil _ _ _ _

/-- When everything is done, all trials have started. -/
theorem Punctual.length_calls (h : t.Punctual p s e₀ first) (hs : t.engine.Sound p)
    (settled : t.engine.isSettled = true) : t.calls.length = p.count := by
  obtain ⟨through, hworkers, -⟩ := (isSettled_iff t.engine).mp settled
  have hdispatched : t.engine.dispatched = p.count := by
    obtain hcancelled | hdone := hs.through through
    · rw [h.uncancelled] at hcancelled
      cases hcancelled
    · rw [hdone, hs.count]
  refine Nat.le_antisymm (hdispatched ▸ h.called_le) (Nat.not_lt.mp fun hlt => ?_)
  have hnext := (h.timely t.calls.length).uncalled.mpr ⟨Nat.le_refl _, hdispatched ▸ hlt⟩
  rw [stage?_eq_none_of_nil hworkers] at hnext
  cases hnext

/-- At its end a timeline has kept to the timetable. -/
theorem Punctual.complete (h : t.Punctual p s e₀ first) (ho : t.Orderly p s e₀)
    (hu : t.Undisturbed) (queue : t.engine.queue = []) (smooth : s.Smooth p.count)
    (now : Instant) :
    FollowsInOrder s e₀ p.count (t.complete s now).engine ∧
      Scheduled p.strategy.width p.count first s.hold (t.complete s now).calls := by
  have hrounds := h.rounds ho hu smooth t.roundsFor
  obtain ⟨horderly, settled⟩ := ho.rounds queue t.roundsFor (potential_le_roundsFor t)
  have hcalls := hrounds.length_calls horderly.sound settled
  have hclose : Fires _ (.close now) _ := Fires.close settled horderly.running
  have hhistory := hrounds.history.fires hclose trivial rfl
  rw [hcalls] at hhistory
  rw [Timeline.complete]
  dsimp only
  rw [advance, hclose.step, Option.getD_some]
  exact ⟨hhistory, hrounds.timetable.scheduled p.strategy.one_le_width hcalls⟩

end Timeline

open Timeline Engine

/-- In a run that nobody cancels, and in which every trial returns, the trials start in the order
of their numbers, and they start as they would if so many places were given out and each of them
were held for as long as its trial takes and its worker rests. -/
theorem Plan.keeps_to_timetable {p : Plan} (hwidth : p.strategy.width ≤ maxWidth)
    {trial : Nat → Trial} (returns : ∀ i < p.count, (trial i).result ≠ none) {scene : Scene}
    (uncancelled : scene.cancelled = false) (never : scene.cancelAt = none) :
    ∃ t ls, p.execute trial none scene = .ok t ∧
      (Engine.start p .epoch false scene.journal).follow ls = some t.engine ∧
      (∀ l ∈ ls, l.Obeys fun i => (trial i).result) ∧ called ls = List.range p.count ∧
      Scheduled p.strategy.width p.count scene.now
        (fun i => (trial i).delay.toNanos + waitOf p.strategy.interval) t.calls := by
  have horderly :
      (Timeline.start (Engine.start p .epoch false scene.journal) scene.now none).Orderly
        p (p.script trial none) (Engine.start p .epoch false scene.journal) :=
    .start (Sound.start _ _ _ _) rfl rfl nofun _ _
  have hpunctual := Punctual.start p (p.script trial none) scene.journal scene.now rfl
  obtain ⟨⟨ls, hls, hobeys, hcalled⟩, hscheduled⟩ :=
    hpunctual.complete horderly ⟨rfl, rfl⟩ rfl ⟨rfl, returns⟩ .epoch
  refine ⟨_, ls, ?_, hls, hobeys, hcalled, hscheduled⟩
  rw [execute, if_neg (Nat.not_lt.mpr hwidth), uncancelled, never]

/-- Two workers, four trials, of which the first two take longer than any timer runs, and a rest
after each of them. -/
theorem keeps_to_timetable_of_two_workers :
    let p : Plan := ⟨.nil, "t", "c", "u", .sequential 2 (.ofNanos 2), 4⟩
    let good : Timings := { Timings.zero with success := true }
    let delays := [longestWait + 5, longestWait + 3, 4, 1]
    let trial : Nat → Trial := fun i => ⟨.ofNanos (delays.getD i 0), some (.ok good)⟩
    let scene : Scene := .start false none (.start none)
    p.strategy.width ≤ maxWidth ∧ (∀ i < p.count, (trial i).result ≠ none) ∧
      ∃ t, p.execute trial none scene = .ok t ∧ t.calls = [0, 0, longestWait + 5, longestWait + 7] ∧
        Scheduled 2 4 0 (fun i => (trial i).delay.toNanos + waitOf (.ofNanos 2)) t.calls := by
  intro p good delays trial scene
  have hwidth : p.strategy.width ≤ maxWidth := by decide
  have hreturns : ∀ i < p.count, (trial i).result ≠ none := fun _ _ => nofun
  have hcalls : (p.execute trial none scene).toOption.map Timeline.calls =
      some [0, 0, longestWait + 5, longestWait + 7] := by
    decide +kernel
  have huncancelled : scene.cancelled = false := rfl
  obtain ⟨t, -, hok, -, -, -, hscheduled⟩ :=
    Plan.keeps_to_timetable hwidth hreturns huncancelled rfl
  rw [hok] at hcalls
  exact ⟨hwidth, hreturns, t, hok, Option.some.inj hcalls, hscheduled⟩

/-- A rest of almost thirty-five years is cut short, and the third trial starts before one of the
first two has given its place back. -/
theorem not_scheduled_of_long_rest :
    let p : Plan := ⟨.nil, "t", "c", "u", .sequential 2 (.ofMillis 1099511627776), 4⟩
    let good : Timings := { Timings.zero with success := true }
    let trial : Nat → Trial := fun _ => ⟨.ofMillis 2, some (.ok good)⟩
    ∃ t, p.execute trial none (.start false none (.start none)) = .ok t ∧
      t.calls = [0, 0, 946080000002000000, 946080000002000000] ∧
      ¬Scheduled 2 4 0 (fun i => (trial i).delay.toNanos + p.strategy.interval.toNanos)
        t.calls := by
  intro p good trial
  have hcalls : (p.execute trial none (.start false none (.start none))).toOption.map
      Timeline.calls = some [0, 0, 946080000002000000, 946080000002000000] := by
    decide +kernel
  cases hok : p.execute trial none (.start false none (.start none)) with
  | error refused =>
      rw [hok] at hcalls
      cases hcalls
  | ok t =>
      rw [hok] at hcalls
      have hcalls : t.calls = [0, 0, 946080000002000000, 946080000002000000] :=
        Option.some.inj hcalls
      refine ⟨t, rfl, hcalls, fun hscheduled => ?_⟩
      rw [hcalls] at hscheduled
      have hmem := (hscheduled.never_early 2 _ rfl).2 (Nat.le_refl 2)
      revert hmem
      decide +kernel

end ProxyTiming.Run
