import ProxyTiming.Proofs.Run.Rounds

/-!
# A run that nobody cancels

On a clock somebody cancels at a certain instant, or as a certain trial starts.  If neither is
agreed upon, nobody does.
-/

namespace ProxyTiming.Run

open ProxyTiming.Time Engine

theorem Engine.cancelled_of_step {e e' : Engine} {l : Label} (hl : l.isCancel = false)
    (h : e.step l = some e') : e'.cancelled = e.cancelled := by
  cases fires_of_step h with
  | cancel => cases hl
  | _ => rfl

theorem Engine.cancelled_advance {l : Label} (hl : l.isCancel = false) (e : Engine) :
    (e.advance l).cancelled = e.cancelled := by
  rw [advance]
  cases h : e.step l with
  | none => rfl
  | some e' => exact cancelled_of_step hl h

namespace Timeline

variable {s : Script} (t : Timeline) (index : Nat)

/-- A step if it is enabled, and what the clock makes of it. -/
theorem cancelled_onStep {l : Label} (hl : l.isCancel = false) {k : Engine → Timeline}
    (hk : ∀ e, (k e).engine.cancelled = e.cancelled) :
    (match t.engine.step l with
      | none => t
      | some e => k e).engine.cancelled = t.engine.cancelled := by
  cases h : t.engine.step l with
  | none => rfl
  | some e => exact (hk e).trans (cancelled_of_step hl h)

theorem cancelled_beginTrial (quiet : s.cancelOnCall = none) :
    (t.beginTrial s index).engine.cancelled = t.engine.cancelled :=
  cancelled_onStep t rfl fun e => by
    rw [quiet]
    rfl

theorem cancelled_endTrial : (t.endTrial s index).engine.cancelled = t.engine.cancelled := by
  rw [endTrial]
  split
  · split
    · exact cancelled_advance rfl t.engine
    · exact cancelled_onStep t rfl fun _ => rfl
  · rfl

theorem cancelled_handIn : (t.handIn s index).engine.cancelled = t.engine.cancelled :=
  cancelled_onStep t rfl fun e => by
    split <;> rfl

theorem cancelled_wake : (t.wake index).engine.cancelled = t.engine.cancelled := by
  rw [wake]
  split
  · exact cancelled_advance rfl t.engine
  · rfl

theorem cancelled_retire : (t.retire index).engine.cancelled = t.engine.cancelled :=
  cancelled_onStep t rfl fun _ => rfl

theorem cancelled_work (quiet : s.cancelOnCall = none) :
    (t.work s).engine.cancelled = t.engine.cancelled := by
  rw [work]
  generalize ((t.dues.filter fun d => d.instant ≤ t.now).map Due.index) = indices
  induction indices generalizing t with
  | nil => rfl
  | cons index indices ih =>
      refine (ih (t.goOn s index)).trans ?_
      rw [goOn, cancelled_retire, cancelled_wake, cancelled_handIn, cancelled_endTrial,
        cancelled_beginTrial _ _ quiet]

theorem cancelled_turn : t.turn.engine.cancelled = t.engine.cancelled := by
  refine (takes_turn t).induction (P := fun e => e.cancelled = t.engine.cancelled) rfl ?_
  intro l e e' hl ih r
  exact (cancelled_of_step (Label.isCancel_of_isTurn hl) r.step).trans ih

/-- Nobody has cancelled, and nobody is going to. -/
structure Undisturbed (t : Timeline) : Prop where
  uncancelled : t.engine.cancelled = false
  cancelAt : t.cancelAt = none

variable {t}

theorem Undisturbed.tick (h : t.Undisturbed) : t.tick.Undisturbed := by
  rw [Timeline.tick]
  split
  · exact h
  · rw [h.cancelAt]
    exact ⟨h.uncancelled, rfl⟩

theorem Undisturbed.round (h : t.Undisturbed) (quiet : s.cancelOnCall = none) :
    (t.round s).Undisturbed := by
  have hwork : (t.work s).Undisturbed :=
    ⟨(cancelled_work t quiet).trans h.uncancelled, (cancelAt_work t).trans h.cancelAt⟩
  rw [Timeline.round]
  split
  · exact ⟨(cancelled_turn (t.work s)).trans hwork.uncancelled, hwork.cancelAt⟩
  · exact hwork.tick

theorem Undisturbed.rounds (h : t.Undisturbed) (quiet : s.cancelOnCall = none) (n : Nat) :
    (t.rounds s n).Undisturbed := by
  induction n generalizing t with
  | zero => exact h
  | succ n ih =>
      rw [Timeline.rounds]
      split
      · exact h
      · exact ih (h.round quiet)

theorem Undisturbed.complete (h : t.Undisturbed) (quiet : s.cancelOnCall = none)
    (now : Instant) : (t.complete s now).Undisturbed := by
  have hrounds := h.rounds quiet t.roundsFor
  rw [Timeline.complete]
  exact ⟨(cancelled_advance rfl _).trans hrounds.uncancelled, hrounds.cancelAt⟩

end Timeline

/-- A run is not cancelled if nobody has cancelled before and nobody is going to. -/
theorem Plan.undisturbed_of_execute {p : Plan} {trial : Nat → Trial} {scene : Scene}
    {t : Timeline} (h : p.execute trial none scene = .ok t) (uncancelled : scene.cancelled = false)
    (hnever : scene.cancelAt = none) : t.Undisturbed := by
  have hstart : (Timeline.start (Engine.start p .epoch scene.cancelled scene.journal) scene.now
      scene.cancelAt).Undisturbed := ⟨uncancelled, hnever⟩
  rw [execute] at h
  split at h
  · cases h
  · rw [← Except.ok.inj h]
    exact hstart.complete rfl .epoch

end ProxyTiming.Run
