import ProxyTiming.Proofs.Run.Rounds

/-!
# No more at once than the gate is wide

A worker has a permit from its admission to its end.  It takes its permit along through its
trial and its rest, and gives it back when it ends: after its trial, after its rest, when
its rest is cut short, or when its trial ends it.  The permits that are free and the workers
that live therefore always add up to the width of the gate, whatever has happened.

That no permit is given back twice is told by the history.  Each trial that has been
admitted has either given its permit back, once, or has a worker that still holds it.
-/

namespace ProxyTiming.Run

open ProxyTiming.Time

namespace Engine

variable {e : Engine} {ls : List Label} {p : Plan} {now : Instant} {cancelled : Bool}
  {journal : Journal}

/-- How many workers rest, and keep their permits meanwhile. -/
def resting (e : Engine) : Nat :=
  e.workers.countP fun w =>
    match w.stage with
    | .pacing => true
    | _ => false

theorem inFlight_add_resting_le (e : Engine) : e.inFlight + e.resting ≤ e.workers.length := by
  unfold inFlight resting
  induction e.workers with
  | nil => exact Nat.le_refl 0
  | cons w ws ih =>
      rw [List.countP_cons, List.countP_cons, List.length_cons]
      cases w.stage <;> simp <;> omega

/-- The permit of an admitted trial is with its worker until it is given back. -/
theorem released_perm (h : (Engine.start p now cancelled journal).follow ls = some e) :
    (released ls ++ e.workers.map Worker.index).Perm (List.range e.dispatched) := by
  rw [List.perm_iff_count]
  intro i
  have hheld : (e.workers.map Worker.index).count i = e.workersAt i fun _ => true := by
    simp [List.count, List.countP_map, workersAt, Function.comp_def]
  rw [List.count_append, hheld, List.count_range]
  exact passage_releaser.conserved h i

end Engine

open Engine

/-- In every state of a run the trials that are executed and the workers that rest are no more
than the gate is wide, and every permit is free or held by the one worker that has not given it
back.  On a clock this holds for trials of all durations. -/
theorem Plan.ceiling_holds (p : Plan) :
    (∀ now cancelled journal ls e, (Engine.start p now cancelled journal).follow ls = some e →
      e.inFlight + e.resting ≤ p.strategy.width ∧
      e.permits + e.workers.length = p.strategy.width ∧
      (released ls ++ e.workers.map Worker.index).Perm (List.range e.dispatched) ∧
      (e.closed = true → e.permits = p.strategy.width) ∧
      (∀ workers interval, p.strategy = .sequential workers interval → workers ≤ 1 →
        e.inFlight ≤ 1)) ∧
    (∀ trial cancelOnCall scene t, p.execute trial cancelOnCall scene = .ok t →
      t.peak ≤ p.strategy.width ∧ t.engine.permits = p.strategy.width) := by
  have hfree {e : Engine} (hs : e.Sound p) (closed : e.closed = true) :
      e.permits = p.strategy.width := by
    have hsum := hs.permits
    obtain ⟨-, hworkers, -⟩ := (isSettled_iff e).mp (hs.finished closed).1
    rw [hworkers] at hsum
    exact hsum
  constructor
  · intro now cancelled journal ls e h
    have hs := sound_of_follow h
    have hliving := inFlight_add_resting_le e
    have hpermits := hs.permits
    refine ⟨by omega, hpermits, released_perm h, hfree hs, ?_⟩
    intro workers interval hstrategy hone
    have hwidth : p.strategy.width = 1 := by
      rw [hstrategy]
      exact max_eq_right hone
    omega
  · intro trial cancelOnCall scene t hok
    have hwidth : p.strategy.width ≤ maxWidth := by
      by_contra hwide
      rw [Plan.execute, if_pos (Nat.lt_of_not_le hwide)] at hok
      cases hok
    obtain ⟨t', ls, hok', hfollow, -, hclosed, -, hpeak⟩ :=
      Plan.execute_eq_ok hwidth trial cancelOnCall scene
    obtain rfl : t' = t := Except.ok.inj (hok'.symm.trans hok)
    exact ⟨hpeak, hfree (sound_of_follow hfollow) hclosed⟩

/-- A worker gives its permit back although its trial has ended it, and the next one takes it. -/
theorem ceiling_holds_after_panic :
    let p : Plan := ⟨.nil, "t", "c", "u", .sequential 0 .zero, 2⟩
    let ls : List Label := [.look, .grant, .look, .park, .call 0, .panic 0, .look, .grant, .call 1]
    ∃ e, (Engine.start p .epoch false (.start none)).follow ls = some e ∧
      e.inFlight + e.resting ≤ 1 ∧ e.permits + e.workers.length = 1 ∧
      (released ls ++ e.workers.map Worker.index).Perm (List.range 2) := by
  intro p ls
  obtain ⟨hceiling, hpermits, hreleased, -, -⟩ :=
    (Plan.ceiling_holds p).1 .epoch false (.start none) ls _ rfl
  exact ⟨_, rfl, hceiling, hpermits, hreleased⟩

end ProxyTiming.Run
