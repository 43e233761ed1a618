import ProxyTiming.Proofs.Steps
import ProxyTiming.Run.Engine

/-!
# Histories of a run

A run is whatever can be made of the steps of its engine, so a statement about all runs is
a statement about all sequences of steps that can be taken from the start.  Such a sequence
is a *history*: it says what every party did, and in which order.

The step function is written for evaluation.  For proofs its rules are told once more as a
relation, one constructor for each thing that can happen, with what it needs and what comes
of it.  Every invariant of this theory is proved by cases over these rules, and none of them
looks into the step function again.

Many rules concern one worker and leave all others alone.  Which worker it is hardly ever
matters, nor its place among the others; what matters is how the workers are made up.  So
the workers are compared as they are up to their order: before the rule the worker and the
others, after it the changed worker and the same others.
-/

namespace ProxyTiming.Run

open ProxyTiming.Time

/-! ### The rules -/

/-- The rules of a run: what a step needs, and what comes of it. -/
inductive Engine.Fires (e : Engine) : Label → Engine → Prop where
  | look (may : e.mayLook = true) (uncancelled : e.cancelled = false)
      (left : e.dispatched < e.count) :
      Fires e .look { e with dispatcher := .reaching }
  | grant (reaching : e.dispatcher = .reaching) (free : 0 < e.permits) :
      Fires e .grant { e with
        permits := e.permits - 1
        dispatcher := .looking
        dispatched := e.dispatched + 1
        workers := e.workers ++ [Worker.mk e.dispatched .admitted] }
  | park (reaching : e.dispatcher = .reaching) (none_free : e.permits = 0) :
      Fires e .park { e with dispatcher := .waiting }
  | stop (idle : e.dispatcher = .looking ∨ e.dispatcher = .waiting)
      (reason : e.cancelled = true ∨ e.count ≤ e.dispatched) :
      Fires e .stop { e with dispatcher := .through }
  | call {index : Nat} (at_stage : e.stage? index = some .admitted) :
      Fires e (.call index) (e.setStage index .executing)
  | complete {index : Nat} {result : Except TrialFailure Timings}
      (at_stage : e.stage? index = some .executing) :
      Fires e (.complete index result) (e.setStage index (.returned result))
  | panic {index : Nat} (at_stage : e.stage? index = some .executing) :
      Fires e (.panic index) (e.endWorker index .panicked)
  | handIn {index : Nat} {result : Except TrialFailure Timings}
      (at_stage : e.stage? index = some (.returned result))
      (room : e.queue.length < queueCapacity) :
      Fires e (.handIn index) (e.afterHandIn index result)
  | wake {index : Nat} (at_stage : e.stage? index = some .pacing) :
      Fires e (.wake index) (e.setStage index .leaving)
  | retire {index : Nat} (at_stage : e.stage? index = some .leaving) :
      Fires e (.retire index) (e.endWorker index .regular)
  | deliver {o : Outcome} {rest : List Outcome} (queued : e.queue = o :: rest) :
      Fires e .deliver { e with queue := rest, aggregator := e.aggregator.record o }
  | reapRegular {rest : List Ending} (through : e.dispatcher = .through)
      (ended : e.ended = .regular :: rest) :
      Fires e .reap { e with ended := rest }
  | reapPanicked {rest : List Ending} (through : e.dispatcher = .through)
      (ended : e.ended = .panicked :: rest) :
      Fires e .reap ({ e with ended := rest }.note .error panicMessage)
  | cancel (uncancelled : e.cancelled = false) : Fires e .cancel { e with cancelled := true }
  | observe {o : Observer} (taken : e.journal.observer.bind Observer.take? = some o) :
      Fires e .observe (e.withJournal { e.journal with observer := some o })
  | leave {o : Observer} (left : e.journal.observer.bind Observer.leave? = some o) :
      Fires e .leave (e.withJournal { e.journal with observer := some o })
  | close {now : Instant} (settled : e.isSettled = true) (running : e.closed = false) :
      Fires e (.close now) (e.finish now)

namespace Engine

variable {e e' : Engine} {l : Label}

theorem isDispatching_eq_false (e : Engine) :
    e.isDispatching = false ↔ e.dispatcher = .through := by
  simp [isDispatching]

/-- Every step goes by one of the rules. -/
theorem fires_of_step (h : e.step l = some e') : e.Fires l e' := by
  cases l with
  | look =>
      simp only [step, Option.ite_none_right_eq_some, Option.some.injEq] at h
      obtain ⟨⟨hmay, hcancel, hleft⟩, rfl⟩ := h
      exact .look hmay hcancel hleft
  | grant =>
      simp only [step, Option.ite_none_right_eq_some, Option.some.injEq] at h
      obtain ⟨⟨hreach, hfree⟩, rfl⟩ := h
      exact .grant hreach hfree
  | park =>
      simp only [step, Option.ite_none_right_eq_some, Option.some.injEq] at h
      obtain ⟨⟨hreach, hnone⟩, rfl⟩ := h
      exact .park hreach hnone
  | stop =>
      simp only [step, Option.ite_none_right_eq_some, Option.some.injEq] at h
      obtain ⟨⟨hidle, hreason⟩, rfl⟩ := h
      exact .stop hidle hreason
  | call index =>
      simp only [step] at h
      split at h
      · obtain rfl := Option.some.inj h
        exact .call ‹_›
      · cases h
  | complete index result =>
      simp only [step] at h
      split at h
      · obtain rfl := Option.some.inj h
        exact .complete ‹_›
      · cases h
  | panic index =>
      simp only [step] at h
      split at h
      · obtain rfl := Option.some.inj h
        exact .panic ‹_›
      · cases h
  | handIn index =>
      simp only [step] at h
      split at h
      · obtain ⟨hroom, h⟩ := Option.ite_none_right_eq_some.mp h
        obtain rfl := Option.some.inj h
        exact .handIn ‹_› hroom
      · cases h
  | wake index =>
      simp only [step] at h
      split at h
      · obtain rfl := Option.some.inj h
        exact .wake ‹_›
      · cases h
  | retire index =>
      simp only [step] at h
      split at h
      · obtain rfl := Option.some.inj h
        exact .retire ‹_›
      · cases h
  | deliver =>
      simp only [step] at h
      split at h
      · cases h
      · obtain rfl := Option.some.inj h
        exact .deliver ‹_›
  | reap =>
      simp only [step] at h
      split at h
      · cases h
      · have hthrough : e.dispatcher = .through := by
          rw [← isDispatching_eq_false]
          simpa using ‹¬e.isDispatching = true›
        split at h
        · cases h
        · obtain rfl := Option.some.inj h
          exact .reapRegular hthrough ‹_›
        · obtain rfl := Option.some.inj h
          exact .reapPanicked hthrough ‹_›
  | cancel =>
      simp only [step] at h
      split at h
      · cases h
      · obtain rfl := Option.some.inj h
        exact .cancel (by simpa using ‹¬e.cancelled = true›)
  | observe =>
      simp only [step, byObserver] at h
      split at h
      · obtain rfl := Option.some.inj h
        exact .observe ‹_›
      · cases h
  | leave =>
      simp only [step, byObserver] at h
      split at h
      · obtain rfl := Option.some.inj h
        exact .leave ‹_›
      · cases h
  | close now =>
      simp only [step, Option.ite_none_right_eq_some, Option.some.injEq] at h
      obtain ⟨⟨hsettled, hrunning⟩, rfl⟩ := h
      exact .close hsettled hrunning

/-- A step that goes by none of the rules is not enabled. -/
theorem step_eq_none (h : ∀ e', ¬e.Fires l e') : e.step l = none := by
  cases hstep : e.step l with
  | none => rfl
  | some e' => exact absurd (fires_of_step hstep) (h e')

/-- Every rule is a step. -/
theorem Fires.step (r : e.Fires l e') : e.step l = some e' := by
  cases r with
  | stop hidle hreason => simp [Engine.step, hidle, hreason]
  | observe h | leave h => simp [Engine.step, byObserver, h]
  | reapRegular hthrough hended | reapPanicked hthrough hended =>
      simp [Engine.step, (isDispatching_eq_false e).mpr hthrough, hended]
  | _ => simp [Engine.step, *]

/-! ### Histories -/

theorem follow_concat {e₀ : Engine} {ls : List Label} (h : e₀.follow ls = some e)
    (r : e.Fires l e') : e₀.follow (ls ++ [l]) = some e' :=
  Steps.foldlM_append h ((follow_singleton e l).trans r.step)

/-- What holds at the start, and is handed on by every rule, holds after every history. -/
theorem follow_induction {e₀ : Engine} {P : List Label → Engine → Prop} (start : P [] e₀)
    (hand_on : ∀ {ls e l e'}, e₀.follow ls = some e → P ls e → e.Fires l e' → P (ls ++ [l]) e')
    {ls : List Label} (h : e₀.follow ls = some e) : P ls e :=
  Steps.foldlM_induction start
    (fun _ _ _ _ hls hP hstep => hand_on hls hP (fires_of_step hstep)) h

/-- A history up to one of its steps, and on from there. -/
theorem follow_split {e₀ : Engine} {before after : List Label}
    (h : e₀.follow (before ++ l :: after) = some e) :
    ∃ e₁ e₂, e₀.follow before = some e₁ ∧ e₁.Fires l e₂ ∧ e₂.follow after = some e := by
  obtain ⟨e₁, e₂, hbefore, hl, hafter⟩ := Steps.foldlM_split h
  exact ⟨e₁, e₂, hbefore, fires_of_step hl, hafter⟩

end Engine

end ProxyTiming.Run
