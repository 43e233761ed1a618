import Mathlib.Data.List.Induction

/-!
# One step after the other

A step function says what comes of a step, if it is enabled; and some steps lead to a state
if each of them is enabled when its turn comes.  What follows holds of all systems that are
given in this way.
-/

namespace ProxyTiming.Steps

variable {σ μ : Type} {step : σ → μ → Option σ} {s₀ s s' : σ} {m : μ} {ms ms' : List μ}

theorem foldlM_singleton (s : σ) (m : μ) : [m].foldlM step s = step s m := by
  cases h : step s m <;> simp [h]

theorem foldlM_append (h : ms.foldlM step s₀ = some s) (h' : ms'.foldlM step s = some s') :
    (ms ++ ms').foldlM step s₀ = some s' := by
  rw [List.foldlM_append, h]
  exact h'

/-- Some steps up to one of them, and on from there. -/
theorem foldlM_split {before after : List μ}
    (h : (before ++ m :: after).foldlM step s₀ = some s) :
    ∃ s₁ s₂, before.foldlM step s₀ = some s₁ ∧ step s₁ m = some s₂ ∧
      after.foldlM step s₂ = some s := by
  rw [List.foldlM_append] at h
  obtain ⟨s₁, hbefore, h⟩ := Option.bind_eq_some_iff.mp h
  rw [List.foldlM_cons] at h
  obtain ⟨s₂, hm, hafter⟩ := Option.bind_eq_some_iff.mp h
  exact ⟨s₁, s₂, hbefore, hm, hafter⟩

/-- What holds at the start, and is handed on by every step, holds after some steps. -/
theorem foldlM_induction {P : List μ → σ → Prop} (start : P [] s₀)
    (hand_on : ∀ ms s m s', ms.foldlM step s₀ = some s → P ms s → step s m = some s' →
      P (ms ++ [m]) s')
    (h : ms.foldlM step s₀ = some s) : P ms s := by
  -- The steps are taken apart at the end, where they have been added.
  induction ms using List.reverseRecOn generalizing s with
  | nil =>
      obtain rfl := Option.some.inj h
      exact start
  | append_singleton ms m ih =>
      obtain ⟨s₁, s₂, hms, hm, hnil⟩ := foldlM_split h
      obtain rfl := Option.some.inj hnil
      exact hand_on ms s₁ m s₂ hms (ih hms) hm

/-! ### What is true whenever a step is taken -/

def Always (step : σ → μ → Option σ) (Fits : σ → μ → Prop) : σ → List μ → Prop
  | _, [] => True
  | s, m :: ms => Fits s m ∧ ∀ s', step s m = some s' → Always step Fits s' ms

variable {Fits : σ → μ → Prop}

theorem Always.append (h : Always step Fits s₀ ms)
    (h' : ∀ s, ms.foldlM step s₀ = some s → Always step Fits s ms') :
    Always step Fits s₀ (ms ++ ms') := by
  induction ms generalizing s₀ with
  | nil => exact h' s₀ rfl
  | cons m ms ih =>
      obtain ⟨hm, hms⟩ := h
      refine ⟨hm, fun s₁ hs₁ => ih (hms s₁ hs₁) fun s hs => h' s ?_⟩
      rw [List.foldlM_cons, hs₁]
      exact hs

theorem Always.singleton (h : Fits s m) : Always step Fits s [m] := ⟨h, fun _ _ => trivial⟩

theorem Always.fits {before after : List μ} (h : Always step Fits s₀ (before ++ m :: after))
    (hs : before.foldlM step s₀ = some s) : Fits s m := by
  induction before generalizing s₀ with
  | nil =>
      obtain rfl := Option.some.inj hs
      exact h.1
  | cons m' before ih =>
      rw [List.foldlM_cons] at hs
      obtain ⟨s₁, hs₁, hs⟩ := Option.bind_eq_some_iff.mp hs
      exact ih (h.2 s₁ hs₁) hs

end ProxyTiming.Steps
