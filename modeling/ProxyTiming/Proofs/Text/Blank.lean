import Mathlib.Data.List.TakeWhile
import ProxyTiming.Text.Printable

/-!
# Texts without the blanks around them

To trim a text is to find the one part of it that has nothing but blanks before it and behind it,
and no blank at either of its own ends.  There is always such a part, and never another one.
-/

namespace ProxyTiming.Text

variable {cs t front back : List Char}

/-- A part of a text that is left when the blanks at both ends are taken away. -/
structure Trimmed (cs t : List Char) : Prop where
  around : ∃ front back, cs = front ++ t ++ back ∧ (∀ c ∈ front, isBlank c = true) ∧
    ∀ c ∈ back, isBlank c = true
  head : ∀ c ∈ t.head?, isBlank c = false
  last : ∀ c ∈ t.getLast?, isBlank c = false

/-- No blank leaves a mark on paper. -/
theorem not_graphic_of_isBlank {c : Char} (h : isBlank c = true) :
    ¬(33 ≤ c.toNat ∧ c.toNat ≤ 126) := by
  simp only [isBlank, Bool.or_eq_true, Bool.and_eq_true, decide_eq_true_eq, beq_iff_eq] at h
  omega

/-- The blanks in front are taken away, and no more. -/
theorem dropWhile_isBlank (hfront : ∀ c ∈ front, isBlank c = true)
    (hhead : ∀ c ∈ t.head?, isBlank c = false) : (front ++ t).dropWhile isBlank = t := by
  rw [List.dropWhile_append_of_pos hfront]
  cases t with
  | nil => rfl
  | cons c t => exact List.dropWhile_cons_of_neg (by simp [hhead c rfl])

theorem trimmed_trimChars (cs : List Char) : Trimmed cs (trimChars cs) := by
  have hblank {cs : List Char} : ∀ c ∈ cs.takeWhile isBlank, isBlank c = true :=
    List.all_eq_true.mp List.all_takeWhile
  have hopen (cs : List Char) : ∀ c ∈ (cs.dropWhile isBlank).head?, isBlank c = false := by
    intro c hc
    have hhead := List.head?_dropWhile_not isBlank cs
    rw [Option.mem_def.mp hc] at hhead
    simpa using hhead
  -- What is left after the front splits into the trimmed text and the blanks behind it.
  have hrest : trimChars cs ++ ((cs.dropWhile isBlank).reverse.takeWhile isBlank).reverse =
      cs.dropWhile isBlank := by
    rw [trimChars, ← List.reverse_append, List.takeWhile_append_dropWhile, List.reverse_reverse]
  refine ⟨⟨cs.takeWhile isBlank, ((cs.dropWhile isBlank).reverse.takeWhile isBlank).reverse, ?_,
    hblank, fun c hc => hblank c (List.mem_reverse.mp hc)⟩, ?_, ?_⟩
  · rw [List.append_assoc, hrest, List.takeWhile_append_dropWhile]
  · intro c hc
    refine hopen cs c ?_
    rw [← hrest, List.head?_append, Option.mem_def.mp hc]
    rfl
  · intro c hc
    rw [trimChars, List.getLast?_reverse] at hc
    exact hopen _ c hc

/-- There is one way to trim a text. -/
theorem Trimmed.eq (h : Trimmed cs t) : trimChars cs = t := by
  obtain ⟨front, back, rfl, hfront, hback⟩ := h.around
  have hback' : ∀ c ∈ back.reverse, isBlank c = true := fun c hc =>
    hback c (List.mem_reverse.mp hc)
  have hlast : ∀ c ∈ t.reverse.head?, isBlank c = false := by
    rw [List.head?_reverse]
    exact h.last
  by_cases hempty : t = []
  · subst hempty
    have hall : ∀ c ∈ front ++ [] ++ back, isBlank c = true := by
      simpa [or_imp, forall_and] using ⟨hfront, hback⟩
    rw [trimChars, List.dropWhile_eq_nil_iff.mpr hall]
    rfl
  · have hhead : ∀ c ∈ (t ++ back).head?, isBlank c = false := by
      obtain ⟨c, more, rfl⟩ := List.exists_cons_of_ne_nil hempty
      exact h.head
    rw [trimChars, List.append_assoc, dropWhile_isBlank hfront hhead, List.reverse_append,
      dropWhile_isBlank hback' hlast, List.reverse_reverse]

/-- A text with no blank at its ends stays as it is. -/
theorem trimmed_self (hhead : ∀ c ∈ cs.head?, isBlank c = false)
    (hlast : ∀ c ∈ cs.getLast?, isBlank c = false) : Trimmed cs cs :=
  ⟨⟨[], [], by simp, by simp, by simp⟩, hhead, hlast⟩

end ProxyTiming.Text
