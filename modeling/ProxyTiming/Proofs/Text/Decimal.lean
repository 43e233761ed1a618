import Mathlib.Tactic.SplitIfs
import ProxyTiming.Text.Decimal

/-!
# Written numbers are read back

A number that is written in decimal is read back as itself, and its text holds nothing but the
ten digits.  Numbers are read from such texts only, though a plus sign may stand in front.
-/

namespace ProxyTiming.Text

variable {n : Nat} {c : Char} {cs : List Char}

theorem digitsFrom_eq (m : Nat) (cs : List Char) : digitsFrom m cs = Nat.ofDigitChars 10 cs m := by
  induction cs generalizing m with
  | nil => rw [digitsFrom_nil, Nat.ofDigitChars_nil]
  | cons c cs ih => rw [digitsFrom_cons, ih, Nat.ofDigitChars_cons, Nat.mul_comm m 10, digitValue]

theorem digitsValue_toString (n : Nat) : digitsValue (toString n).toList = n := by
  rw [digitsValue, digitsFrom_eq, Nat.toString_eq_repr, Nat.toList_repr,
    Nat.ofDigitChars_toDigits (by decide) (by decide)]

theorem isDigit_eq (c : Char) : isDigit c = c.isDigit := rfl

theorem isDigit_of_mem_toString (h : c ∈ (toString n).toList) : isDigit c = true := by
  rw [Nat.toString_eq_repr, Nat.toList_repr] at h
  rw [isDigit_eq]
  exact Nat.isDigit_of_mem_toDigits (by decide) (by decide) h

theorem toString_ne_nil (n : Nat) : (toString n).toList ≠ [] := by
  rw [Nat.toString_eq_repr, Nat.toList_repr]
  exact List.ne_nil_of_length_pos Nat.length_toDigits_pos

/-- A number is written without a leading zero. -/
theorem head?_toString_ne (h : n ≠ 0) : (toString n).toList.head? ≠ some '0' := by
  rw [Nat.toString_eq_repr, Nat.toList_repr]
  induction n using Nat.strongRecOn with
  | _ n ih =>
      rcases Nat.lt_or_ge n 10 with hlt | hge
      · have hdigit : ∀ m < 10, m ≠ 0 → [Nat.digitChar m].head? ≠ some '0' := by decide
        rw [Nat.toDigits_of_lt_base hlt]
        exact hdigit n hlt h
      · rw [Nat.toDigits_of_base_le (by decide) hge, List.head?_append]
        have hmore := ih (n / 10) (by omega) (by omega)
        cases hdigits : Nat.toDigits 10 (n / 10) with
        | nil => exact absurd hdigits (List.ne_nil_of_length_pos Nat.length_toDigits_pos)
        | cons c cs => rwa [hdigits] at hmore

theorem toString_ne_leading_zero (n : Nat) (c : Char) (cs : List Char) :
    (toString n).toList ≠ '0' :: c :: cs := by
  intro h
  by_cases hn : n = 0
  · subst hn
    exact absurd h (by simp)
  · exact head?_toString_ne hn (by rw [h]; rfl)

theorem le_digitsFrom (m : Nat) (cs : List Char) : m ≤ digitsFrom m cs := by
  induction cs generalizing m with
  | nil => exact Nat.le_refl m
  | cons c cs ih =>
      rw [digitsFrom_cons]
      exact Nat.le_trans (by omega) (ih _)

/-- All digits in front of something else are taken. -/
theorem spanDigits_append (hdigits : ∀ c ∈ cs, isDigit c = true) {rest : List Char}
    (hrest : ∀ c ∈ rest.head?, isDigit c = false) : spanDigits (cs ++ rest) = (cs, rest) := by
  rw [spanDigits, List.takeWhile_append_of_pos hdigits, List.dropWhile_append_of_pos hdigits]
  cases rest with
  | nil => simp
  | cons c rest => simp [hrest c rfl]

/-! ### Texts that are read as numbers -/

def withoutSign (cs : List Char) : List Char :=
  if cs.head? = some '+' then cs.tail else cs

/-- A text that is read as a number: digits, with or without a plus sign in front. -/
structure Numeral (n : Nat) (cs : List Char) : Prop where
  nonempty : withoutSign cs ≠ []
  digits : ∀ c ∈ withoutSign cs, isDigit c = true
  value : digitsValue (withoutSign cs) = n

/-- A text is read as one number at most. -/
theorem Numeral.unique {m : Nat} (h : Numeral m cs) (h' : Numeral n cs) : m = n :=
  h.value.symm.trans h'.value

theorem withoutSign_of_digits (h : ∀ c ∈ cs, isDigit c = true) : withoutSign cs = cs :=
  if_neg fun hsign => absurd (h '+' (List.mem_of_mem_head? hsign)) (by decide)

theorem mem_withoutSign (h : c ∈ cs) (hsign : c ≠ '+') : c ∈ withoutSign cs := by
  unfold withoutSign
  split
  next hplus =>
    obtain ⟨rest, rfl⟩ := List.head?_eq_some_iff.mp hplus
    exact (List.mem_cons.mp h).resolve_left hsign
  next => exact h

/-- A numeral holds digits, and perhaps a sign, but nothing else. -/
theorem Numeral.isDigit_of_mem (h : Numeral n cs) (hc : c ∈ cs) (hsign : c ≠ '+') :
    isDigit c = true :=
  h.digits c (mem_withoutSign hc hsign)

/-- Digits are a numeral as they stand. -/
theorem numeral_of_digits (hne : cs ≠ []) (hdigits : ∀ c ∈ cs, isDigit c = true) :
    Numeral (digitsValue cs) cs := by
  have hsame := withoutSign_of_digits hdigits
  exact ⟨by rwa [hsame], by rwa [hsame], by rw [hsame]⟩

theorem numeral_toString (n : Nat) : Numeral n (toString n).toList := by
  have hnumeral := numeral_of_digits (toString_ne_nil n) fun _ => isDigit_of_mem_toString
  rwa [digitsValue_toString] at hnumeral

theorem unsigned?_eq (limit : Nat) (cs : List Char) : unsigned? limit cs =
    if (withoutSign cs).isEmpty || !(withoutSign cs).all isDigit ||
      decide (limit < digitsValue (withoutSign cs)) then none
    else some (digitsValue (withoutSign cs)) := by
  unfold unsigned?
  split
  next rest => rfl
  next hsigned =>
    have hsame : withoutSign cs = cs := if_neg fun hplus => by
      obtain ⟨rest, rfl⟩ := List.head?_eq_some_iff.mp hplus
      exact hsigned rest rfl
    rw [hsame]

theorem unsigned?_eq_some_iff {limit : Nat} :
    unsigned? limit cs = some n ↔ Numeral n cs ∧ n ≤ limit := by
  rw [unsigned?_eq]
  constructor
  · intro h
    split_ifs at h with hfault
    obtain rfl := Option.some.inj h
    simp only [Bool.or_eq_true, not_or, Bool.not_eq_true', Bool.not_eq_true, Bool.not_eq_false,
      List.isEmpty_eq_false_iff, List.all_eq_true, decide_eq_false_iff_not, Nat.not_lt] at hfault
    obtain ⟨⟨hne, hdigits⟩, hle⟩ := hfault
    exact ⟨⟨hne, hdigits, rfl⟩, hle⟩
  · rintro ⟨⟨hne, hdigits, rfl⟩, hle⟩
    have hall : (withoutSign cs).all isDigit = true := List.all_eq_true.mpr hdigits
    simp [hne, hall, hle]

/-- A port is read from the numerals that are not too large for one. -/
theorem port?_eq_some_iff {p : UInt16} : port? cs = some p ↔ Numeral p.toNat cs := by
  rw [port?, Option.map_eq_some_iff]
  constructor
  · rintro ⟨n, hread, rfl⟩
    obtain ⟨hnumeral, hle⟩ := unsigned?_eq_some_iff.mp hread
    rwa [UInt16.toNat_ofNat_of_lt' (Nat.lt_succ_of_le hle)]
  · intro h
    exact ⟨p.toNat, unsigned?_eq_some_iff.mpr ⟨h, Nat.le_of_lt_succ p.toNat_lt⟩,
      UInt16.ofNat_toNat⟩

theorem port?_toString (p : UInt16) : port? (toString p.toNat).toList = some p :=
  port?_eq_some_iff.mpr (numeral_toString p.toNat)

theorem port?_eq_none_of_mem (h : c ∈ cs) (hdigit : isDigit c = false) (hsign : c ≠ '+') :
    port? cs = none := by
  refine Option.eq_none_iff_forall_ne_some.mpr fun p hread => ?_
  have hnumeral := port?_eq_some_iff.mp hread
  exact Bool.false_ne_true (hdigit.symm.trans (hnumeral.isDigit_of_mem h hsign))

end ProxyTiming.Text
