import ProxyTiming.Binary64.Bits
import ProxyTiming.Proofs.Binary64.Rounding

/-!
# Doubles and their arithmetic

Which values are doubles, how they compare, and what the operations give on numbers that are not
negative and not too large: the exact result, rounded.  On these there is no overflow, and the two
zeros need not be told apart.
-/

namespace ProxyTiming.Binary64

variable {q r v x y : ℚ} {m n : ℕ}

/-! ### Which values are doubles -/

/-- A value that some double has.  What is not finite always is one. -/
def IsDouble : Binary64 → Prop
  | .finite v => Representable v ∧ |v| < overflowBound
  | _ => True

theorem isDouble_zero (negative : Bool) : (zero negative).IsDouble := by
  cases negative with
  | true => trivial
  | false => exact ⟨.zero, by rw [abs_zero]; exact zpow_pos two_pos _⟩

/-- Rounding gives a double. -/
theorem isDouble_ofRat (q : ℚ) : (ofRat q).IsDouble := by
  rw [ofRat, magnitude_eq_abs]
  split_ifs with hlarge hzero
  · trivial
  · exact isDouble_zero _
  · exact ⟨representable_nearest q, not_le.mp hlarge⟩

theorem isDouble_ofNat (n : ℕ) : (ofNat n).IsDouble := isDouble_ofRat _

theorem isDouble_of_units {e : ℤ} (hm : m < 2 ^ 53) (he : -1074 ≤ e) (he' : e ≤ 971) :
    (finite (m * 2 ^ e)).IsDouble := by
  have hm' : (m : ℚ) < 2 ^ (53 : ℤ) := by exact_mod_cast hm
  refine ⟨⟨m, e, rfl, by rw [Nat.abs_cast]; exact_mod_cast hm.le, he⟩, ?_⟩
  calc |(m : ℚ) * 2 ^ e| = m * 2 ^ e := abs_of_nonneg (by positivity)
    _ < 2 ^ (53 : ℤ) * 2 ^ e := mul_lt_mul_of_pos_right hm' (by positivity)
    _ = 2 ^ (53 + e) := (zpow_add₀ two_ne_zero _ _).symm
    _ ≤ overflowBound := zpow_le_zpow_right₀ one_le_two (by omega)

theorem IsDouble.neg (h : (finite v).IsDouble) : (finite (-v)).IsDouble :=
  ⟨h.1.neg, (abs_neg v).symm ▸ h.2⟩

/-- Every pattern of bits is that of a double. -/
theorem isDouble_ofBits (bits : ℕ) : (ofBits bits).IsDouble := by
  have hfraction : bits % fractions < 2 ^ 52 := Nat.mod_lt _ (by decide)
  have hexponent : bits % signPlace / fractions < 2048 :=
    Nat.div_lt_of_lt_mul (Nat.mod_lt _ (by decide))
  rw [ofBits]
  dsimp only
  generalize bits % fractions = fraction at hfraction
  generalize bits % signPlace / fractions = exponent at hexponent
  split_ifs with hlast hnumber hsubnormal hzero hnegative hzero hnegative
  · trivial
  · trivial
  · exact isDouble_zero _
  · exact (isDouble_of_units (by omega) le_rfl (by decide)).neg
  · exact isDouble_of_units (by omega) le_rfl (by decide)
  · exact isDouble_zero _
  · exact (isDouble_of_units (by unfold fractions; omega) (by omega) (by omega)).neg
  · exact isDouble_of_units (by unfold fractions; omega) (by omega) (by omega)

/-! ### Comparing -/

/-- How doubles compare.  What is no number is not comparable to anything, and the two zeros are
equal. -/
def le (x : Binary64) : Binary64 → Prop
  | .nan => False
  | .infinite true => x = .infinite true
  | .infinite false => x ≠ .nan
  | .negativeZero => x.atMost 0 = true
  | .finite v => x.atMost v = true

theorem ne_nan_of_le {x y : Binary64} (h : x.le y) : x ≠ .nan ∧ y ≠ .nan := by
  constructor
  · rintro rfl
    cases y with
    | nan => exact h
    | infinite negative =>
        cases negative with
        | false => exact h rfl
        | true => cases h
    | negativeZero => cases h
    | finite v => cases h
  · rintro rfl
    exact h

theorem atMost_trans {x : Binary64} (h : x.atMost q = true) (hqr : q ≤ r) :
    x.atMost r = true := by
  cases x with
  | nan => cases h
  | infinite negative => exact h
  | negativeZero => exact decide_eq_true ((of_decide_eq_true h).trans hqr)
  | finite v => exact decide_eq_true ((of_decide_eq_true h).trans hqr)

theorem le_of_atLeast_of_atMost {x : Binary64} (hq : x.atLeast q = true)
    (hr : x.atMost r = true) : q ≤ r := by
  cases x with
  | nan => cases hr
  | infinite negative =>
      cases negative with
      | false => cases hr
      | true => cases hq
  | negativeZero => exact (of_decide_eq_true hq).trans (of_decide_eq_true hr)
  | finite v => exact (of_decide_eq_true hq).trans (of_decide_eq_true hr)

theorem atMost_of_le {x y : Binary64} (h : x.le y) (hy : y.atMost q = true) :
    x.atMost q = true := by
  cases y with
  | nan => cases hy
  | infinite negative =>
      obtain rfl : negative = true := hy
      rw [show x = .infinite true from h]
      rfl
  | negativeZero => exact atMost_trans h (of_decide_eq_true hy)
  | finite v => exact atMost_trans h (of_decide_eq_true hy)

theorem atLeast_of_le {x y : Binary64} (h : x.le y) (hx : x.atLeast q = true) :
    y.atLeast q = true := by
  cases y with
  | nan => exact h.elim
  | infinite negative =>
      cases negative with
      | false => rfl
      | true =>
          rw [show x = .infinite true from h] at hx
          cases hx
  | negativeZero => exact decide_eq_true (le_of_atLeast_of_atMost hx h)
  | finite v => exact decide_eq_true (le_of_atLeast_of_atMost hx h)

/-! ### Numbers that are neither negative nor too large -/

/-- Far below the largest double. -/
theorem ofRat_of_le (hq : 0 ≤ q) (h : q ≤ 2 ^ 128) : ofRat q = .finite (nearest q) := by
  have hbound : nearest q ≤ 2 ^ 128 := nearest_le (.two_zpow (by decide : (-1074 : ℤ) ≤ 128)) h
  have hsmall : nearest q < overflowBound :=
    hbound.trans_lt (zpow_lt_zpow_right₀ one_lt_two (by decide : (128 : ℤ) < 1024))
  rw [ofRat, magnitude_eq_abs, abs_of_nonneg (nearest_nonneg hq), if_neg (not_le.mpr hsmall),
    decide_eq_false (not_lt.mpr hq)]
  split_ifs with hzero
  · rw [hzero]
    rfl
  · rfl

theorem ofNat_of_le (h : n ≤ 2 ^ 53) : ofNat n = .finite n := by
  have hbound : (n : ℚ) ≤ 2 ^ 128 := by
    exact_mod_cast h.trans (Nat.pow_le_pow_right two_pos (by decide))
  rw [ofNat, ofRat_of_le (Nat.cast_nonneg n) hbound, nearest_eq_self (.natCast h)]

theorem ofNat_le_ofNat (hmn : m ≤ n) (hn : n ≤ 2 ^ 53) : (ofNat m).le (ofNat n) := by
  rw [ofNat_of_le (hmn.trans hn), ofNat_of_le hn]
  exact decide_eq_true (by exact_mod_cast hmn)

theorem ofNat_ne_nan (hn : n ≤ 2 ^ 53) : ofNat n ≠ .nan :=
  (ne_nan_of_le (ofNat_le_ofNat le_rfl hn)).1

theorem isNegative_of_nonneg (h : 0 ≤ v) : isNegative (.finite v) = false :=
  decide_eq_false (not_lt.mpr h)

theorem finite_add (hx : 0 ≤ x) (hy : 0 ≤ y) (h : x + y ≤ 2 ^ 128) :
    (.finite x + .finite y : Binary64) = .finite (nearest (x + y)) :=
  ofRat_of_le (add_nonneg hx hy) h

theorem finite_sub (hx : Representable x) (hy : 0 ≤ y) (hyx : y ≤ x) (h : x ≤ 2 ^ 128) :
    (.finite x - .finite y : Binary64) = .finite (nearest (x - y)) := by
  change add (.finite x) (neg (.finite y)) = _
  rw [neg]
  split_ifs with hzero
  · -- Nothing is taken away.
    rw [hzero, sub_zero, nearest_eq_self hx]
    rfl
  · rw [add, ← sub_eq_add_neg]
    exact ofRat_of_le (sub_nonneg.mpr hyx) ((sub_le_self x hy).trans h)

theorem finite_mul (hx : 0 ≤ x) (hy : 0 ≤ y) (h : x * y ≤ 2 ^ 128) :
    (.finite x * .finite y : Binary64) = .finite (nearest (x * y)) := by
  change mul (.finite x) (.finite y) = _
  rw [mul, isNegative_of_nonneg hx, isNegative_of_nonneg hy]
  split_ifs with hzero
  · rw [hzero, nearest_zero]
    rfl
  · exact ofRat_of_le (mul_nonneg hx hy) h

theorem finite_div (hx : 0 ≤ x) (hy : 0 < y) (h : x / y ≤ 2 ^ 128) :
    (.finite x / .finite y : Binary64) = .finite (nearest (x / y)) := by
  change div (.finite x) (.finite y) = _
  rw [div, isNegative_of_nonneg hx, isNegative_of_nonneg hy.le, if_neg hy.ne']
  split_ifs with hzero
  · rw [hzero, zero_div, nearest_zero]
    rfl
  · exact ofRat_of_le (div_nonneg hx hy.le) h

theorem floorNat_finite (h : 0 ≤ v) (hlt : v < 2 ^ 64) : floorNat (.finite v) = ⌊v⌋₊ := by
  have hfloor : ⌊v⌋₊ < 2 ^ 64 := (Nat.floor_lt h).mpr (by exact_mod_cast hlt)
  change min ⌊v⌋.toNat _ = _
  rw [Int.floor_toNat]
  omega

theorem roundNat_finite (h : 0 ≤ v) (hlt : v < 2 ^ 64) : roundNat (.finite v) = ⌊v + 1 / 2⌋₊ := by
  have hfloor : ⌊v + 1 / 2⌋₊ < 2 ^ 65 := by
    refine (Nat.floor_lt (by positivity)).mpr ?_
    push_cast
    linarith
  change min (roundHalfAway v).toNat _ = _
  rw [roundHalfAway, if_pos h]
  change min ⌊v + 1 / 2⌋.toNat _ = _
  rw [Int.floor_toNat]
  omega

end ProxyTiming.Binary64
