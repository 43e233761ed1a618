import Mathlib.Data.Sign.Basic
import ProxyTiming.Proofs.Binary64.Doubles

/-!
# The sign of a computed number

As long as the numbers of a computation are neither too small nor too large, nothing is rounded to
zero and nothing overflows.  Then every result is finite, and a product or a quotient has the sign
that it would have without any rounding.
-/

namespace ProxyTiming.Binary64

variable {q x y : ℚ} {j k : ℕ}

structure Sized (k : ℕ) (q : ℚ) : Prop where
  lower : (2 : ℚ) ^ (-k : ℤ) ≤ |q|
  upper : |q| ≤ 2 ^ (k : ℤ)

namespace Sized

theorem ne_zero (h : Sized k q) : q ≠ 0 :=
  abs_pos.mp ((zpow_pos two_pos _).trans_le h.lower)

theorem intCast {n : ℤ} (hn : n ≠ 0) (h : |n| ≤ 2 ^ k) : Sized k n := by
  have hpos : (1 : ℚ) ≤ |(n : ℚ)| := by exact_mod_cast Int.one_le_abs hn
  exact ⟨(zpow_le_one_of_nonpos₀ one_le_two (by omega)).trans hpos, by exact_mod_cast h⟩

theorem inv (h : Sized k q) : Sized k q⁻¹ := by
  have hpos : 0 < |q| := abs_pos.mpr h.ne_zero
  constructor
  · rw [abs_inv, zpow_neg]
    exact inv_anti₀ hpos h.upper
  · rw [abs_inv, ← inv_inv ((2 : ℚ) ^ (k : ℤ)), ← zpow_neg]
    exact inv_anti₀ (zpow_pos two_pos _) h.lower

theorem mul (hx : Sized j x) (hy : Sized k y) : Sized (j + k) (x * y) := by
  constructor
  · rw [abs_mul, Nat.cast_add, neg_add, zpow_add₀ two_ne_zero]
    exact mul_le_mul hx.lower hy.lower (zpow_pos two_pos _).le (abs_nonneg x)
  · rw [abs_mul, Nat.cast_add, zpow_add₀ two_ne_zero]
    exact mul_le_mul hx.upper hy.upper (abs_nonneg y) (zpow_pos two_pos _).le

theorem div (hx : Sized j x) (hy : Sized k y) : Sized (j + k) (x / y) := by
  rw [div_eq_mul_inv]
  exact hx.mul hy.inv

end Sized

theorem abs_nearest (q : ℚ) : |nearest q| = nearest |q| := by
  obtain hq | hq := le_total 0 q
  · rw [abs_of_nonneg hq, abs_of_nonneg (nearest_nonneg hq)]
  · rw [abs_of_nonpos hq, nearest_neg, ← abs_neg, ← nearest_neg]
    exact abs_of_nonneg (nearest_nonneg (neg_nonneg.mpr hq))

/-- Rounding stays between the same two powers of two. -/
theorem Sized.nearest (h : Sized k q) (hk : k ≤ 1074) : Sized k (nearest q) := by
  constructor
  · rw [abs_nearest]
    exact le_nearest (.two_zpow (by omega)) h.lower
  · rw [abs_nearest]
    exact nearest_le (.two_zpow (by omega)) h.upper

theorem Sized.nearest_pos (h : Sized k q) (hk : k ≤ 1074) (hq : 0 < q) :
    0 < Binary64.nearest q :=
  (nearest_nonneg hq.le).lt_of_ne' (h.nearest hk).ne_zero

theorem Sized.sign_nearest (h : Sized k q) (hk : k ≤ 1074) :
    SignType.sign (Binary64.nearest q) = SignType.sign q := by
  obtain hq | hq := h.ne_zero.lt_or_gt
  · have hneg := (nearest_le .zero hq.le).lt_of_ne (h.nearest hk).ne_zero
    rw [sign_neg hq, sign_neg hneg]
  · rw [sign_pos hq, sign_pos (h.nearest_pos hk hq)]

theorem ofRat_of_sized (h : Sized k q) (hk : k < 1024) : ofRat q = .finite (nearest q) := by
  have hnearest := h.nearest (by omega)
  have hsmall : |nearest q| < overflowBound :=
    hnearest.upper.trans_lt (zpow_lt_zpow_right₀ one_lt_two (by omega))
  rw [ofRat, magnitude_eq_abs, if_neg (not_le.mpr hsmall), if_neg hnearest.ne_zero]

theorem finite_mul_of_sized (hx : Sized j x) (hy : Sized k y) (h : j + k < 1024) :
    (.finite x * .finite y : Binary64) = .finite (nearest (x * y)) := by
  change mul (.finite x) (.finite y) = _
  rw [mul, if_neg (hx.mul hy).ne_zero]
  exact ofRat_of_sized (hx.mul hy) h

theorem finite_div_of_sized (hx : Sized j x) (hy : Sized k y) (h : j + k < 1024) :
    (.finite x / .finite y : Binary64) = .finite (nearest (x / y)) := by
  change div (.finite x) (.finite y) = _
  rw [div, if_neg hy.ne_zero, if_neg hx.ne_zero]
  exact ofRat_of_sized (hx.div hy) h

theorem sign_div_of_pos (x : ℚ) (hy : 0 < y) : SignType.sign (x / y) = SignType.sign x := by
  rw [div_eq_mul_inv, sign_mul, sign_pos (inv_pos.mpr hy), mul_one]

end ProxyTiming.Binary64
