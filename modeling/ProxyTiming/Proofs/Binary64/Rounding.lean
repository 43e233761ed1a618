import Mathlib.Algebra.Order.Field.Power
import Mathlib.Algebra.Order.Group.Pointwise.Interval
import Mathlib.Data.Rat.Floor
import ProxyTiming.Binary64

/-!
# Rounding to the nearest double

A double has a place for a number of units of a power of two, as long as there are at most `2 ^ 53`
of them and the unit is not below `2 ^ (-1074)`.  Rounding chooses such a number for every rational:
it does not touch those that have a place already, it keeps the order, and there is none that would
be nearer.

All of this is told of the grid around a rational.  Any number that a double has a place for is on
that grid, or the whole stretch of the grid around the rational is on one side of it.
-/

namespace ProxyTiming.Binary64

variable {q r v : ℚ} {n : ℤ}

/-! ### Whole numbers -/

/-- A whole number below is not passed. -/
theorem le_roundHalfEven (h : (n : ℚ) ≤ q) : n ≤ roundHalfEven q := by
  have hfloor : n ≤ q.floor := Rat.le_floor_iff.mpr h
  unfold roundHalfEven
  dsimp only
  split_ifs <;> omega

/-- A whole number above is not passed. -/
theorem roundHalfEven_le (h : q ≤ n) : roundHalfEven q ≤ n := by
  have hfloor : (q.floor : ℚ) ≤ q := Int.floor_le q
  obtain hlt | hle := lt_or_ge q.floor n
  · unfold roundHalfEven
    dsimp only
    split_ifs <;> omega
  · -- The number is whole itself.
    have hle : (n : ℚ) ≤ q.floor := by exact_mod_cast hle
    have hgap : q - q.floor < 1 / 2 := by linarith
    rw [roundHalfEven, if_pos hgap]
    exact_mod_cast hfloor.trans h

theorem roundHalfEven_mono (h : q ≤ r) : roundHalfEven q ≤ roundHalfEven r := by
  have hfloor : q.floor ≤ r.floor := Int.floor_le_floor h
  unfold roundHalfEven
  dsimp only
  obtain hlt | heq := hfloor.lt_or_eq
  · split_ifs <;> omega
  · rw [heq]
    have hgap : q - r.floor ≤ r - r.floor := sub_le_sub_right h _
    split_ifs <;> first | omega | linarith

/-- The nearest whole number is not further away than a half. -/
theorem abs_roundHalfEven_sub_le (q : ℚ) : |(roundHalfEven q : ℚ) - q| ≤ 1 / 2 := by
  have hfloor : (q.floor : ℚ) ≤ q := Int.floor_le q
  have hceil : q < q.floor + 1 := Int.lt_floor_add_one q
  unfold roundHalfEven
  dsimp only
  split_ifs <;> rw [abs_le] <;> push_cast <;> constructor <;> linarith

/-- No whole number is nearer than the one that is chosen. -/
theorem abs_roundHalfEven_sub_le_of_int (n : ℤ) (q : ℚ) :
    |(roundHalfEven q : ℚ) - q| ≤ |n - q| := by
  obtain heq | hne := eq_or_ne (roundHalfEven q) n
  · rw [heq]
  · have hapart : (1 : ℚ) ≤ |(roundHalfEven q : ℚ) - n| := by
      exact_mod_cast Int.one_le_abs (sub_ne_zero.mpr hne)
    have htriangle := abs_sub_le (roundHalfEven q : ℚ) q n
    rw [abs_sub_comm q] at htriangle
    have hhalf := abs_roundHalfEven_sub_le q
    linarith

theorem roundHalfEven_neg (q : ℚ) : roundHalfEven (-q) = -roundHalfEven q := by
  have hfloor : (q.floor : ℚ) ≤ q := Int.floor_le q
  have hceil : q < q.floor + 1 := Int.lt_floor_add_one q
  obtain heq | hlt := hfloor.eq_or_lt
  · have hneg : (-q).floor = -q.floor :=
      (Int.floor_eq_iff (a := -q)).mpr ⟨by push_cast; linarith, by push_cast; linarith⟩
    unfold roundHalfEven
    dsimp only
    rw [hneg, if_pos (by push_cast; linarith), if_pos (by linarith)]
  · -- The two gaps add up to one, so that a half is a half on both sides.
    have hneg : (-q).floor = -q.floor - 1 :=
      (Int.floor_eq_iff (a := -q)).mpr ⟨by push_cast; linarith, by push_cast; linarith⟩
    unfold roundHalfEven
    dsimp only
    rw [hneg]
    push_cast
    split_ifs <;> first | omega | linarith

/-! ### Powers of two -/

theorem magnitude_eq_abs (q : ℚ) : magnitude q = |q| := by
  rw [magnitude]
  split_ifs with h
  · rw [abs_of_neg h]
  · rw [abs_of_nonneg (not_lt.mp h)]

/-- A positive number is between two powers of two. -/
theorem floorLog2_spec (hq : 0 < q) : 2 ^ floorLog2 q ≤ q ∧ q < 2 ^ (floorLog2 q + 1) := by
  set n := q.num.natAbs with hn
  have hnum : (n : ℚ) = q.num := by
    rw [hn, Nat.cast_natAbs, abs_of_pos (Rat.num_pos.mpr hq)]
  have hdiv : q = n / q.den := by rw [hnum, Rat.num_div_den]
  have hden : (0 : ℚ) < q.den := by exact_mod_cast q.den_pos
  have hn0 : n ≠ 0 := Int.natAbs_ne_zero.mpr (Rat.num_pos.mpr hq).ne'
  have hn₁ : (2 : ℚ) ^ n.log2 ≤ n := by exact_mod_cast Nat.log2_self_le hn0
  have hn₂ : (n : ℚ) < 2 ^ (n.log2 + 1) := by exact_mod_cast Nat.lt_log2_self
  have hd₁ : (2 : ℚ) ^ q.den.log2 ≤ q.den := by exact_mod_cast Nat.log2_self_le q.den_nz
  have hd₂ : (q.den : ℚ) < 2 ^ (q.den.log2 + 1) := by exact_mod_cast Nat.lt_log2_self
  -- The lengths of numerator and denominator are off by one at most.
  have hlower : (2 : ℚ) ^ ((n.log2 : ℤ) - q.den.log2 - 1) < n / q.den := by
    rw [lt_div_iff₀ hden]
    calc (2 : ℚ) ^ ((n.log2 : ℤ) - q.den.log2 - 1) * q.den
        < 2 ^ ((n.log2 : ℤ) - q.den.log2 - 1) * 2 ^ (q.den.log2 + 1) :=
          mul_lt_mul_of_pos_left hd₂ (by positivity)
      _ = 2 ^ n.log2 := by
          rw [← zpow_natCast, ← zpow_natCast, ← zpow_add₀ two_ne_zero]
          congr 1
          push_cast
          ring
      _ ≤ n := hn₁
  have hupper : (n : ℚ) / q.den < 2 ^ ((n.log2 : ℤ) - q.den.log2 + 1) := by
    rw [div_lt_iff₀ hden]
    calc (n : ℚ) < 2 ^ (n.log2 + 1) := hn₂
      _ = 2 ^ ((n.log2 : ℤ) - q.den.log2 + 1) * 2 ^ q.den.log2 := by
          rw [← zpow_natCast, ← zpow_natCast, ← zpow_add₀ two_ne_zero]
          congr 1
          push_cast
          ring
      _ ≤ 2 ^ ((n.log2 : ℤ) - q.den.log2 + 1) * q.den :=
          mul_le_mul_of_nonneg_left hd₁ (by positivity)
  rw [← hdiv] at hlower hupper
  rw [floorLog2]
  split_ifs with h
  · exact ⟨h, hupper⟩
  · rw [sub_add_cancel]
    exact ⟨hlower.le, not_le.mp h⟩

theorem gridExponent_neg (q : ℚ) : gridExponent (-q) = gridExponent q := by
  rw [gridExponent, gridExponent, magnitude_eq_abs, magnitude_eq_abs, abs_neg]

theorem le_gridExponent (q : ℚ) : -1074 ≤ gridExponent q := le_max_right _ _

theorem gridExponent_of_pos (hq : 0 < q) : gridExponent q = max (floorLog2 q - 52) (-1074) := by
  rw [gridExponent, magnitude_eq_abs, abs_of_pos hq]

/-- No more than 53 bits are left of the grid. -/
theorem lt_gridExponent (hq : 0 < q) : q < 2 ^ 53 * 2 ^ gridExponent q := by
  have hle : floorLog2 q + 1 ≤ (53 : ℕ) + gridExponent q := by
    rw [gridExponent_of_pos hq]
    omega
  rw [← zpow_natCast, ← zpow_add₀ two_ne_zero]
  exact (floorLog2_spec hq).2.trans_le (zpow_le_zpow_right₀ one_le_two hle)

/-- Where the grid is not the finest one, it leaves 53 bits. -/
theorem gridExponent_le (hq : 0 < q) (hcoarse : -1074 < gridExponent q) :
    2 ^ 52 * 2 ^ gridExponent q ≤ q := by
  have heq : (52 : ℕ) + gridExponent q = floorLog2 q := by
    rw [gridExponent_of_pos hq] at hcoarse ⊢
    omega
  rw [← zpow_natCast, ← zpow_add₀ two_ne_zero, heq]
  exact (floorLog2_spec hq).1

theorem gridExponent_mono (hq : 0 < q) (h : q ≤ r) : gridExponent q ≤ gridExponent r := by
  by_contra hlt
  have hlt := not_le.mp hlt
  have hlower := gridExponent_le hq ((le_gridExponent r).trans_lt hlt)
  have hupper := lt_gridExponent (hq.trans_le h)
  have hpow : (2 : ℚ) ^ gridExponent r ≤ 2 ^ (gridExponent q - 1) :=
    zpow_le_zpow_right₀ one_le_two (by omega)
  rw [zpow_sub_one₀ two_ne_zero] at hpow
  linarith

/-! ### The numbers that are on a grid -/

/-- The numbers that a double has a place for, if they are not too large: so many units of a power
of two, of which there are at most `2 ^ 53`. -/
def Representable (v : ℚ) : Prop :=
  ∃ m e : ℤ, v = m * 2 ^ e ∧ |m| ≤ 2 ^ 53 ∧ -1074 ≤ e

namespace Representable

theorem neg (h : Representable v) : Representable (-v) := by
  obtain ⟨m, e, rfl, hm, he⟩ := h
  exact ⟨-m, e, by push_cast; ring, by rwa [abs_neg], he⟩

theorem intCast (h : |n| ≤ 2 ^ 53) : Representable n := ⟨n, 0, by simp, h, by decide⟩

theorem natCast {n : ℕ} (h : n ≤ 2 ^ 53) : Representable n := by
  have hn : |(n : ℤ)| ≤ 2 ^ 53 := by
    rw [Nat.abs_cast]
    exact_mod_cast h
  exact_mod_cast intCast hn

theorem half {n : ℕ} (h : n ≤ 2 ^ 53) : Representable (n / 2) := by
  refine ⟨n, -1, by push_cast; rw [zpow_neg_one]; rfl, ?_, by decide⟩
  rw [Nat.abs_cast]
  exact_mod_cast h

theorem two_zpow {k : ℤ} (h : -1074 ≤ k) : Representable (2 ^ k) :=
  ⟨1, k, by rw [Int.cast_one, one_mul], by norm_num, h⟩

theorem zero : Representable 0 := ⟨0, 0, by simp, by norm_num, by decide⟩

theorem one : Representable 1 := ⟨1, 0, by simp, by norm_num, by decide⟩

end Representable

/-- A number of units of a coarser grid is a number of units of a finer one. -/
theorem exists_intCast_mul_zpow {e k : ℤ} (h : k ≤ e) (m : ℤ) :
    ∃ n : ℤ, (m : ℚ) * 2 ^ e = n * 2 ^ k := by
  obtain ⟨j, hj⟩ := Int.le.dest h
  refine ⟨m * 2 ^ j, ?_⟩
  rw [← hj, zpow_add₀ two_ne_zero, zpow_natCast]
  push_cast
  ring

/-- The whole part of a number that a double has a place for has one, too. -/
theorem Representable.floor (h : Representable v) (h₀ : 0 ≤ v) : Representable (⌊v⌋₊ : ℚ) := by
  have hv := h
  obtain ⟨m, e, rfl, hm, he⟩ := h
  obtain hwhole | hpart := le_or_gt 0 e
  · -- The number is whole itself.
    obtain ⟨n, hn⟩ := exists_intCast_mul_zpow hwhole m
    rw [zpow_zero, mul_one] at hn
    rw [hn] at hv h₀ ⊢
    obtain ⟨k, rfl⟩ := Int.eq_ofNat_of_zero_le (by exact_mod_cast h₀ : 0 ≤ n)
    rw [Int.cast_natCast] at hv ⊢
    rwa [Nat.floor_natCast]
  · have hm : (m : ℚ) ≤ 2 ^ 53 := by exact_mod_cast (le_abs_self m).trans hm
    have hexp : (2 : ℚ) ^ e ≤ 1 := zpow_le_one_of_nonpos₀ one_le_two hpart.le
    have hle : (m : ℚ) * 2 ^ e ≤ (2 ^ 53 : ℕ) := by
      push_cast
      nlinarith [zpow_pos (two_pos : (0 : ℚ) < 2) e]
    exact .natCast (Nat.floor_le_of_le hle)

/-- On a finer grid the numbers end before so many units of the coarser one. -/
theorem mul_zpow_le_of_lt {m e k : ℤ} (hm : |m| ≤ 2 ^ 53) (h : e < k) :
    (m : ℚ) * 2 ^ e ≤ 2 ^ 52 * 2 ^ k := by
  have hm : (m : ℚ) ≤ 2 ^ 53 := by exact_mod_cast (le_abs_self m).trans hm
  have hexp : (2 : ℚ) ^ e ≤ 2 ^ (k - 1) := zpow_le_zpow_right₀ one_le_two (Int.le_sub_one_of_lt h)
  calc (m : ℚ) * 2 ^ e ≤ 2 ^ 53 * 2 ^ (k - 1) := by gcongr
    _ = 2 ^ 52 * 2 ^ k := by
        rw [zpow_sub_one₀ two_ne_zero]
        ring

/-- Below so many units of a grid there is nothing before the next smaller number of units. -/
theorem Representable.le_pred (h : Representable v) {k : ℤ} (hn : 2 ^ 52 < n)
    (hlt : v < n * 2 ^ k) : v ≤ (n - 1) * 2 ^ k := by
  obtain ⟨m, e, rfl, hm, -⟩ := h
  have hpos : (0 : ℚ) < 2 ^ k := by positivity
  obtain hle | hgt := le_or_gt k e
  · obtain ⟨n', hn'⟩ := exists_intCast_mul_zpow hle m
    rw [hn'] at hlt ⊢
    have hlt : n' < n := by exact_mod_cast lt_of_mul_lt_mul_right hlt hpos.le
    have hle : (n' : ℚ) ≤ n - 1 := by exact_mod_cast Int.le_sub_one_of_lt hlt
    exact mul_le_mul_of_nonneg_right hle hpos.le
  · have hn : (2 : ℚ) ^ 52 ≤ n - 1 := by exact_mod_cast Int.le_sub_one_of_lt hn
    exact (mul_zpow_le_of_lt hm hgt).trans (mul_le_mul_of_nonneg_right hn hpos.le)

/-! ### Rounding -/

theorem nearest_zero : nearest 0 = 0 := if_pos rfl

theorem nearest_of_ne_zero (h : q ≠ 0) :
    nearest q = roundHalfEven (q / 2 ^ gridExponent q) * 2 ^ gridExponent q := by
  rw [nearest, if_neg h]
  dsimp only
  rw [zpow_neg, div_eq_mul_inv]

theorem nearest_neg (q : ℚ) : nearest (-q) = -nearest q := by
  obtain rfl | h := eq_or_ne q 0
  · rw [neg_zero, nearest_zero, neg_zero]
  · rw [nearest_of_ne_zero h, nearest_of_ne_zero (neg_ne_zero.mpr h), gridExponent_neg, neg_div,
      roundHalfEven_neg, Int.cast_neg, neg_mul]

/-- Between a number and any that a double has a place for there is one on the grid. -/
theorem exists_grid_mem_uIcc (hv : Representable v) (hq : 0 < q) :
    ∃ n : ℤ, (n : ℚ) * 2 ^ gridExponent q ∈ Set.uIcc v q := by
  obtain ⟨m, e, rfl, hm, he⟩ := hv
  obtain hle | hgt := le_or_gt (gridExponent q) e
  · obtain ⟨n, hn⟩ := exists_intCast_mul_zpow hle m
    exact ⟨n, hn ▸ Set.left_mem_uIcc⟩
  · -- The power of two at the lower end of the grid is not passed on a finer one.
    have hlower := gridExponent_le hq (he.trans_lt hgt)
    refine ⟨2 ^ 52, Set.mem_uIcc_of_le ?_ (by exact_mod_cast hlower)⟩
    exact_mod_cast mul_zpow_le_of_lt hm hgt

theorem nearest_of_pos_le {n : ℤ} (hq : 0 < q) (h : n * 2 ^ gridExponent q ≤ q) :
    n * 2 ^ gridExponent q ≤ nearest q := by
  have hpos : (0 : ℚ) < 2 ^ gridExponent q := by positivity
  rw [nearest_of_ne_zero hq.ne']
  have hround : n ≤ roundHalfEven (q / 2 ^ gridExponent q) :=
    le_roundHalfEven ((le_div_iff₀ hpos).mpr h)
  exact mul_le_mul_of_nonneg_right (by exact_mod_cast hround) hpos.le

theorem nearest_of_pos_ge {n : ℤ} (hq : 0 < q) (h : q ≤ n * 2 ^ gridExponent q) :
    nearest q ≤ n * 2 ^ gridExponent q := by
  have hpos : (0 : ℚ) < 2 ^ gridExponent q := by positivity
  rw [nearest_of_ne_zero hq.ne']
  have hround : roundHalfEven (q / 2 ^ gridExponent q) ≤ n :=
    roundHalfEven_le ((div_le_iff₀ hpos).mpr h)
  exact mul_le_mul_of_nonneg_right (by exact_mod_cast hround) hpos.le

/-- Rounding does not pass any number that a double has a place for. -/
theorem nearest_between (hv : Representable v) (hq : 0 < q) :
    (v ≤ q → v ≤ nearest q) ∧ (q ≤ v → nearest q ≤ v) := by
  obtain ⟨n, hn⟩ := exists_grid_mem_uIcc hv hq
  constructor
  · intro h
    rw [Set.uIcc_of_le h] at hn
    exact hn.1.trans (nearest_of_pos_le hq hn.2)
  · intro h
    rw [Set.uIcc_of_ge h] at hn
    exact (nearest_of_pos_ge hq hn.1).trans hn.2

theorem le_nearest (hv : Representable v) (h : v ≤ q) : v ≤ nearest q := by
  obtain hq | rfl | hq := lt_trichotomy q 0
  · have hle := (nearest_between hv.neg (neg_pos.mpr hq)).2 (neg_le_neg h)
    rw [nearest_neg] at hle
    exact neg_le_neg_iff.mp hle
  · rwa [nearest_zero]
  · exact (nearest_between hv hq).1 h

theorem nearest_le (hv : Representable v) (h : q ≤ v) : nearest q ≤ v := by
  have hle := le_nearest hv.neg (neg_le_neg h)
  rw [nearest_neg] at hle
  exact neg_le_neg_iff.mp hle

/-- What a double has a place for is not rounded. -/
theorem nearest_eq_self (hv : Representable v) : nearest v = v :=
  (nearest_le hv le_rfl).antisymm (le_nearest hv le_rfl)

theorem nearest_nonneg (h : 0 ≤ q) : 0 ≤ nearest q := le_nearest .zero h

/-- Between two positive numbers with different grids there is a power of two. -/
theorem exists_between_of_gridExponent_lt (hq : 0 < q) (hr : 0 < r)
    (h : gridExponent q < gridExponent r) : ∃ v, Representable v ∧ q ≤ v ∧ v ≤ r := by
  have hcoarse := (le_gridExponent q).trans_lt h
  have hpow : (2 : ℚ) ^ gridExponent q ≤ 2 ^ (gridExponent r - 1) :=
    zpow_le_zpow_right₀ one_le_two (by omega)
  rw [zpow_sub_one₀ two_ne_zero] at hpow
  have hupper := lt_gridExponent hq
  refine ⟨2 ^ 52 * 2 ^ gridExponent r, ⟨2 ^ 52, _, by push_cast; rfl, by norm_num, hcoarse.le⟩, ?_,
    gridExponent_le hr hcoarse⟩
  linarith

theorem nearest_mono_of_pos (hq : 0 < q) (h : q ≤ r) : nearest q ≤ nearest r := by
  have hr := hq.trans_le h
  obtain hlt | heq := (gridExponent_mono hq h).lt_or_eq
  · obtain ⟨v, hv, hqv, hvr⟩ := exists_between_of_gridExponent_lt hq hr hlt
    exact (nearest_le hv hqv).trans (le_nearest hv hvr)
  · rw [nearest_of_ne_zero hq.ne', nearest_of_ne_zero hr.ne', heq]
    have hpos : (0 : ℚ) < 2 ^ gridExponent r := by positivity
    have hround : roundHalfEven (q / 2 ^ gridExponent r) ≤ roundHalfEven (r / 2 ^ gridExponent r) :=
      roundHalfEven_mono (div_le_div_of_nonneg_right h hpos.le)
    exact mul_le_mul_of_nonneg_right (by exact_mod_cast hround) hpos.le

/-- Rounding keeps the order. -/
theorem nearest_mono (h : q ≤ r) : nearest q ≤ nearest r := by
  obtain hq | hq := lt_or_ge 0 q
  · exact nearest_mono_of_pos hq h
  · obtain hr | hr := lt_or_ge r 0
    · have hle := nearest_mono_of_pos (neg_pos.mpr hr) (neg_le_neg h)
      rw [nearest_neg, nearest_neg] at hle
      exact neg_le_neg_iff.mp hle
    · exact (nearest_le .zero hq).trans (nearest_nonneg hr)

theorem representable_nearest_of_pos (hq : 0 < q) : Representable (nearest q) := by
  have hpos : (0 : ℚ) < 2 ^ gridExponent q := by positivity
  have hupper : q / 2 ^ gridExponent q ≤ (2 ^ 53 : ℤ) := by
    rw [div_le_iff₀ hpos]
    exact_mod_cast (lt_gridExponent hq).le
  have hlower : ((0 : ℤ) : ℚ) ≤ q / 2 ^ gridExponent q := by
    rw [Int.cast_zero]
    positivity
  refine ⟨_, _, nearest_of_ne_zero hq.ne', ?_, le_gridExponent q⟩
  rw [abs_of_nonneg (le_roundHalfEven hlower)]
  exact roundHalfEven_le hupper

/-- What comes of rounding has a place among the doubles, if it is not too large. -/
theorem representable_nearest (q : ℚ) : Representable (nearest q) := by
  obtain hq | rfl | hq := lt_trichotomy q 0
  · rw [← neg_neg q, nearest_neg]
    exact (representable_nearest_of_pos (neg_pos.mpr hq)).neg
  · rw [nearest_zero]
    exact .zero
  · exact representable_nearest_of_pos hq

theorem abs_nearest_sub_le_of_pos (hv : Representable v) (hq : 0 < q) :
    |nearest q - q| ≤ |v - q| := by
  obtain ⟨n, hn⟩ := exists_grid_mem_uIcc hv hq
  have hpos : (0 : ℚ) < 2 ^ gridExponent q := by positivity
  have hscale (m : ℤ) : |(m : ℚ) * 2 ^ gridExponent q - q| =
      |m - q / 2 ^ gridExponent q| * 2 ^ gridExponent q := by
    rw [← abs_of_pos hpos, ← abs_mul, abs_of_pos hpos, sub_mul, div_mul_cancel₀ _ hpos.ne']
  calc |nearest q - q|
      = |(roundHalfEven (q / 2 ^ gridExponent q) : ℚ) - q / 2 ^ gridExponent q| *
          2 ^ gridExponent q := by rw [nearest_of_ne_zero hq.ne', hscale]
    _ ≤ |(n : ℚ) - q / 2 ^ gridExponent q| * 2 ^ gridExponent q :=
        mul_le_mul_of_nonneg_right (abs_roundHalfEven_sub_le_of_int n _) hpos.le
    _ = |n * 2 ^ gridExponent q - q| := (hscale n).symm
    _ ≤ |v - q| := by
        rw [abs_sub_comm, abs_sub_comm v]
        exact Set.abs_sub_right_of_mem_uIcc hn

/-- No number that a double has a place for is nearer. -/
theorem abs_nearest_sub_le (hv : Representable v) (q : ℚ) : |nearest q - q| ≤ |v - q| := by
  obtain hq | rfl | hq := lt_trichotomy q 0
  · have hle := abs_nearest_sub_le_of_pos hv.neg (neg_pos.mpr hq)
    rwa [nearest_neg, ← neg_sub', abs_neg, ← neg_sub', abs_neg] at hle
  · rw [nearest_zero, sub_self, abs_zero]
    exact abs_nonneg _
  · exact abs_nearest_sub_le_of_pos hv hq

/-- What is nearer to a number of units less one than to the number itself is not rounded up. -/
theorem nearest_le_pred {k : ℤ} (hn : 2 ^ 52 < n) (hn' : n ≤ 2 ^ 53) (hk : -1074 ≤ k)
    (h : q < (n - 1 / 2) * 2 ^ k) : nearest q ≤ (n - 1) * 2 ^ k := by
  have hpred : Representable ((n - 1) * 2 ^ k) := by
    refine ⟨n - 1, k, by push_cast; rfl, ?_, hk⟩
    rw [abs_of_nonneg] <;> omega
  obtain hle | hlt := le_or_gt q ((n - 1) * 2 ^ k)
  · exact nearest_le hpred hle
  · by_contra hgt
    have hge : n * 2 ^ k ≤ nearest q := by
      by_contra hlt
      exact hgt ((representable_nearest q).le_pred hn (not_le.mp hlt))
    have hnear := abs_nearest_sub_le hpred q
    rw [abs_of_nonneg (by linarith), abs_of_neg (by linarith)] at hnear
    linarith

/-- A number above one that is rounded up goes to a full number of units, from less than one unit
below. -/
theorem exists_units_of_lt_nearest (hq : 1 ≤ q) (hup : q < nearest q) :
    ∃ n k : ℤ, nearest q = n * 2 ^ k ∧ 2 ^ 52 < n ∧ n ≤ 2 ^ 53 ∧ -53 < k ∧ (n - 1) * 2 ^ k ≤ q := by
  have hpos : 0 < q := zero_lt_one.trans_le hq
  have hunit : (0 : ℚ) < 2 ^ gridExponent q := by positivity
  have hnearest := nearest_of_ne_zero hpos.ne'
  have hexp : -53 < gridExponent q := by
    by_contra hle
    have hpow : (2 : ℚ) ^ gridExponent q ≤ 2 ^ (-53 : ℤ) :=
      zpow_le_zpow_right₀ one_le_two (not_lt.mp hle)
    have hlt := lt_gridExponent hpos
    norm_num at hpow
    linarith
  refine ⟨_, _, hnearest, ?_, ?_, hexp, ?_⟩
  · have hlower : (2 : ℚ) ^ 52 * 2 ^ gridExponent q ≤ q := gridExponent_le hpos (by omega)
    rw [hnearest] at hup
    exact_mod_cast lt_of_mul_lt_mul_right (hlower.trans_lt hup) hunit.le
  · refine roundHalfEven_le ((div_le_iff₀ hunit).mpr ?_)
    exact_mod_cast (lt_gridExponent hpos).le
  · have hhalf := (abs_le.mp (abs_roundHalfEven_sub_le (q / 2 ^ gridExponent q))).2
    rw [← le_div_iff₀ hunit]
    linarith

/-- A share that leaves out the last bit of one is so small that it makes up for rounding the
number itself. -/
theorem nearest_mul_nearest_le {share : ℚ} (hq : 1 ≤ q)
    (hshare : share ≤ 1 - 1 / 2 ^ 53) : nearest (share * nearest q) ≤ q := by
  obtain hle | hup := le_or_gt (nearest q) q
  · have hnonneg := nearest_nonneg (zero_le_one.trans hq)
    exact (nearest_le (representable_nearest q) (by nlinarith)).trans hle
  · obtain ⟨n, k, hnearest, hlarge, hsmall, hexp, hbelow⟩ := exists_units_of_lt_nearest hq hup
    refine (nearest_le_pred hlarge hsmall (by omega) ?_).trans hbelow
    rw [hnearest, ← mul_assoc]
    refine mul_lt_mul_of_pos_right ?_ (by positivity)
    have hlarge : (2 : ℚ) ^ 52 < n := by exact_mod_cast hlarge
    have hmul : share * n ≤ (1 - 1 / 2 ^ 53) * n :=
      mul_le_mul_of_nonneg_right hshare (by positivity)
    linarith

end ProxyTiming.Binary64
