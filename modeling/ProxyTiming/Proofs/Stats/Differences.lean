import Mathlib.Data.Int.ConditionallyCompleteOrder
import ProxyTiming.Stats
import ProxyTiming.Proofs.Binary64.Signs

/-!
# Differences of means

A difference is taken on signed numbers of 64 bits.  The nanoseconds of a long mean are cut to fit
into them before, and as they are never negative, the difference of two of them fits as it is.  So
differences behave as those of whole numbers do.

The percentage is computed on doubles.  Its sign is that of the difference all the same, since none
of the numbers on the way comes near to the smallest or the largest double.
-/

namespace ProxyTiming.Difference

open Binary64

variable {n : ℤ} {d : Duration} {base cand : Duration}

/-! ### Nanoseconds as signed numbers -/

theorem clampSigned_of_abs_le (h : |n| ≤ maxSigned) : clampSigned n = n := by
  have hn := abs_le.mp h
  rw [clampSigned, min_eq_left hn.2, max_eq_right (by omega)]

theorem signedNanos_nonneg (d : Duration) : 0 ≤ signedNanos d :=
  le_min (Int.natCast_nonneg _) (by decide)

theorem signedNanos_le (d : Duration) : signedNanos d ≤ maxSigned := min_le_right _ _

theorem signedNanos_eq_min (d : Duration) : signedNanos d = (min d.toNanos (2 ^ 63 - 1) : ℕ) := by
  rw [Nat.cast_min]
  rfl

theorem signedNanos_of_lt (h : d.toNanos < 2 ^ 63) : signedNanos d = d.toNanos := by
  rw [signedNanos_eq_min, min_eq_left (by omega)]

theorem signedNanos_pos_iff : 0 < signedNanos d ↔ d ≠ .zero := by
  rw [signedNanos_eq_min, Duration.ne_zero_iff]
  omega

/-! ### Differences -/

theorem abs_signedNanos_sub_le (base cand : Duration) :
    |signedNanos cand - signedNanos base| ≤ maxSigned := by
  have hbase := signedNanos_nonneg base
  have hbase' := signedNanos_le base
  have hcand := signedNanos_nonneg cand
  have hcand' := signedNanos_le cand
  exact abs_le.mpr ⟨by omega, by omega⟩

/-- The subtraction does not come to the end of the signed numbers. -/
theorem absoluteNanos_between (base cand : Duration) :
    (between base cand).absoluteNanos = signedNanos cand - signedNanos base :=
  clampSigned_of_abs_le (abs_signedNanos_sub_le base cand)

/-! ### Percentages -/

theorem percentage_between_of_ne_zero (cand : Duration) (h : base ≠ .zero) :
    (between base cand).percentage =
      ofInt (between base cand).absoluteNanos / ofInt (signedNanos base) * ofNat 100 := by
  rw [between]
  exact if_pos (signedNanos_pos_iff.mpr h)

theorem percentage_between_of_zero (cand : Duration) (h : base = .zero) :
    (between base cand).percentage = .finite 0 := by
  rw [between]
  exact if_neg fun hpos => signedNanos_pos_iff.mp hpos h

theorem sized_of_signed (hn : n ≠ 0) (h : |n| ≤ maxSigned) : Sized 63 (n : ℚ) :=
  .intCast hn (h.trans (by decide))

/-- The percentage of a difference that is not zero: three times a number is rounded, and each time
it keeps its sign. -/
theorem exists_percentage_of_ne_zero {m : ℤ} (hn : n ≠ 0) (hn' : |n| ≤ maxSigned) (hm : 0 < m)
    (hm' : m ≤ maxSigned) :
    ∃ v : ℚ, ofInt n / ofInt m * ofNat 100 = .finite v ∧ SignType.sign v = SignType.sign n := by
  have hsize := sized_of_signed hn hn'
  have hsize' := sized_of_signed hm.ne' ((abs_of_pos hm).trans_le hm')
  have hpos := hsize'.nearest_pos (by decide) (by exact_mod_cast hm)
  have hnearest := hsize.nearest (by decide)
  have hnearest' := hsize'.nearest (by decide)
  have hratio := hnearest.div hnearest'
  have hshare := hratio.nearest (by decide)
  have hhundred : Sized 7 ((100 : ℕ) : ℚ) := ⟨by norm_num, by norm_num⟩
  refine ⟨nearest (nearest (nearest n / nearest m) * (100 : ℕ)), ?_, ?_⟩
  · rw [ofInt, ofInt, ofRat_of_sized hsize (by decide), ofRat_of_sized hsize' (by decide),
      finite_div_of_sized hnearest hnearest' (by decide), ofNat_of_le (by decide),
      finite_mul_of_sized hshare hhundred (by decide)]
  · calc SignType.sign (nearest (nearest (nearest n / nearest m) * (100 : ℕ)))
        = SignType.sign (nearest (nearest (n : ℚ) / nearest m) * (100 : ℕ)) :=
          (hshare.mul hhundred).sign_nearest (by decide)
      _ = SignType.sign (nearest (nearest (n : ℚ) / nearest m)) := by
          rw [sign_mul, sign_pos (by norm_num : (0 : ℚ) < (100 : ℕ)), mul_one]
      _ = SignType.sign (nearest (n : ℚ) / nearest m) := hratio.sign_nearest (by decide)
      _ = SignType.sign (nearest (n : ℚ)) := sign_div_of_pos _ hpos
      _ = SignType.sign (n : ℚ) := hsize.sign_nearest (by decide)
      _ = SignType.sign n := sign_intCast n

/-- No difference is no percent, and without a sign. -/
theorem percentage_of_zero {m : ℤ} (hm : 0 < m) (hm' : m ≤ maxSigned) :
    ofInt 0 / ofInt m * ofNat 100 = .finite 0 := by
  have hsize := sized_of_signed hm.ne' ((abs_of_pos hm).trans_le hm')
  have hpos := hsize.nearest_pos (by decide) (by exact_mod_cast hm)
  have hzero : ofInt 0 = .finite 0 := by
    rw [ofInt, Int.cast_zero, ofRat_of_le le_rfl (by positivity), nearest_zero]
  rw [hzero, ofInt, ofRat_of_sized hsize (by decide), finite_div le_rfl hpos, zero_div,
    nearest_zero, ofNat_of_le (by decide), finite_mul le_rfl (Nat.cast_nonneg _), zero_mul,
    nearest_zero]
  · rw [zero_mul]
    positivity
  · rw [zero_div]
    positivity

/-- The sign of a percentage is that of the difference. -/
theorem exists_percentage (cand : Duration) (h : base ≠ .zero) :
    ∃ v : ℚ, (between base cand).percentage = .finite v ∧
      SignType.sign v = SignType.sign (between base cand).absoluteNanos := by
  have hpos := signedNanos_pos_iff.mpr h
  have hle := signedNanos_le base
  rw [percentage_between_of_ne_zero cand h]
  obtain hzero | hne := eq_or_ne (between base cand).absoluteNanos 0
  · rw [hzero]
    exact ⟨0, percentage_of_zero hpos hle, by rw [sign_zero, sign_zero]⟩
  · refine exists_percentage_of_ne_zero hne ?_ hpos hle
    rw [absoluteNanos_between]
    exact abs_signedNanos_sub_le base cand

theorem between_self (d : Duration) : between d d = ⟨0, .finite 0⟩ := by
  have habsolute : (between d d).absoluteNanos = 0 := by rw [absoluteNanos_between, sub_self]
  have hpercentage : (between d d).percentage = .finite 0 := by
    obtain h | h := eq_or_ne d .zero
    · exact percentage_between_of_zero d h
    · rw [percentage_between_of_ne_zero d h, habsolute]
      exact percentage_of_zero (signedNanos_pos_iff.mpr h) (signedNanos_le d)
  calc between d d = ⟨(between d d).absoluteNanos, (between d d).percentage⟩ := rfl
    _ = ⟨0, .finite 0⟩ := by rw [habsolute, hpercentage]

/-! ### Exactness -/

/-- What a difference of two means is, whatever their size. -/
structure Exact (base cand : Duration) (d : Difference) : Prop where
  /-- It is the difference of the two signed numbers, which is not too large for one itself. -/
  unsaturated : d.absoluteNanos = signedNanos cand - signedNanos base ∧
    |d.absoluteNanos| ≤ maxSigned
  exact : base.toNanos < 2 ^ 63 → cand.toNanos < 2 ^ 63 →
    d.absoluteNanos = cand.toNanos - base.toNanos
  /-- Its sign tells the order of the means, as far as signed numbers reach. -/
  order : cmp d.absoluteNanos 0 =
    cmp (min cand.toNanos (2 ^ 63 - 1)) (min base.toNanos (2 ^ 63 - 1))
  percentage_of_zero : base = .zero → d.percentage = .finite 0
  sign_percentage : base ≠ .zero →
    ∃ v : ℚ, d.percentage = .finite v ∧ SignType.sign v = SignType.sign d.absoluteNanos

theorem exact_between (base cand : Duration) : Exact base cand (between base cand) := by
  have habsolute := absoluteNanos_between base cand
  exact
    { unsaturated := ⟨habsolute, habsolute ▸ abs_signedNanos_sub_le base cand⟩
      exact := fun hbase hcand => by
        rw [habsolute, signedNanos_of_lt hbase, signedNanos_of_lt hcand]
      order := by
        rw [habsolute, cmp_sub_zero, signedNanos_eq_min, signedNanos_eq_min]
        exact Nat.strictMono_cast.cmp_map_eq _ _
      percentage_of_zero := percentage_between_of_zero cand
      sign_percentage := exists_percentage cand }

end ProxyTiming.Difference
