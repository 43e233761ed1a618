import Mathlib.Algebra.Order.Floor.Semifield
import ProxyTiming.Proofs.Stats.Percentiles

/-!
# The median

The fiftieth percentile is computed in double precision like the others.  A half of a whole number
and half of a difference are doubles themselves, though, as long as the numbers are not too large.
So nothing is rounded on the way, and what comes out is the median of the durations, but for the
half of a nanosecond.
-/

namespace ProxyTiming

open Binary64

variable {sorted ds : List Duration} {last i a b : ℕ}

/-- The median of an ascending list: the one in the middle, or the average of the two in the
middle, with a half of a nanosecond rounded up. -/
structure Median (sorted : List Duration) (m : Duration) : Prop where
  odd : sorted.length % 2 = 1 → sorted[sorted.length / 2]? = some m
  even : sorted.length % 2 = 0 → ∃ a b, sorted[sorted.length / 2 - 1]? = some a ∧
    sorted[sorted.length / 2]? = some b ∧ m.toNanos = (a.toNanos + b.toNanos + 1) / 2

/-! ### Nothing is rounded -/

/-- The place of the fiftieth percentile is half of the way. -/
theorem placeOf_fifty (h : last ≤ 2 ^ 53) : placeOf last (ofNat 50) = (last : ℚ) / 2 := by
  have hshare : nearest (50 / 100) = 1 / 2 := by
    rw [show (50 / 100 : ℚ) = (1 : ℕ) / 2 by norm_num, nearest_eq_self (.half (by norm_num))]
    norm_num
  rw [ofNat_of_le (by norm_num), Nat.cast_ofNat,
    placeOf_finite (by norm_num) (by norm_num) (by omega), rankAt, hshare,
    nearest_eq_self (.natCast h), one_div_mul_eq_div, nearest_eq_self (.half h)]

/-- The number in the middle between two others. -/
theorem blend_half (hb : b < 2 ^ 52) (hab : a ≤ b) :
    blend a b (1 / 2) = ((a + b : ℕ) : ℚ) / 2 := by
  have hstep : nearest (1 / 2 * ((b : ℚ) - a)) = ((b - a : ℕ) : ℚ) / 2 := by
    rw [one_div_mul_eq_div, ← Nat.cast_sub hab, nearest_eq_self (.half (by omega))]
  have hmiddle : (a : ℚ) + ((b - a : ℕ) : ℚ) / 2 = ((a + b : ℕ) : ℚ) / 2 := by
    rw [Nat.cast_sub hab]
    push_cast
    ring
  rw [blend, hstep, hmiddle, nearest_eq_self (.half (by omega))]

/-- Half a place above a whole one, a sample is the average of the two neighbours. -/
theorem Gradual.toNanos_sampleAt_half (h : Gradual sorted) (hi : i + 1 ≤ sorted.length - 1)
    (small : (entry sorted (i + 1)).toNanos < 2 ^ 52) :
    (sampleAt sorted (((2 * i + 1 : ℕ) : ℚ) / 2)).toNanos =
      ((entry sorted i).toNanos + (entry sorted (i + 1)).toNanos + 1) / 2 := by
  have hle := h.entry_le (Nat.le_succ i) hi
  have hab := (Duration.le_iff _ _).mp hle
  have hfloor : ⌊((2 * i + 1 : ℕ) : ℚ) / 2⌋₊ = i := by
    have hdiv : ⌊((2 * i + 1 : ℕ) : ℚ) / (2 : ℕ)⌋₊ = (2 * i + 1) / 2 := Nat.floor_div_eq_div _ _
    rw [Nat.cast_ofNat] at hdiv
    omega
  have hfraction : nearest (((2 * i + 1 : ℕ) : ℚ) / 2 - i) = 1 / 2 := by
    have hhalf : ((2 * i + 1 : ℕ) : ℚ) / 2 - i = (1 : ℕ) / 2 := by
      push_cast
      ring
    rw [hhalf, nearest_eq_self (.half (by norm_num)), Nat.cast_one]
  rw [sampleAt, hfloor, hfraction, if_neg (not_lt.mpr hi),
    toNanos_interpolate hle (h.entry_small hi) (by norm_num) (by norm_num), blend_half small hab,
    ← Nat.floor_div_eq_div (K := ℚ)]
  congr 1
  push_cast
  ring

/-- The fiftieth percentile is half of the way through the list. -/
theorem Gradual.p50_eq_sampleAt (nonempty : ds ≠ []) (h : Gradual (ascending ds))
    (short : (ascending ds).length ≤ 2 ^ 53) :
    (summarize ds).p50 = sampleAt (ascending ds) (((ascending ds).length - 1 : ℕ) / 2) := by
  rw [summarize_of_ne_nil nonempty, ← placeOf_fifty ((Nat.sub_le _ _).trans short)]
  exact h.percentile_eq_sampleAt (isDouble_ofNat 50) (ofNat_ne_nan (by decide))

/-- The fiftieth percentile of durations below `2 ^ 52` nanoseconds is their median. -/
theorem p50_median (nonempty : ds ≠ []) (short : ds.length < 2 ^ 52)
    (small : ∀ d ∈ ds, d.toNanos < 2 ^ 52) (perm : sorted.Perm ds)
    (pairwise : sorted.Pairwise (· ≤ ·)) : Median sorted (summarize ds).p50 := by
  obtain rfl := eq_ascending perm pairwise
  have hgradual : Gradual (ascending ds) :=
    gradual_ascending nonempty (by omega) fun d hd => (small d hd).trans (by norm_num)
  have hlength := length_ascending ds
  have hpos := hgradual.length_pos
  have hp50 := hgradual.p50_eq_sampleAt nonempty (by omega)
  constructor
  · intro hodd
    obtain ⟨i, hi⟩ : ∃ i, (ascending ds).length - 1 = 2 * i :=
      ⟨((ascending ds).length - 1) / 2, by omega⟩
    have hplace : (((ascending ds).length - 1 : ℕ) : ℚ) / 2 = i := by
      rw [hi]
      push_cast
      ring
    rw [hp50, hplace, hgradual.sampleAt_natCast, show (ascending ds).length / 2 = i by omega]
    exact getElem?_entry (by omega)
  · intro heven
    obtain ⟨i, hi⟩ : ∃ i, (ascending ds).length - 1 = 2 * i + 1 :=
      ⟨((ascending ds).length - 2) / 2, by omega⟩
    have hsmall := small _ (mem_ascending.mp (entry_mem (i := i + 1) (by omega)))
    rw [show (ascending ds).length / 2 - 1 = i by omega,
      show (ascending ds).length / 2 = i + 1 by omega]
    refine ⟨_, _, getElem?_entry (by omega), getElem?_entry (by omega), ?_⟩
    rw [hp50, hi]
    exact hgradual.toNanos_sampleAt_half (by omega) hsmall

/-- The average of three and four nanoseconds is rounded up. -/
theorem p50_median_of_four :
    let ds : List Duration := [.ofNanos 10, .ofNanos 3, .ofNanos 4, .ofNanos 1]
    let sorted : List Duration := [.ofNanos 1, .ofNanos 3, .ofNanos 4, .ofNanos 10]
    ds ≠ [] ∧ ds.length < 2 ^ 52 ∧ (∀ d ∈ ds, d.toNanos < 2 ^ 52) ∧ sorted.Perm ds ∧
      sorted.Pairwise (· ≤ ·) ∧ Median sorted (summarize ds).p50 ∧
      (summarize ds).p50.toNanos = 4 := by
  intro ds sorted
  have hnonempty : ds ≠ [] := List.cons_ne_nil _ _
  have hshort : ds.length < 2 ^ 52 := by decide
  have hsmall : ∀ d ∈ ds, d.toNanos < 2 ^ 52 := by decide
  have hperm : sorted.Perm ds := by decide
  have hpairwise : sorted.Pairwise (· ≤ ·) := by decide
  have hmedian := p50_median hnonempty hshort hsmall hperm hpairwise
  obtain ⟨a, b, ha, hb, hnanos⟩ := hmedian.even (by decide)
  have hlower : sorted[sorted.length / 2 - 1]? = some (.ofNanos 3) := by decide
  have hupper : sorted[sorted.length / 2]? = some (.ofNanos 4) := by decide
  obtain rfl := Option.some.inj (hlower.symm.trans ha)
  obtain rfl := Option.some.inj (hupper.symm.trans hb)
  exact ⟨hnonempty, hshort, hsmall, hperm, hpairwise, hmedian, hnanos⟩

end ProxyTiming
