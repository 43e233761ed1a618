import ProxyTiming.Proofs.Binary64.Doubles
import ProxyTiming.Proofs.Stats.Ascending

/-!
# Percentiles are bounded and ordered

A percentile is computed in double precision: its share of the whole, its rank, how far the rank is
above the place below it, and the duration at that fraction of the way to the next place.  Each of
these is rounded.  Still no rank is beyond the last place, no duration is outside of the two that it
is between, and a greater percentile is not a shorter duration.

All of it follows from two facts about rounding, that it keeps the order and that it does not touch
what is a double already.  A percentile is a *sample* of the list at a *place* that need not be a
whole number.  The place is in the order of the percents, and the sample is in the order of the
places.
-/

namespace ProxyTiming

open Binary64

variable {sorted ds : List Duration} {p q : Binary64} {last : ℕ} {v w : ℚ}

/-! ### The rank of a percentile -/

def rankAt (last : ℕ) (v : ℚ) : ℚ := nearest (nearest (v / 100) * nearest last)

theorem nearest_share_nonneg (hv : 0 ≤ v) : 0 ≤ nearest (v / 100) :=
  nearest_nonneg (by positivity)

/-- A share of less than a hundred percent is less than the whole after rounding, too. -/
theorem nearest_share_le (hv : Representable v) (hlt : v < 100) :
    nearest (v / 100) ≤ 1 - 1 / 2 ^ 53 := by
  have hpred := hv.le_pred (n := 100 * 2 ^ 46) (k := -46) (by norm_num) (by norm_num; exact hlt)
  have hnear : nearest (v / 100) ≤ ((2 ^ 53 : ℤ) - 1) * 2 ^ (-53 : ℤ) := by
    refine nearest_le_pred (by norm_num) (by norm_num) (by norm_num) ?_
    norm_num at hpred ⊢
    linarith
  norm_num at hnear ⊢
  exact hnear

theorem rankAt_nonneg (hv : 0 ≤ v) : 0 ≤ rankAt last v :=
  nearest_nonneg (mul_nonneg (nearest_share_nonneg hv) (nearest_nonneg (Nat.cast_nonneg last)))

theorem representable_rankAt (last : ℕ) (v : ℚ) : Representable (rankAt last v) :=
  representable_nearest _

/-- No rank is beyond the last place. -/
theorem rankAt_le (hv : Representable v) (hlt : v < 100) : rankAt last v ≤ last := by
  obtain rfl | hlast := Nat.eq_zero_or_pos last
  · rw [rankAt, Nat.cast_zero, nearest_zero, mul_zero, nearest_zero]
  · exact nearest_mul_nearest_le (by exact_mod_cast hlast) (nearest_share_le hv hlt)

theorem rankAt_mono (h : v ≤ w) : rankAt last v ≤ rankAt last w := by
  have hshare : nearest (v / 100) ≤ nearest (w / 100) := nearest_mono (by linarith)
  have hlast : 0 ≤ nearest (last : ℚ) := nearest_nonneg (Nat.cast_nonneg last)
  exact nearest_mono (mul_le_mul_of_nonneg_right hshare hlast)

/-- What is computed in double precision is the rank. -/
theorem percentileRank_finite (h₀ : 0 ≤ v) (hlt : v < 100) (hlast : last < 2 ^ 64) :
    percentileRank last (.finite v) = .finite (rankAt last v) := by
  have hlast : (last : ℚ) ≤ 2 ^ 64 := by exact_mod_cast hlast.le
  have hnear : nearest (last : ℚ) ≤ 2 ^ 64 :=
    nearest_le (.two_zpow (by decide : (-1074 : ℤ) ≤ 64)) hlast
  have hnear₀ : 0 ≤ nearest (last : ℚ) := nearest_nonneg (Nat.cast_nonneg last)
  have hshare : nearest (v / 100) ≤ 1 :=
    nearest_le .one (by linarith)
  have hshare₀ := nearest_share_nonneg h₀
  rw [percentileRank, ofNat_of_le (by norm_num), Nat.cast_ofNat, finite_div h₀ (by norm_num),
    ofNat, ofRat_of_le (Nat.cast_nonneg last), finite_mul hshare₀ hnear₀, rankAt]
  · nlinarith
  · linarith
  · linarith

/-! ### Where a percentile lies -/

/-- A percentile is one of the extremes, or strictly between them. -/
theorem percentile_cases (number : p ≠ .nan) :
    p.atMost 0 = true ∨ p.atLeast 100 = true ∨ ∃ v, p = .finite v ∧ 0 < v ∧ v < 100 := by
  cases p with
  | nan => exact absurd rfl number
  | infinite negative => cases negative <;> simp [atMost, atLeast]
  | negativeZero => exact Or.inl (by simp [atMost])
  | finite v =>
      simp only [atMost, atLeast, decide_eq_true_eq, Binary64.finite.injEq]
      obtain hle | hlt := le_or_gt v 0
      · exact Or.inl hle
      · obtain hge | hlt' := le_or_gt 100 v
        · exact Or.inr (Or.inl hge)
        · exact Or.inr (Or.inr ⟨v, rfl, hlt, hlt'⟩)

theorem exists_of_not_extreme (number : p ≠ .nan) (hmost : ¬p.atMost 0 = true)
    (hleast : ¬p.atLeast 100 = true) : ∃ v, p = .finite v ∧ 0 < v ∧ v < 100 := by
  obtain h | h | h := percentile_cases number
  · exact absurd h hmost
  · exact absurd h hleast
  · exact h

def placeOf (last : ℕ) (p : Binary64) : ℚ :=
  if p.atMost 0 then 0 else if p.atLeast 100 then last
  else ((percentileRank last p).toRat?).getD 0

theorem placeOf_finite (h₀ : 0 < v) (hlt : v < 100) (hlast : last < 2 ^ 64) :
    placeOf last (.finite v) = rankAt last v := by
  have hmost : ¬(finite v).atMost 0 = true := by simpa [atMost] using h₀
  have hleast : ¬(finite v).atLeast 100 = true := by simpa [atLeast] using hlt
  rw [placeOf, if_neg hmost, if_neg hleast, percentileRank_finite h₀.le hlt hlast]
  rfl

theorem placeOf_nonneg (number : p ≠ .nan) (hlast : last < 2 ^ 64) : 0 ≤ placeOf last p := by
  obtain hmost | hleast | ⟨v, rfl, h₀, hlt⟩ := percentile_cases number
  · rw [placeOf, if_pos hmost]
  · rw [placeOf, if_pos hleast]
    split_ifs
    · exact le_rfl
    · exact Nat.cast_nonneg last
  · rw [placeOf_finite h₀ hlt hlast]
    exact rankAt_nonneg h₀.le

theorem placeOf_le (double : p.IsDouble) (number : p ≠ .nan) (hlast : last < 2 ^ 64) :
    placeOf last p ≤ last := by
  obtain hmost | hleast | ⟨v, rfl, h₀, hlt⟩ := percentile_cases number
  · rw [placeOf, if_pos hmost]
    exact Nat.cast_nonneg last
  · rw [placeOf, if_pos hleast]
    split_ifs
    · exact Nat.cast_nonneg last
    · exact le_rfl
  · rw [placeOf_finite h₀ hlt hlast]
    exact rankAt_le double.1 hlt

theorem placeOf_mono (double : p.IsDouble) (hp : p ≠ .nan) (hq : q ≠ .nan) (hpq : p.le q)
    (hlast : last < 2 ^ 64) : placeOf last p ≤ placeOf last q := by
  by_cases hmost : p.atMost 0 = true
  · rw [placeOf, if_pos hmost]
    exact placeOf_nonneg hq hlast
  · have hmost' : ¬q.atMost 0 = true := fun h => hmost (atMost_of_le hpq h)
    by_cases hleast : q.atLeast 100 = true
    · rw [placeOf.eq_def last q, if_neg hmost', if_pos hleast]
      exact placeOf_le double hp hlast
    · have hleast' : ¬p.atLeast 100 = true := fun h => hleast (atLeast_of_le hpq h)
      obtain ⟨v, rfl, hv₀, hv⟩ := exists_of_not_extreme hp hmost hleast'
      obtain ⟨w, rfl, hw₀, hw⟩ := exists_of_not_extreme hq hmost' hleast
      rw [placeOf_finite hv₀ hv hlast, placeOf_finite hw₀ hw hlast]
      exact rankAt_mono (of_decide_eq_true hpq)

/-! ### Between two neighbours -/

def blend (a b : ℕ) (fraction : ℚ) : ℚ := nearest (a + nearest (fraction * (b - a)))

variable {a b : ℕ} {t u : ℚ}

theorem representable_sub (hb : b ≤ 2 ^ 53) (hab : a ≤ b) : Representable ((b : ℚ) - a) := by
  rw [← Nat.cast_sub hab]
  exact .natCast ((Nat.sub_le b a).trans hb)

theorem sub_nonneg_of_le (hab : a ≤ b) : (0 : ℚ) ≤ (b : ℚ) - a :=
  sub_nonneg.mpr (by exact_mod_cast hab)

theorem le_blend (hb : b ≤ 2 ^ 53) (hab : a ≤ b) (ht : 0 ≤ t) : a ≤ blend a b t := by
  refine le_nearest (.natCast (hab.trans hb)) (le_add_of_nonneg_right ?_)
  exact nearest_nonneg (mul_nonneg ht (sub_nonneg_of_le hab))

theorem blend_le (hb : b ≤ 2 ^ 53) (hab : a ≤ b) (ht : t ≤ 1) : blend a b t ≤ b := by
  have hstep : nearest (t * (b - a)) ≤ b - a :=
    nearest_le (representable_sub hb hab) (mul_le_of_le_one_left (sub_nonneg_of_le hab) ht)
  exact nearest_le (.natCast hb) (by linarith)

theorem blend_mono (hab : a ≤ b) (htu : t ≤ u) : blend a b t ≤ blend a b u := by
  have hstep : nearest (t * (b - a)) ≤ nearest (u * (b - a)) :=
    nearest_mono (mul_le_mul_of_nonneg_right htu (sub_nonneg_of_le hab))
  exact nearest_mono (by linarith)

/-- What is computed in double precision is the number between the two, made whole. -/
theorem toNanos_interpolate {lo hi : Duration} (hle : lo ≤ hi) (small : hi.toNanos ≤ 2 ^ 53)
    (ht₀ : 0 ≤ t) (ht₁ : t ≤ 1) :
    (interpolate lo hi (.finite t)).toNanos = ⌊blend lo.toNanos hi.toNanos t + 1 / 2⌋₊ := by
  have hab := (Duration.le_iff lo hi).mp hle
  rw [interpolate, ofNat_of_le small, ofNat_of_le (hab.trans small)]
  generalize hi.toNanos = b at small hab
  generalize lo.toNanos = a at hab
  have hb : (b : ℚ) ≤ 2 ^ 53 := by exact_mod_cast small
  have ha₀ : (0 : ℚ) ≤ a := Nat.cast_nonneg a
  have hab' : (a : ℚ) ≤ b := by exact_mod_cast hab
  have hgap := sub_nonneg_of_le hab
  have hstep₀ : 0 ≤ nearest (t * (b - a)) := nearest_nonneg (mul_nonneg ht₀ hgap)
  have hstep : nearest (t * (b - a)) ≤ b - a :=
    nearest_le (representable_sub small hab) (mul_le_of_le_one_left hgap ht₁)
  have hblend₀ := ha₀.trans (le_blend small hab ht₀)
  have hblend := blend_le small hab ht₁
  have hwhole : ⌊blend a b t + 1 / 2⌋₊ < Duration.nanosBound := by
    rw [Nat.floor_lt (by positivity)]
    have hbound : (2 : ℚ) ^ 53 + 1 ≤ Duration.nanosBound := by
      exact_mod_cast (by decide : 2 ^ 53 + 1 ≤ Duration.nanosBound)
    linarith
  rw [finite_sub (.natCast small) ha₀ hab' (by linarith), nearest_eq_self (representable_sub small hab),
    finite_mul ht₀ hgap (by nlinarith), finite_add ha₀ hstep₀ (by linarith),
    ← blend, roundNat_finite hblend₀ (by linarith), Duration.toNanos_ofNanos hwhole]

/-! ### Samples at a place -/

/-- The whole number next to one between two whole numbers is between them. -/
theorem floor_add_half_between {x : ℚ} (ha : a ≤ x) (hb : x ≤ b) :
    a ≤ ⌊x + 1 / 2⌋₊ ∧ ⌊x + 1 / 2⌋₊ ≤ b := by
  constructor
  · exact Nat.le_floor (by linarith)
  · refine Nat.lt_succ_iff.mp ((Nat.floor_lt ?_).mpr ?_)
    · linarith [(Nat.cast_nonneg a : (0 : ℚ) ≤ a)]
    · push_cast
      linarith

section Interpolate

variable {lo hi : Duration}

theorem interpolate_between (hle : lo ≤ hi) (small : hi.toNanos ≤ 2 ^ 53)
    (ht₀ : 0 ≤ t) (ht₁ : t ≤ 1) :
    lo ≤ interpolate lo hi (.finite t) ∧ interpolate lo hi (.finite t) ≤ hi := by
  have hab := (Duration.le_iff lo hi).mp hle
  rw [Duration.le_iff, Duration.le_iff, toNanos_interpolate hle small ht₀ ht₁]
  exact floor_add_half_between (le_blend small hab ht₀) (blend_le small hab ht₁)

theorem interpolate_mono (hle : lo ≤ hi) (small : hi.toNanos ≤ 2 ^ 53)
    (ht₀ : 0 ≤ t) (htu : t ≤ u) (hu₁ : u ≤ 1) :
    interpolate lo hi (.finite t) ≤ interpolate lo hi (.finite u) := by
  have hab := (Duration.le_iff lo hi).mp hle
  rw [Duration.le_iff, toNanos_interpolate hle small ht₀ (htu.trans hu₁),
    toNanos_interpolate hle small (ht₀.trans htu) hu₁]
  have hblend := blend_mono hab htu
  exact Nat.floor_le_floor (by linarith)

theorem interpolate_zero (hle : lo ≤ hi) (small : hi.toNanos ≤ 2 ^ 53) :
    interpolate lo hi (.finite 0) = lo := by
  have hab := (Duration.le_iff lo hi).mp hle
  apply Duration.toNanos_inj
  rw [toNanos_interpolate hle small le_rfl zero_le_one, blend, zero_mul, nearest_zero, add_zero,
    nearest_eq_self (.natCast (hab.trans small))]
  have hbetween := floor_add_half_between (le_refl (lo.toNanos : ℚ)) le_rfl
  exact hbetween.2.antisymm hbetween.1

end Interpolate

/-- An ascending list of durations that are exact as doubles, with as many entries as can be
counted in 64 bits. -/
structure Gradual (sorted : List Duration) : Prop where
  nonempty : sorted ≠ []
  countable : sorted.length < 2 ^ 64
  pairwise : sorted.Pairwise (· ≤ ·)
  small : ∀ d ∈ sorted, d.toNanos < 2 ^ 53

/-- The duration at a place of a list, which need not be a whole number. -/
def sampleAt (sorted : List Duration) (place : ℚ) : Duration :=
  if sorted.length - 1 < ⌊place⌋₊ + 1 then entry sorted ⌊place⌋₊
  else
    interpolate (entry sorted ⌊place⌋₊) (entry sorted (⌊place⌋₊ + 1))
      (.finite (nearest (place - ⌊place⌋₊)))

/-- The way from the place below is at most a whole place, after rounding, too. -/
theorem fraction_between (place : ℚ) (h₀ : 0 ≤ place) :
    0 ≤ nearest (place - ⌊place⌋₊) ∧ nearest (place - ⌊place⌋₊) ≤ 1 := by
  have hfloor := Nat.floor_le h₀
  have hceil := Nat.lt_floor_add_one place
  exact ⟨nearest_nonneg (by linarith), nearest_le .one (by linarith)⟩

namespace Gradual

variable {place place' : ℚ} {i j : ℕ}

theorem length_pos (h : Gradual sorted) : 0 < sorted.length :=
  List.length_pos_iff.mpr h.nonempty

theorem last_lt (h : Gradual sorted) : sorted.length - 1 < 2 ^ 64 :=
  (Nat.sub_le _ _).trans_lt h.countable

theorem entry_small (h : Gradual sorted) (hi : i ≤ sorted.length - 1) :
    (entry sorted i).toNanos ≤ 2 ^ 53 :=
  (h.small _ (entry_mem (by have := h.length_pos; omega))).le

theorem entry_le (h : Gradual sorted) (hij : i ≤ j) (hj : j ≤ sorted.length - 1) :
    entry sorted i ≤ entry sorted j :=
  entry_mono h.pairwise hij (by have := h.length_pos; omega)

/-- A sample is between the two neighbours of its place. -/
theorem sampleAt_between (h : Gradual sorted) (h₀ : 0 ≤ place)
    (hle : place ≤ (sorted.length - 1 : ℕ)) :
    entry sorted ⌊place⌋₊ ≤ sampleAt sorted place ∧
      sampleAt sorted place ≤ entry sorted (min (⌊place⌋₊ + 1) (sorted.length - 1)) := by
  have hfloor := Nat.floor_le_of_le hle
  rw [sampleAt]
  split_ifs with hlast
  · exact ⟨Duration.le_refl _, h.entry_le (by omega) (by omega)⟩
  · rw [min_eq_left (not_lt.mp hlast)]
    have hfraction := fraction_between place h₀
    exact interpolate_between (h.entry_le (Nat.le_succ _) (not_lt.mp hlast))
      (h.entry_small (not_lt.mp hlast)) hfraction.1 hfraction.2

/-- At a whole number there is one of the durations. -/
theorem sampleAt_natCast (h : Gradual sorted) (i : ℕ) :
    sampleAt sorted i = entry sorted i := by
  rw [sampleAt, Nat.floor_natCast, sub_self, nearest_zero]
  split_ifs with hlast
  · rfl
  · have hlast := not_lt.mp hlast
    exact interpolate_zero (h.entry_le (Nat.le_succ i) hlast) (h.entry_small hlast)

/-- Samples are in the order of their places. -/
theorem sampleAt_mono (h : Gradual sorted) (h₀ : 0 ≤ place) (hle : place ≤ place')
    (hlast : place' ≤ (sorted.length - 1 : ℕ)) :
    sampleAt sorted place ≤ sampleAt sorted place' := by
  obtain hlt | heq := (Nat.floor_le_floor hle).lt_or_eq
  · -- A neighbour is between them.
    have hupper := (h.sampleAt_between h₀ (hle.trans hlast)).2
    have hlower := (h.sampleAt_between (h₀.trans hle) hlast).1
    have hfloor := Nat.floor_le_of_le hlast
    rw [min_eq_left (by omega)] at hupper
    exact Duration.le_trans hupper (Duration.le_trans (h.entry_le hlt hfloor) hlower)
  · rw [sampleAt, sampleAt, heq]
    split_ifs with hend
    · exact Duration.le_refl _
    · have hfraction := (fraction_between place h₀).1
      have hfraction' := (fraction_between place' (h₀.trans hle)).2
      rw [heq] at hfraction
      exact interpolate_mono (h.entry_le (Nat.le_succ _) (not_lt.mp hend))
        (h.entry_small (not_lt.mp hend)) hfraction (nearest_mono (by linarith)) hfraction'

/-! ### Percentiles are samples -/

/-- The rank of a percentile, taken apart as it is computed. -/
theorem rank_parts (hv : Representable v) (h₀ : 0 < v) (hlt : v < 100) (hlast : last < 2 ^ 64) :
    (percentileRank last (.finite v)).floorNat = ⌊rankAt last v⌋₊ ∧
      percentileRank last (.finite v) - ofNat ⌊rankAt last v⌋₊ =
        .finite (nearest (rankAt last v - ⌊rankAt last v⌋₊)) := by
  have hrank₀ : 0 ≤ rankAt last v := rankAt_nonneg h₀.le
  have hrank : rankAt last v < 2 ^ 64 :=
    (rankAt_le hv hlt).trans_lt (by exact_mod_cast hlast)
  have hfloor := Nat.floor_le hrank₀
  have hwhole : Representable (⌊rankAt last v⌋₊ : ℚ) := (representable_rankAt last v).floor hrank₀
  rw [percentileRank_finite h₀.le hlt hlast]
  refine ⟨floorNat_finite hrank₀ hrank, ?_⟩
  rw [ofNat, ofRat_of_le (Nat.cast_nonneg _) (by linarith), nearest_eq_self hwhole,
    finite_sub (representable_rankAt last v) (Nat.cast_nonneg _) hfloor (by linarith)]

theorem percentile_eq_sampleAt (h : Gradual sorted) (double : p.IsDouble) (number : p ≠ .nan) :
    percentile sorted p = sampleAt sorted (placeOf (sorted.length - 1) p) := by
  by_cases hmost : p.atMost 0 = true
  · have hzero := h.sampleAt_natCast 0
    rw [Nat.cast_zero] at hzero
    rw [percentile, if_pos hmost, placeOf, if_pos hmost, hzero]
    rfl
  · by_cases hleast : p.atLeast 100 = true
    · rw [percentile, if_neg hmost, if_pos hleast, placeOf, if_neg hmost, if_pos hleast,
        h.sampleAt_natCast]
      rfl
    · obtain ⟨v, rfl, h₀, hlt⟩ := exists_of_not_extreme number hmost hleast
      obtain ⟨hfloor, hfraction⟩ := rank_parts double.1 h₀ hlt h.last_lt
      rw [percentile, if_neg hmost, if_neg hleast, placeOf_finite h₀ hlt h.last_lt, sampleAt]
      dsimp only
      rw [hfloor, hfraction]
      rfl

end Gradual

/-! ### Percentiles -/

/-- A percentile that looks at its places one by one.  There is none if one of them is outside of
the list. -/
def percentile? (sorted : List Duration) (p : Binary64) : Option Duration :=
  if sorted.isEmpty then some .zero
  else
    let last := sorted.length - 1
    if p.atMost 0 then sorted[0]?
    else if p.atLeast 100 then sorted[last]?
    else
      let rank := percentileRank last p
      let lower := rank.floorNat
      if last < lower + 1 then sorted[lower]?
      else do
        let lo ← sorted[lower]?
        let hi ← sorted[lower + 1]?
        some (interpolate lo hi (rank - Binary64.ofNat lower))

/-- The places on both sides of a rank are inside of the list. -/
theorem Gradual.rank_inside (h : Gradual sorted) (double : p.IsDouble) (number : p ≠ .nan)
    (hmost : ¬p.atMost 0 = true) (hleast : ¬p.atLeast 100 = true) :
    (percentileRank (sorted.length - 1) p).floorNat ≤ sorted.length - 1 := by
  obtain ⟨v, rfl, h₀, hlt⟩ := exists_of_not_extreme number hmost hleast
  rw [(rank_parts double.1 h₀ hlt h.last_lt).1]
  exact Nat.floor_le_of_le (rankAt_le double.1 hlt)

theorem Gradual.percentile?_eq (h : Gradual sorted) (double : p.IsDouble) (number : p ≠ .nan) :
    percentile? sorted p = some (percentile sorted p) := by
  have hlength := h.length_pos
  rw [percentile?, percentile, if_neg (by simpa using h.nonempty)]
  dsimp only
  split_ifs with hmost hleast hlast
  · exact getElem?_entry hlength
  · exact getElem?_entry (by omega)
  · have hinside := h.rank_inside double number hmost hleast
    exact getElem?_entry (by omega)
  · rw [getElem?_entry (i := (percentileRank _ p).floorNat) (by omega),
      getElem?_entry (by omega)]
    rfl

/-- What the percentiles of an ascending list keep to. -/
structure Percentiles (sorted : List Duration) : Prop where
  /-- No percentile looks at a place outside of the list. -/
  inside (p : Binary64) : p.IsDouble → p ≠ .nan →
    percentile? sorted p = some (percentile sorted p)
  /-- They are between the first duration and the last one. -/
  first_le (p : Binary64) : p.IsDouble → p ≠ .nan →
    ∀ d ∈ sorted.head?, d ≤ percentile sorted p
  le_last (p : Binary64) : p.IsDouble → p ≠ .nan →
    ∀ d ∈ sorted.getLast?, percentile sorted p ≤ d
  /-- One between two neighbours is not beyond either of them. -/
  neighbours (p : Binary64) : p.IsDouble → p ≠ .nan → p.atMost 0 = false → p.atLeast 100 = false →
    ∀ lo hi, sorted[(percentileRank (sorted.length - 1) p).floorNat]? = some lo →
      sorted[(percentileRank (sorted.length - 1) p).floorNat + 1]? = some hi →
      lo ≤ percentile sorted p ∧ percentile sorted p ≤ hi
  monotone (p q : Binary64) : p.IsDouble → q.IsDouble → p.le q →
    percentile sorted p ≤ percentile sorted q

theorem Gradual.percentiles (h : Gradual sorted) : Percentiles sorted where
  inside _ double number := h.percentile?_eq double number
  first_le p double number d hd := by
    obtain rfl := Option.some.inj ((head?_eq_entry h.nonempty).symm.trans hd)
    rw [h.percentile_eq_sampleAt double number]
    have hplace₀ := placeOf_nonneg number h.last_lt
    have hplace := placeOf_le double number h.last_lt
    exact Duration.le_trans (h.entry_le (Nat.zero_le _) (Nat.floor_le_of_le hplace))
      (h.sampleAt_between hplace₀ hplace).1
  le_last p double number d hd := by
    obtain rfl := Option.some.inj ((getLast?_eq_entry h.nonempty).symm.trans hd)
    rw [h.percentile_eq_sampleAt double number]
    have hplace₀ := placeOf_nonneg number h.last_lt
    have hplace := placeOf_le double number h.last_lt
    exact Duration.le_trans (h.sampleAt_between hplace₀ hplace).2
      (h.entry_le (Nat.min_le_right _ _) le_rfl)
  neighbours p double number hmost hleast lo hi hlo hhi := by
    obtain ⟨v, rfl, h₀, hlt⟩ := exists_of_not_extreme number (Bool.not_eq_true _ ▸ hmost)
      (Bool.not_eq_true _ ▸ hleast)
    rw [(rank_parts double.1 h₀ hlt h.last_lt).1] at hlo hhi
    have hlast := (List.getElem?_eq_some_iff.mp hhi).1
    have hbetween := h.sampleAt_between (rankAt_nonneg h₀.le) (rankAt_le double.1 hlt)
    rw [min_eq_left (by omega), entry_of_getElem? hlo, entry_of_getElem? hhi] at hbetween
    rwa [h.percentile_eq_sampleAt double number, placeOf_finite h₀ hlt h.last_lt]
  monotone p q hp hq hle := by
    obtain ⟨hp', hq'⟩ := ne_nan_of_le hle
    rw [h.percentile_eq_sampleAt hp hp', h.percentile_eq_sampleAt hq hq']
    exact h.sampleAt_mono (placeOf_nonneg hp' h.last_lt) (placeOf_mono hp hp' hq' hle h.last_lt)
      (placeOf_le hq hq' h.last_lt)

theorem gradual_ascending (nonempty : ds ≠ []) (countable : ds.length < 2 ^ 64)
    (small : ∀ d ∈ ds, d.toNanos < 2 ^ 53) : Gradual (ascending ds) where
  nonempty := ascending_ne_nil nonempty
  countable := (length_ascending ds).symm ▸ countable
  pairwise := ascending_pairwise ds
  small d hd := small d (mem_ascending.mp hd)

/-- The percentiles of ascending durations below `2 ^ 53` nanoseconds are between the extremes and
in the order of their percents, in double precision as it is.  So are those of a summary of any such
durations. -/
theorem percentiles_ordered (nonempty : ds ≠ []) (countable : ds.length < 2 ^ 64)
    (small : ∀ d ∈ ds, d.toNanos < 2 ^ 53) :
    (ds.Pairwise (· ≤ ·) → Percentiles ds) ∧
      (summarize ds).min ≤ (summarize ds).p50 ∧ (summarize ds).p50 ≤ (summarize ds).p95 ∧
      (summarize ds).p95 ≤ (summarize ds).p99 ∧ (summarize ds).p99 ≤ (summarize ds).max := by
  refine ⟨fun pairwise => Gradual.percentiles ⟨nonempty, countable, pairwise, small⟩, ?_⟩
  have h := (gradual_ascending nonempty countable small).percentiles
  have hsorted := ascending_ne_nil nonempty
  rw [summarize_of_ne_nil nonempty]
  have hmono (m n : ℕ) (hmn : m ≤ n) (hn : n ≤ 2 ^ 53) :
      percentile (ascending ds) (ofNat m) ≤ percentile (ascending ds) (ofNat n) :=
    h.monotone _ _ (isDouble_ofNat m) (isDouble_ofNat n) (ofNat_le_ofNat hmn hn)
  exact ⟨h.first_le _ (isDouble_ofNat 50) (ofNat_ne_nan (by decide)) _ (head?_eq_entry hsorted),
    hmono 50 95 (by decide) (by decide), hmono 95 99 (by decide) (by decide),
    h.le_last _ (isDouble_ofNat 99) (ofNat_ne_nan (by decide)) _ (getLast?_eq_entry hsorted)⟩

/-- Three durations, and whatever sixty-four bits the percent is given as. -/
theorem percentiles_ordered_of_three :
    let ds : List Duration := [.ofNanos 0, .ofNanos 100, .ofNanos 1000]
    ds ≠ [] ∧ ds.length < 2 ^ 64 ∧ (∀ d ∈ ds, d.toNanos < 2 ^ 53) ∧ ds.Pairwise (· ≤ ·) ∧
      percentile ds (ofNat 95) = .ofNanos 910 ∧ percentile ds (ofNat 99) = .ofNanos 982 ∧
      Percentiles ds ∧
      (∀ bits, ofBits bits ≠ .nan → percentile ds (ofBits bits) ≤ .ofNanos 1000) ∧
      (summarize ds).min ≤ (summarize ds).p50 ∧ (summarize ds).p50 ≤ (summarize ds).p95 ∧
      (summarize ds).p95 ≤ (summarize ds).p99 ∧ (summarize ds).p99 ≤ (summarize ds).max := by
  intro ds
  have hnonempty : ds ≠ [] := List.cons_ne_nil _ _
  have hcountable : ds.length < 2 ^ 64 := by decide
  have hsmall : ∀ d ∈ ds, d.toNanos < 2 ^ 53 := by decide
  have hpairwise : ds.Pairwise (· ≤ ·) := by decide
  obtain ⟨hpercentiles, hsummary⟩ := percentiles_ordered hnonempty hcountable hsmall
  have hordered := hpercentiles hpairwise
  exact ⟨hnonempty, hcountable, hsmall, hpairwise, by decide +kernel, by decide +kernel, hordered,
    fun bits number => hordered.le_last _ (isDouble_ofBits bits) number _ rfl, hsummary⟩

end ProxyTiming
