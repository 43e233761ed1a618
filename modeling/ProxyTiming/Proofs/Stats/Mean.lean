import Mathlib.Algebra.Module.NatInt
import Mathlib.Algebra.Order.BigOperators.Group.List
import Mathlib.Algebra.Order.Ring.Nat
import ProxyTiming.Proofs.Stats.Ascending

/-!
# Means and extremes

The mean is computed on whole nanoseconds.  It is between the extremes, so it is a duration whenever
they are, and nothing is lost when it is taken apart into seconds and nanoseconds.  None of this,
and no percentile either, depends on the order of the durations.
-/

namespace ProxyTiming

variable {ds ds' : List Duration} {d : Duration} {i : ℕ}

/-! ### Sums -/

theorem totalNanos_eq_sum (ds : List Duration) :
    totalNanos ds = (ds.map Duration.toNanos).sum := by
  induction ds with
  | nil => rfl
  | cons d ds ih => rw [totalNanos, ih, List.map_cons, List.sum_cons]

/-- The sum of nanoseconds, added up one after the other in 128 bits.  There is none if it does not
fit at any time. -/
def accumulate? (ds : List Duration) : Option ℕ :=
  ds.foldlM (fun sum d => if sum + d.toNanos < 2 ^ 128 then some (sum + d.toNanos) else none) 0

theorem foldlM_accumulate (start : ℕ) (h : start + totalNanos ds < 2 ^ 128) :
    ds.foldlM (fun sum d => if sum + d.toNanos < 2 ^ 128 then some (sum + d.toNanos) else none)
      start = some (start + totalNanos ds) := by
  induction ds generalizing start with
  | nil => rfl
  | cons d ds ih =>
      rw [totalNanos, ← Nat.add_assoc] at h ⊢
      rw [List.foldlM_cons, if_pos (Nat.lt_of_le_of_lt (Nat.le_add_right _ _) h)]
      exact ih _ h

/-- A sum that fits in the end does so at any time. -/
theorem accumulate?_eq (h : totalNanos ds < 2 ^ 128) : accumulate? ds = some (totalNanos ds) := by
  have hfold := foldlM_accumulate 0 (by rwa [Nat.zero_add])
  rwa [Nat.zero_add] at hfold

/-! ### Extremes -/

theorem exists_entry_of_mem (h : d ∈ ds) : ∃ i < ds.length, entry ds i = d := by
  obtain ⟨i, hi⟩ := List.mem_iff_getElem?.mp h
  exact ⟨i, (List.getElem?_eq_some_iff.mp hi).1, entry_of_getElem? hi⟩

theorem entry_ascending_le (hd : d ∈ ds) : entry (ascending ds) 0 ≤ d := by
  obtain ⟨i, hi, rfl⟩ := exists_entry_of_mem (mem_ascending.mpr hd)
  exact entry_mono (ascending_pairwise ds) (Nat.zero_le i) hi

theorem le_entry_ascending (hd : d ∈ ds) :
    d ≤ entry (ascending ds) ((ascending ds).length - 1) := by
  obtain ⟨i, hi, rfl⟩ := exists_entry_of_mem (mem_ascending.mpr hd)
  exact entry_mono (ascending_pairwise ds) (by omega) (by omega)

theorem entry_ascending_mem (nonempty : ds ≠ []) (hi : i ≤ (ascending ds).length - 1) :
    entry (ascending ds) i ∈ ds := by
  have hlength := List.length_pos_iff.mpr (ascending_ne_nil nonempty)
  exact mem_ascending.mp (entry_mem (by omega))

/-- An average is between two bounds of the numbers. -/
theorem average_between {lo hi : Duration} (nonempty : ds ≠ []) (hlo : ∀ d ∈ ds, lo ≤ d)
    (hhi : ∀ d ∈ ds, d ≤ hi) :
    lo.toNanos ≤ totalNanos ds / ds.length ∧ totalNanos ds / ds.length ≤ hi.toNanos := by
  have hlength := List.length_pos_iff.mpr nonempty
  rw [totalNanos_eq_sum]
  constructor
  · have hsum := List.card_nsmul_le_sum (ds.map Duration.toNanos) lo.toNanos
      (List.forall_mem_map.mpr fun d hd => (Duration.le_iff lo d).mp (hlo d hd))
    rw [List.length_map, smul_eq_mul, Nat.mul_comm] at hsum
    exact (Nat.le_div_iff_mul_le hlength).mpr hsum
  · have hsum := List.sum_le_card_nsmul (ds.map Duration.toNanos) hi.toNanos
      (List.forall_mem_map.mpr fun d hd => (Duration.le_iff d hi).mp (hhi d hd))
    rw [List.length_map, smul_eq_mul] at hsum
    exact Nat.div_le_of_le_mul hsum

/-! ### Summaries -/

theorem summarize_min_mem (nonempty : ds ≠ []) : (summarize ds).min ∈ ds := by
  rw [summarize_of_ne_nil nonempty]
  exact entry_ascending_mem nonempty (Nat.zero_le _)

theorem summarize_max_mem (nonempty : ds ≠ []) : (summarize ds).max ∈ ds := by
  rw [summarize_of_ne_nil nonempty]
  exact entry_ascending_mem nonempty le_rfl

theorem summarize_min_le (hd : d ∈ ds) : (summarize ds).min ≤ d := by
  rw [summarize_of_ne_nil (List.ne_nil_of_mem hd)]
  exact entry_ascending_le hd

theorem le_summarize_max (hd : d ∈ ds) : d ≤ (summarize ds).max := by
  rw [summarize_of_ne_nil (List.ne_nil_of_mem hd)]
  exact le_entry_ascending hd

/-- An average of durations is a duration. -/
theorem toNanos_summarize_mean (nonempty : ds ≠ []) :
    (summarize ds).mean.toNanos = totalNanos ds / ds.length := by
  have hupper := (average_between nonempty (fun _ => summarize_min_le) fun _ => le_summarize_max).2
  rw [summarize_of_ne_nil nonempty] at hupper ⊢
  exact Duration.toNanos_ofNanos (hupper.trans_lt (Duration.toNanos_lt _))

theorem summarize_mean_between (nonempty : ds ≠ []) :
    (summarize ds).min ≤ (summarize ds).mean ∧ (summarize ds).mean ≤ (summarize ds).max := by
  rw [Duration.le_iff, Duration.le_iff, toNanos_summarize_mean nonempty]
  exact average_between nonempty (fun _ => summarize_min_le) fun _ => le_summarize_max

/-- A summary does not depend on the order of the durations. -/
theorem summarize_perm (h : ds.Perm ds') : summarize ds = summarize ds' := by
  have hsum : totalNanos ds = totalNanos ds' := by
    rw [totalNanos_eq_sum, totalNanos_eq_sum]
    exact (h.map _).sum_eq
  have hempty : ds.isEmpty = ds'.isEmpty := h.isEmpty_eq
  rw [summarize, summarize, ascending_congr h, hsum, h.length_eq, hempty]

structure ExactSummary (ds : List Duration) (s : Stats) : Prop where
  /-- The nanoseconds are added up without a carry out of 128 bits. -/
  sum : accumulate? ds = some (ds.map Duration.toNanos).sum
  /-- The mean is the average, without the part of a nanosecond. -/
  mean : s.mean.toNanos = (ds.map Duration.toNanos).sum / ds.length
  /-- Its seconds are those of the average, and not cut off. -/
  seconds : s.mean.secs = (ds.map Duration.toNanos).sum / ds.length / nanosPerSec
  min_mem : s.min ∈ ds
  min_le : ∀ d ∈ ds, s.min ≤ d
  max_mem : s.max ∈ ds
  le_max : ∀ d ∈ ds, d ≤ s.max
  min_le_mean : s.min ≤ s.mean
  mean_le_max : s.mean ≤ s.max
  constant (d : Duration) : (∀ e ∈ ds, e = d) → s.mean = d ∧ s.min = d ∧ s.max = d

/-- The mean and the extremes of some durations are exact, and a summary of the same durations in
another order is the same summary. -/
theorem summary_exact (nonempty : ds ≠ [])
    (total : (ds.map Duration.toNanos).sum < 2 ^ 128) :
    ExactSummary ds (summarize ds) ∧ ∀ ds', ds'.Perm ds → summarize ds' = summarize ds := by
  have hmean := toNanos_summarize_mean nonempty
  obtain ⟨hlower, hupper⟩ := summarize_mean_between nonempty
  have hmin := summarize_min_mem nonempty
  have hmax := summarize_max_mem nonempty
  rw [← totalNanos_eq_sum] at total
  refine ⟨?_, fun ds' h => summarize_perm h⟩
  exact
    { sum := by rw [accumulate?_eq total, totalNanos_eq_sum]
      mean := by rw [hmean, totalNanos_eq_sum]
      seconds := by rw [← totalNanos_eq_sum, ← hmean, Duration.toNanos_div]
      min_mem := hmin
      min_le := fun _ => summarize_min_le
      max_mem := hmax
      le_max := fun _ => le_summarize_max
      min_le_mean := hlower
      mean_le_max := hupper
      constant := fun d hd => by
        rw [hd _ hmin] at hlower
        rw [hd _ hmax] at hupper
        exact ⟨Duration.le_antisymm hupper hlower, hd _ hmin, hd _ hmax⟩ }

/-- Two of the longest durations and a short one.  The sum is beyond what a duration can hold, the
mean is not. -/
theorem summary_exact_of_longest :
    let longest : Duration := ⟨18446744073709551615, 999999999, by decide, by decide⟩
    let ds : List Duration := [longest, .ofNanos 1, longest]
    ds ≠ [] ∧ (ds.map Duration.toNanos).sum < 2 ^ 128 ∧
      Duration.nanosBound < (ds.map Duration.toNanos).sum ∧ ExactSummary ds (summarize ds) ∧
      summarize [.ofNanos 1, longest, longest] = summarize ds := by
  intro longest ds
  have hnonempty : ds ≠ [] := List.cons_ne_nil _ _
  have htotal : (ds.map Duration.toNanos).sum < 2 ^ 128 := by decide
  obtain ⟨hexact, hperm⟩ := summary_exact hnonempty htotal
  exact ⟨hnonempty, htotal, by decide, hexact, hperm _ (by decide)⟩

end ProxyTiming
