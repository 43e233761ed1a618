import Mathlib.Data.List.Sort
import ProxyTiming.Stats

/-!
# Durations in ascending order

Durations are ordered by their nanoseconds, and sorting them gives the one ascending list that has
the same durations.  So whatever is read off the sorted list does not depend on the order in which
the durations came.
-/

namespace ProxyTiming

namespace Duration

variable {a b c : Duration}

theorem le_refl (a : Duration) : a ≤ a := (le_iff a a).mpr (Nat.le_refl _)

theorem le_trans (hab : a ≤ b) (hbc : b ≤ c) : a ≤ c :=
  (le_iff a c).mpr (Nat.le_trans ((le_iff a b).mp hab) ((le_iff b c).mp hbc))

theorem le_antisymm (hab : a ≤ b) (hba : b ≤ a) : a = b :=
  toNanos_inj (Nat.le_antisymm ((le_iff a b).mp hab) ((le_iff b a).mp hba))

theorem le_total (a b : Duration) : a ≤ b ∨ b ≤ a := by
  rw [le_iff, le_iff]
  exact Nat.le_total _ _

instance : IsTrans Duration (· ≤ ·) := ⟨fun _ _ _ => le_trans⟩

instance : Std.Antisymm (fun a b : Duration => a ≤ b) := ⟨fun _ _ => le_antisymm⟩

instance : Std.Total (fun a b : Duration => a ≤ b) := ⟨le_total⟩

end Duration

variable {ds ds' sorted : List Duration} {i j : ℕ}

/-! ### Sorting -/

theorem ascending_pairwise (ds : List Duration) : (ascending ds).Pairwise (· ≤ ·) :=
  List.pairwise_mergeSort' (· ≤ ·) ds

theorem ascending_perm (ds : List Duration) : (ascending ds).Perm ds := List.mergeSort_perm ds _

/-- There is one ascending list of the same durations. -/
theorem eq_ascending (perm : sorted.Perm ds) (pairwise : sorted.Pairwise (· ≤ ·)) :
    sorted = ascending ds :=
  (perm.trans (ascending_perm ds).symm).eq_of_pairwise' pairwise (ascending_pairwise ds)

theorem ascending_congr (h : ds.Perm ds') : ascending ds = ascending ds' :=
  eq_ascending ((ascending_perm ds).trans h) (ascending_pairwise ds)

@[simp] theorem length_ascending (ds : List Duration) : (ascending ds).length = ds.length :=
  (ascending_perm ds).length_eq

theorem mem_ascending {d : Duration} : d ∈ ascending ds ↔ d ∈ ds := (ascending_perm ds).mem_iff

/-! ### Places -/

def entry (ds : List Duration) (i : ℕ) : Duration := ds[i]?.getD .zero

theorem getElem?_entry (h : i < ds.length) : ds[i]? = some (entry ds i) := by
  rw [entry, List.getElem?_eq_getElem h, Option.getD_some]

theorem entry_of_getElem? {d : Duration} (h : ds[i]? = some d) : entry ds i = d := by
  rw [entry, h, Option.getD_some]

theorem entry_mem (h : i < ds.length) : entry ds i ∈ ds :=
  List.mem_of_getElem? (getElem?_entry h)

theorem entry_mono (pairwise : ds.Pairwise (· ≤ ·)) (hij : i ≤ j) (hj : j < ds.length) :
    entry ds i ≤ entry ds j := by
  obtain rfl | hlt := hij.eq_or_lt
  · exact Duration.le_refl _
  · have hle := List.pairwise_iff_getElem.mp pairwise i j (hlt.trans hj) hj hlt
    rw [entry, entry, List.getElem?_eq_getElem (hlt.trans hj), List.getElem?_eq_getElem hj]
    exact hle

theorem head?_eq_entry (nonempty : ds ≠ []) : ds.head? = some (entry ds 0) := by
  rw [List.head?_eq_getElem?, getElem?_entry (List.length_pos_iff.mpr nonempty)]

theorem getLast?_eq_entry (nonempty : ds ≠ []) :
    ds.getLast? = some (entry ds (ds.length - 1)) := by
  rw [List.getLast?_eq_getElem?, getElem?_entry]
  exact Nat.sub_lt (List.length_pos_iff.mpr nonempty) Nat.one_pos

/-! ### Summaries -/

theorem ascending_ne_nil (nonempty : ds ≠ []) : ascending ds ≠ [] :=
  fun h => nonempty (List.Perm.eq_nil (h ▸ (ascending_perm ds).symm))

/-- A summary of some durations is read off the ascending list, but for the mean. -/
theorem summarize_of_ne_nil (nonempty : ds ≠ []) :
    summarize ds =
      { mean := Duration.ofNanos (totalNanos ds / ds.length)
        p50 := percentile (ascending ds) (Binary64.ofNat 50)
        p95 := percentile (ascending ds) (Binary64.ofNat 95)
        p99 := percentile (ascending ds) (Binary64.ofNat 99)
        min := entry (ascending ds) 0
        max := entry (ascending ds) ((ascending ds).length - 1) } := by
  rw [summarize, if_neg (by simpa using nonempty)]
  rfl

end ProxyTiming
