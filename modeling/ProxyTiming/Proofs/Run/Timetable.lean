import Mathlib.Data.List.Induction
import Mathlib.Data.List.Sort
import Mathlib.Order.MinMax

/-!
# Timetables

There are so many places, and each trial holds one for a time of its own.  Whoever comes when
no place is free waits until one is given back.  So the places are given out in the order in which
they are given back: the first trials start at once, and each of the others starts at an instant
that can be told from those before it, as one of the smallest of their releases.

Here this is told of lists of numbers, without a word about who gives the places out.  Of the two
bounds for a start the one says that the trial is not late, since all places were held until then,
and the other one that it is not early, since one of them is free.
-/

namespace ProxyTiming.Run

variable {width count first now now' : Nat} {hold : Nat → Nat} {starts : List Nat}

/-- When the trials give their places back, if each of them starts at its instant and holds its
place for as long as it does. -/
def releases (hold : Nat → Nat) (starts : List Nat) : List Nat :=
  starts.mapIdx fun i start => start + hold i

/-- How many trials hold a place at an instant. -/
def holders (hold : Nat → Nat) (starts : List Nat) (instant : Nat) : Nat :=
  (starts.mapIdx fun i start => decide (start ≤ instant ∧ instant < start + hold i)).count true

@[simp] theorem length_releases (hold : Nat → Nat) (starts : List Nat) :
    (releases hold starts).length = starts.length := List.length_mapIdx

theorem releases_concat (hold : Nat → Nat) (starts : List Nat) (start : Nat) :
    releases hold (starts ++ [start]) = releases hold starts ++ [start + hold starts.length] :=
  List.mapIdx_concat

theorem getElem?_releases (hold : Nat → Nat) (starts : List Nat) (i : Nat) :
    (releases hold starts)[i]? = starts[i]?.map (· + hold i) := List.getElem?_mapIdx

/-! ### Counting in a sorted list -/

/-- In a sorted list those that are small enough come first, and as many as there are. -/
theorem small_iff_lt_countP {l : List Nat} {P : Nat → Bool} (sorted : l.Pairwise (· ≤ ·))
    (down : ∀ m n, m ≤ n → P n = true → P m = true) {i n : Nat} (h : l[i]? = some n) :
    P n = true ↔ i < l.countP P := by
  induction l generalizing i with
  | nil => cases h
  | cons m l ih =>
      obtain ⟨hle, hsorted⟩ := List.pairwise_cons.mp sorted
      cases hm : P m with
      | true =>
          rw [List.countP_cons_of_pos hm]
          cases i with
          | zero =>
              obtain rfl := Option.some.inj h
              simp [hm]
          | succ i =>
              rw [ih hsorted h, Nat.succ_lt_succ_iff]
      | false =>
          -- If the first one is too large, all of them are.
          have hlarge (n : Nat) (hn : m ≤ n) : P n = false := by
            by_contra hP
            rw [down m n hn (by simpa using hP)] at hm
            cases hm
          have hmem := List.mem_of_getElem? h
          have hn : P n = false := by
            obtain rfl | hmem := List.mem_cons.mp hmem
            · exact hm
            · exact hlarge n (hle n hmem)
          have hnone : (m :: l).countP P = 0 := by
            rw [List.countP_eq_zero]
            intro n' hn'
            obtain rfl | hn' := List.mem_cons.mp hn'
            · simp [hm]
            · simp [hlarge n' (hle n' hn')]
          simp [hn, hnone]

/-- A sorted list is cut in two at any number. -/
theorem exists_cut {l : List Nat} (sorted : l.Pairwise (· ≤ ·)) (n : Nat) :
    ∃ k ≤ l.length, (∀ m ∈ l.take k, m ≤ n) ∧ ∀ m ∈ l.drop k, n < m := by
  induction l with
  | nil => exact ⟨0, Nat.le_refl 0, nofun, nofun⟩
  | cons m l ih =>
      obtain ⟨hle, hsorted⟩ := List.pairwise_cons.mp sorted
      by_cases hm : m ≤ n
      · obtain ⟨k, hk, hbefore, hafter⟩ := ih hsorted
        exact ⟨k + 1, Nat.succ_le_succ hk, List.forall_mem_cons.mpr ⟨hm, hbefore⟩, hafter⟩
      · have hlt := Nat.lt_of_not_le hm
        exact ⟨0, Nat.zero_le _, nofun, List.forall_mem_cons.mpr
          ⟨hlt, fun m' hm' => hlt.trans_le (hle m' hm')⟩⟩

/-- Those that do not count are at some of the given places. -/
theorem length_le_countP_add {l : List Nat} {P : Nat → Bool} {places : List Nat}
    (h : ∀ i n, l[i]? = some n → P n = true ∨ i ∈ places) :
    l.length ≤ l.countP P + places.length := by
  induction l using List.reverseRecOn generalizing places with
  | nil => exact Nat.zero_le _
  | append_singleton l n ih =>
      rw [List.countP_append, List.countP_singleton, List.length_append, List.length_singleton]
      have hearlier (i m : Nat) (hi : l[i]? = some m) :
          i ≠ l.length ∧ (P m = true ∨ i ∈ places) := by
        have hlt := (List.getElem?_eq_some_iff.mp hi).1
        exact ⟨hlt.ne, h i m (by rw [List.getElem?_append_left hlt, hi])⟩
      obtain hn | hmem := h l.length n (by simp)
      · have hle := ih fun i m hi => (hearlier i m hi).2
        rw [if_pos hn]
        omega
      · -- The last one takes one of the places for itself.
        have hle : l.length ≤ l.countP P + (places.erase l.length).length := ih fun i m hi => by
          obtain ⟨hne, hm⟩ := hearlier i m hi
          exact hm.imp_right (List.mem_erase_of_ne hne).mpr
        rw [List.length_erase_of_mem hmem] at hle
        have hpos := List.length_pos_of_mem hmem
        omega

/-- Those at the given places do not count. -/
theorem countP_add_length_le {l : List Nat} {P : Nat → Bool} {places : List Nat}
    (distinct : places.Nodup) (h : ∀ i ∈ places, ∃ n, l[i]? = some n ∧ P n = false) :
    l.countP P + places.length ≤ l.length := by
  induction l using List.reverseRecOn generalizing places with
  | nil =>
      cases places with
      | nil => exact Nat.le_refl _
      | cons i places => simpa using h i List.mem_cons_self
  | append_singleton l n ih =>
      rw [List.countP_append, List.countP_singleton, List.length_append, List.length_singleton]
      have hearlier {i : Nat} (hi : i ∈ places) (hne : i ≠ l.length) :
          ∃ m, l[i]? = some m ∧ P m = false := by
        obtain ⟨m, hm, hP⟩ := h i hi
        have hlt : i < (l ++ [n]).length := (List.getElem?_eq_some_iff.mp hm).1
        rw [List.length_append, List.length_singleton] at hlt
        rw [List.getElem?_append_left (by omega)] at hm
        exact ⟨m, hm, hP⟩
      by_cases hmem : l.length ∈ places
      · obtain ⟨m, hm, hP⟩ := h l.length hmem
        obtain rfl : n = m := by simpa using hm
        have hle := ih (distinct.erase l.length) fun i hi =>
          hearlier (List.mem_of_mem_erase hi) (distinct.mem_erase_iff.mp hi).1
        rw [List.length_erase_of_mem hmem] at hle
        rw [hP, if_neg Bool.false_ne_true]
        omega
      · have hle := ih distinct fun i hi => hearlier hi fun heq => hmem (heq ▸ hi)
        split_ifs <;> omega

/-- A number is the one at a place in sorted order if so many are smaller, and not many more are
not larger. -/
theorem getElem?_mergeSort {l : List Nat} {i n : Nat} (hlt : l.countP (· < n) ≤ i)
    (hle : i < l.countP (· ≤ n)) : l.mergeSort[i]? = some n := by
  have sorted : l.mergeSort.Pairwise (· ≤ ·) := List.pairwise_mergeSort' (· ≤ ·) l
  have hperm : l.mergeSort.Perm l := List.mergeSort_perm l _
  rw [← hperm.countP_eq] at hlt hle
  have hi : i < l.mergeSort.length := Nat.lt_of_lt_of_le hle List.countP_le_length
  have hget : l.mergeSort[i]? = some l.mergeSort[i] := List.getElem?_eq_getElem hi
  have hnot_lt := small_iff_lt_countP sorted (P := (· < n)) (by simp; omega) hget
  have hsmall := small_iff_lt_countP sorted (P := (· ≤ n)) (by simp; omega) hget
  rw [hget]
  simp only [decide_eq_true_eq] at hnot_lt hsmall
  have hupper := hsmall.mpr hle
  have hlower : ¬l.mergeSort[i] < n := fun h => absurd (hnot_lt.mp h) (Nat.not_lt.mpr hlt)
  exact congrArg some (by omega)

/-! ### Who is next -/

/-- After the trials in `before`, the next one has not been kept waiting while a place was free. -/
structure NotLate (width first : Nat) (hold : Nat → Nat) (before : List Nat) (now : Nat) :
    Prop where
  at_once : before.length < width → now = first
  held : (releases hold before).countP (· < now) ≤ before.length - width

/-- It is the turn of the next trial, since one of the places is free. -/
structure OnTurn (width first : Nat) (hold : Nat → Nat) (before : List Nat) (now : Nat) : Prop
    extends NotLate width first hold before now where
  free : before.length < (releases hold before).countP (· ≤ now) + width

/-- What is known of the starts up to now. -/
structure Timetable (width count first : Nat) (hold : Nat → Nat) (starts : List Nat) (now : Nat) :
    Prop where
  past : ∀ start ∈ starts, start ≤ now
  ascending : starts.Pairwise (· ≤ ·)
  on_turn : ∀ (k start : Nat), starts[k]? = some start →
    OnTurn width first hold (starts.take k) start
  /-- Up to now the next trial had to wait, if there is one. -/
  not_late : starts.length < count → NotLate width first hold starts now

/-- At any instant before, no more places had been given back than were needed for the others. -/
theorem NotLate.countP_le (h : NotLate width first hold starts now) {instant : Nat}
    (hlt : instant < now) :
    (releases hold starts).countP (· ≤ instant) ≤ starts.length - width := by
  have hmono : (releases hold starts).countP (· ≤ instant) ≤
      (releases hold starts).countP (· < now) :=
    List.countP_mono_left fun release _ hle => by
      simp only [decide_eq_true_eq] at hle ⊢
      exact Nat.lt_of_le_of_lt hle hlt
  exact hmono.trans h.held

/-- From then on enough places have been given back. -/
theorem OnTurn.lt_countP (h : OnTurn width first hold starts now) {instant : Nat}
    (hle : now ≤ instant) :
    starts.length < (releases hold starts).countP (· ≤ instant) + width := by
  have hmono : (releases hold starts).countP (· ≤ now) ≤
      (releases hold starts).countP (· ≤ instant) :=
    List.countP_mono_left fun release _ hrelease => by
      simp only [decide_eq_true_eq] at hrelease ⊢
      exact hrelease.trans hle
  exact Nat.lt_of_lt_of_le h.free (Nat.add_le_add_right hmono width)

theorem OnTurn.getElem?_mergeSort (h : OnTurn width first hold starts now)
    (later : width ≤ starts.length) :
    (releases hold starts).mergeSort[starts.length - width]? = some now := by
  have hfree := h.free
  exact Run.getElem?_mergeSort h.held (by omega)

namespace Timetable

theorem nil (width count first : Nat) (hold : Nat → Nat) :
    Timetable width count first hold [] first where
  past := nofun
  ascending := .nil
  on_turn := nofun
  not_late _ := ⟨fun _ => rfl, Nat.zero_le _⟩

/-- The next trial starts. -/
theorem call (h : Timetable width count first hold starts now) (left : starts.length < count)
    (free : starts.length < (releases hold starts).countP (· ≤ now) + width) :
    Timetable width count first hold (starts ++ [now]) now where
  past start hstart := by
    obtain hstart | hstart := List.mem_append.mp hstart
    · exact h.past start hstart
    · exact (List.mem_singleton.mp hstart).le
  ascending := by
    rw [List.pairwise_append]
    refine ⟨h.ascending, List.pairwise_singleton _ _, fun start hstart now' hnow => ?_⟩
    rw [List.mem_singleton.mp hnow]
    exact h.past start hstart
  on_turn k start hk := by
    obtain hlt | rfl | hgt := Nat.lt_trichotomy k starts.length
    · rw [List.getElem?_append_left hlt] at hk
      rw [List.take_append_of_le_length hlt.le]
      exact h.on_turn k start hk
    · obtain rfl : now = start := by simpa using hk
      rw [List.take_left]
      exact ⟨h.not_late left, free⟩
    · have hle : (starts ++ [now]).length ≤ k := by
        rw [List.length_append]
        exact hgt
      rw [List.getElem?_eq_none hle] at hk
      cases hk
  not_late _ := by
    have hnext := h.not_late left
    have hheld := hnext.held
    refine ⟨fun hlt => hnext.at_once ?_, ?_⟩
    · rw [List.length_append] at hlt
      exact Nat.lt_of_succ_lt hlt
    · -- The trial itself gives its place back now or later.
      rw [releases_concat, List.countP_append, List.countP_singleton, List.length_append,
        if_neg (by simp)]
      simp only [List.length_singleton]
      omega

/-- The clock moves on, and all places are held until then. -/
theorem tick (h : Timetable width count first hold starts now) (hle : now ≤ now')
    (full : starts.length < count →
      (releases hold starts).countP (· < now') + width ≤ starts.length) :
    Timetable width count first hold starts now' where
  past start hstart := (h.past start hstart).trans hle
  ascending := h.ascending
  on_turn := h.on_turn
  not_late left := by
    have hfull := full left
    exact ⟨fun hlt => by omega, by omega⟩

end Timetable

/-! ### A whole timetable -/

/-- A timetable of so many trials and places: who starts at once, who starts when, and why. -/
structure Scheduled (width count first : Nat) (hold : Nat → Nat) (starts : List Nat) : Prop where
  length_eq : starts.length = count
  /-- There are places for the first ones. -/
  at_once : ∀ k < min width count, starts[k]? = some first
  /-- Each of the others waits for the release that is the next one in order. -/
  in_order : ∀ k, width ≤ k → k < count →
    starts[k]? = (releases hold (starts.take k)).mergeSort[k - width]?
  ascending : starts.Pairwise (· ≤ ·)
  /-- While a trial waits all places are held. -/
  never_idle : ∀ (k start : Nat), starts[k]? = some start →
    ∀ instant, first ≤ instant → instant < start → holders hold starts instant = width
  /-- As a trial starts there is a place that none of those before holds, and if there were as many
  before as there are places, one of them is giving it back. -/
  never_early : ∀ (k start : Nat), starts[k]? = some start →
    (releases hold (starts.take k)).countP (start < ·) < width ∧
      (width ≤ k → start ∈ releases hold (starts.take k))

theorem holders_concat (hold : Nat → Nat) (starts : List Nat) (start instant : Nat) :
    holders hold (starts ++ [start]) instant = holders hold starts instant +
      if start ≤ instant ∧ instant < start + hold starts.length then 1 else 0 := by
  rw [holders, List.mapIdx_concat, List.count_append, holders, List.count_singleton]
  simp

/-- Among trials that start until then, those who have not given their place back hold it. -/
theorem holders_add_countP {instant : Nat} (h : ∀ start ∈ starts, start ≤ instant) :
    holders hold starts instant + (releases hold starts).countP (· ≤ instant) = starts.length := by
  induction starts using List.reverseRecOn with
  | nil => rfl
  | append_singleton starts start ih =>
      have hstart : start ≤ instant := h start (by simp)
      have hstarts := ih fun start' hstart' => h start' (List.mem_append_left _ hstart')
      rw [holders_concat, releases_concat, List.countP_append, List.countP_singleton,
        List.length_append, List.length_singleton]
      simp only [hstart, true_and, decide_eq_true_eq]
      split_ifs <;> omega

theorem holders_append {instant : Nat} {later : List Nat}
    (h : ∀ start ∈ later, instant < start) :
    holders hold (starts ++ later) instant = holders hold starts instant := by
  have hnone : (later.mapIdx fun i start =>
      decide (start ≤ instant ∧ instant < start + hold (i + starts.length))).count true = 0 := by
    rw [List.count_eq_zero, List.mem_mapIdx]
    rintro ⟨i, hi, htrue⟩
    have hlt := h later[i] (List.getElem_mem hi)
    simp [Nat.not_le.mpr hlt] at htrue
  rw [holders, List.mapIdx_append, List.count_append, hnone, Nat.add_zero, holders]

namespace Timetable

variable (h : Timetable width count first hold starts now)

include h

/-- The trials up to some number have started by an instant, and those behind have not. -/
theorem exists_started (instant : Nat) :
    ∃ n ≤ starts.length, (∀ start ∈ starts.drop n, instant < start) ∧
      (∀ start ∈ starts.take n, start ≤ instant) ∧
      holders hold starts instant + (releases hold (starts.take n)).countP (· ≤ instant) = n := by
  obtain ⟨n, hn, hbefore, hafter⟩ := exists_cut h.ascending instant
  refine ⟨n, hn, hafter, hbefore, ?_⟩
  have hsum : holders hold (starts.take n) instant + _ = _ := holders_add_countP hbefore
  have hholders : holders hold (starts.take n ++ starts.drop n) instant = _ := holders_append hafter
  rw [List.take_append_drop] at hholders
  rw [hholders, hsum, List.length_take_of_le hn]

/-- Until a trial starts all places are held. -/
theorem holders_eq (one_le : 1 ≤ width) {k start instant : Nat} (hk : starts[k]? = some start)
    (hfirst : first ≤ instant) (hlt : instant < start) : holders hold starts instant = width := by
  obtain ⟨n, hn, hafter, hbefore, hsum⟩ := h.exists_started instant
  have hnlt : n < starts.length := by
    refine Nat.lt_of_le_of_ne hn fun heq => Nat.not_le.mpr hlt (hbefore start ?_)
    rw [heq, List.take_length]
    exact List.mem_of_getElem? hk
  -- The next one has not started, so no fewer places are held than there are.
  have hnext := h.on_turn n starts[n] (List.getElem?_eq_getElem hnlt)
  have hnextlt : instant < starts[n] := by
    refine hafter _ ?_
    rw [List.drop_eq_getElem_cons hnlt]
    exact List.mem_cons_self
  have hmost := hnext.countP_le hnextlt
  have hwidth : width ≤ n := by
    by_contra hnot
    have heq := hnext.at_once (by rw [List.length_take_of_le hn]; omega)
    omega
  rw [List.length_take_of_le hn] at hmost
  -- The last one has started, so no more are held.
  obtain ⟨m, rfl⟩ : ∃ m, n = m + 1 := Nat.exists_eq_succ_of_ne_zero (by omega)
  have hmlt : m < starts.length := by omega
  have htake : starts.take (m + 1) = starts.take m ++ [starts[m]] :=
    List.take_succ_eq_append_getElem hmlt
  have hlast := h.on_turn m starts[m] (List.getElem?_eq_getElem hmlt)
  have hleast := hlast.lt_countP (hbefore _ (htake ▸ List.mem_append_right _ List.mem_cons_self))
  rw [List.length_take_of_le hmlt.le] at hleast
  rw [htake, releases_concat, List.countP_append] at hsum hmost
  omega

theorem scheduled (one_le : 1 ≤ width) (all : starts.length = count) :
    Scheduled width count first hold starts where
  length_eq := all
  at_once k hk := by
    obtain ⟨hwidth, hcount⟩ := lt_min_iff.mp hk
    rw [← all] at hcount
    have hget := List.getElem?_eq_getElem hcount
    have hturn := h.on_turn k _ hget
    rw [hget, hturn.at_once]
    rwa [List.length_take_of_le hcount.le]
  in_order k hwidth hcount := by
    rw [← all] at hcount
    have hget := List.getElem?_eq_getElem hcount
    have hlength : (starts.take k).length = k := List.length_take_of_le hcount.le
    have hsorted := (h.on_turn k _ hget).getElem?_mergeSort (hwidth.trans hlength.ge)
    rw [hlength] at hsorted
    rw [hget, hsorted]
  ascending := h.ascending
  never_idle k start hk instant hfirst hlt := h.holders_eq one_le hk hfirst hlt
  never_early k start hk := by
    have hturn := h.on_turn k start hk
    have hlt : k < starts.length := (List.getElem?_eq_some_iff.mp hk).1
    have hlength : (starts.take k).length = k := List.length_take_of_le hlt.le
    have hfree := hturn.free
    have hsplit := List.length_eq_countP_add_countP (· ≤ start)
      (l := releases hold (starts.take k))
    constructor
    · simp only [length_releases, decide_eq_true_eq, Nat.not_le] at hsplit
      omega
    · intro hwidth
      have hsorted := hturn.getElem?_mergeSort (hwidth.trans hlength.ge)
      exact List.mem_mergeSort.mp (List.mem_of_getElem? hsorted)

end Timetable

end ProxyTiming.Run
