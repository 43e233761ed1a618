import Mathlib.Algebra.Group.Nat.Defs
import Mathlib.Tactic.SplitIfs
import ProxyTiming.Proofs.Text.Decimal
import ProxyTiming.Time.Stamp

/-!
# Written instants are read back

The parts of a written instant have a fixed number of digits, but for the decimals of the
second, which are followed by the mark of universal time.  So each part is read off the front of
the text as what was written, and a leap second, which is written as the second sixty, is told
from its neighbours.
-/

namespace ProxyTiming.Time

open ProxyTiming.Text

variable {n width : Nat} {c : Char} {ds rest : List Char}

/-! ### Numbers with leading zeros -/

theorem padded_toList (width n : Nat) : (padded width n).toList =
    List.replicate (width - (toString n).length) '0' ++ (toString n).toList := by
  rw [padded, String.toList_append, String.toList_ofList]

theorem isDigit_of_mem_padded (h : c ∈ (padded width n).toList) : isDigit c = true := by
  rw [padded_toList, List.mem_append] at h
  rcases h with h | h
  · rw [List.eq_of_mem_replicate h]
    decide
  · exact isDigit_of_mem_toString h

theorem digitsFrom_replicate (k : Nat) (cs : List Char) :
    digitsFrom 0 (List.replicate k '0' ++ cs) = digitsFrom 0 cs := by
  induction k with
  | zero => rfl
  | succ k ih =>
      rw [List.replicate_succ, List.cons_append, digitsFrom_cons]
      exact ih

theorem digitsValue_padded (width n : Nat) : digitsValue (padded width n).toList = n := by
  rw [digitsValue, padded_toList, digitsFrom_replicate]
  exact digitsValue_toString n

theorem length_padded (hwidth : 0 < width) (h : n < 10 ^ width) :
    (padded width n).toList.length = width := by
  have hlength : (toString n).length ≤ width := by
    rw [← String.length_toList, Nat.toString_eq_repr, Nat.toList_repr]
    exact (Nat.length_toDigits_le_iff (by decide) hwidth).mpr h
  rw [padded_toList, List.length_append, List.length_replicate, String.length_toList]
  omega

theorem exists_cons_padded (hwidth : 0 < width) (h : n < 10 ^ width) :
    ∃ c tail, (padded width n).toList = c :: tail ∧ isDigit c = true := by
  have hlength := length_padded hwidth h
  cases hchars : (padded width n).toList with
  | nil =>
      rw [hchars, List.length_nil] at hlength
      omega
  | cons c tail => exact ⟨c, tail, rfl, isDigit_of_mem_padded (hchars ▸ List.mem_cons_self)⟩

/-- A digit is neither a blank nor a sign nor a point. -/
theorem of_isDigit (h : isDigit c = true) : isBlank c = false ∧ c ≠ '-' ∧ c ≠ '+' ∧ c ≠ '.' := by
  have hrange : 48 ≤ c.toNat ∧ c.toNat ≤ 57 := by
    rw [isDigit, Bool.and_eq_true, decide_eq_true_eq, decide_eq_true_eq] at h
    exact h
  refine ⟨?_, ?_, ?_, ?_⟩
  · rw [Bool.eq_false_iff]
    intro hblank
    simp only [isBlank, Bool.or_eq_true, Bool.and_eq_true, decide_eq_true_eq, beq_iff_eq] at hblank
    omega
  all_goals
    rintro rfl
    exact absurd hrange (by decide)

/-! ### Parts -/

/-- A run of digits that is complete, or that something else follows. -/
theorem takeWhile_take_append (hdigits : ∀ c ∈ ds, isDigit c = true) (hlength : ds.length ≤ width)
    (hstop : ∀ c ∈ (rest.take (width - ds.length)).head?, isDigit c = false) :
    ((ds ++ rest).take width).takeWhile isDigit = ds := by
  rw [List.take_append, List.take_of_length_le hlength, List.takeWhile_append_of_pos hdigits]
  cases htake : rest.take (width - ds.length) with
  | nil => simp
  | cons c more =>
      rw [htake] at hstop
      rw [List.takeWhile_cons_of_neg (by simp [hstop c rfl]), List.append_nil]

theorem readDigits_append (hne : ds ≠ []) (hdigits : ∀ c ∈ ds, isDigit c = true)
    (hlength : ds.length ≤ width)
    (hstop : ∀ c ∈ (rest.take (width - ds.length)).head?, isDigit c = false) :
    readDigits width (ds ++ rest) = .ok (digitsValue ds, rest) := by
  have hempty : ¬ds.isEmpty = true := by simpa using hne
  simp only [readDigits, takeWhile_take_append hdigits hlength hstop, if_neg hempty, List.drop_left]

theorem readDigits_padded (hwidth : 0 < width) (h : n < 10 ^ width) (rest : List Char) :
    readDigits width ((padded width n).toList ++ rest) = .ok (n, rest) := by
  have hlength := length_padded hwidth h
  have hne : (padded width n).toList ≠ [] := List.ne_nil_of_length_pos (hlength.symm ▸ hwidth)
  have hstop : ∀ c ∈ (rest.take (width - (padded width n).toList.length)).head?,
      isDigit c = false := by
    rw [hlength, Nat.sub_self, List.take_zero]
    exact nofun
  have hread := readDigits_append hne (fun _ => isDigit_of_mem_padded) (Nat.le_of_eq hlength) hstop
  rwa [digitsValue_padded] at hread

theorem dropBlanks_cons (h : isBlank c = false) : dropBlanks (c :: rest) = c :: rest :=
  List.dropWhile_cons_of_neg (by simp [h])

theorem dropBlanks_padded (hwidth : 0 < width) (h : n < 10 ^ width) (rest : List Char) :
    dropBlanks ((padded width n).toList ++ rest) = (padded width n).toList ++ rest := by
  obtain ⟨c, tail, hchars, hdigit⟩ := exists_cons_padded hwidth h
  rw [hchars, List.cons_append]
  exact dropBlanks_cons (of_isDigit hdigit).1

theorem readYear_padded (h : n < 10 ^ 4) (rest : List Char) :
    readYear ((padded 4 n).toList ++ rest) = .ok ((n : Int), rest) := by
  have hread := readDigits_padded (by decide) h rest
  have hblanks := dropBlanks_padded (by decide) h rest
  obtain ⟨c, tail, hchars, hdigit⟩ := exists_cons_padded (by decide) h
  obtain ⟨-, hminus, hplus, -⟩ := of_isDigit hdigit
  rw [hchars, List.cons_append] at hread hblanks ⊢
  rw [readYear, hblanks]
  split
  · rename_i heq
    exact absurd (List.cons.inj heq).1 hminus
  · rename_i heq
    exact absurd (List.cons.inj heq).1 hplus
  · rw [hread]
    rfl

theorem readPart_padded {low high : Nat} (hlow : low ≤ n) (hhigh : n ≤ high) (h : n < 10 ^ 2)
    (rest : List Char) : readPart low high ((padded 2 n).toList ++ rest) = .ok (n, rest) := by
  rw [readPart, dropBlanks_padded (by decide) h, readDigits_padded (by decide) h]
  exact if_neg (by omega)

theorem readMark_cons (mark : Char) (h : isBlank mark = false) (rest : List Char) :
    readMark mark (mark :: rest) = .ok ((), rest) := by
  rw [readMark, dropBlanks_cons h]
  exact if_pos rfl

/-! ### Decimals of the second -/

theorem readFraction_padded {k : Nat} (hk : 0 < k) (hle : k ≤ 9) (h : n < 10 ^ k)
    (hstop : ∀ c ∈ rest.head?, isDigit c = false) :
    readFraction ('.' :: ((padded k n).toList ++ rest)) = .ok (n * 10 ^ (9 - k), rest) := by
  have hlength := length_padded hk h
  have hshort : (padded k n).toList.length ≤ 9 := Nat.le_trans (Nat.le_of_eq hlength) hle
  have hne : (padded k n).toList ≠ [] := List.ne_nil_of_length_pos (hlength.symm ▸ hk)
  have hhead (width : Nat) : ∀ c ∈ (rest.take width).head?, isDigit c = false := by
    rw [List.head?_take]
    split
    · exact nofun
    · exact hstop
  have hread : readDigits 9 ((padded k n).toList ++ rest) = .ok (n, rest) := by
    have hread := readDigits_append hne (fun _ => isDigit_of_mem_padded) hshort (hhead _)
    rwa [digitsValue_padded] at hread
  have htaken : (((padded k n).toList ++ rest).take 9).takeWhile isDigit = (padded k n).toList :=
    takeWhile_take_append (fun _ => isDigit_of_mem_padded) hshort (hhead _)
  have hdrop : rest.dropWhile isDigit = rest := by
    cases rest with
    | nil => rfl
    | cons c rest => exact List.dropWhile_cons_of_neg (by simp [hstop c rfl])
  simp only [readFraction, hread, htaken, hlength, bind, Except.bind, hdrop, Nat.pow_eq]

theorem readFraction_text {nano : Nat} (h : nano < nanosPerSec)
    (hstop : ∀ c ∈ rest.head?, isDigit c = false ∧ c ≠ '.') :
    readFraction ((fractionText nano).toList ++ rest) = .ok (nano, rest) := by
  have hdigit : ∀ c ∈ rest.head?, isDigit c = false := fun c hc => (hstop c hc).1
  have hpoint : ".".toList = ['.'] := rfl
  rw [nanosPerSec] at h
  rw [fractionText]
  split_ifs with hzero hmillis hmicros
  · subst hzero
    cases rest with
    | nil => rfl
    | cons c rest =>
        have hpoint := (hstop c rfl).2
        change readFraction (c :: rest) = _
        unfold readFraction
        split
        · rename_i heq
          exact absurd (List.cons.inj heq).1 hpoint
        · rfl
  all_goals rw [String.toList_append, hpoint, List.append_assoc, List.singleton_append]
  · rw [readFraction_padded (by decide) (by decide) (by omega) hdigit]
    rw [show nano / 1000000 * 10 ^ (9 - 3) = nano by omega]
  · rw [readFraction_padded (by decide) (by decide) (by omega) hdigit]
    rw [show nano / 1000 * 10 ^ (9 - 6) = nano by omega]
  · rw [readFraction_padded (by decide) (by decide) (by omega) hdigit]
    rw [show nano * 10 ^ (9 - 9) = nano by omega]

/-! ### The whole text -/

def zoneChars : ZoneMark → List Char
  | .letter => ['Z']
  | .offset => ['+', '0', '0', ':', '0', '0']

theorem readOffset_zoneChars (mark : ZoneMark) : readOffset (zoneChars mark) = .ok (0, []) := by
  cases mark <;> rfl

theorem zoneChars_head (mark : ZoneMark) :
    (∀ c ∈ (zoneChars mark).head?, isDigit c = false ∧ c ≠ '.') ∧
      dropBlanks (zoneChars mark) = zoneChars mark := by
  cases mark with
  | letter | offset =>
      refine ⟨?_, rfl⟩
      rintro c ⟨⟩
      decide

/-- What a leap second adds to the second that is written. -/
def Instant.leapSecond (t : Instant) : Nat := if nanosPerSec ≤ t.nano then 1 else 0

def Instant.stamp (t : Instant) : LocalStamp where
  year := t.date.year
  month := t.date.month
  day := t.date.day
  hour := t.second / 3600
  minute := t.second / 60 % 60
  second := t.second % 60 + t.leapSecond
  nano := t.nano - t.leapSecond * nanosPerSec
  offset := 0

theorem Instant.text_toList (t : Instant) (mark : ZoneMark)
    (hyear : 0 ≤ t.date.year ∧ t.date.year ≤ 9999) : (t.text mark).toList =
      (padded 4 t.date.year.toNat).toList ++ '-' :: ((padded 2 t.date.month).toList ++
        '-' :: ((padded 2 t.date.day).toList ++ 'T' :: ((padded 2 (t.second / 3600)).toList ++
          ':' :: ((padded 2 (t.second / 60 % 60)).toList ++
            ':' :: ((padded 2 (t.second % 60 + t.leapSecond)).toList ++
              ((fractionText (t.nano - t.leapSecond * nanosPerSec)).toList ++
                zoneChars mark)))))) := by
  have hdash : "-".toList = ['-'] := rfl
  have hcolon : ":".toList = [':'] := rfl
  have hseparator : "T".toList = ['T'] := rfl
  have hletter : "Z".toList = zoneChars .letter := rfl
  have hoffset : "+00:00".toList = zoneChars .offset := rfl
  cases mark <;>
    simp only [Instant.text, yearText, if_pos hyear, String.toList_append, hdash, hcolon,
      hseparator, hletter, hoffset, List.append_assoc, List.cons_append, List.nil_append,
      Instant.leapSecond]

theorem Instant.leapSecond_cases (t : Instant) :
    t.leapSecond = 0 ∧ t.nano < nanosPerSec ∨
      t.leapSecond = 1 ∧ nanosPerSec ≤ t.nano ∧ t.second % 60 = 59 := by
  rw [leapSecond]
  split
  · rename_i hle
    exact .inr ⟨rfl, hle, t.leap hle⟩
  · rename_i hlt
    exact .inl ⟨rfl, Nat.lt_of_not_le hlt⟩

theorem daysInMonth_le (year : Int) (month : Nat) : daysInMonth year month ≤ 31 := by
  unfold daysInMonth
  split_ifs <;> decide

theorem readStamp_of_parts {cs cs₁ cs₂ cs₃ cs₄ cs₅ cs₆ cs₇ cs₈ cs₉ cs₁₀ cs₁₁ cs₁₂ rest : List Char}
    {year offset : Int} {month day hour minute second nano : Nat}
    (hyear : readYear cs = .ok (year, cs₁)) (inside : -2147483648 ≤ year ∧ year ≤ 2147483647)
    (hdash : readMark '-' cs₁ = .ok ((), cs₂)) (hmonth : readPart 1 12 cs₂ = .ok (month, cs₃))
    (hdash' : readMark '-' cs₃ = .ok ((), cs₄)) (hday : readPart 1 31 cs₄ = .ok (day, cs₅))
    (hseparator : readSeparator cs₅ = .ok ((), cs₆)) (hhour : readPart 0 23 cs₆ = .ok (hour, cs₇))
    (hcolon : readMark ':' cs₇ = .ok ((), cs₈)) (hminute : readPart 0 59 cs₈ = .ok (minute, cs₉))
    (hcolon' : readMark ':' cs₉ = .ok ((), cs₁₀))
    (hsecond : readPart 0 60 cs₁₀ = .ok (second, cs₁₁))
    (hfraction : readFraction cs₁₁ = .ok (nano, cs₁₂))
    (hoffset : readOffset (dropBlanks cs₁₂) = .ok (offset, rest)) :
    readStamp cs = .ok (⟨year, month, day, hour, minute, second, nano, offset⟩, rest) := by
  have hinside : ¬(year < -2147483648 ∨ 2147483647 < year) := by omega
  simp only [readStamp, hyear, bind, Except.bind, if_neg hinside, hdash, hmonth, hdash', hday,
    hseparator, hhour, hcolon, hminute, hcolon', hsecond, hfraction, hoffset]

theorem readStamp_text (t : Instant) (mark : ZoneMark)
    (hyear : 0 ≤ t.date.year ∧ t.date.year ≤ 9999) :
    readStamp (t.text mark).toList = .ok (t.stamp, []) := by
  obtain ⟨hmonth, hmonth', hday, hday'⟩ := t.date.exists_day
  have hday'' := Nat.le_trans hday' (daysInMonth_le _ _)
  have hsecond : t.second < 86400 := t.second_lt
  have hleap := t.leapSecond_cases
  obtain ⟨hstop, hzone⟩ := zoneChars_head mark
  have hnano : t.nano - t.leapSecond * nanosPerSec < nanosPerSec := by
    have hlt := t.nano_lt
    rw [nanosPerSec] at hlt hleap ⊢
    omega
  have hyearText (rest : List Char) :
      readYear ((padded 4 t.date.year.toNat).toList ++ rest) = .ok (t.date.year, rest) := by
    rw [readYear_padded (by omega), Int.toNat_of_nonneg hyear.1]
  have hhour : t.second / 3600 ≤ 23 := by omega
  have hminute : t.second / 60 % 60 ≤ 59 := by omega
  have hsixty : t.second % 60 + t.leapSecond ≤ 60 := by omega
  rw [Instant.text_toList t mark hyear]
  refine readStamp_of_parts (hyearText _) (by omega)
    (readMark_cons '-' (by decide) _) (readPart_padded hmonth hmonth' (by omega) _)
    (readMark_cons '-' (by decide) _) (readPart_padded hday hday'' (by omega) _)
    rfl (readPart_padded (Nat.zero_le _) hhour (by omega) _)
    (readMark_cons ':' (by decide) _) (readPart_padded (Nat.zero_le _) hminute (by omega) _)
    (readMark_cons ':' (by decide) _) (readPart_padded (Nat.zero_le _) hsixty (by omega) _)
    (readFraction_text hnano hstop) ?_
  rw [hzone]
  exact readOffset_zoneChars mark

theorem Instant.ofLocal?_zero (t : Instant) :
    Instant.ofLocal? t.date t.second t.nano 0 = some t := by
  have hsecond : t.second < secondsPerDay := t.second_lt
  have hearly : ¬(t.second : Int) < 0 := by omega
  have hlate : ¬(secondsPerDay : Int) ≤ (t.second : Int) := by omega
  simp only [Instant.ofLocal?, Int.sub_zero, if_neg hearly, if_neg hlate, Int.toNat_natCast]
  exact dif_pos (And.intro hsecond (And.intro t.nano_lt t.leap))

/-- The parts make up the instant again. -/
theorem Instant.instant_stamp (t : Instant) (hcalendar : inCalendar t.date.year = true) :
    t.stamp.instant = .ok t := by
  have hleap := t.leapSecond_cases
  have hsixty : (if t.stamp.second = 60 then 1 else 0) = t.leapSecond := by
    change (if t.second % 60 + t.leapSecond = 60 then 1 else 0) = t.leapSecond
    split <;> omega
  have hday : t.stamp.hour * 3600 + t.stamp.minute * 60 + (t.stamp.second - t.leapSecond) =
      t.second := by
    change t.second / 3600 * 3600 + t.second / 60 % 60 * 60 +
      (t.second % 60 + t.leapSecond - t.leapSecond) = t.second
    omega
  have hnano : t.stamp.nano + t.leapSecond * nanosPerSec = t.nano := by
    change t.nano - t.leapSecond * nanosPerSec + t.leapSecond * nanosPerSec = t.nano
    rw [nanosPerSec] at hleap ⊢
    omega
  have hdate : isDate t.stamp.year t.stamp.month t.stamp.day := t.date.exists_day
  have hinside : (!inCalendar t.stamp.year || decide (86400 ≤ t.stamp.offset.natAbs)) = false := by
    change (!inCalendar t.date.year || false) = false
    rw [hcalendar]
    rfl
  have hlocal : Instant.ofLocal? ⟨t.stamp.year, t.stamp.month, t.stamp.day, hdate⟩ t.second t.nano
      t.stamp.offset = some t := t.ofLocal?_zero
  simp only [LocalStamp.instant, hsixty, hday, hnano]
  rw [dif_pos hdate, hinside, if_neg Bool.false_ne_true, hlocal]
  exact if_pos hcalendar

/-- An instant of a year of four digits is read back from its text. -/
theorem Instant.parse_text (t : Instant) (mark : ZoneMark)
    (hyear : 0 ≤ t.date.year ∧ t.date.year ≤ 9999) : Instant.parse (t.text mark) = .ok t := by
  have hcalendar : inCalendar t.date.year = true := by
    rw [inCalendar, Bool.and_eq_true, decide_eq_true_eq, decide_eq_true_eq]
    omega
  rw [Instant.parse, readStamp_text t mark hyear]
  exact t.instant_stamp hcalendar

end ProxyTiming.Time
