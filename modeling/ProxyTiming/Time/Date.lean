/-!
# Calendar days

Days of the Gregorian calendar, which is extended without end in both
directions; the year before the first is the year zero.  That the day exists is
part of the type.
-/

namespace ProxyTiming.Time

def isLeapYear (year : Int) : Bool :=
  decide (year % 4 = 0) && (decide (year % 100 ≠ 0) || decide (year % 400 = 0))

def daysInMonth (year : Int) (month : Nat) : Nat :=
  if month = 2 then (if isLeapYear year then 29 else 28)
  else if month = 4 ∨ month = 6 ∨ month = 9 ∨ month = 11 then 30
  else 31

theorem daysInMonth_pos (year : Int) (month : Nat) : 1 ≤ daysInMonth year month := by
  unfold daysInMonth
  repeat' split
  all_goals decide

def isDate (year : Int) (month day : Nat) : Prop :=
  1 ≤ month ∧ month ≤ 12 ∧ 1 ≤ day ∧ day ≤ daysInMonth year month

instance (year : Int) (month day : Nat) : Decidable (isDate year month day) :=
  inferInstanceAs (Decidable (_ ∧ _))

@[ext] structure Date where
  year : Int
  month : Nat
  day : Nat
  exists_day : isDate year month day
deriving DecidableEq

namespace Date

def epoch : Date := ⟨1970, 1, 1, by decide⟩

instance : Inhabited Date := ⟨epoch⟩

def daysBefore (year : Int) : Nat → Nat
  | 0 => 0
  | 1 => 0
  | month + 2 => daysBefore year (month + 1) + daysInMonth year (month + 1)

/-- The days since a fixed day long ago; the number of the next day is one more. -/
def dayNumber (d : Date) : Int :=
  let past := d.year - 1
  365 * past + past / 4 - past / 100 + past / 400 + daysBefore d.year d.month + d.day

def next (d : Date) : Date :=
  if h : d.day + 1 ≤ daysInMonth d.year d.month then
    ⟨d.year, d.month, d.day + 1, by
      obtain ⟨h₁, h₂, _, _⟩ := d.exists_day
      exact ⟨h₁, h₂, by omega, h⟩⟩
  else if h : d.month + 1 ≤ 12 then
    ⟨d.year, d.month + 1, 1, by
      exact ⟨by omega, h, by omega, daysInMonth_pos _ _⟩⟩
  else
    ⟨d.year + 1, 1, 1, by
      exact ⟨by omega, by omega, by omega, daysInMonth_pos _ _⟩⟩

def previous (d : Date) : Date :=
  if h : 1 ≤ d.day - 1 then
    ⟨d.year, d.month, d.day - 1, by
      obtain ⟨h₁, h₂, _, h₄⟩ := d.exists_day
      exact ⟨h₁, h₂, h, by omega⟩⟩
  else if h : 1 ≤ d.month - 1 then
    ⟨d.year, d.month - 1, daysInMonth d.year (d.month - 1), by
      obtain ⟨_, h₂, _, _⟩ := d.exists_day
      exact ⟨h, by omega, daysInMonth_pos _ _, Nat.le_refl _⟩⟩
  else
    ⟨d.year - 1, 12, 31, by
      exact ⟨by omega, by omega, by omega, by simp [daysInMonth]⟩⟩

end Date

end ProxyTiming.Time
