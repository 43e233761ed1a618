import ProxyTiming.Time.Date
import ProxyTiming.Duration

/-!
# Instants

An instant is a day, a second of that day and the nanoseconds that have passed in
that second, all in universal time.  A leap second is told as a second that goes
on for more than its nanoseconds; it can only follow the last second of a minute.
-/

namespace ProxyTiming.Time

def secondsPerDay : Nat := 86400

@[ext] structure Instant where
  date : Date
  /-- The second of the day. -/
  second : Nat
  /-- Nanoseconds in the second; a second or more of them in a leap second. -/
  nano : Nat
  second_lt : second < secondsPerDay
  nano_lt : nano < 2 * nanosPerSec
  leap : nanosPerSec ≤ nano → second % 60 = 59
deriving DecidableEq

namespace Instant

def epoch : Instant where
  date := .epoch
  second := 0
  nano := 0
  second_lt := by decide
  nano_lt := by decide
  leap := by decide

instance : Inhabited Instant := ⟨epoch⟩

/-- The nanoseconds from one instant to another, negative if the other is earlier.  A leap
second counts when it lies between the two. -/
def nanosBetween (a b : Instant) : Int :=
  let days := b.date.dayNumber - a.date.dayNumber
  let seconds : Int := (b.second : Int) - (a.second : Int)
  let seconds :=
    if a.second < b.second ∧ nanosPerSec ≤ a.nano then seconds + 1
    else if b.second < a.second ∧ nanosPerSec ≤ b.nano then seconds - 1
    else seconds
  (days * secondsPerDay + seconds) * nanosPerSec + ((b.nano : Int) - (a.nano : Int))

/-- The time from one instant to a later one; none if the other is earlier. -/
def elapsed (a b : Instant) : Duration := Duration.ofNanos (nanosBetween a b).toNat

end Instant

end ProxyTiming.Time
