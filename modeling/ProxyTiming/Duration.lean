/-!
# Durations

A duration is a whole number of seconds together with the nanoseconds that are
left over.  Both parts are bounded, so that the longest duration is a little
over 584 thousand million years, and the bounds are part of the type: no
operation of this library can build a duration whose nanoseconds spill into
another second.

The two parts are how durations are written, read and subtracted.  What they
*mean* is one number, `Duration.toNanos`, and every fact about durations that
matters is a fact about that number; the small lemmas beside each operation
say what the operation does to it.
-/

namespace ProxyTiming

def nanosPerSec : Nat := 1000000000

def secsBound : Nat := 18446744073709551616

/-- Whole seconds and leftover nanoseconds. -/
@[ext] structure Duration where
  secs : Nat
  nanos : Nat
  secs_lt : secs < secsBound
  nanos_lt : nanos < nanosPerSec
deriving DecidableEq

namespace Duration

def zero : Duration := ⟨0, 0, by decide, by decide⟩

instance : Inhabited Duration := ⟨zero⟩

def toNanos (d : Duration) : Nat := d.secs * nanosPerSec + d.nanos

@[simp] theorem toNanos_zero : zero.toNanos = 0 := rfl

theorem toNanos_div (d : Duration) : d.toNanos / nanosPerSec = d.secs := by
  have h := d.nanos_lt
  unfold toNanos nanosPerSec at *
  omega

theorem toNanos_mod (d : Duration) : d.toNanos % nanosPerSec = d.nanos := by
  have h := d.nanos_lt
  unfold toNanos nanosPerSec at *
  omega

/-- A duration is determined by its nanoseconds. -/
theorem toNanos_inj {a b : Duration} (h : a.toNanos = b.toNanos) : a = b := by
  apply Duration.ext
  · rw [← toNanos_div a, h, toNanos_div]
  · rw [← toNanos_mod a, h, toNanos_mod]

theorem ne_zero_iff {d : Duration} : d ≠ zero ↔ 0 < d.toNanos := by
  constructor
  · intro h
    exact Nat.pos_of_ne_zero fun hzero => h (toNanos_inj hzero)
  · rintro h rfl
    exact Nat.lt_irrefl 0 h

def nanosBound : Nat := secsBound * nanosPerSec

theorem toNanos_lt (d : Duration) : d.toNanos < nanosBound := by
  have h₁ := d.secs_lt
  have h₂ := d.nanos_lt
  unfold toNanos nanosBound nanosPerSec secsBound at *
  omega

/-- The duration with these nanoseconds.  Past the longest duration the seconds
stay at their greatest value while the leftover nanoseconds are kept. -/
def ofNanos (n : Nat) : Duration where
  secs := min (n / nanosPerSec) (secsBound - 1)
  nanos := n % nanosPerSec
  secs_lt := by unfold secsBound; omega
  nanos_lt := Nat.mod_lt _ (by decide)

theorem toNanos_ofNanos {n : Nat} (h : n < nanosBound) : (ofNanos n).toNanos = n := by
  unfold ofNanos toNanos nanosBound nanosPerSec secsBound at *
  simp only
  omega

@[simp] theorem ofNanos_toNanos (d : Duration) : ofNanos d.toNanos = d :=
  toNanos_inj (toNanos_ofNanos d.toNanos_lt)

def ofMillis (ms : Nat) : Duration := ofNanos (ms * 1000000)

def toMillis (d : Duration) : Nat := d.secs * 1000 + d.nanos / 1000000

def isZero (d : Duration) : Bool := d.secs == 0 && d.nanos == 0

theorem isZero_iff (d : Duration) : d.isZero = true ↔ d = zero := by
  constructor
  · intro h
    simp only [isZero, Bool.and_eq_true, beq_iff_eq] at h
    exact Duration.ext h.1 h.2
  · rintro rfl
    rfl

/-! ### Order

Durations compare by seconds first and by nanoseconds second, which is the
order of their nanosecond counts. -/

protected def le (a b : Duration) : Prop :=
  a.secs < b.secs ∨ (a.secs = b.secs ∧ a.nanos ≤ b.nanos)

instance : LE Duration := ⟨Duration.le⟩

instance (a b : Duration) : Decidable (a ≤ b) :=
  inferInstanceAs (Decidable (_ ∨ _))

theorem le_iff (a b : Duration) : a ≤ b ↔ a.toNanos ≤ b.toNanos := by
  have ha := a.nanos_lt
  have hb := b.nanos_lt
  change (a.secs < b.secs ∨ (a.secs = b.secs ∧ a.nanos ≤ b.nanos)) ↔ _
  unfold toNanos nanosPerSec at *
  omega

def min (a b : Duration) : Duration := if a ≤ b then a else b

@[simp] theorem toNanos_min (a b : Duration) : (a.min b).toNanos = Nat.min a.toNanos b.toNanos := by
  unfold min
  split
  next h => exact (Nat.min_eq_left ((le_iff a b).mp h)).symm
  next h => exact (Nat.min_eq_right (Nat.le_of_not_le fun hle => h ((le_iff a b).mpr hle))).symm

/-! ### Subtraction -/

/-- What is left of `a` after taking `b` away, or nothing if `b` is longer.

Seconds and nanoseconds are subtracted apart; when the nanoseconds run short one
second is borrowed. -/
def monus (a b : Duration) : Duration :=
  if b.secs ≤ a.secs then
    if hn : b.nanos ≤ a.nanos then
      { secs := a.secs - b.secs
        nanos := a.nanos - b.nanos
        secs_lt := Nat.lt_of_le_of_lt (Nat.sub_le ..) a.secs_lt
        nanos_lt := Nat.lt_of_le_of_lt (Nat.sub_le ..) a.nanos_lt }
    else if h : 1 ≤ a.secs - b.secs then
      { secs := a.secs - b.secs - 1
        nanos := a.nanos + nanosPerSec - b.nanos
        secs_lt := by have := a.secs_lt; omega
        nanos_lt := by have := b.nanos_lt; omega }
    else zero
  else zero

@[simp] theorem toNanos_monus (a b : Duration) : (a.monus b).toNanos = a.toNanos - b.toNanos := by
  have ha := a.nanos_lt
  have hb := b.nanos_lt
  unfold monus toNanos nanosPerSec at *
  split
  · split
    · simp only
      omega
    · split <;> simp only [zero] <;> omega
  · simp only [zero]
    omega

end Duration

end ProxyTiming
