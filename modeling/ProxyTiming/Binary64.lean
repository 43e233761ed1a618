/-!
# Double precision numbers

Percentiles, rates and percentages are computed in IEEE 754 double precision,
and their answers are compared bit for bit.  A double is represented here by
what it *is*: a rational number, one of the two infinities, the negative zero,
or no number.  Every operation is the exact operation on rationals followed by
one rounding to the nearest double, `Binary64.ofRat`; there is no other place
where precision is lost.

A rational is rounded on a grid of spacing `2 ^ gridExponent`, which leaves 53
significant bits but is never finer than `2 ^ (-1074)`.  A value half way
between two grid points goes to the even one.
-/

namespace ProxyTiming

/-- A double precision number, as a value.  `finite 0` is the positive zero. -/
inductive Binary64 where
  | nan
  | infinite (negative : Bool)
  | negativeZero
  | finite (value : Rat)
deriving DecidableEq

namespace Binary64

instance : Inhabited Binary64 := ⟨.finite 0⟩

/-! ### Rounding -/

def roundHalfEven (q : Rat) : Int :=
  let lower := q.floor
  let gap := q - (lower : Rat)
  if gap < 1 / 2 then lower
  else if 1 / 2 < gap then lower + 1
  else if lower % 2 = 0 then lower else lower + 1

def roundHalfAway (q : Rat) : Int :=
  if 0 ≤ q then (q + 1 / 2).floor else -((-q + 1 / 2).floor)

def magnitude (q : Rat) : Rat := if q < 0 then -q else q

/-- The greatest `k` with `2 ^ k` at most `q`, for a positive `q`.  The lengths of
numerator and denominator give it up to one. -/
def floorLog2 (q : Rat) : Int :=
  let k : Int := (Nat.log2 q.num.natAbs : Int) - (Nat.log2 q.den : Int)
  if (2 : Rat) ^ k ≤ q then k else k - 1

/-- The spacing, as a power of two, of the doubles around `q`. -/
def gridExponent (q : Rat) : Int :=
  max (floorLog2 (magnitude q) - 52) (-1074)

def nearest (q : Rat) : Rat :=
  if q = 0 then 0
  else
    let e := gridExponent q
    (roundHalfEven (q * (2 : Rat) ^ (-e)) : Rat) * (2 : Rat) ^ e

/-- The first power of two that is too large for a double. -/
def overflowBound : Rat := (2 : Rat) ^ (1024 : Int)

def zero (negative : Bool) : Binary64 :=
  if negative then .negativeZero else .finite 0

def ofRat (q : Rat) : Binary64 :=
  let r := nearest q
  if overflowBound ≤ magnitude r then .infinite (decide (q < 0))
  else if r = 0 then zero (decide (q < 0))
  else .finite r

def ofNat (n : Nat) : Binary64 := ofRat (n : Rat)

def ofInt (n : Int) : Binary64 := ofRat (n : Rat)

/-! ### Reading a double -/

def isNegative : Binary64 → Bool
  | .nan => false
  | .infinite negative => negative
  | .negativeZero => true
  | .finite v => decide (v < 0)

/-- The number that a double stands for, if it is one. -/
def toRat? : Binary64 → Option Rat
  | .negativeZero => some 0
  | .finite v => some v
  | _ => none

/-- Whether `x` is at most the rational `q`.  No number is comparable to nothing. -/
def atMost (x : Binary64) (q : Rat) : Bool :=
  match x with
  | .nan => false
  | .infinite negative => negative
  | .negativeZero => decide (0 ≤ q)
  | .finite v => decide (v ≤ q)

/-- Whether `x` is at least the rational `q`. -/
def atLeast (x : Binary64) (q : Rat) : Bool :=
  match x with
  | .nan => false
  | .infinite negative => !negative
  | .negativeZero => decide (q ≤ 0)
  | .finite v => decide (q ≤ v)

def isInfinite : Binary64 → Bool
  | .infinite _ => true
  | _ => false

def isZero : Binary64 → Bool
  | .negativeZero => true
  | .finite v => decide (v = 0)
  | _ => false

/-- The whole number that `convert` finds for a double, confined to `0 … limit`.  What is
no number becomes zero. -/
def toNatWith (convert : Rat → Int) (limit : Nat) : Binary64 → Nat
  | .nan => 0
  | .infinite negative => if negative then 0 else limit
  | .negativeZero => 0
  | .finite v => min (convert v).toNat limit

def floorNat : Binary64 → Nat := toNatWith Rat.floor 18446744073709551615

/-- The nearest whole number, halves away from zero, within 128 bits. -/
def roundNat : Binary64 → Nat :=
  toNatWith roundHalfAway 340282366920938463463374607431768211455

/-! ### Arithmetic -/

def neg : Binary64 → Binary64
  | .nan => .nan
  | .infinite negative => .infinite (!negative)
  | .negativeZero => .finite 0
  | .finite v => if v = 0 then .negativeZero else .finite (-v)

def add : Binary64 → Binary64 → Binary64
  | .nan, _ => .nan
  | _, .nan => .nan
  | .infinite a, .infinite b => if a = b then .infinite a else .nan
  | .infinite a, _ => .infinite a
  | _, .infinite b => .infinite b
  | .negativeZero, .negativeZero => .negativeZero
  | .negativeZero, .finite b => .finite b
  | .finite a, .negativeZero => .finite a
  | .finite a, .finite b => ofRat (a + b)

def sub (a b : Binary64) : Binary64 := add a (neg b)

def mul (a b : Binary64) : Binary64 :=
  let negative := a.isNegative != b.isNegative
  match a, b with
  | .nan, _ => .nan
  | _, .nan => .nan
  | .infinite _, y => if y.isZero then .nan else .infinite negative
  | x, .infinite _ => if x.isZero then .nan else .infinite negative
  | .finite x, .finite y => if x * y = 0 then zero negative else ofRat (x * y)
  | _, _ => zero negative

def div (a b : Binary64) : Binary64 :=
  let negative := a.isNegative != b.isNegative
  match a, b with
  | .nan, _ => .nan
  | _, .nan => .nan
  | .infinite _, .infinite _ => .nan
  | .infinite _, _ => .infinite negative
  | _, .infinite _ => zero negative
  | .finite x, .finite y =>
    if y = 0 then (if x = 0 then .nan else .infinite negative)
    else if x = 0 then zero negative
    else ofRat (x / y)
  | .finite x, .negativeZero => if x = 0 then .nan else .infinite negative
  | .negativeZero, y => if y.isZero then .nan else zero negative

instance : Neg Binary64 := ⟨neg⟩
instance : Add Binary64 := ⟨add⟩
instance : Sub Binary64 := ⟨sub⟩
instance : Mul Binary64 := ⟨mul⟩
instance : Div Binary64 := ⟨div⟩

end Binary64

end ProxyTiming
