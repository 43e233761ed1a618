import ProxyTiming.Binary64

/-!
# Decimal texts of doubles

Two texts are needed.  The *shortest* text has the fewest digits that read back
as the same double and, among those, the nearest; it is found on the decimal
grids of one digit, two digits and so on, where only the two neighbours of the
value have to be tried.  The *fixed* text has a given number of decimals, and a
half of the last one goes to the even neighbour.
-/

namespace ProxyTiming.Binary64

/-! ### Shortest digits -/

/-- The greatest `k` with `10 ^ k` at most `q`, for a positive `q`, found from a guess by
at most `steps` corrections. -/
def floorLog10From : Nat → Int → Rat → Int
  | 0, k, _ => k
  | steps + 1, k, q =>
    if q < (10 : Rat) ^ k then floorLog10From steps (k - 1) q
    else if (10 : Rat) ^ (k + 1) ≤ q then floorLog10From steps (k + 1) q
    else k

def floorLog10 (q : Rat) : Int :=
  floorLog10From 8 (floorLog2 q * 30103 / 100000) q

/-- The rationals that round to the positive double `v`. -/
structure RoundingInterval where
  lower : Rat
  upper : Rat
  /-- Whether the two ends round to `v` as well. -/
  closed : Bool

/-- The interval around a positive double.  Below a power of two the grid is twice as
fine, so the lower half gap is halved there. -/
def roundingInterval (v : Rat) : RoundingInterval :=
  let e := gridExponent v
  let m := (v * (2 : Rat) ^ (-e)).floor
  let half : Rat := (2 : Rat) ^ (e - 1)
  let below := if m = 4503599627370496 ∧ -1074 < e then half / 2 else half
  { lower := v - below, upper := v + half, closed := decide (m % 2 = 0) }

/-- Whether a rational reads back as the double that the interval is around. -/
def RoundingInterval.contains (i : RoundingInterval) (q : Rat) : Bool :=
  if i.closed then decide (i.lower ≤ q) && decide (q ≤ i.upper)
  else decide (i.lower < q) && decide (q < i.upper)

structure Decimal where
  digits : Nat
  exponent : Int

/-- The better of the two neighbours of `v` on the grid `10 ^ k`, if one reads back. -/
def neighbour? (i : RoundingInterval) (v : Rat) (k : Int) : Option Decimal :=
  let unit : Rat := (10 : Rat) ^ k
  let n := (v / unit).floor
  let low : Rat := (n : Rat) * unit
  let high : Rat := ((n + 1 : Int) : Rat) * unit
  match i.contains low && decide (0 < n), i.contains high with
  | true, true =>
    if v - low < high - v ∨ (v - low = high - v ∧ n % 2 = 0) then some ⟨n.toNat, k⟩
    else some ⟨(n + 1).toNat, k⟩
  | true, false => some ⟨n.toNat, k⟩
  | false, true => some ⟨(n + 1).toNat, k⟩
  | false, false => none

/-- The first decimal grid, from `count` digits on, with a point that reads back. -/
def shortestFrom (i : RoundingInterval) (v : Rat) (k : Int) : Nat → Nat → Decimal
  | 0, count => ⟨(v / (10 : Rat) ^ (k - count)).floor.toNat, k - count⟩
  | more + 1, count =>
    match neighbour? i v (k + 1 - (count : Int)) with
    | some d => d
    | none => shortestFrom i v k more (count + 1)

def shortest (v : Rat) : Decimal :=
  shortestFrom (roundingInterval v) v (floorLog10 v) 17 1

/-! ### Texts -/

def zeros (n : Nat) : String := String.ofList (List.replicate n '0')

def exponentText (e : Int) : String :=
  let digits := toString e.natAbs
  (if e < 0 then "e-" else "e+") ++ (if digits.length < 2 then "0" ++ digits else digits)

/-- Significant digits without the zeros at their end, and the power of ten of the first. -/
def Decimal.significant (d : Decimal) : List Char × Int :=
  let digits := (toString d.digits).toList
  ((digits.reverse.dropWhile (· == '0')).reverse, d.exponent + (digits.length : Int) - 1)

/-- Digits written positionally from `10 ^ (-5)` up to `10 ^ 16`, with at least one decimal,
and otherwise with an exponent. -/
def Decimal.text (d : Decimal) : String :=
  let (digits, top) := d.significant
  if -5 ≤ top ∧ top < 16 then
    if top < 0 then "0." ++ zeros (-top - 1).toNat ++ String.ofList digits
    else
      let whole := top.toNat + 1
      if digits.length ≤ whole then
        String.ofList digits ++ zeros (whole - digits.length) ++ ".0"
      else String.ofList (digits.take whole) ++ "." ++ String.ofList (digits.drop whole)
  else
    match digits with
    | [] => "0.0"
    | [d] => String.ofList [d] ++ exponentText top
    | d :: more => String.ofList [d] ++ "." ++ String.ofList more ++ exponentText top

def text : Binary64 → String
  | .nan => "NaN"
  | .infinite negative => if negative then "-inf" else "inf"
  | .negativeZero => "-0.0"
  | .finite v =>
    if v = 0 then "0.0"
    else if v < 0 then "-" ++ (shortest (-v)).text
    else (shortest v).text

/-- A double with one decimal, rounded from its exact value. -/
def oneDecimal : Binary64 → String
  | .nan => "NaN"
  | .infinite negative => if negative then "-inf" else "inf"
  | .negativeZero => "-0.0"
  | .finite v =>
    let tenths := (roundHalfEven (magnitude v * 10)).toNat
    (if v < 0 then "-" else "") ++ toString (tenths / 10) ++ "." ++ toString (tenths % 10)

end ProxyTiming.Binary64
