import ProxyTiming.Binary64

/-!
# The interchange format of doubles

Sixty-four bits: a sign, eleven bits of exponent and fifty-two of fraction.  The
exponent of all ones is kept for the infinities and for what is no number; the
exponent zero holds the numbers on the finest grid.
-/

namespace ProxyTiming.Binary64

def fractions : Nat := 4503599627370496

def signPlace : Nat := 9223372036854775808

def ofBits (bits : Nat) : Binary64 :=
  let negative := decide (signPlace ≤ bits)
  let exponent := bits % signPlace / fractions
  let fraction := bits % fractions
  if exponent = 2047 then
    if fraction = 0 then .infinite negative else .nan
  else
    let value : Rat :=
      if exponent = 0 then (fraction : Rat) * (2 : Rat) ^ (-1074 : Int)
      else ((fractions + fraction : Nat) : Rat) * (2 : Rat) ^ ((exponent : Int) - 1075)
    if value = 0 then zero negative
    else .finite (if negative then -value else value)

def magnitudeBits (v : Rat) : Nat :=
  if v = 0 then 0
  else
    let e := gridExponent v
    let m := (v * (2 : Rat) ^ (-e)).floor.toNat
    if m < fractions then m
    else (e + 1075).toNat * fractions + (m - fractions)

def toBits : Binary64 → Nat
  | .nan => 0x7ff8000000000000
  | .infinite negative => 0x7ff0000000000000 + (if negative then signPlace else 0)
  | .negativeZero => signPlace
  | .finite v => magnitudeBits (magnitude v) + (if v < 0 then signPlace else 0)

end ProxyTiming.Binary64
