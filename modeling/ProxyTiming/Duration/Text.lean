import ProxyTiming.Duration

/-!
# The short text of a duration

A duration is shown in the largest of the units s, ms, µs and ns in which its
whole part is not zero, with exactly the decimals that it needs: `1.5s`,
`40ms`, `1.001µs`, `0ns`.
-/

namespace ProxyTiming.Duration

/-- Exactly `width` decimal digits of `n`, most significant first. -/
def digitsOfWidth : Nat → Nat → List Char
  | 0, _ => []
  | width + 1, n => digitsOfWidth width (n / 10) ++ [Nat.digitChar (n % 10)]

def dropTrailingZeros (digits : List Char) : List Char :=
  (digits.reverse.dropWhile (· == '0')).reverse

/-- A whole part, and a fraction counted in units of `10 ^ (-places)`. -/
def decimalText (whole fraction places : Nat) : String :=
  match dropTrailingZeros (digitsOfWidth places fraction) with
  | [] => toString whole
  | digits => toString whole ++ "." ++ String.ofList digits

def text (d : Duration) : String :=
  if 0 < d.secs then decimalText d.secs d.nanos 9 ++ "s"
  else if 1000000 ≤ d.nanos then decimalText (d.nanos / 1000000) (d.nanos % 1000000) 6 ++ "ms"
  else if 1000 ≤ d.nanos then decimalText (d.nanos / 1000) (d.nanos % 1000) 3 ++ "µs"
  else decimalText d.nanos 0 0 ++ "ns"

end ProxyTiming.Duration
