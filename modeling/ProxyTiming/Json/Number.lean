import ProxyTiming.Json.Reader
import ProxyTiming.Json.Value
import ProxyTiming.Text.Decimal

/-!
# Reading numbers

A number without a point and an exponent is an integer as long as it fits into
64 bits.  Every other number is a double: its digits are gathered into a whole
number below `2 ^ 64`, digits that no longer fit only move the point, and the
result is scaled by a power of ten.  Both steps round, so the double may be a
little off the nearest one; that is how these numbers are read.
-/

namespace ProxyTiming.Json

open ProxyTiming.Text

def maxUnsigned : Nat := 18446744073709551615

def maxExponent : Nat := 2147483647

def powerOfTen (k : Nat) : Binary64 := Binary64.ofNat (Nat.pow 10 k)

/-- Multiplies by a power of ten, in steps of at most 308.  What grows out of range is refused;
what vanishes is zero. -/
def scale (x : Binary64) (exponent : Int) : Except Fault Binary64 :=
  if exponent.natAbs ≤ 308 then
    if 0 ≤ exponent then
      let y := x * powerOfTen exponent.natAbs
      if y.isInfinite then .error (.malformed .numberOutOfRange) else .ok y
    else .ok (x / powerOfTen exponent.natAbs)
  else if x.isZero then .ok x
  else if 0 ≤ exponent then .error (.malformed .numberOutOfRange)
  else scale (x / powerOfTen 308) (exponent + 308)
termination_by exponent.natAbs
decreasing_by omega

namespace Reader

/-- The double made of digits, a power of ten and a sign. -/
def double (negative : Bool) (digits : Nat) (exponent : Int) : Reader Number := fun _ cs =>
  match scale (Binary64.ofNat digits) exponent with
  | .ok x => .ok (.float (if negative then -x else x), cs)
  | .error e => .error e

def digits : Reader (List Char) := fun _ cs => .ok (spanDigits cs)

/-- Digits gathered as long as they fit into 64 bits: the number, how many of them were used,
and those that no longer fit. -/
def gather (n used : Nat) : List Char → Nat × Nat × List Char
  | [] => (n, used, [])
  | c :: cs =>
    if maxUnsigned < n * 10 + digitValue c then (n, used, c :: cs)
    else gather (n * 10 + digitValue c) (used + 1) cs

/-- Digits of an exponent as long as they fit into 31 bits, if all do. -/
def exponentValue? (n : Nat) : List Char → Option Nat
  | [] => some n
  | c :: cs =>
    if maxExponent < n * 10 + digitValue c then none
    else exponentValue? (n * 10 + digitValue c) cs

def exponentPart (negative : Bool) (significand : Nat) (exponent : Int) : Reader Number := do
  let down ← do
    match ← peek with
    | some '+' => skip; pure false
    | some '-' => skip; pure true
    | _ => pure false
  match ← digits with
  | [] =>
    match ← peek with
    | none => ended .value
    | some _ => malformed .invalidNumber
  | ds =>
    match exponentValue? 0 ds with
    | some e => double negative significand (if down then exponent - e else exponent + e)
    | none =>
      if significand ≠ 0 ∧ ¬ down then malformed .numberOutOfRange
      else pure (.float (Binary64.zero negative))

/-- What may follow the digits of a number: an exponent or nothing. -/
def exponentOrEnd (negative : Bool) (significand : Nat) (exponent : Int) : Reader Number := do
  match ← peek with
  | some 'e' => skip; exponentPart negative significand exponent
  | some 'E' => skip; exponentPart negative significand exponent
  | _ => double negative significand exponent

def decimalPart (negative : Bool) (significand : Nat) (exponent : Int) : Reader Number := do
  match ← digits with
  | [] =>
    match ← peek with
    | none => ended .value
    | some _ => malformed .invalidNumber
  | ds =>
    let (n, used, _) := gather significand 0 ds
    exponentOrEnd negative n (exponent - used)

def numberBody (negative : Bool) : Reader Number := do
  match ← digits with
  | [] =>
    match ← peek with
    | none => ended .value
    | some _ => malformed .invalidNumber
  | '0' :: _ :: _ => malformed .invalidNumber
  | ds =>
    let (n, _, dropped) := gather 0 0 ds
    match ← peek with
    | some '.' => skip; decimalPart negative n dropped.length
    | some 'e' => skip; exponentPart negative n dropped.length
    | some 'E' => skip; exponentPart negative n dropped.length
    | _ =>
      if dropped.isEmpty then
        if negative then
          if n = 0 ∨ 9223372036854775808 < n then
            pure (.float (-(Binary64.ofNat n)))
          else pure (.integer (-(n : Int)))
        else pure (.integer n)
      else double negative n dropped.length

def number : Reader Number := do
  match ← peek with
  | some '-' => skip; numberBody true
  | _ => numberBody false

end Reader

end ProxyTiming.Json
