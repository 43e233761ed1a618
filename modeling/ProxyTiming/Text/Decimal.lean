/-!
# Decimal numbers in texts

Runs of the ten digits and their values.
-/

namespace ProxyTiming.Text

def isDigit (c : Char) : Bool := decide ('0' ≤ c) && decide (c ≤ '9')

def digitValue (c : Char) : Nat := c.toNat - '0'.toNat

/-- The number that a run of digits continues, most significant digit first. -/
def digitsFrom (n : Nat) : List Char → Nat
  | [] => n
  | c :: cs => digitsFrom (n * 10 + digitValue c) cs

-- In parentheses, for Lean is not to try these as rules of its own: it would unfold the numerals.

theorem digitsFrom_nil (n : Nat) : digitsFrom n [] = n := (rfl)

theorem digitsFrom_cons (n : Nat) (c : Char) (cs : List Char) :
    digitsFrom n (c :: cs) = digitsFrom (n * 10 + digitValue c) cs := (rfl)

def digitsValue (cs : List Char) : Nat := digitsFrom 0 cs

def spanDigits (cs : List Char) : List Char × List Char :=
  (cs.takeWhile isDigit, cs.dropWhile isDigit)

/-- A number of at most `limit`: one or more digits, with or without a plus sign before them. -/
def unsigned? (limit : Nat) (cs : List Char) : Option Nat :=
  let digits := match cs with
    | '+' :: rest => rest
    | other => other
  if digits.isEmpty || !digits.all isDigit || decide (limit < digitsValue digits) then none
  else some (digitsValue digits)

def port? (cs : List Char) : Option UInt16 := (unsigned? 65535 cs).map UInt16.ofNat

end ProxyTiming.Text
