import ProxyTiming.Time.Instant
import ProxyTiming.Text.Printable
import ProxyTiming.Text.Decimal
import ProxyTiming.Duration.Text

/-!
# Written instants

An instant is written as RFC 3339 says: date, `T`, time, and where in the world
the clock hangs.  Decimals of the second are written in groups of three, as many
as are needed.  A year outside of 0 … 9999 is written with a sign.

The reader is more liberal: blanks may stand between the parts, numbers may have
fewer digits, the year may have a sign, and the clock may hang anywhere; the
instant is then moved to universal time.
-/

namespace ProxyTiming.Time

open ProxyTiming.Text

/-! ### Writing -/

inductive ZoneMark where
  | letter
  | offset
deriving DecidableEq

def padded (width n : Nat) : String :=
  let digits := toString n
  String.ofList (List.replicate (width - digits.length) '0') ++ digits

/-- The year with four digits, or with a sign when four do not do. -/
def yearText (year : Int) : String :=
  if 0 ≤ year ∧ year ≤ 9999 then padded 4 year.toNat
  else (if year < 0 then "-" else "+") ++ padded 4 year.natAbs

def fractionText (nano : Nat) : String :=
  if nano = 0 then ""
  else if nano % 1000000 = 0 then "." ++ padded 3 (nano / 1000000)
  else if nano % 1000 = 0 then "." ++ padded 6 (nano / 1000)
  else "." ++ padded 9 nano

def Instant.text (mark : ZoneMark) (t : Instant) : String :=
  let leap := if nanosPerSec ≤ t.nano then 1 else 0
  yearText t.date.year ++ "-" ++ padded 2 t.date.month ++ "-" ++ padded 2 t.date.day ++ "T" ++
    padded 2 (t.second / 3600) ++ ":" ++ padded 2 (t.second / 60 % 60) ++ ":" ++
    padded 2 (t.second % 60 + leap) ++ fractionText (t.nano - leap * nanosPerSec) ++
    (match mark with
      | .letter => "Z"
      | .offset => "+00:00")

/-! ### Reading -/

inductive StampFault where
  | outOfRange
  | impossible
  | invalid
  | tooShort
  | tooLong
deriving DecidableEq

def StampFault.message : StampFault → String
  | outOfRange => "input is out of range"
  | impossible => "no possible date and time matching input"
  | invalid => "input contains invalid characters"
  | tooShort => "premature end of input"
  | tooLong => "trailing input"

/-- A part of a text that is read, and what follows it. -/
abbrev StampReader (α : Type) := List Char → Except StampFault (α × List Char)

def dropBlanks (cs : List Char) : List Char := cs.dropWhile isBlank

def readDigits (width : Nat) : StampReader Nat := fun cs =>
  let digits := (cs.take width).takeWhile isDigit
  if digits.isEmpty then .error (if cs.isEmpty then .tooShort else .invalid)
  else .ok (digitsValue digits, cs.drop digits.length)

/-- A number of any length that fits into 63 bits. -/
def readLongDigits : StampReader Nat := fun cs => do
  let (n, rest) ← readDigits cs.length cs
  if 9223372036854775807 < n then .error .outOfRange else .ok (n, rest)

def readYear : StampReader Int := fun cs =>
  match dropBlanks cs with
  | '-' :: rest => do
    let (n, rest) ← readLongDigits rest
    .ok (-(n : Int), rest)
  | '+' :: rest => do
    let (n, rest) ← readLongDigits rest
    .ok ((n : Int), rest)
  | cs => do
    let (n, rest) ← readDigits 4 cs
    .ok ((n : Int), rest)

/-- A number of at most two digits between `low` and `high`. -/
def readPart (low high : Nat) : StampReader Nat := fun cs => do
  let (n, rest) ← readDigits 2 (dropBlanks cs)
  if n < low ∨ high < n then .error .outOfRange else .ok (n, rest)

def readMark (mark : Char) : StampReader Unit := fun cs =>
  match dropBlanks cs with
  | [] => .error .tooShort
  | c :: rest => if c = mark then .ok ((), rest) else .error .invalid

def readSeparator : StampReader Unit := fun cs =>
  match cs with
  | [] => .error .tooShort
  | c :: rest => if c = 't' ∨ c = 'T' ∨ c = ' ' then .ok ((), rest) else .error .invalid

/-- Nanoseconds: up to nine decimals behind a point, and any number of further ones that do
not count. -/
def readFraction : StampReader Nat := fun cs =>
  match cs with
  | '.' :: rest => do
    let digits := (rest.take 9).takeWhile isDigit
    let (n, rest) ← readDigits 9 rest
    .ok (n * Nat.pow 10 (9 - digits.length), rest.dropWhile isDigit)
  | _ => .ok (0, cs)

/-- Whether at least two bytes of text are left. -/
def hasTwoBytes (cs : List Char) : Bool :=
  decide (2 ≤ (cs.take 2).foldl (fun n c => n + c.utf8Size) 0)

def readTwoDigits (tens : Nat) : StampReader Nat := fun cs =>
  match cs with
  | a :: b :: rest =>
    if isDigit a && isDigit b then
      if tens < digitValue a then .error .outOfRange
      else .ok (digitValue a * 10 + digitValue b, rest)
    else .error .invalid
  | cs => .error (if hasTwoBytes cs then .invalid else .tooShort)

/-- Whether a colon or a blank, which may stand between hours and minutes of an offset. -/
def isOffsetMark (c : Char) : Bool := c == ':' || isBlank c

def isLetter (upper : Char) (c : Char) : Bool := c == upper || c.toUpper == upper

/-- How many seconds local time is ahead of universal time. -/
def readOffset : StampReader Int := fun cs =>
  match cs with
  | a :: b :: c :: rest =>
    if isLetter 'U' a && isLetter 'T' b && isLetter 'C' c then .ok (0, rest)
    else signed cs
  | _ => signed cs
where
  signed : StampReader Int
    | [] => .error .tooShort
    | c :: rest =>
      if isLetter 'Z' c then .ok (0, rest)
      else if c = '+' then amount rest
      else if c = '-' ∨ c = '\u2212' then do
        let (n, rest) ← amount rest
        .ok (-n, rest)
      else .error .invalid
  amount : StampReader Int := fun cs => do
    let (hours, rest) ← readTwoDigits 9 cs
    let (minutes, rest) ← readTwoDigits 5 (rest.dropWhile isOffsetMark)
    .ok (((hours * 3600 + minutes * 60 : Nat) : Int), rest)

/-- A date and a time of day as they are written, and the offset of the clock. -/
structure LocalStamp where
  year : Int
  month : Nat
  day : Nat
  hour : Nat
  minute : Nat
  second : Nat
  nano : Nat
  offset : Int

/-- The parts of a written instant. -/
def readStamp : StampReader LocalStamp := fun cs => do
  let (year, cs) ← readYear cs
  if year < -2147483648 ∨ 2147483647 < year then .error .outOfRange
  let ((), cs) ← readMark '-' cs
  let (month, cs) ← readPart 1 12 cs
  let ((), cs) ← readMark '-' cs
  let (day, cs) ← readPart 1 31 cs
  let ((), cs) ← readSeparator cs
  let (hour, cs) ← readPart 0 23 cs
  let ((), cs) ← readMark ':' cs
  let (minute, cs) ← readPart 0 59 cs
  let ((), cs) ← readMark ':' cs
  let (second, cs) ← readPart 0 60 cs
  let (nano, cs) ← readFraction cs
  let (offset, cs) ← readOffset (dropBlanks cs)
  .ok (⟨year, month, day, hour, minute, second, nano, offset⟩, cs)

/-- Whether years are counted that far. -/
def inCalendar (year : Int) : Bool := decide (-262143 ≤ year) && decide (year ≤ 262142)

/-- The instant moved back by a number of seconds, of less than a day and without a part of a
minute. -/
def Instant.ofLocal? (date : Date) (second nano : Nat) (offset : Int) : Option Instant :=
  let moved : Int := (second : Int) - offset
  let (date, moved) : Date × Int :=
    if moved < 0 then (date.previous, moved + secondsPerDay)
    else if (secondsPerDay : Int) ≤ moved then (date.next, moved - secondsPerDay)
    else (date, moved)
  if h : moved.toNat < secondsPerDay ∧ nano < 2 * nanosPerSec ∧
      (nanosPerSec ≤ nano → moved.toNat % 60 = 59) then
    some ⟨date, moved.toNat, nano, h.1, h.2.1, h.2.2⟩
  else none

def LocalStamp.instant (s : LocalStamp) : Except StampFault Instant :=
  if h : isDate s.year s.month s.day then
    if !inCalendar s.year || decide (86400 ≤ s.offset.natAbs) then .error .outOfRange
    else
      let leap := if s.second = 60 then 1 else 0
      let second := s.hour * 3600 + s.minute * 60 + (s.second - leap)
      match Instant.ofLocal? ⟨s.year, s.month, s.day, h⟩ second (s.nano + leap * nanosPerSec)
          s.offset with
      | some t => if inCalendar t.date.year then .ok t else .error .impossible
      | none => .error .impossible
  else .error .outOfRange

def Instant.parse (s : String) : Except StampFault Instant := do
  let (stamp, rest) ← readStamp s.toList
  if (dropBlanks rest).isEmpty then stamp.instant else .error .tooLong

end ProxyTiming.Time
