/-!
# Response heads

Of a response only the head is read, and of the head only the status matters; but
the whole head has to be there and in order.  Interim responses are passed over.

What a client has read of a response may be the whole head, may break the rules,
or may be too short to tell.  The three cases are kept apart, because what follows
from the third depends on whether more can come.
-/

namespace ProxyTiming.Http

inductive ResponseFault where
  | version
  | status
  | header
  | tooLarge
  | transferEncoding
  | contentLength
  /-- The connection ended before the head did. -/
  | incomplete
  /-- The request was given up before any of it was sent. -/
  | canceled
deriving DecidableEq

def ResponseFault.message : ResponseFault → String
  | version => "invalid HTTP version parsed"
  | status => "invalid HTTP status-code parsed"
  | header => "invalid HTTP header parsed"
  | tooLarge => "message head is too large"
  | transferEncoding => "unexpected transfer-encoding parsed"
  | contentLength => "invalid content-length parsed"
  | incomplete => "connection closed before message completed"
  | canceled => "operation was canceled"

/-- Why reading stopped. -/
inductive Halt where
  | short
  | fault (f : ResponseFault)
deriving DecidableEq

/-- Takes a part off the front of the bytes. -/
abbrev Scan (α : Type) := List UInt8 → Except Halt (α × List UInt8)

/-! ### Bytes -/

def cr : UInt8 := 13

def lf : UInt8 := 10

def sp : UInt8 := 32

def byteOf (c : Char) : UInt8 := UInt8.ofNat c.toNat

def isDigitByte (b : UInt8) : Bool := decide (48 ≤ b.toNat) && decide (b.toNat ≤ 57)

def isNameByte (b : UInt8) : Bool :=
  let n := b.toNat
  isDigitByte b || (decide (65 ≤ n) && decide (n ≤ 90)) || (decide (94 ≤ n) && decide (n ≤ 122)) ||
    (decide (35 ≤ n) && decide (n ≤ 39)) || n == 33 || n == 42 || n == 43 || n == 45 || n == 46 ||
    n == 124 || n == 126

def isValueByte (b : UInt8) : Bool :=
  let n := b.toNat
  n == 9 || (decide (32 ≤ n) && decide (n ≠ 127))

/-! ### Lines -/

def expect (b : UInt8) (f : ResponseFault) : Scan Unit
  | [] => .error .short
  | c :: rest => if c = b then .ok ((), rest) else .error (.fault f)

/-- Bytes that may stand in a value, and the end of their line. -/
def valueLine (f : ResponseFault) : Scan (List UInt8)
  | [] => .error .short
  | b :: rest =>
    if b = lf then .ok ([], rest)
    else if b = cr then
      match expect lf f rest with
      | .ok ((), rest) => .ok ([], rest)
      | .error e => .error e
    else if isValueByte b then
      match valueLine f rest with
      | .ok (value, rest) => .ok (b :: value, rest)
      | .error e => .error e
    else .error (.fault f)

/-- Empty lines, which are passed over. -/
def skipEmptyLines : Scan Unit
  | [] => .error .short
  | b :: rest =>
    if b = lf then skipEmptyLines rest
    else if b = cr then
      match rest with
      | [] => .error .short
      | c :: rest => if c = lf then skipEmptyLines rest else .error (.fault .header)
    else .ok ((), b :: rest)

/-! ### The status line -/

/-- The marks of the protocol, up to the minor version. -/
def versionMarks : List UInt8 := "HTTP/1.".toList.map byteOf

/-- Whether a short text can still become a version. -/
def canBecomeVersion (bs : List UInt8) : Bool := bs.isPrefixOf versionMarks

def minorVersion : Scan Nat := fun bs =>
  if bs.length < 8 then
    if canBecomeVersion bs then .error .short else .error (.fault .version)
  else if versionMarks.isPrefixOf bs then
    match bs.drop 7 with
    | b :: rest =>
      if b = byteOf '0' then .ok (0, rest)
      else if b = byteOf '1' then .ok (1, rest)
      else .error (.fault .version)
    | [] => .error .short
  else .error (.fault .version)

def statusDigit : Scan Nat
  | [] => .error .short
  | b :: rest => if isDigitByte b then .ok (b.toNat - 48, rest) else .error (.fault .status)

def reason : Scan Unit
  | [] => .error .short
  | b :: rest =>
    if b = sp then
      match valueLine .status rest with
      | .ok (_, rest) => .ok ((), rest)
      | .error e => .error e
    else if b = cr then expect lf .status rest
    else if b = lf then .ok ((), rest)
    else .error (.fault .status)

/-! ### Headers -/

def headerName : Scan (List UInt8)
  | [] => .error .short
  | b :: rest =>
    if b = byteOf ':' then .ok ([], rest)
    else if isNameByte b then
      match headerName rest with
      | .ok (name, rest) => .ok (b :: name, rest)
      | .error e => .error e
    else .error (.fault .header)

structure Header where
  name : List UInt8
  value : List UInt8
deriving DecidableEq

def maxHeaders : Nat := 100

/-- Headers up to the empty line, of which there is room for so many. -/
def headers : Nat → Scan (List Header) := fun room bs =>
  match bs with
  | [] => .error .short
  | b :: rest =>
    if b = lf then .ok ([], rest)
    else if b = cr then
      match expect lf .header rest with
      | .ok ((), rest) => .ok ([], rest)
      | .error e => .error e
    else
      match room with
      | 0 => .error (.fault .tooLarge)
      | room + 1 =>
        if isNameByte b then
          match headerName (b :: rest) with
          | .error e => .error e
          | .ok (name, rest) =>
            match valueLine .header rest with
            | .error e => .error e
            | .ok (value, rest) =>
              match headers room rest with
              | .error e => .error e
              | .ok (more, rest) => .ok (⟨name, value⟩ :: more, rest)
        else .error (.fault .header)

/-! ### Heads -/

structure Head where
  minor : Nat
  status : Nat
  headers : List Header
deriving DecidableEq

def readHead : Scan Head := fun bs => do
  let ((), bs) ← skipEmptyLines bs
  let (minor, bs) ← minorVersion bs
  let ((), bs) ← expect sp .version bs
  let (a, bs) ← statusDigit bs
  let (b, bs) ← statusDigit bs
  let (c, bs) ← statusDigit bs
  let ((), bs) ← reason bs
  let (hs, bs) ← headers maxHeaders bs
  let status := a * 100 + b * 10 + c
  if status < 100 then .error (.fault .status) else .ok (⟨minor, status, hs⟩, bs)

def lowerByte (b : UInt8) : UInt8 :=
  if 65 ≤ b.toNat ∧ b.toNat ≤ 90 then UInt8.ofNat (b.toNat + 32) else b

/-- The values of the headers of a name, which is in lower case. -/
def Head.values (h : Head) (name : String) : List (List UInt8) :=
  (h.headers.filter fun x => x.name.map lowerByte == name.toList.map byteOf).map Header.value

def splitCommas : List UInt8 → List (List UInt8)
  | [] => [[]]
  | b :: rest =>
    if b = byteOf ',' then [] :: splitCommas rest
    else
      match splitCommas rest with
      | part :: more => (b :: part) :: more
      | [] => [[b]]

def isSpaceByte (b : UInt8) : Bool := b == sp || b.toNat == 9

/-- The length that a part of a header announces, if it is one of 64 bits. -/
def length? (part : List UInt8) : Option Nat :=
  let digits := ((part.dropWhile isSpaceByte).reverse.dropWhile isSpaceByte).reverse
  if digits.isEmpty || !digits.all isDigitByte then none
  else
    let n := digits.foldl (fun n b => n * 10 + (b.toNat - 48)) 0
    if 18446744073709551615 < n then none else some n

def isPlain (value : List UInt8) : Bool :=
  value.all fun b => b.toNat == 9 || (decide (32 ≤ b.toNat) && decide (b.toNat < 127))

/-- The one length that all parts announce. -/
def agreedLength? : List (List UInt8) → Option Nat
  | [] => none
  | [part] => length? part
  | part :: rest =>
    match length? part, agreedLength? rest with
    | some n, some m => if n = m then some n else none
    | _, _ => none

/-- Whether the body of a response could be told from its head. -/
def Head.check (h : Head) : Except ResponseFault Unit :=
  if h.status = 101 ∨ h.status = 204 ∨ h.status = 304 then .ok ()
  else if !(h.values "transfer-encoding").isEmpty then
    if h.minor = 0 then .error .transferEncoding else .ok ()
  else
    let lengths := h.values "content-length"
    if lengths.isEmpty then .ok ()
    else if !lengths.all isPlain then .error .contentLength
    else
      match agreedLength? (lengths.flatMap splitCommas) with
      | none => .error .contentLength
      | some n => if 18446744073709551613 < n then .error .tooLarge else .ok ()

/-- Whether a response only announces another one. -/
def Head.isInterim (h : Head) : Bool :=
  decide (100 ≤ h.status) && decide (h.status < 200) && decide (h.status ≠ 101)

def maxHeadLength : Nat := 417792

/-- The status of the final response.  Every interim response takes bytes, so that their number
is fuel enough. -/
def finalStatus : Nat → List UInt8 → Except Halt UInt16
  | 0, _ => .error .short
  | fuel + 1, bs =>
    match readHead bs with
    | .error .short =>
      if maxHeadLength ≤ bs.length then .error (.fault .tooLarge) else .error .short
    | .error (.fault f) => .error (.fault f)
    | .ok (h, rest) =>
      if h.isInterim then finalStatus fuel rest
      else
        match h.check with
        | .ok () => .ok (UInt16.ofNat h.status)
        | .error f => .error (.fault f)

def responseStatus (bs : List UInt8) : Except Halt UInt16 := finalStatus (bs.length + 1) bs

end ProxyTiming.Http
