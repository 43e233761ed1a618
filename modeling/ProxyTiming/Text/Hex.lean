/-!
# Texts and bytes

Texts travel as UTF-8, and the bytes of a text as a list are the form in which
messages are composed and taken apart.  Bytes are shown as two lower-case
hexadecimal digits each, and some numbers in base sixteen.
-/

namespace ProxyTiming.Text

def utf8 (s : String) : List UInt8 := s.toUTF8.data.toList

def ofUtf8? (bytes : List UInt8) : Option String :=
  String.fromUTF8? ⟨bytes.toArray⟩

theorem ofUtf8?_utf8 (s : String) : ofUtf8? (utf8 s) = some s := by
  have hbytes : (⟨(utf8 s).toArray⟩ : ByteArray) = s.toUTF8 := by
    rw [utf8, Array.toArray_toList]
  rw [ofUtf8?, hbytes, String.fromUTF8?, String.toUTF8_eq_toByteArray, dif_pos s.isValidUTF8]
  rfl

/-! ### Hexadecimal texts -/

def hexDigit (n : Nat) : Char := Nat.digitChar (n % 16)

def hexValue? (c : Char) : Option Nat :=
  if '0' ≤ c ∧ c ≤ '9' then some (c.toNat - '0'.toNat)
  else if 'a' ≤ c ∧ c ≤ 'f' then some (c.toNat - 'a'.toNat + 10)
  else if 'A' ≤ c ∧ c ≤ 'F' then some (c.toNat - 'A'.toNat + 10)
  else none

def hexByte (b : UInt8) : List Char := [hexDigit (b.toNat / 16), hexDigit b.toNat]

def hexChars (bytes : List UInt8) : List Char := bytes.flatMap hexByte

def hex (bytes : List UInt8) : String := String.ofList (hexChars bytes)

def unhexChars? : List Char → Option (List UInt8)
  | [] => some []
  | [_] => none
  | high :: low :: rest => do
    let h ← hexValue? high
    let l ← hexValue? low
    let bytes ← unhexChars? rest
    some (UInt8.ofNat (h * 16 + l) :: bytes)

def unhex? (s : String) : Option (List UInt8) := unhexChars? s.toList

def hexNumber (n : Nat) : String := String.ofList (Nat.toDigits 16 n)

/-- A byte as it is shown in messages: `0x` and two digits. -/
def hexLiteral (b : UInt8) : String := "0x" ++ String.ofList (hexByte b)

end ProxyTiming.Text
