import ProxyTiming.Text.Hex

/-!
# Hexadecimal digits are read back
-/

namespace ProxyTiming.Text

theorem hexValue?_digitChar : ∀ n < 16, hexValue? (Nat.digitChar n) = some n := by decide

/-- The digit of a number has the number's last sixteenth as its value. -/
theorem hexValue?_hexDigit (n : Nat) : hexValue? (hexDigit n) = some (n % 16) :=
  hexValue?_digitChar (n % 16) (Nat.mod_lt n (by decide))

/-- Bytes are read back from their digits. -/
theorem unhexChars?_hexChars (bytes : List UInt8) : unhexChars? (hexChars bytes) = some bytes := by
  induction bytes with
  | nil => rfl
  | cons b bytes ih =>
      have hb : UInt8.ofNat (b.toNat / 16 % 16 * 16 + b.toNat % 16) = b := by
        have hlt := b.toNat_lt
        rw [show b.toNat / 16 % 16 * 16 + b.toNat % 16 = b.toNat by omega, UInt8.ofNat_toNat]
      rw [hexChars, List.flatMap_cons, hexByte, List.cons_append, List.cons_append, unhexChars?]
      simp only [hexValue?_hexDigit, Option.bind_eq_bind, Option.bind_some, List.nil_append]
      rw [← hexChars, ih, Option.bind_some, hb]

theorem length_hexChars (bytes : List UInt8) : (hexChars bytes).length = 2 * bytes.length := by
  induction bytes with
  | nil => rfl
  | cons b bytes ih =>
      rw [hexChars, List.flatMap_cons, List.length_append, ← hexChars, ih, List.length_cons]
      simp only [hexByte, List.length_cons, List.length_nil]
      omega

end ProxyTiming.Text
