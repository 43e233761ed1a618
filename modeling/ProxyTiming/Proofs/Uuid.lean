import ProxyTiming.Proofs.Text.Hex
import ProxyTiming.Uuid

/-!
# Written identifiers are read back

The form of a text is told by its number of bytes, and the five groups of a written identifier
have thirty-six; so it is read as groups, by the places of its hyphens.
-/

namespace ProxyTiming.Uuid

open ProxyTiming.Text

theorem byteCount_of_ascii {cs : List Char} (h : ∀ c ∈ cs, c.utf8Size = 1) :
    byteCount cs = cs.length := by
  have hfold (n : Nat) : cs.foldl (fun n c => n + c.utf8Size) n = n + cs.length := by
    induction cs generalizing n with
    | nil => rfl
    | cons c cs ih =>
        obtain ⟨hc, hcs⟩ := List.forall_mem_cons.mp h
        rw [List.foldl_cons, hc, ih hcs, List.length_cons]
        omega
  rw [byteCount, hfold, Nat.zero_add]

theorem utf8Size_of_mem_hexChars {bytes : List UInt8} {c : Char} (h : c ∈ hexChars bytes) :
    c.utf8Size = 1 := by
  have hdigit : ∀ n < 16, (Nat.digitChar n).utf8Size = 1 := by decide
  obtain ⟨b, -, hc⟩ := List.mem_flatMap.mp h
  rw [hexByte, List.mem_cons, List.mem_singleton] at hc
  rcases hc with rfl | rfl <;> exact hdigit _ (Nat.mod_lt _ (by decide))

def grouped (digits : List Char) : List Char :=
  digits.take 8 ++ '-' :: ((digits.drop 8).take 4 ++ '-' :: ((digits.drop 12).take 4 ++
    '-' :: ((digits.drop 16).take 4 ++ '-' :: digits.drop 20)))

theorem length_grouped {digits : List Char} (h : digits.length = 32) :
    (grouped digits).length = 36 := by
  simp only [grouped, List.length_append, List.length_cons, List.length_take, List.length_drop, h]
  rfl

/-- The group in front of a hyphen, the hyphen, and what is behind it. -/
theorem group_append {n : Nat} {group : List Char} (h : group.length = n) (rest : List Char) :
    (group ++ '-' :: rest).take n = group ∧ (group ++ '-' :: rest)[n]? = some '-' ∧
      (group ++ '-' :: rest).drop (n + 1) = rest := by
  subst h
  simp

theorem take_append_drop_add (n k : Nat) (cs : List Char) :
    (cs.drop n).take k ++ cs.drop (n + k) = cs.drop n := by
  rw [← List.drop_drop, List.take_append_drop]

theorem ofGroups?_grouped {digits : List Char} (h : digits.length = 32) :
    ofGroups? (grouped digits) = ofDigits? digits := by
  have hdigits : digits.take 8 ++ (digits.drop 8).take 4 ++ (digits.drop 12).take 4 ++
      (digits.drop 16).take 4 ++ digits.drop 20 = digits := by
    rw [List.append_assoc, take_append_drop_add 16 4, List.append_assoc, take_append_drop_add 12 4,
      List.append_assoc, take_append_drop_add 8 4, List.take_append_drop]
  have hlength := length_grouped h
  -- Each group ends where the text behind the hyphen before it says.
  have hgroup (n : Nat) (hn : n ≤ 28) : ((digits.drop n).take 4).length = 4 := by
    rw [List.length_take, List.length_drop, h]
    omega
  have hfirst : (digits.take 8).length = 8 := by
    rw [List.length_take, h]
    rfl
  obtain ⟨htake₁, hhyphen₁, hdrop₁⟩ := group_append hfirst ((digits.drop 8).take 4 ++
    '-' :: ((digits.drop 12).take 4 ++ '-' :: ((digits.drop 16).take 4 ++ '-' :: digits.drop 20)))
  obtain ⟨htake₂, hhyphen₂, hdrop₂⟩ := group_append (hgroup 8 (by decide))
    ((digits.drop 12).take 4 ++ '-' :: ((digits.drop 16).take 4 ++ '-' :: digits.drop 20))
  obtain ⟨htake₃, hhyphen₃, hdrop₃⟩ := group_append (hgroup 12 (by decide))
    ((digits.drop 16).take 4 ++ '-' :: digits.drop 20)
  obtain ⟨htake₄, hhyphen₄, hdrop₄⟩ := group_append (hgroup 16 (by decide)) (digits.drop 20)
  rw [← grouped] at htake₁ hhyphen₁ hdrop₁
  rw [← hdrop₁, List.drop_drop] at hdrop₂
  rw [← hdrop₁] at htake₂
  rw [← hdrop₁, List.getElem?_drop] at hhyphen₂
  rw [← hdrop₂, List.drop_drop] at hdrop₃
  rw [← hdrop₂] at htake₃
  rw [← hdrop₂, List.getElem?_drop] at hhyphen₃
  rw [← hdrop₃, List.drop_drop] at hdrop₄
  rw [← hdrop₃] at htake₄
  rw [← hdrop₃, List.getElem?_drop] at hhyphen₄
  rw [ofGroups?, if_pos ⟨hlength, hhyphen₁, hhyphen₂, hhyphen₃, hhyphen₄⟩, htake₁, htake₂, htake₃,
    htake₄, hdrop₄, hdigits]

theorem byteCount_grouped {bytes : List UInt8} (h : (hexChars bytes).length = 32) :
    byteCount (grouped (hexChars bytes)) = 36 := by
  rw [byteCount_of_ascii, length_grouped h]
  intro c hc
  have hmem : c ∈ hexChars bytes ∨ c = '-' := by
    simp only [grouped, List.mem_append, List.mem_cons] at hc
    rcases hc with hc | rfl | hc | rfl | hc | rfl | hc | rfl | hc
    · exact .inl (List.mem_of_mem_take hc)
    · exact .inr rfl
    · exact .inl (List.mem_of_mem_drop (List.mem_of_mem_take hc))
    · exact .inr rfl
    · exact .inl (List.mem_of_mem_drop (List.mem_of_mem_take hc))
    · exact .inr rfl
    · exact .inl (List.mem_of_mem_drop (List.mem_of_mem_take hc))
    · exact .inr rfl
    · exact .inl (List.mem_of_mem_drop hc)
  rcases hmem with hc | rfl
  · exact utf8Size_of_mem_hexChars hc
  · rfl

theorem parse_text (u : Uuid) : Uuid.parse u.text = .ok u := by
  have hlength : (hexChars u.octets).length = 32 := by rw [length_hexChars, u.length_octets]
  have htext : u.text.toList = grouped (hexChars u.octets) := String.toList_ofList
  have hfound : ofGroups? (grouped (hexChars u.octets)) = some u := by
    rw [ofGroups?_grouped hlength, ofDigits?, unhexChars?_hexChars]
    exact dif_pos u.length_octets
  rw [parse, htext, parseChars, byteCount_grouped hlength, hfound]
  rfl

end ProxyTiming.Uuid
