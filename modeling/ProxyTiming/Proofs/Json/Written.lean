import ProxyTiming.Json.Reader
import ProxyTiming.Json.Value
import ProxyTiming.Proofs.Text.Decimal

/-!
# Written documents

Where a text has blanks between its tokens says nothing about the document.  `Written` relates
a document to all the texts in which it is laid out in one way or another, with any blanks of
the grammar in front of a token; the compact and the pretty form are two of these layouts.
Whatever is read back from every layout is read back from both forms, and from a text that
somebody has indented in their own way.

The doubles are left out, since a double is not always read back.  Documents without doubles
are *exact*.
-/

namespace ProxyTiming.Json

def Blanks (gap : List Char) : Prop := ∀ c ∈ gap, Reader.isBlank c = true

theorem blanks_nil : Blanks [] := fun _ h => nomatch h

theorem blanks_space : Blanks [' '] := by
  intro c h
  obtain rfl := List.mem_singleton.mp h
  rfl

theorem blanks_newline (level : Nat) : Blanks (Value.newline level) := by
  intro c h
  rcases List.mem_cons.mp h with rfl | h
  · decide
  · rw [List.eq_of_mem_replicate h]
    decide

mutual

/-- A document, laid out in some way, perhaps with blanks in front of it. -/
inductive Written : Value → List Char → Prop where
  | null {gap : List Char} (blank : Blanks gap) : Written .null (gap ++ "null".toList)
  | bool {gap : List Char} (blank : Blanks gap) (b : Bool) :
      Written (.bool b) (gap ++ (if b then "true" else "false").toList)
  | integer {gap : List Char} (blank : Blanks gap) (n : Int) :
      Written (.number (.integer n)) (gap ++ (toString n).toList)
  | string {gap : List Char} (blank : Blanks gap) (s : String) :
      Written (.string s) (gap ++ Value.stringChars s)
  | array {gap body : List Char} {items : List Value} (blank : Blanks gap)
      (rest : WrittenItems true items body) : Written (.array items) (gap ++ '[' :: body)
  | object {gap body : List Char} {members : List (String × Value)} (blank : Blanks gap)
      (rest : WrittenMembers true members body) : Written (.object members) (gap ++ '\x7b' :: body)

/-- The elements of a list up to its end, from the first one on or from the comma behind it. -/
inductive WrittenItems : Bool → List Value → List Char → Prop where
  | close {first : Bool} {gap : List Char} (blank : Blanks gap) :
      WrittenItems first [] (gap ++ [']'])
  | item {v : Value} {vs : List Value} {cs more : List Char} (value : Written v cs)
      (rest : WrittenItems false vs more) : WrittenItems true (v :: vs) (cs ++ more)
  | comma {v : Value} {vs : List Value} {gap body : List Char} (blank : Blanks gap)
      (rest : WrittenItems true (v :: vs) body) :
      WrittenItems false (v :: vs) (gap ++ ',' :: body)

inductive WrittenMembers : Bool → List (String × Value) → List Char → Prop where
  | close {first : Bool} {gap : List Char} (blank : Blanks gap) :
      WrittenMembers first [] (gap ++ ['\x7d'])
  | member {key : String} {v : Value} {ms : List (String × Value)}
      {gap gap' cs more : List Char} (blank : Blanks gap) (blank' : Blanks gap')
      (value : Written v cs) (rest : WrittenMembers false ms more) :
      WrittenMembers true ((key, v) :: ms)
        (gap ++ Value.stringChars key ++ (gap' ++ ':' :: (cs ++ more)))
  | comma {m : String × Value} {ms : List (String × Value)} {gap body : List Char}
      (blank : Blanks gap) (rest : WrittenMembers true (m :: ms) body) :
      WrittenMembers false (m :: ms) (gap ++ ',' :: body)

end

inductive Value.Exact : Value → Prop where
  | null : Exact .null
  | bool (b : Bool) : Exact (.bool b)
  | integer (n : Int) : Exact (.number (.integer n))
  | string (s : String) : Exact (.string s)
  | array {items : List Value} (each : ∀ v ∈ items, Exact v) : Exact (.array items)
  | object {members : List (String × Value)} (each : ∀ m ∈ members, Exact m.2) :
      Exact (.object members)

namespace Value

variable {v : Value} {items : List Value} {members : List (String × Value)} {level : Nat}

theorem exact_nat (n : Nat) : (nat n).Exact := .integer n

/-! ### The compact form -/

theorem writtenItems_compact (each : ∀ v ∈ items, Written v v.compactChars) :
    WrittenItems true items (compactItems items ++ [']']) := by
  induction items with
  | nil =>
      rw [compactItems]
      exact .close blanks_nil
  | cons v rest ih =>
      obtain ⟨hv, hrest⟩ := List.forall_mem_cons.mp each
      cases rest with
      | nil =>
          rw [compactItems]
          exact .item hv (.close blanks_nil)
      | cons w rest =>
          rw [compactItems, List.append_assoc]
          · exact .item hv (.comma blanks_nil (ih hrest))
          · exact List.cons_ne_nil w rest

theorem writtenMembers_compact (each : ∀ m ∈ members, Written m.2 m.2.compactChars) :
    WrittenMembers true members (compactMembers members ++ ['\x7d']) := by
  induction members with
  | nil =>
      rw [compactMembers]
      exact .close blanks_nil
  | cons m rest ih =>
      obtain ⟨key, v⟩ := m
      obtain ⟨hv, hrest⟩ := List.forall_mem_cons.mp each
      cases rest with
      | nil =>
          rw [compactMembers]
          have hmember : WrittenMembers true [(key, v)] _ :=
            .member blanks_nil blanks_nil hv (.close blanks_nil)
          simpa using hmember
      | cons w rest =>
          rw [compactMembers]
          · have hmember : WrittenMembers true ((key, v) :: w :: rest) _ :=
              .member blanks_nil blanks_nil hv (.comma blanks_nil (ih hrest))
            simpa using hmember
          · exact List.cons_ne_nil w rest

theorem written_compactChars (exact : v.Exact) : Written v v.compactChars := by
  induction exact with
  | null => rw [compactChars]; exact .null blanks_nil
  | bool b => rw [compactChars]; exact .bool blanks_nil b
  | integer n => rw [compactChars]; exact .integer blanks_nil n
  | string s => rw [compactChars]; exact .string blanks_nil s
  | array each ih => rw [compactChars]; exact .array blanks_nil (writtenItems_compact ih)
  | object each ih => rw [compactChars]; exact .object blanks_nil (writtenMembers_compact ih)

/-! ### The pretty form -/

/-- Blanks may be put in front of a document. -/
theorem written_append {gap cs : List Char} (blank : Blanks gap) (h : Written v cs) :
    Written v (gap ++ cs) := by
  have hall {gap' : List Char} (blank' : Blanks gap') : Blanks (gap ++ gap') := fun c hc =>
    (List.mem_append.mp hc).elim (blank c) (blank' c)
  cases h with
  | null blank' => rw [← List.append_assoc]; exact .null (hall blank')
  | bool blank' b => rw [← List.append_assoc]; exact .bool (hall blank') b
  | integer blank' n => rw [← List.append_assoc]; exact .integer (hall blank') n
  | string blank' s => rw [← List.append_assoc]; exact .string (hall blank') s
  | array blank' rest => rw [← List.append_assoc]; exact .array (hall blank') rest
  | object blank' rest => rw [← List.append_assoc]; exact .object (hall blank') rest

theorem writtenItems_pretty (level : Nat)
    (each : ∀ v ∈ items, ∀ level, Written v (v.prettyChars level)) {gap : List Char}
    (blank : Blanks gap) :
    WrittenItems false items (prettyItems level items ++ (gap ++ [']'])) := by
  induction items with
  | nil =>
      rw [prettyItems]
      exact .close blank
  | cons v rest ih =>
      obtain ⟨hv, hrest⟩ := List.forall_mem_cons.mp each
      have hitem := written_append (blanks_newline level) (hv level)
      simpa [prettyItems] using WrittenItems.comma blanks_nil (.item hitem (ih hrest))

theorem writtenMembers_pretty (level : Nat)
    (each : ∀ m ∈ members, ∀ level, Written m.2 (m.2.prettyChars level)) {gap : List Char}
    (blank : Blanks gap) :
    WrittenMembers false members (prettyMembers level members ++ (gap ++ ['\x7d'])) := by
  induction members with
  | nil =>
      rw [prettyMembers]
      exact .close blank
  | cons m rest ih =>
      obtain ⟨key, v⟩ := m
      obtain ⟨hv, hrest⟩ := List.forall_mem_cons.mp each
      have hvalue := written_append blanks_space (hv level)
      have hmember : WrittenMembers false ((key, v) :: rest) _ :=
        .comma blanks_nil (.member (blanks_newline level) blanks_nil hvalue (ih hrest))
      simpa [prettyMembers] using hmember

theorem written_prettyChars (exact : v.Exact) (level : Nat) : Written v (v.prettyChars level) := by
  induction exact generalizing level with
  | null => rw [prettyChars]; exact .null blanks_nil
  | bool b => rw [prettyChars]; exact .bool blanks_nil b
  | integer n => rw [prettyChars]; exact .integer blanks_nil n
  | string s => rw [prettyChars]; exact .string blanks_nil s
  | @array items each ih =>
      cases items with
      | nil => rw [prettyChars]; exact .array blanks_nil (.close blanks_nil)
      | cons v rest =>
          obtain ⟨hv, hrest⟩ := List.forall_mem_cons.mp ih
          have hitem := written_append (blanks_newline (level + 1)) (hv (level + 1))
          simpa [prettyChars] using Written.array blanks_nil
            (.item hitem (writtenItems_pretty (level + 1) hrest (blanks_newline level)))
  | @object members each ih =>
      cases members with
      | nil => rw [prettyChars]; exact .object blanks_nil (.close blanks_nil)
      | cons m rest =>
          obtain ⟨key, v⟩ := m
          obtain ⟨hv, hrest⟩ := List.forall_mem_cons.mp ih
          have hvalue := written_append blanks_space (hv (level + 1))
          have hobject : Written (.object ((key, v) :: rest)) _ :=
            .object blanks_nil (.member (blanks_newline (level + 1)) blanks_nil hvalue
              (writtenMembers_pretty (level + 1) hrest (blanks_newline level)))
          simpa [prettyChars] using hobject

/-- The text of a document in either form is a layout of it. -/
theorem written_pretty (exact : v.Exact) : Written v v.pretty.toList := by
  rw [pretty, String.toList_ofList]
  exact written_prettyChars exact 0

theorem written_compact (exact : v.Exact) : Written v v.compact.toList := by
  rw [compact, String.toList_ofList]
  exact written_compactChars exact

end Value

end ProxyTiming.Json
