import ProxyTiming.Proofs.Json.Reading

/-!
# Written objects are read

An object is read by a step for each of its members, which takes the name, the colon and the
value.  What a step does with one member is put together to what is done with all of them
(`Handled`); the order of the members is that of the text.

A record reads its own members back if each of its fields does, and if no two of them have the
same name.  A field that is left out is read back by the value that it has when it is absent.
-/

namespace ProxyTiming.Json

namespace Reader

variable {α β : Type} {room levels : Nat} {rest gap cs : List Char} {a : α} {b b' b'' : β}
  {r : Reader α} {v : Value} {key : String} {ms : List (String × Value)}

/-! ### Members -/

/-- A step takes the member `key` with this document, and leads from `b` to `b'`. -/
structure Handles (levels : Nat) (step : β → Reader β) (key : String) (v : Value)
    (b b' : β) : Prop where
  exact : v.Exact
  takes {room : Nat} {gap cs rest : List Char} : levels < room → Blanks gap → Written v cs →
    Delimited rest →
      step b room (Value.stringChars key ++ (gap ++ ':' :: (cs ++ rest))) = .ok (b', rest)

inductive Handled (levels : Nat) (step : β → Reader β) :
    List (String × Value) → β → β → Prop where
  | nil (b : β) : Handled levels step [] b b
  | cons {key : String} {v : Value} {ms : List (String × Value)} {b b' b'' : β}
      (member : Handles levels step key v b b') (rest : Handled levels step ms b' b'') :
      Handled levels step ((key, v) :: ms) b b''

variable {step : β → Reader β}

theorem Handled.exact (h : Handled levels step ms b b') : (Value.object ms).Exact := by
  refine .object ?_
  induction h with
  | nil => exact nofun
  | cons member _ ih => exact List.forall_mem_cons.mpr ⟨member.exact, ih⟩

theorem colon_token (blank : Blanks gap) : colon room (gap ++ ':' :: rest) = .ok ((), rest) := by
  rw [colon]
  exact bind_of_ok (peekToken_token (c := ':') blank (by decide)) _

theorem name_stringChars (key : String) (rest : List Char) :
    name room (Value.stringChars key ++ rest) = .ok (key, rest) := by
  rw [Value.stringChars, List.cons_append, List.append_assoc]
  exact stringBody_chars key

/-- The usual step: behind the name it takes the colon and a value. -/
theorem Reads.member (h : r.Reads levels v a) (next : α → β)
    (behind : ∀ room cs, step b room (Value.stringChars key ++ cs) =
      (colon >>= fun _ => r >>= fun a => Pure.pure (next a)) room cs) :
    Handles levels step key v b (next a) where
  exact := h.exact
  takes hroom blank hcs hrest := by
    rw [behind, bind_of_ok (colon_token blank), bind_of_ok (h.takes hroom hcs hrest)]
    rfl

theorem moreMembers_close {first : Bool} {body : List Char} (h : WrittenMembers first [] body)
    (rest : List Char) : moreMembers first room (body ++ rest) = .ok (false, '\x7d' :: rest) := by
  cases h with
  | close blank =>
      rw [List.append_assoc, moreMembers]
      exact bind_of_ok (peekToken_token (c := '\x7d') blank (by decide)) _

theorem moreMembers_first (room : Nat) (blank : Blanks gap) (tail : List Char) :
    moreMembers true room (gap ++ '"' :: tail) = .ok (true, '"' :: tail) := by
  rw [moreMembers]
  exact bind_of_ok (peekToken_token blank (by decide)) _

theorem moreMembers_comma (room : Nat) {gap' : List Char} (blank : Blanks gap)
    (blank' : Blanks gap') (tail : List Char) :
    moreMembers false room (gap ++ ',' :: (gap' ++ '"' :: tail)) = .ok (true, '"' :: tail) := by
  have hpeek : peekToken room (gap' ++ '"' :: tail) = .ok (some '"', '"' :: tail) :=
    peekToken_token blank' (by decide)
  rw [moreMembers, bind_of_ok (peekToken_token blank (by decide))]
  change (if ',' = ',' then skip >>= fun _ => peekToken >>= _
    else malformed .expectedObjectCommaOrEnd : Reader Bool) room _ = _
  rw [if_pos rfl, bind_of_ok (rfl : skip room (',' :: _) = .ok ((), gap' ++ '"' :: tail))]
  exact bind_of_ok hpeek _

/-- In front of a member the comma before it is taken, and the blanks. -/
theorem moreMembers_member (room : Nat) {first : Bool} {body : List Char}
    (h : WrittenMembers first ((key, v) :: ms) body) (rest : List Char) :
    ∃ gap cs more, Blanks gap ∧ Written v cs ∧ WrittenMembers false ms more ∧
      moreMembers first room (body ++ rest) =
        .ok (true, Value.stringChars key ++ (gap ++ ':' :: (cs ++ (more ++ rest)))) := by
  cases h with
  | @member _ _ _ gap gap' cs more blank blank' value next =>
      refine ⟨gap', cs, more, blank', value, next, ?_⟩
      have hfirst := moreMembers_first room blank
        (key.toList.flatMap Value.escaped ++ ['"'] ++ (gap' ++ ':' :: (cs ++ (more ++ rest))))
      simpa [Value.stringChars] using hfirst
  | @comma _ _ gap₀ _ blank₀ next =>
      cases next with
      | @member _ _ _ gap gap' cs more blank blank' value next =>
          refine ⟨gap', cs, more, blank', value, next, ?_⟩
          have hcomma := moreMembers_comma room blank₀ blank
            (key.toList.flatMap Value.escaped ++ ['"'] ++ (gap' ++ ':' :: (cs ++ (more ++ rest))))
          simpa [Value.stringChars] using hcomma

theorem length_le_of_writtenMembers {first : Bool} {body : List Char}
    (h : WrittenMembers first ms body) : ms.length ≤ body.length := by
  induction ms generalizing first body with
  | nil => exact Nat.zero_le _
  | cons m ms ih =>
      have hmember {body : List Char} (h : WrittenMembers true (m :: ms) body) :
          (m :: ms).length ≤ body.length := by
        cases h with
        | member blank blank' value next =>
            have hle := ih next
            simp only [List.length_append, List.length_cons]
            omega
      cases first with
      | true => exact hmember h
      | false =>
          cases h with
          | comma blank next =>
              have hle := hmember next
              simp only [List.length_append, List.length_cons] at hle ⊢
              omega

/-- The members are taken one by one, up to the brace at the end. -/
theorem membersFrom_written (each : Handled levels step ms b b') {first : Bool} {body : List Char}
    (h : WrittenMembers first ms body) (hroom : levels < room) {fuel : Nat}
    (hfuel : ms.length < fuel) (rest : List Char) :
    membersFrom step fuel first b room (body ++ rest) =
      .ok (b', '\x7d' :: rest) := by
  induction each generalizing first body fuel with
  | nil =>
      obtain ⟨fuel, rfl⟩ := Nat.exists_eq_add_one.mpr (Nat.zero_lt_of_lt hfuel)
      rw [membersFrom]
      exact bind_of_ok (moreMembers_close h rest) _
  | @cons key _ _ b _ _ member _ ih =>
      obtain ⟨fuel, rfl⟩ := Nat.exists_eq_add_one.mpr (Nat.zero_lt_of_lt hfuel)
      obtain ⟨gap, cs, more, blank, value, next, hmore⟩ := moreMembers_member room h rest
      rw [membersFrom, bind_of_ok hmore, if_pos rfl,
        bind_of_ok (member.takes hroom blank value (next.delimited rest))]
      exact ih next (Nat.lt_of_succ_lt_succ hfuel)

theorem members_written (each : Handled levels step ms b b') {body : List Char}
    (h : WrittenMembers true ms body) (hroom : levels < room) (rest : List Char) :
    members step b room (body ++ rest) = .ok (b', rest) := by
  have hlength := length_le_of_writtenMembers h
  have hfuel : ms.length < (body ++ rest).length + 1 := by
    rw [List.length_append]
    omega
  rw [members, bind_of_ok (rfl : remaining room (body ++ rest) = .ok (body ++ rest, body ++ rest)),
    bind_of_ok (membersFrom_written each h hroom hfuel rest)]
  rfl

/-- An object is read behind its opening brace, one level further in. -/
theorem reads_object {r : Reader α} (inner : Reader α)
    (enters : ∀ room gap rest, Blanks gap →
      r room (gap ++ '\x7b' :: rest) = nested inner room ('\x7b' :: rest))
    (exact : (Value.object ms).Exact)
    (hinner : ∀ room body rest, levels < room → WrittenMembers true ms body →
      inner room ('\x7b' :: (body ++ rest)) = .ok (a, rest)) :
    r.Reads (levels + 1) (.object ms) a where
  exact := exact
  takes {room cs rest} hroom hcs _ := by
    cases hcs with
    | @object gap body _ blank members =>
        rw [List.append_assoc, List.cons_append, enters _ _ _ blank, nested_of_lt hroom]
        exact hinner (room - 1) body rest (Nat.lt_sub_of_add_lt hroom) members

/-! ### Tables -/

section

variable {τ : Type} {insert : τ → String → α → τ}

def entryStep (r : Reader α) (insert : τ → String → α → τ) (t : τ) : Reader τ := do
  let key ← name
  colon
  let a ← r
  pure (insert t key a)

theorem reads_table {empty t : τ} (each : Handled levels (entryStep r insert) ms empty t) :
    (table name r insert empty).Reads (levels + 1) (.object ms) t := by
  refine reads_object (skip >>= fun _ => members (entryStep r insert) empty)
    (fun room gap rest blank => ?_) each.exact
    (fun room body rest hroom h => members_written each h hroom rest)
  exact bind_of_ok (valueStart_token (c := '\x7b') blank (by decide)) _

/-- The entries of a table are added one after the other. -/
theorem handled_entries {write : α → Value} {entries : List (String × α)}
    (each : ∀ e ∈ entries, r.Reads levels (write e.2) e.2) (t : τ) :
    Handled levels (entryStep r insert) (entries.map fun (key, a) => (key, write a)) t
      (entries.foldl (fun t e => insert t e.1 e.2) t) := by
  induction entries generalizing t with
  | nil => exact .nil t
  | cons e entries ih =>
      obtain ⟨he, hentries⟩ := List.forall_mem_cons.mp each
      refine .cons (he.member (insert t e.1) fun room cs => ?_) (ih hentries _)
      exact bind_of_ok (name_stringChars e.1 cs) _

end

end Reader

/-! ### Records -/

open Reader

/-- What a field has written is read back; and if it has written nothing, then the value is the
one of a field that is not there. -/
def RecordField.ReadsBack {α : Type} (levels : Nat) (field : RecordField α) (a : α) : Prop :=
  match field.write a with
  | some v => field.read.Reads levels v a
  | none => field.absent = some a

namespace Fields

variable {α π ρ : Type} {levels room : Nat} {fields : Fields π ρ}

def ReadsBack (levels : Nat) : {π ρ : Type} → Fields π ρ → ρ → Prop
  | _, _, .nil, _ => True
  | _, _, .cons field more, (a, rest) => field.ReadsBack levels a ∧ more.ReadsBack levels rest

def keys : {π ρ : Type} → Fields π ρ → List String
  | _, _, .nil => []
  | _, _, .cons field more => field.key :: more.keys

/-- What is known of a record when all members that it writes have been read. -/
def known : {π ρ : Type} → Fields π ρ → ρ → π
  | _, _, .nil, _ => ()
  | _, _, .cons field more, (a, rest) => ((field.write a).map fun _ => a, more.known rest)

theorem key_mem_of_mem_writeMembers {r : ρ} {m : String × Value}
    (h : m ∈ fields.writeMembers r) : m.1 ∈ fields.keys := by
  induction fields with
  | nil => cases h
  | cons field more ih =>
      obtain ⟨a, r⟩ := r
      rw [keys, List.mem_cons]
      rw [writeMembers] at h
      split at h
      · rcases List.mem_cons.mp h with rfl | h
        · exact .inl rfl
        · exact .inr (ih h)
      · exact .inr (ih h)

theorem readMember_first {α : Type} (field : RecordField α) (more : Fields π ρ) (known : π) :
    (cons field more).readMember field.key (none, known) = (do
      colon
      let a ← field.read
      Pure.pure (some a, known)) := by
  rw [readMember, if_pos rfl]

theorem readMember_other {α : Type} {field : RecordField α} {key : String} (h : key ≠ field.key)
    (more : Fields π ρ) (slot : Option α) (known : π) :
    (cons field more).readMember key (slot, known) = (do
      let known ← more.readMember key known
      Pure.pure (slot, known)) := by
  rw [readMember.eq_def]
  exact if_neg h

theorem complete_cons {α : Type} {field : RecordField α} {more : Fields π ρ} {slot : Option α}
    {known : π} {a : α} (h : slot.or field.absent = some a) :
    (cons field more).complete (slot, known) = (do
      let rest ← more.complete known
      Pure.pure (a, rest)) := by
  cases slot with
  | some b =>
      obtain rfl : b = a := Option.some.inj h
      rw [complete]
  | none =>
      replace h : field.absent = some a := h
      rw [complete, h]

def memberStep (fields : Fields π ρ) (known : π) : Reader π := do
  let key ← name
  fields.readMember key known

theorem memberStep_name (known : π) (key : String) (cs : List Char) :
    fields.memberStep known room (Value.stringChars key ++ cs) =
      fields.readMember key known room cs :=
  bind_of_ok (name_stringChars key cs) _

/-- A member of the first field fills its slot. -/
theorem handles_first {field : RecordField α} {v : Value} {a : α} (more : Fields π ρ)
    (h : field.read.Reads levels v a) (known : π) :
    Handles levels (Fields.cons field more).memberStep field.key v (none, known)
      (some a, known) := by
  refine h.member (fun a => (some a, known)) fun room cs => ?_
  rw [memberStep_name, readMember_first]

/-- Members of the other fields leave the slot of the first one as it is. -/
theorem handled_others {field : RecordField α} {more : Fields π ρ} {ms : List (String × Value)}
    {known known' : π} (h : Handled levels more.memberStep ms known known')
    (hkeys : ∀ m ∈ ms, m.1 ≠ field.key) (slot : Option α) :
    Handled levels (Fields.cons field more).memberStep ms (slot, known) (slot, known') := by
  induction h with
  | nil known => exact .nil _
  | cons member _ ih =>
      obtain ⟨hkey, hkeys⟩ := List.forall_mem_cons.mp hkeys
      refine .cons ⟨member.exact, fun hroom blank hcs hrest => ?_⟩ (ih hkeys)
      have htaken := member.takes hroom blank hcs hrest
      rw [memberStep_name] at htaken ⊢
      rw [readMember_other hkey]
      exact bind_of_ok htaken _

/-- The members that a record writes make everything known about it that has been written. -/
theorem handled_writeMembers (distinct : fields.keys.Nodup) {r : ρ}
    (h : fields.ReadsBack levels r) :
    Handled levels fields.memberStep (fields.writeMembers r) fields.blank (fields.known r) := by
  induction fields with
  | nil => exact .nil _
  | cons field more ih =>
      obtain ⟨a, r⟩ := r
      obtain ⟨hfield, hmore⟩ := h
      rw [keys, List.nodup_cons] at distinct
      have hothers (slot : Option _) : Handled levels (Fields.cons field more).memberStep
          (more.writeMembers r) (slot, more.blank) (slot, more.known r) :=
        handled_others (ih distinct.2 hmore) (fun m hm hkey =>
          distinct.1 (hkey ▸ key_mem_of_mem_writeMembers hm)) slot
      rw [RecordField.ReadsBack] at hfield
      rw [writeMembers, blank, known]
      cases hwrite : field.write a with
      | some v =>
          rw [hwrite] at hfield
          exact .cons (handles_first more hfield _) (hothers (some a))
      | none => exact hothers none

/-- What is left out is filled in, and the record is complete. -/
theorem complete_known {r : ρ} (h : fields.ReadsBack levels r) (cs : List Char) :
    fields.complete (fields.known r) room cs = .ok (r, cs) := by
  induction fields with
  | nil => rfl
  | cons field more ih =>
      obtain ⟨a, r⟩ := r
      obtain ⟨hfield, hmore⟩ := h
      have hslot : ((field.write a).map fun _ => a).or field.absent = some a := by
        rw [RecordField.ReadsBack] at hfield
        cases hwrite : field.write a with
        | some v => rfl
        | none =>
            rw [hwrite] at hfield
            exact hfield
      rw [known, complete_cons hslot]
      exact bind_of_ok (ih hmore) _

end Fields

namespace Codec

variable {α π ρ : Type} {levels : Nat} {c : Codec α} {a : α} {key : String}

/-- A record is read back if its fields are and no two of them have the same name. -/
theorem readsBack_record {fields : Fields π ρ} {r : ρ} (title : String)
    (distinct : fields.keys.Nodup) (h : fields.ReadsBack levels r) :
    (record title fields).ReadsBack (levels + 1) r := by
  have each := Fields.handled_writeMembers distinct h
  refine reads_object fields.readObject (fun room gap rest blank => ?_) each.exact
    (fun room body rest hroom hbody => ?_)
  · exact bind_of_ok (valueStart_token (c := '\x7b') blank (by decide)) _
  · refine (bind_of_ok (members_written each hbody hroom rest) _).trans ?_
    exact Fields.complete_known h rest

theorem ReadsBack.field (h : c.ReadsBack levels a) (key : String) :
    (field key c).ReadsBack levels a := h

theorem ReadsBack.fieldWithDefault (h : c.ReadsBack levels a) (key : String) (absent : α) :
    (fieldWithDefault key c absent).ReadsBack levels a := h

/-- A value that is left out when it is absent, and that is never written as the absent one. -/
theorem readsBack_optionalField {o : Option α} (h : ∀ a ∈ o, c.ReadsBack levels a)
    (present : ∀ a ∈ o, c.write a ≠ .null) (key : String) :
    (optionalField key c).ReadsBack levels o := by
  cases o with
  | none => rfl
  | some a => exact Reads.some (h a rfl) (present a rfl)

theorem readsBack_optionalString (key : String) (s : Option String) :
    (optionalField key string).ReadsBack levels s :=
  readsBack_optionalField (fun s _ => (readsBack_string s).mono (Nat.zero_le levels))
    (fun _ _ => nofun) key

end Codec

end ProxyTiming.Json
