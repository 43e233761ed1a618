import ProxyTiming.Json.Codec

/-!
# What reading can yield

Whatever the text is, a value that a reader takes off it has the form that the reader allows: a
whole number is in its range, the elements of a list are values of the reader of the elements,
and a component of a record is a value of its field's reader or the one that the field has when
it is absent.  None of this depends on how the text is laid out, on the order of members or on
whether a record stands there as an object or as a list.
-/

namespace ProxyTiming.Json

namespace Reader

variable {α β : Type} {a : α} {b : β} {r : Reader α}

/-- There is a text off which the reader takes this value. -/
def Yields (r : Reader α) (a : α) : Prop :=
  ∃ room cs rest, r room cs = .ok (a, rest)

/-! ### Steps -/

theorem yields_bind {f : α → Reader β} (h : (r >>= f).Yields b) :
    ∃ a, r.Yields a ∧ (f a).Yields b := by
  obtain ⟨room, cs, rest, h⟩ := h
  rw [bind_apply] at h
  cases hr : r room cs with
  | error e =>
      rw [hr] at h
      cases h
  | ok taken =>
      obtain ⟨a, behind⟩ := taken
      rw [hr] at h
      exact ⟨a, ⟨room, cs, behind, hr⟩, room, behind, rest, h⟩

theorem yields_pure {a' : α} (h : (Pure.pure a : Reader α).Yields a') : a' = a := by
  obtain ⟨room, cs, rest, h⟩ := h
  cases h
  rfl

theorem not_yields_fail (fault : Fault) (a : α) : ¬ (fail fault : Reader α).Yields a := by
  rintro ⟨room, cs, rest, h⟩
  cases h

theorem yields_map {f : α → β} (h : (f <$> r).Yields b) : ∃ a, r.Yields a ∧ b = f a := by
  obtain ⟨a, ha, hb⟩ := yields_bind h
  exact ⟨a, ha, yields_pure hb⟩

theorem yields_nested (h : (nested r).Yields a) : r.Yields a := by
  obtain ⟨room, cs, rest, h⟩ := h
  rw [nested] at h
  split at h
  · cases h
  · exact ⟨room - 1, cs, rest, h⟩

/-- What stands in the place of a value of another kind never becomes a value. -/
theorem not_yields_unexpected (expected : String) (a : α) :
    ¬ (unexpected expected : Reader α).Yields a := by
  intro h
  obtain ⟨c, -, h⟩ := yields_bind h
  -- For a literal, a string and a number more is read, but only to describe it.
  have hliteral {cs : List Char} {fault : Fault} :
      ¬ (skip >>= fun _ => literal cs >>= fun _ => fail fault : Reader α).Yields a := by
    intro h
    obtain ⟨-, -, h⟩ := yields_bind h
    obtain ⟨-, -, h⟩ := yields_bind h
    exact not_yields_fail _ _ h
  split at h
  · exact hliteral h
  · exact hliteral h
  · exact hliteral h
  · obtain ⟨-, -, h⟩ := yields_bind h
    obtain ⟨s, -, h⟩ := yields_bind h
    exact not_yields_fail _ _ h
  · exact not_yields_fail _ _ h
  · exact not_yields_fail _ _ h
  · split at h
    · obtain ⟨n, -, h⟩ := yields_bind h
      cases n <;> exact not_yields_fail _ _ h
    · exact not_yields_fail _ _ h
  · exact not_yields_fail _ _ h

/-! ### Scalars -/

theorem le_of_yields_natural {limit n : Nat} {expected : String}
    (h : (natural limit expected).Yields n) : n ≤ limit := by
  obtain ⟨k, -, h⟩ := yields_bind h
  cases k with
  | float x => exact absurd h (not_yields_fail _ _)
  | integer k =>
      dsimp only at h
      split at h
      · rename_i hk
        rw [yields_pure h]
        omega
      · exact absurd h (not_yields_fail _ _)

/-! ### Lists -/

theorem yields_itemsFrom {fuel : Nat} {first : Bool} {as : List α}
    (h : (itemsFrom r fuel first).Yields as) : ∀ a ∈ as, r.Yields a := by
  induction fuel generalizing first as with
  | zero => exact absurd h (not_yields_fail _ _)
  | succ fuel ih =>
      obtain ⟨more, -, h⟩ := yields_bind h
      cases more with
      | true =>
          obtain ⟨a, ha, h⟩ := yields_bind h
          obtain ⟨rest, hrest, h⟩ := yields_bind h
          rw [yields_pure h]
          exact List.forall_mem_cons.mpr ⟨ha, ih hrest⟩
      | false =>
          obtain ⟨-, -, h⟩ := yields_bind h
          rw [yields_pure h]
          exact nofun

theorem yields_list {as : List α} (h : r.list.Yields as) : ∀ a ∈ as, r.Yields a := by
  obtain ⟨c, -, h⟩ := yields_bind h
  split at h
  · obtain ⟨-, -, h⟩ := yields_bind (yields_nested h)
    obtain ⟨cs, -, h⟩ := yields_bind h
    exact yields_itemsFrom h
  · exact absurd h (not_yields_unexpected _ _)

/-! ### Members -/

/-- What each step keeps is kept over all members of an object. -/
theorem yields_membersFrom {step : β → Reader β} {P : β → Prop}
    (kept : ∀ b b', P b → (step b).Yields b' → P b') {fuel : Nat} {first : Bool} {b b' : β}
    (start : P b) (h : (membersFrom step fuel first b).Yields b') : P b' := by
  induction fuel generalizing first b with
  | zero => exact absurd h (not_yields_fail _ _)
  | succ fuel ih =>
      obtain ⟨more, -, h⟩ := yields_bind h
      cases more with
      | true =>
          obtain ⟨next, hnext, h⟩ := yields_bind h
          exact ih (kept b next start hnext) h
      | false =>
          rw [yields_pure h]
          exact start

theorem yields_members {step : β → Reader β} {P : β → Prop}
    (kept : ∀ b b', P b → (step b).Yields b' → P b') {b b' : β} (start : P b)
    (h : (members step b).Yields b') : P b' := by
  obtain ⟨cs, -, h⟩ := yields_bind h
  obtain ⟨last, hlast, h⟩ := yields_bind h
  obtain ⟨-, -, h⟩ := yields_bind h
  rw [yields_pure h]
  exact yields_membersFrom kept start hlast

end Reader

open Reader

/-! ### Records -/

def RecordField.Yields {α : Type} (field : RecordField α) (a : α) : Prop :=
  field.read.Yields a ∨ field.absent = some a

namespace Fields

variable {π ρ : Type}

/-- Every component is one that its field may have. -/
def Yields : {π ρ : Type} → Fields π ρ → ρ → Prop
  | _, _, .nil, _ => True
  | _, _, .cons field more, (a, rest) => field.Yields a ∧ more.Yields rest

def Known : {π ρ : Type} → Fields π ρ → π → Prop
  | _, _, .nil, _ => True
  | _, _, .cons field more, (slot, known) =>
    (∀ a ∈ slot, field.read.Yields a) ∧ more.Known known

theorem known_blank (fields : Fields π ρ) : fields.Known fields.blank := by
  induction fields with
  | nil => trivial
  | cons field more ih => exact ⟨nofun, ih⟩

theorem known_readMember {fields : Fields π ρ} {key : String} {known known' : π}
    (start : fields.Known known) (h : (fields.readMember key known).Yields known') :
    fields.Known known' := by
  induction fields with
  | nil => trivial
  | cons field more ih =>
      obtain ⟨slot, known⟩ := known
      obtain ⟨hslot, hknown⟩ := start
      rw [readMember.eq_def] at h
      dsimp only at h
      split at h
      · cases slot with
        | some a => exact absurd h (not_yields_fail _ _)
        | none =>
            obtain ⟨-, -, h⟩ := yields_bind h
            obtain ⟨a, ha, h⟩ := yields_bind h
            rw [yields_pure h]
            refine ⟨?_, hknown⟩
            rintro _ ⟨⟩
            exact ha
      · obtain ⟨next, hnext, h⟩ := yields_bind h
        rw [yields_pure h]
        exact ⟨hslot, ih hknown hnext⟩

theorem yields_complete {fields : Fields π ρ} {known : π} {r : ρ} (start : fields.Known known)
    (h : (fields.complete known).Yields r) : fields.Yields r := by
  induction fields with
  | nil => trivial
  | cons field more ih =>
      obtain ⟨slot, known⟩ := known
      obtain ⟨hslot, hknown⟩ := start
      rw [complete.eq_def] at h
      dsimp only at h
      split at h
      · exact absurd h (not_yields_fail _ _)
      · rename_i a hcomponent
        obtain ⟨rest, hrest, h⟩ := yields_bind h
        rw [yields_pure h]
        refine ⟨?_, ih hknown hrest⟩
        cases slot with
        | some a' =>
            obtain rfl : a' = a := Option.some.inj hcomponent
            exact .inl (hslot a' rfl)
        | none => exact .inr hcomponent

theorem yields_readItems {fields : Fields π ρ} {expected : String} {index : Nat} {first : Bool}
    {r : ρ} (h : (fields.readItems expected index first).Yields r) : fields.Yields r := by
  induction fields generalizing index first with
  | nil => trivial
  | cons field more ih =>
      obtain ⟨present, -, h⟩ := yields_bind h
      cases present with
      | true =>
          obtain ⟨a, ha, h⟩ := yields_bind h
          obtain ⟨rest, hrest, h⟩ := yields_bind h
          rw [yields_pure h]
          exact ⟨.inl ha, ih hrest⟩
      | false =>
          rw [if_neg Bool.false_ne_true] at h
          split at h
          · exact absurd h (not_yields_fail _ _)
          · rename_i a habsent
            obtain ⟨rest, hrest, h⟩ := yields_bind h
            rw [yields_pure h]
            exact ⟨.inr habsent, ih hrest⟩

theorem yields_readObject {fields : Fields π ρ} {r : ρ} (h : fields.readObject.Yields r) :
    fields.Yields r := by
  obtain ⟨-, -, h⟩ := yields_bind h
  obtain ⟨known, hknown, h⟩ := yields_bind h
  have hstart : fields.Known known := by
    refine yields_members (fun known known' start h => ?_) fields.known_blank hknown
    obtain ⟨key, -, h⟩ := yields_bind h
    exact known_readMember start h
  exact yields_complete hstart h

/-- A record that was read, in whichever form, has components that its fields may have. -/
theorem yields_read {fields : Fields π ρ} {title : String} {r : ρ}
    (h : (fields.read title).Yields r) : fields.Yields r := by
  obtain ⟨c, -, h⟩ := yields_bind h
  split at h
  · obtain ⟨-, -, h⟩ := yields_bind (yields_nested h)
    obtain ⟨r', hr, h⟩ := yields_bind h
    obtain ⟨-, -, h⟩ := yields_bind h
    rw [yields_pure h]
    exact yields_readItems hr
  · exact yields_readObject (yields_nested h)
  · exact absurd h (not_yields_unexpected _ _)

end Fields

/-! ### Codecs -/

namespace Codec

variable {α β π ρ : Type} {c : Codec α}

theorem yields_of_decode {a : α} {text : String} (h : c.decode text = .ok a) : c.read.Yields a := by
  rw [decode, Reader.document] at h
  split at h
  · rename_i a' rest hread
    obtain rfl : a' = a := Except.ok.inj h
    obtain ⟨a, ha, hend⟩ := yields_bind ⟨_, _, _, hread⟩
    obtain ⟨c, -, hend⟩ := yields_bind hend
    cases c with
    | none =>
        rw [yields_pure hend]
        exact ha
    | some c => exact absurd hend (not_yields_fail _ _)
  · cases h

theorem le_of_yields_count {n : Nat} (h : count.read.Yields n) : n ≤ maxUnsigned :=
  le_of_yields_natural h

theorem le_of_yields_unsigned {n : Nat} (h : unsigned.read.Yields n) : n ≤ maxUnsigned :=
  le_of_yields_natural h

theorem yields_field {key : String} {a : α} (h : (field key c).Yields a) : c.read.Yields a :=
  h.resolve_right nofun

theorem yields_fieldWithDefault {key : String} {absent a : α}
    (h : (fieldWithDefault key c absent).Yields a) : c.read.Yields a ∨ a = absent :=
  h.imp_right fun h => (Option.some.inj h).symm

/-- A value of a codec that stands for a record. -/
theorem yields_record {title : String} {fields : Fields π ρ} {make : ρ → β} {parts : β → ρ} {b : β}
    (h : ((record title fields).map make parts).read.Yields b) :
    ∃ r, fields.Yields r ∧ b = make r := by
  obtain ⟨r, hr, rfl⟩ := yields_map h
  exact ⟨r, Fields.yields_read hr, rfl⟩

end Codec

end ProxyTiming.Json
