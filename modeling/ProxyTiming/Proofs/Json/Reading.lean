import Mathlib.Data.List.Forall2
import Mathlib.Tactic.SplitIfs
import ProxyTiming.Json.Any
import ProxyTiming.Json.Codec
import ProxyTiming.Proofs.Json.Written
import ProxyTiming.Proofs.Text.Hex

/-!
# Written documents are read

A reader *reads* a document as a value if it takes the value off the front of every layout of
the document and leaves exactly what stands behind it.  The statement carries a number of
levels, the containers for which there has to be room.  Behind the document there may stand
anything with which a number does not go on (`Delimited`); in a document this is a blank, a
comma or the end of a container.

There is one lemma for each reader, whose hypotheses speak of the readers that it is made of.
This module has the scalars, optional values, alternatives and lists.
-/

namespace ProxyTiming.Json

open ProxyTiming.Text

namespace Reader

variable {α β : Type} {room levels : Nat} {rest gap cs : List Char} {c : Char} {a : α}

/-! ### Steps -/

theorem bind_of_ok {r : Reader α} {cs rest : List Char} (h : r room cs = .ok (a, rest))
    (f : α → Reader β) : (r >>= f) room cs = f a room rest := by
  rw [bind_apply, h]

theorem map_of_ok {r : Reader α} {cs rest : List Char} (h : r room cs = .ok (a, rest))
    (f : α → β) : (f <$> r) room cs = .ok (f a, rest) :=
  bind_of_ok h _

theorem nested_of_lt (h : levels + 1 < room) (r : Reader α) (cs : List Char) :
    nested r room cs = r (room - 1) cs :=
  if_neg (by omega)

theorem peekToken_token (blank : Blanks gap) (token : isBlank c = false) :
    peekToken room (gap ++ c :: rest) = .ok (some c, c :: rest) := by
  have hdrop : (gap ++ c :: rest).dropWhile isBlank = c :: rest := by
    rw [List.dropWhile_append_of_pos blank, List.dropWhile_cons_of_neg (by simp [token])]
  rw [peekToken, hdrop]
  rfl

theorem valueStart_token (blank : Blanks gap) (token : isBlank c = false) :
    valueStart room (gap ++ c :: rest) = .ok (c, c :: rest) := by
  rw [valueStart, bind_of_ok (peekToken_token blank token)]
  rfl

end Reader

/-! ### Where a document starts -/

def Value.Starts : Value → Char → Prop
  | .null, c => c = 'n'
  | .bool b, c => c = if b then 't' else 'f'
  | .number _, c => c = '-' ∨ isDigit c = true
  | .string _, c => c = '"'
  | .array _, c => c = '['
  | .object _, c => c = '\x7b'

theorem Value.Starts.token {v : Value} {c : Char} (h : v.Starts c) :
    Reader.isBlank c = false ∧ c ≠ ']' ∧ c ≠ '\x7d' ∧ (c = 'n' → v = .null) := by
  have hdigit (n : Number) (h : (Value.number n).Starts c) :
      Reader.isBlank c = false ∧ c ≠ ']' ∧ c ≠ '\x7d' ∧ c ≠ 'n' := by
    rcases h with rfl | h
    · decide
    · refine ⟨?_, ?_, ?_, ?_⟩
      · rw [Bool.eq_false_iff]
        intro hblank
        simp only [Reader.isBlank, Bool.or_eq_true, beq_iff_eq] at hblank
        obtain ((rfl | rfl) | rfl) | rfl := hblank <;> cases h
      all_goals
        rintro rfl
        cases h
  cases v with
  | number n =>
      obtain ⟨hblank, hlist, hobject, hnull⟩ := hdigit n h
      exact ⟨hblank, hlist, hobject, fun hn => absurd hn hnull⟩
  | bool b =>
      cases b <;> obtain rfl : c = _ := h <;>
        exact ⟨by decide, by decide, by decide, fun h => by cases h⟩
  | null => obtain rfl : c = _ := h; exact ⟨by decide, by decide, by decide, fun _ => rfl⟩
  | string s => obtain rfl : c = _ := h; exact ⟨by decide, by decide, by decide, nofun⟩
  | array items => obtain rfl : c = _ := h; exact ⟨by decide, by decide, by decide, nofun⟩
  | object members => obtain rfl : c = _ := h; exact ⟨by decide, by decide, by decide, nofun⟩

theorem exists_cons_toString (n : Int) :
    ∃ c tail, (toString n).toList = c :: tail ∧ (c = '-' ∨ isDigit c = true) := by
  cases n with
  | ofNat m =>
      change ∃ c tail, (toString m).toList = c :: tail ∧ _
      cases hdigits : (toString m).toList with
      | nil => exact absurd hdigits (toString_ne_nil m)
      | cons c tail =>
          exact ⟨c, tail, rfl, .inr (isDigit_of_mem_toString (hdigits ▸ List.mem_cons_self))⟩
  | negSucc m =>
      refine ⟨'-', (toString (m + 1)).toList, ?_, .inl rfl⟩
      change ("-" ++ toString (m + 1)).toList = _
      rw [String.toList_append]
      rfl

/-- A written document is some blanks and then a token with which it may start. -/
theorem Written.exists_token {v : Value} {cs : List Char} (h : Written v cs) :
    ∃ gap c tail, Blanks gap ∧ cs = gap ++ c :: tail ∧ v.Starts c ∧ Written v (c :: tail) := by
  cases h with
  | null blank => exact ⟨_, _, _, blank, rfl, rfl, .null blanks_nil⟩
  | bool blank b =>
      cases b
      · exact ⟨_, _, _, blank, rfl, rfl, .bool blanks_nil false⟩
      · exact ⟨_, _, _, blank, rfl, rfl, .bool blanks_nil true⟩
  | integer blank n =>
      obtain ⟨c, tail, htext, hstart⟩ := exists_cons_toString n
      exact ⟨_, c, tail, blank, by rw [htext], hstart, htext ▸ .integer blanks_nil n⟩
  | string blank s => exact ⟨_, _, _, blank, rfl, rfl, .string blanks_nil s⟩
  | array blank rest => exact ⟨_, _, _, blank, rfl, rfl, .array blanks_nil rest⟩
  | object blank rest => exact ⟨_, _, _, blank, rfl, rfl, .object blanks_nil rest⟩

/-- A text with which a number does not go on. -/
def Delimited (rest : List Char) : Prop :=
  ∀ c ∈ rest.head?, isDigit c = false ∧ c ≠ '.' ∧ c ≠ 'e' ∧ c ≠ 'E'

theorem delimited_nil : Delimited [] := nofun

theorem delimited_of_blanks {gap rest : List Char} {c : Char} (blank : Blanks gap)
    (h : Delimited (c :: rest)) : Delimited (gap ++ c :: rest) := by
  cases gap with
  | nil => exact h
  | cons d gap =>
      have hd := blank d List.mem_cons_self
      simp only [Reader.isBlank, Bool.or_eq_true, beq_iff_eq] at hd
      intro c hc
      obtain rfl : d = c := Option.some.inj hc
      obtain ((rfl | rfl) | rfl) | rfl := hd <;> decide

theorem delimited_cons {c : Char} (h : c = ',' ∨ c = ']' ∨ c = '\x7d') (rest : List Char) :
    Delimited (c :: rest) := by
  intro d hd
  obtain rfl : c = d := Option.some.inj hd
  rcases h with rfl | rfl | rfl <;> decide

theorem WrittenItems.delimited {vs : List Value} {body : List Char}
    (h : WrittenItems false vs body) (rest : List Char) : Delimited (body ++ rest) := by
  cases h with
  | close blank =>
      rw [List.append_assoc]
      exact delimited_of_blanks blank (delimited_cons (.inr (.inl rfl)) _)
  | comma blank more =>
      rw [List.append_assoc]
      exact delimited_of_blanks blank (delimited_cons (.inl rfl) _)

theorem WrittenMembers.delimited {ms : List (String × Value)} {body : List Char}
    (h : WrittenMembers false ms body) (rest : List Char) : Delimited (body ++ rest) := by
  cases h with
  | close blank =>
      rw [List.append_assoc]
      exact delimited_of_blanks blank (delimited_cons (.inr (.inr rfl)) _)
  | comma blank more =>
      rw [List.append_assoc]
      exact delimited_of_blanks blank (delimited_cons (.inl rfl) _)

/-! ### Reading -/

/-- A reader takes a document for a value, however it is laid out, in the room for some levels of
containers. -/
structure Reader.Reads {α : Type} (levels : Nat) (r : Reader α) (v : Value) (a : α) : Prop where
  exact : v.Exact
  takes {room : Nat} {cs rest : List Char} : levels < room → Written v cs → Delimited rest →
    r room (cs ++ rest) = .ok (a, rest)

def Codec.ReadsBack {α : Type} (levels : Nat) (c : Codec α) (a : α) : Prop :=
  c.read.Reads levels (c.write a) a

namespace Reader

variable {α β : Type} {room levels : Nat} {rest gap cs : List Char} {a : α} {r : Reader α}
  {v : Value}

theorem Reads.mono {levels' : Nat} (h : r.Reads levels v a) (hle : levels ≤ levels') :
    r.Reads levels' v a :=
  ⟨h.exact, fun hroom => h.takes (Nat.lt_of_le_of_lt hle hroom)⟩

theorem Reads.map (h : r.Reads levels v a) (f : α → β) : (f <$> r).Reads levels v (f a) :=
  ⟨h.exact, fun hroom hcs hrest => map_of_ok (h.takes hroom hcs hrest) f⟩

/-- A whole text with nothing behind the document. -/
theorem Reads.document {text : String} (h : r.Reads levels v a) (hlevels : levels < maxDepth)
    (written : Written v text.toList) : r.document text = .ok a := by
  have hr := h.takes hlevels written delimited_nil
  rw [List.append_nil] at hr
  rw [Reader.document, bind_of_ok hr]
  rfl

/-! ### Strings -/

theorem escape_cons (c : Char) : escape room (c :: rest) =
    (match shortEscape? c with
      | some d => Pure.pure d
      | none => if c = 'u' then unicodeEscape else malformed .invalidEscape : Reader Char)
        room rest :=
  rfl

theorem escape_short {d : Char} (h : shortEscape? c = some d) :
    escape room (c :: rest) = .ok (d, rest) := by
  rw [escape_cons, h]
  rfl

theorem escape_control (h : c.toNat < 32) :
    escape room ('u' :: '0' :: '0' :: hexDigit (c.toNat / 16) :: hexDigit c.toNat :: rest) =
      .ok (c, rest) := by
  have hhex : hexEscape room ('0' :: '0' :: hexDigit (c.toNat / 16) :: hexDigit c.toNat :: rest) =
      .ok (c.toNat, rest) := by
    have hzero : hexValue? '0' = some 0 := by decide
    have hvalue : ((0 * 16 + 0) * 16 + c.toNat / 16 % 16) * 16 + c.toNat % 16 = c.toNat := by omega
    simp only [hexEscape, hzero, hexValue?_hexDigit, hvalue]
  have hchar : unicodeEscape room
      ('0' :: '0' :: hexDigit (c.toNat / 16) :: hexDigit c.toNat :: rest) = .ok (c, rest) := by
    rw [unicodeEscape, bind_of_ok hhex, if_neg (by omega), if_pos (by omega), Char.ofNat_toNat]
    rfl
  rw [escape_cons, (rfl : shortEscape? 'u' = none)]
  exact hchar

/-- A character of a string is taken in the form in which it is written. -/
theorem stringFrom_escaped (c : Char) (fuel : Nat) (done rest : List Char) :
    stringFrom (fuel + 1) done room (Value.escaped c ++ rest) =
      stringFrom fuel (c :: done) room rest := by
  have hshort (d e : Char) (h : shortEscape? d = some e) :
      stringFrom (fuel + 1) done room ('\\' :: d :: rest) =
        stringFrom fuel (e :: done) room rest :=
    bind_of_ok (escape_short h) fun d => stringFrom fuel (d :: done)
  unfold Value.escaped
  split_ifs with hquote hslash hb hf hn hr ht hcontrol
  · subst hquote; exact hshort _ _ rfl
  · subst hslash; exact hshort _ _ rfl
  · subst hb; exact hshort _ _ rfl
  · subst hf; exact hshort _ _ rfl
  · subst hn; exact hshort _ _ rfl
  · subst hr; exact hshort _ _ rfl
  · subst ht; exact hshort _ _ rfl
  · exact bind_of_ok (escape_control hcontrol) fun d => stringFrom fuel (d :: done)
  · change (if c = '"' then Pure.pure (String.ofList done.reverse)
      else if c = '\\' then escape >>= fun d => stringFrom fuel (d :: done)
      else if c.toNat < 32 then malformed .controlCharacter
      else stringFrom fuel (c :: done) : Reader String) room rest = _
    rw [if_neg hquote, if_neg hslash, if_neg hcontrol]

theorem stringFrom_chars (cs done : List Char) {fuel : Nat} (hfuel : cs.length < fuel) :
    stringFrom fuel done room (cs.flatMap Value.escaped ++ '"' :: rest) =
      .ok (String.ofList (done.reverse ++ cs), rest) := by
  induction cs generalizing done fuel with
  | nil =>
      obtain ⟨fuel, rfl⟩ := Nat.exists_eq_add_one.mpr hfuel
      rw [List.append_nil]
      rfl
  | cons c cs ih =>
      obtain ⟨fuel, rfl⟩ := Nat.exists_eq_add_one.mpr (Nat.zero_lt_of_lt hfuel)
      rw [List.flatMap_cons, List.append_assoc, stringFrom_escaped,
        ih (c :: done) (Nat.lt_of_succ_lt_succ hfuel), List.reverse_cons, List.append_assoc]
      rfl

theorem escaped_ne_nil (c : Char) : Value.escaped c ≠ [] := by
  unfold Value.escaped
  split_ifs <;> exact List.cons_ne_nil _ _

theorem length_le_flatMap_escaped (cs : List Char) :
    cs.length ≤ (cs.flatMap Value.escaped).length := by
  induction cs with
  | nil => exact Nat.le_refl 0
  | cons c cs ih =>
      have hpos := List.length_pos_iff.mpr (escaped_ne_nil c)
      rw [List.flatMap_cons, List.length_append, List.length_cons]
      omega

theorem stringBody_chars (s : String) :
    stringBody room (s.toList.flatMap Value.escaped ++ '"' :: rest) = .ok (s, rest) := by
  have hlength := length_le_flatMap_escaped s.toList
  rw [stringBody, bind_of_ok rfl, stringFrom_chars s.toList [], List.reverse_nil, List.nil_append,
    String.ofList_toList]
  rw [List.length_append, List.length_cons]
  omega

theorem stringExpecting_stringChars (expected : String) (blank : Blanks gap) (s : String) :
    stringExpecting expected room (gap ++ Value.stringChars s ++ rest) = .ok (s, rest) := by
  rw [Value.stringChars, List.append_assoc, List.cons_append, List.append_assoc, stringExpecting,
    bind_of_ok (valueStart_token blank (by decide))]
  exact stringBody_chars s

theorem reads_stringExpecting (expected s : String) :
    (stringExpecting expected).Reads 0 (.string s) s where
  exact := .string s
  takes _ hcs _ := by
    cases hcs with
    | string blank => exact stringExpecting_stringChars expected blank s

theorem reads_formatted {expected s : String} {parse : String → Except String α}
    (h : parse s = .ok a) : (formatted expected parse).Reads 0 (.string s) a where
  exact := .string s
  takes hroom hcs hrest := by
    rw [formatted, bind_of_ok ((reads_stringExpecting expected s).takes hroom hcs hrest), h]
    rfl

theorem reads_variantName {known : List String} {ofName : String → Option α} {s : String}
    (h : ofName s = some a) : (variantName known ofName).Reads 0 (.string s) a where
  exact := .string s
  takes hroom hcs hrest := by
    rw [variantName, bind_of_ok ((reads_stringExpecting _ s).takes hroom hcs hrest), h]
    rfl

theorem reads_variant {known : List String} {ofName : String → Option α} {s : String}
    (h : ofName s = some a) : (variant known ofName).Reads 0 (.string s) a where
  exact := .string s
  takes {room cs rest} hroom hcs hrest := by
    cases hcs with
    | @string gap blank =>
        have hname : variantName known ofName room (Value.stringChars s ++ rest) = .ok (a, rest) :=
          (reads_variantName h).takes hroom (.string blanks_nil s) hrest
        rw [List.append_assoc]
        exact (bind_of_ok (valueStart_token (c := '"') blank (by decide)) _).trans hname

/-! ### Numbers -/

theorem gather_of_le {n : Nat} (used : Nat) {ds : List Char} (h : digitsFrom n ds ≤ maxUnsigned) :
    gather n used ds = (digitsFrom n ds, used + ds.length, []) := by
  induction ds generalizing n used with
  | nil => rfl
  | cons c ds ih =>
      rw [digitsFrom_cons] at h
      have hle := le_digitsFrom (n * 10 + digitValue c) ds
      rw [gather, if_neg (by omega), ih _ h, digitsFrom_cons, List.length_cons, Nat.add_right_comm,
        Nat.add_assoc]

/-- Behind the digits of an integer nothing of it is left. -/
theorem integer_of_delimited {n : Nat} (hrest : Delimited rest) :
    (peek >>= fun
      | some '.' => skip >>= fun _ => decimalPart false n 0
      | some 'e' => skip >>= fun _ => exponentPart false n 0
      | some 'E' => skip >>= fun _ => exponentPart false n 0
      | _ => pure (.integer n) : Reader Number) room rest = .ok (.integer n, rest) := by
  rw [bind_of_ok (rfl : peek room rest = .ok (rest.head?, rest))]
  cases rest with
  | nil => rfl
  | cons c rest =>
      obtain ⟨-, hpoint, he, hE⟩ := hrest c rfl
      simp [hpoint, he, hE]
      rfl

/-- Digits that nothing follows are an integer. -/
theorem numberBody_digits (room : Nat) {n : Nat} (hn : n ≤ maxUnsigned) (hrest : Delimited rest) :
    numberBody false room ((toString n).toList ++ rest) = .ok (.integer n, rest) := by
  have hspan : digits room ((toString n).toList ++ rest) = .ok ((toString n).toList, rest) := by
    rw [digits, spanDigits_append (fun _ => isDigit_of_mem_toString) fun c hc => (hrest c hc).1]
  have hvalue : digitsFrom 0 (toString n).toList = n := digitsValue_toString n
  have hgather := gather_of_le 0 (by rwa [hvalue])
  rw [hvalue] at hgather
  rw [numberBody]
  refine (bind_of_ok hspan _).trans ?_
  refine Eq.trans (congrFun (congrFun ?_ room) rest) (integer_of_delimited hrest)
  split
  · rename_i hdigits
    exact absurd hdigits (toString_ne_nil n)
  · rename_i d cs hdigits
    exact absurd hdigits (toString_ne_leading_zero n d cs)
  · rw [hgather]
    rfl

theorem exists_cons_natural (n : Nat) : ∃ c tail, (toString n).toList = c :: tail ∧
    isDigit c = true ∧ isBlank c = false := by
  cases hdigits : (toString n).toList with
  | nil => exact absurd hdigits (toString_ne_nil n)
  | cons c tail =>
      have hc : isDigit c = true := isDigit_of_mem_toString (hdigits ▸ List.mem_cons_self)
      exact ⟨c, tail, rfl, hc, (Value.Starts.token (v := .nat n) (.inr hc)).1⟩

theorem number_toString (room : Nat) {n : Nat} (hn : n ≤ maxUnsigned) (hrest : Delimited rest) :
    number room ((toString n).toList ++ rest) = .ok (.integer n, rest) := by
  have hbody := numberBody_digits room hn hrest
  obtain ⟨c, tail, hdigits, hc, -⟩ := exists_cons_natural n
  have hsign : c ≠ '-' := by
    rintro rfl
    cases hc
  rw [hdigits] at hbody ⊢
  rw [number, bind_of_ok (rfl : peek room (c :: tail ++ rest) = .ok (some c, _))]
  simpa [hsign] using hbody

theorem reads_natural {limit n : Nat} (expected : String) (hn : n ≤ limit)
    (hlimit : limit ≤ maxUnsigned) : (natural limit expected).Reads 0 (.nat n) n where
  exact := Value.exact_nat n
  takes {room cs rest} _ hcs hrest := by
    cases hcs with
    | @integer gap blank =>
        have hnumber := number_toString room (Nat.le_trans hn hlimit) hrest
        obtain ⟨c, tail, hdigits, hc, htoken⟩ := exists_cons_natural n
        rw [hdigits] at hnumber
        have hexpecting : numberExpecting expected room (gap ++ (c :: tail ++ rest)) =
            .ok (.integer n, rest) := by
          rw [List.cons_append, numberExpecting, bind_of_ok (valueStart_token blank htoken),
            if_pos (.inr hc)]
          exact hnumber
        change natural limit expected room (gap ++ (toString n).toList ++ rest) = _
        rw [List.append_assoc, hdigits, natural, bind_of_ok hexpecting]
        dsimp only
        rw [if_pos ⟨Int.natCast_nonneg n, Int.ofNat_le.mpr hn⟩]
        rfl

theorem reads_bool (b : Bool) : bool.Reads 0 (.bool b) b where
  exact := .bool b
  takes _ hcs _ := by
    cases hcs with
    | bool blank =>
        cases b with
        | false =>
            rw [List.append_assoc, bool]
            exact bind_of_ok (valueStart_token (c := 'f') blank (by decide)) _
        | true =>
            rw [List.append_assoc, bool]
            exact bind_of_ok (valueStart_token (c := 't') blank (by decide)) _

/-! ### Values that are kept -/

theorem reads_any_string (s : String) : any.Reads 0 (.string s) (.string s) where
  exact := .string s
  takes {room cs rest} _ hcs _ := by
    cases hcs with
    | @string gap blank =>
        rw [Value.stringChars, List.append_assoc, List.cons_append, List.append_assoc]
        refine (bind_of_ok (valueStart_token (c := '"') blank (by decide)) _).trans ?_
        exact bind_of_ok (stringBody_chars s) _

theorem reads_any_natural {n : Nat} (hn : n ≤ maxUnsigned) : any.Reads 0 (.nat n) (.nat n) where
  exact := Value.exact_nat n
  takes {room cs rest} _ hcs hrest := by
    cases hcs with
    | @integer gap blank =>
        have hnumber := number_toString room hn hrest
        obtain ⟨c, tail, hdigits, hc, htoken⟩ := exists_cons_natural n
        rw [hdigits, List.cons_append] at hnumber
        change any room (gap ++ (toString n).toList ++ rest) = _
        rw [List.append_assoc, hdigits, List.cons_append]
        refine (bind_of_ok (valueStart_token blank htoken) _).trans ?_
        -- Of the characters that a value may start with, only those of numbers are digits.
        dsimp only
        split
        case h_7 =>
          rw [if_pos (.inr hc)]
          exact bind_of_ok hnumber _
        all_goals cases hc

/-! ### Optional values -/

theorem reads_none (r : Reader α) : r.option.Reads 0 .null none where
  exact := .null
  takes _ hcs _ := by
    cases hcs with
    | null blank =>
        rw [List.append_assoc, option]
        exact bind_of_ok (peekToken_token (c := 'n') blank (by decide)) _

theorem Reads.some (h : r.Reads levels v a) (present : v ≠ .null) :
    r.option.Reads levels v (some a) where
  exact := h.exact
  takes {room cs rest} hroom hcs hrest := by
    obtain ⟨gap, c, tail, blank, rfl, hstart, hwritten⟩ := hcs.exists_token
    obtain ⟨htoken, -, -, hnull⟩ := hstart.token
    have hr := map_of_ok (h.takes hroom hwritten hrest) Option.some
    have hn : c ≠ 'n' := fun hn => present (hnull hn)
    rw [List.append_assoc, List.cons_append, option, bind_of_ok (peekToken_token blank htoken)]
    simpa [hn] using hr

/-! ### Lists -/

theorem moreItems_close {first : Bool} {body : List Char} (h : WrittenItems first [] body)
    (rest : List Char) : moreItems first room (body ++ rest) = .ok (false, ']' :: rest) := by
  cases h with
  | close blank =>
      rw [List.append_assoc, moreItems]
      exact bind_of_ok (peekToken_token blank (by decide)) _

/-- In front of an element the comma before it is taken, and the blanks. -/
theorem moreItems_item (room : Nat) {first : Bool} {vs : List Value} {body : List Char}
    (h : WrittenItems first (v :: vs) body) (rest : List Char) :
    ∃ cs more, Written v cs ∧ WrittenItems false vs more ∧
      moreItems first room (body ++ rest) = .ok (true, cs ++ (more ++ rest)) := by
  cases h with
  | @item _ _ cs more value next =>
      obtain ⟨gap, c, tail, blank, rfl, hstart, hwritten⟩ := value.exists_token
      obtain ⟨htoken, hend, -, -⟩ := hstart.token
      refine ⟨c :: tail, more, hwritten, next, ?_⟩
      rw [List.append_assoc, List.append_assoc, List.cons_append, moreItems,
        bind_of_ok (peekToken_token blank htoken)]
      -- `hend` keeps the branch of the closing bracket away.
      simp
      rfl
  | comma blank next =>
      cases next with
      | @item _ _ cs more value next =>
          obtain ⟨gap, c, tail, blank', rfl, hstart, hwritten⟩ := value.exists_token
          obtain ⟨htoken, hend, -, -⟩ := hstart.token
          refine ⟨c :: tail, more, hwritten, next, ?_⟩
          have hpeek : peekToken room (gap ++ c :: (tail ++ (more ++ rest))) = .ok (some c, _) :=
            peekToken_token blank' htoken
          rw [List.append_assoc, List.cons_append, moreItems,
            bind_of_ok (peekToken_token blank (by decide))]
          simp [bind_apply, skip, hpeek]
          rfl

theorem endItems_close (rest : List Char) : endItems room (']' :: rest) = .ok ((), rest) := by
  rw [endItems]
  have hpeek : peekToken room (']' :: rest) = .ok (some ']', ']' :: rest) :=
    peekToken_token blanks_nil (by decide)
  exact bind_of_ok hpeek _

/-- The elements of a list are taken one by one, and its end. -/
theorem itemsFrom_written {vs : List Value} {as : List α}
    (each : List.Forall₂ (r.Reads levels) vs as) {first : Bool} {body : List Char}
    (h : WrittenItems first vs body) (hroom : levels < room) {fuel : Nat}
    (hfuel : vs.length < fuel) (rest : List Char) :
    itemsFrom r fuel first room (body ++ rest) = .ok (as, rest) := by
  induction each generalizing first body fuel with
  | nil =>
      obtain ⟨fuel, rfl⟩ := Nat.exists_eq_add_one.mpr (Nat.zero_lt_of_lt hfuel)
      rw [itemsFrom, bind_of_ok (moreItems_close h rest)]
      exact bind_of_ok (endItems_close rest) _
  | cons hv _ ih =>
      obtain ⟨fuel, rfl⟩ := Nat.exists_eq_add_one.mpr (Nat.zero_lt_of_lt hfuel)
      obtain ⟨cs, more, value, next, hmore⟩ := moreItems_item room h rest
      rw [itemsFrom, bind_of_ok hmore, if_pos rfl,
        bind_of_ok (hv.takes hroom value (next.delimited rest)),
        bind_of_ok (ih next (Nat.lt_of_succ_lt_succ hfuel))]
      rfl

theorem length_le_of_writtenItems {first : Bool} {vs : List Value} {body : List Char}
    (h : WrittenItems first vs body) : vs.length ≤ body.length := by
  induction vs generalizing first body with
  | nil => exact Nat.zero_le _
  | cons v vs ih =>
      have hitem {body : List Char} (h : WrittenItems true (v :: vs) body) :
          (v :: vs).length ≤ body.length := by
        cases h with
        | item value next =>
            obtain ⟨gap, c, tail, -, rfl, -, -⟩ := value.exists_token
            have hle := ih next
            simp only [List.length_append, List.length_cons]
            omega
      cases first with
      | true => exact hitem h
      | false =>
          cases h with
          | comma blank next =>
              have hle := hitem next
              simp only [List.length_append, List.length_cons] at hle ⊢
              omega

theorem reads_list {vs : List Value} {as : List α} (each : List.Forall₂ (r.Reads levels) vs as) :
    r.list.Reads (levels + 1) (.array vs) as where
  exact := by
    refine .array ?_
    induction each with
    | nil => exact nofun
    | cons hv _ ih => exact List.forall_mem_cons.mpr ⟨hv.exact, ih⟩
  takes {room cs rest} hroom hcs _ := by
    cases hcs with
    | @array gap body _ blank items =>
        have hlength := length_le_of_writtenItems items
        rw [List.append_assoc, List.cons_append, list,
          bind_of_ok (valueStart_token blank (by decide))]
        change nested _ room _ = _
        rw [nested_of_lt hroom]
        refine itemsFrom_written each items (Nat.lt_sub_of_add_lt hroom) ?_ rest
        change vs.length < (body ++ rest).length + 1
        rw [List.length_append]
        omega

end Reader

/-! ### Codecs -/

namespace Codec

variable {α β : Type} {levels : Nat} {c : Codec α}

theorem readsBack_string (s : String) : string.ReadsBack 0 s :=
  Reader.reads_stringExpecting "a string" s

theorem readsBack_bool (b : Bool) : bool.ReadsBack 0 b := Reader.reads_bool b

theorem readsBack_count {n : Nat} (h : n ≤ maxUnsigned) : count.ReadsBack 0 n :=
  Reader.reads_natural "usize" h (Nat.le_refl _)

theorem readsBack_unsigned {n : Nat} (h : n ≤ maxUnsigned) : unsigned.ReadsBack 0 n :=
  Reader.reads_natural "u64" h (Nat.le_refl _)

theorem ReadsBack.mono {levels' : Nat} {a : α} (h : c.ReadsBack levels a) (hle : levels ≤ levels') :
    c.ReadsBack levels' a :=
  Reader.Reads.mono h hle

theorem ReadsBack.map {make : α → β} {parts : β → α} {b : β} (h : c.ReadsBack levels (parts b))
    (inverse : make (parts b) = b) : (c.map make parts).ReadsBack levels b := by
  have hmap := Reader.Reads.map h make
  rwa [inverse] at hmap

theorem readsBack_word (w : UInt16) : word.ReadsBack 0 w := by
  refine ReadsBack.map ?_ UInt16.ofNat_toNat
  exact Reader.reads_natural "u16" (Nat.le_of_lt_succ w.toNat_lt) (by decide)

theorem readsBack_variant {names : List String} {ofName : String → Option α} {nameOf : α → String}
    {a : α} (h : ofName (nameOf a) = some a) : (variant names ofName nameOf).ReadsBack 0 a :=
  Reader.reads_variant h

theorem readsBack_formatted {expected : String} {parse : String → Except String α}
    {text : α → String} {a : α} (h : parse (text a) = .ok a) :
    (formatted expected parse text).ReadsBack 0 a :=
  Reader.reads_formatted h

theorem readsBack_none : c.option.ReadsBack 0 none := Reader.reads_none c.read

theorem ReadsBack.some {a : α} (h : c.ReadsBack levels a) (present : c.write a ≠ .null) :
    c.option.ReadsBack levels (some a) :=
  Reader.Reads.some h present

theorem readsBack_list {as : List α} (each : ∀ a ∈ as, c.ReadsBack levels a) :
    c.list.ReadsBack (levels + 1) as := by
  refine Reader.reads_list ?_
  rw [List.forall₂_map_left_iff, List.forall₂_same]
  exact each

/-- A value that survives being written: it is read from every layout of its document, and so from
the two forms in which documents are written. -/
structure Keeps (c : Codec α) (a : α) : Prop where
  layout (text : String) : Written (c.write a) text.toList → c.decode text = .ok a
  compact : c.decode (c.write a).compact = .ok a
  pretty : c.decode (c.write a).pretty = .ok a

theorem ReadsBack.keeps {a : α} (h : c.ReadsBack levels a) (hlevels : levels < Reader.maxDepth) :
    c.Keeps a where
  layout _ := Reader.Reads.document h hlevels
  compact := Reader.Reads.document h hlevels (Value.written_compact h.exact)
  pretty := Reader.Reads.document h hlevels (Value.written_pretty h.exact)

end Codec

end ProxyTiming.Json
