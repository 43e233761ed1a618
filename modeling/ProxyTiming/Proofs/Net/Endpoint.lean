import Mathlib.Data.List.Basic
import ProxyTiming.Config.Basic
import ProxyTiming.Proofs.Http.Ports
import ProxyTiming.Proofs.Text.Blank

/-!
# The texts of endpoints

An endpoint has two spellings.  In brackets the host may hold anything but the mark `]:` that ends
it; without them it may hold no colon and may not begin with a bracket.  The reader looks for the
first `]:` in one spelling and for the last colon in the other, and what it accepts is just what is
spelled so.

Whoever writes an endpoint chooses the brackets by the colons in the host, whoever reads it by the
first character that is not blank.  The two do not always agree: the text of some endpoints is
refused, or read as another endpoint.  Which these are depends on a few characters of the host.
-/

namespace ProxyTiming.Net.Endpoint

open ProxyTiming.Text ProxyTiming.Http

variable {cs host port : List Char} {e : Endpoint}

/-! ### Marks between host and port -/

theorem infix_bracket_cons {c : Char} (h : [']', ':'] <:+: c :: host) :
    (c = ']' ∧ host.head? = some ':') ∨ [']', ':'] <:+: host := by
  rcases List.infix_cons_iff.mp h with hprefix | hinfix
  · obtain ⟨rest, hrest⟩ := hprefix
    obtain ⟨rfl, rfl⟩ := List.cons.inj hrest
    exact Or.inl ⟨rfl, rfl⟩
  · exact Or.inr hinfix

/-- Brackets are closed at the first `]:`. -/
theorem splitBracket?_eq_some_iff : splitBracket? cs = some (host, port) ↔
    cs = host ++ ']' :: ':' :: port ∧ ¬[']', ':'] <:+: host := by
  induction cs using splitBracket?.induct generalizing host with
  | case1 rest =>
      rw [splitBracket?]
      constructor
      · intro h
        cases h
        exact ⟨rfl, by simp⟩
      · rintro ⟨hcs, hfirst⟩
        match host with
        | [] => cases hcs; rfl
        | [c] => simp at hcs
        | c :: d :: host =>
            cases hcs
            exact absurd ⟨[], host, rfl⟩ hfirst
  | case2 c rest hopen ih =>
      rw [splitBracket?, Option.map_eq_some_iff]
      · constructor
        · rintro ⟨⟨before, after⟩, hsplit, hpair⟩
          cases hpair
          obtain ⟨rfl, hfirst⟩ := ih.mp hsplit
          refine ⟨rfl, fun hmark => ?_⟩
          rcases infix_bracket_cons hmark with ⟨rfl, hhead⟩ | hmark
          · obtain ⟨more, rfl⟩ := List.head?_eq_some_iff.mp hhead
            exact hopen _ rfl rfl
          · exact hfirst hmark
        · rintro ⟨hcs, hfirst⟩
          cases host with
          | nil =>
              cases hcs
              exact absurd rfl (hopen port rfl)
          | cons d host =>
              cases hcs
              exact ⟨(host, port), ih.mpr ⟨rfl, fun hmark => hfirst (List.infix_cons hmark)⟩, rfl⟩
      · exact hopen
  | case3 => simp [splitBracket?]

theorem splitLastColon?_eq_none_iff : splitLastColon? cs = none ↔ ':' ∉ cs := by
  induction cs with
  | nil => simp [splitLastColon?]
  | cons c cs ih =>
      rw [splitLastColon?, List.mem_cons, not_or]
      cases hsplit : splitLastColon? cs with
      | some found =>
          have hmem : ¬(':' ∉ cs) := fun hnot => by simp [ih.mpr hnot] at hsplit
          simp [hmem]
      | none =>
          have hnot := ih.mp hsplit
          by_cases hc : c = ':'
          · simp [hc]
          · simp [hc, hnot, Ne.symm hc]

theorem splitLastColon?_append (host : List Char) (hlast : ':' ∉ port) :
    splitLastColon? (host ++ ':' :: port) = some (host, port) := by
  induction host with
  | nil => simp [splitLastColon?, splitLastColon?_eq_none_iff.mpr hlast]
  | cons c host ih => simp [splitLastColon?, ih]

/-- Without brackets the port is behind the last colon. -/
theorem splitLastColon?_eq_some_iff : splitLastColon? cs = some (host, port) ↔
    cs = host ++ ':' :: port ∧ ':' ∉ port := by
  refine ⟨fun h => ?_, fun ⟨hcs, hlast⟩ => hcs ▸ splitLastColon?_append host hlast⟩
  induction cs generalizing host with
  | nil => cases h
  | cons c cs ih =>
      rw [splitLastColon?] at h
      split at h
      next before after hsplit =>
        cases h
        obtain ⟨rfl, hlast⟩ := ih hsplit
        exact ⟨rfl, hlast⟩
      next hsplit =>
        split at h
        next hcolon =>
          cases h
          exact ⟨by rw [hcolon]; rfl, splitLastColon?_eq_none_iff.mp hsplit⟩
        next => cases h

/-! ### Spellings -/

structure Parts (host : String) (n : Nat) (port : List Char) : Prop where
  named : host ≠ ""
  numeral : Numeral n port
  positive : 0 < n
  fits : n ≤ 65535

/-- The texts that stand for a host and a port, when no blanks are around them. -/
inductive Spelling (host : String) (n : Nat) : List Char → Prop where
  | bracketed {port : List Char} (parts : Parts host n port)
      (unclosed : ¬[']', ':'] <:+: host.toList) :
      Spelling host n ('[' :: (host.toList ++ ']' :: ':' :: port))
  | plain {port : List Char} (parts : Parts host n port) (undivided : ':' ∉ host.toList)
      (unbracketed : host.toList.head? ≠ some '[') :
      Spelling host n (host.toList ++ ':' :: port)

theorem Spelling.bounds {host : String} {n : Nat} (h : Spelling host n cs) :
    0 < n ∧ n ≤ 65535 := by
  cases h with
  | bracketed parts _ => exact ⟨parts.positive, parts.fits⟩
  | plain parts _ _ => exact ⟨parts.positive, parts.fits⟩

def ofParts? (host port : List Char) : Option Endpoint :=
  if host.isEmpty then none
  else
    (port? port).bind fun port => if port = 0 then none else some ⟨String.ofList host, port⟩

theorem ofParts?_eq_some_iff : ofParts? host port = some e ↔
    host = e.host.toList ∧ Parts e.host e.port.toNat port := by
  obtain ⟨name, number⟩ := e
  rw [ofParts?]
  constructor
  · intro h
    split at h
    next => cases h
    next hne =>
      obtain ⟨p, hread, h⟩ := Option.bind_eq_some_iff.mp h
      split at h
      next => cases h
      next hzero =>
        cases h
        refine ⟨String.toList_ofList.symm, fun hname => hne ?_, port?_eq_some_iff.mp hread,
          Nat.pos_of_ne_zero fun hport => hzero (UInt16.toNat_inj.mp hport),
          Nat.le_of_lt_succ number.toNat_lt⟩
        rw [String.ofList_eq_empty_iff.mp hname, List.isEmpty_nil]
  · rintro ⟨rfl, parts⟩
    have hne : ¬name.toList.isEmpty = true := fun hempty =>
      parts.named (String.toList_eq_nil_iff.mp (List.isEmpty_iff.mp hempty))
    have hzero : number ≠ 0 := by
      rintro rfl
      exact absurd parts.positive (Nat.lt_irrefl 0)
    rw [if_neg hne, port?_eq_some_iff.mpr parts.numeral, Option.bind_some, if_neg hzero,
      String.ofList_toList]

theorem ofChars?_bracket (cs : List Char) : ofChars? ('[' :: cs) =
    (splitBracket? cs).bind fun (host, port) => ofParts? host port := rfl

theorem ofChars?_of_head? (h : cs.head? ≠ some '[') : ofChars? cs =
    (splitLastColon? cs).bind fun (host, port) =>
      if host.contains ':' then none else ofParts? host port := by
  unfold ofChars?
  split
  next rest => exact absurd rfl h
  next =>
    cases splitLastColon? cs with
    | none => rfl
    | some found => rfl

theorem head?_append_colon : (host ++ ':' :: port).head? = some '[' ↔ host.head? = some '[' := by
  cases host <;> simp

/-- What is accepted is what is spelled as an endpoint. -/
theorem ofChars?_eq_some_iff : ofChars? cs = some e ↔ Spelling e.host e.port.toNat cs := by
  constructor
  · intro h
    by_cases hbracket : cs.head? = some '['
    · obtain ⟨rest, rfl⟩ := List.head?_eq_some_iff.mp hbracket
      rw [ofChars?_bracket] at h
      obtain ⟨⟨host, port⟩, hsplit, hparts⟩ := Option.bind_eq_some_iff.mp h
      obtain ⟨rfl, hopen⟩ := splitBracket?_eq_some_iff.mp hsplit
      obtain ⟨rfl, parts⟩ := ofParts?_eq_some_iff.mp hparts
      exact .bracketed parts hopen
    · rw [ofChars?_of_head? hbracket] at h
      obtain ⟨⟨host, port⟩, hsplit, hparts⟩ := Option.bind_eq_some_iff.mp h
      obtain ⟨rfl, -⟩ := splitLastColon?_eq_some_iff.mp hsplit
      dsimp only at hparts
      split at hparts
      next => cases hparts
      next hcolon =>
        obtain ⟨rfl, parts⟩ := ofParts?_eq_some_iff.mp hparts
        exact .plain parts (by simpa using hcolon) (mt head?_append_colon.mpr hbracket)
  · intro h
    cases h with
    | bracketed parts hopen =>
        rw [ofChars?_bracket, splitBracket?_eq_some_iff.mpr ⟨rfl, hopen⟩]
        exact ofParts?_eq_some_iff.mpr ⟨rfl, parts⟩
    | plain parts hcolon hbracket =>
        rw [ofChars?_of_head? (mt head?_append_colon.mp hbracket),
          splitLastColon?_append _ (colon_notMem parts.numeral)]
        refine (if_neg ?_).trans (ofParts?_eq_some_iff.mpr ⟨rfl, parts⟩)
        simpa using hcolon

/-! ### Reading -/

theorem parse_eq_ok_iff {s : String} :
    parse s = .ok e ↔ Spelling e.host e.port.toNat (trimChars s.toList) := by
  rw [← ofChars?_eq_some_iff, parse]
  split
  next found hfound => simp [hfound]
  next hnone => simp [hnone]

/-- How a text is read.  What it is without the blanks around it is `t`. -/
structure Reading (s t : String) : Prop where
  trimmed : Trimmed s.toList t.toList
  accepted : (∃ e, parse s = .ok e) ↔ ∃ host n, Spelling host n t.toList
  result (e : Endpoint) : parse s = .ok e ↔ Spelling e.host e.port.toNat t.toList
  refused : (¬∃ host n, Spelling host n t.toList) → ∃ m, parse s = .error m ∧ m.address = t ∧
    m.message = "invalid host:port address: " ++ quoted t
  /-- A proxy with this address is not a valid one. -/
  invalid : (¬∃ host n, Spelling host n t.toList) → ∀ p : Config.Proxy, p.socks5 = s →
    p.endpoint = .error (.invalid ("invalid host:port address: " ++ quoted t))

/-- An endpoint is read from the texts that spell one, with or without blanks around them, and
from no others. -/
theorem parse_reading (s : String) : Reading s (trim s) := by
  have hchars : (trim s).toList = trimChars s.toList := String.toList_ofList
  have haccepted : (∃ e, parse s = .ok e) ↔ ∃ host n, Spelling host n (trim s).toList := by
    rw [hchars]
    constructor
    · rintro ⟨e, he⟩
      exact ⟨e.host, e.port.toNat, parse_eq_ok_iff.mp he⟩
    · rintro ⟨host, n, h⟩
      refine ⟨⟨host, UInt16.ofNat n⟩, parse_eq_ok_iff.mpr ?_⟩
      rwa [UInt16.toNat_ofNat_of_lt' (Nat.lt_succ_of_le h.bounds.2)]
  have hrefused (hnot : ¬∃ host n, Spelling host n (trim s).toList) :
      parse s = .error ⟨trim s⟩ := by
    have hnone := mt haccepted.mp hnot
    rw [parse] at hnone ⊢
    split
    next e he => exact absurd ⟨e, by rw [he]⟩ hnone
    next => rfl
  refine ⟨?_, haccepted, fun e => ?_, fun hnot => ⟨_, hrefused hnot, rfl, rfl⟩,
    fun hnot p hp => ?_⟩
  · rw [hchars]
    exact trimmed_trimChars s.toList
  · rw [hchars]
    exact parse_eq_ok_iff
  · rw [Config.Proxy.endpoint, hp, hrefused hnot]
    rfl

/-! ### Writing and reading back -/

theorem toList_text (e : Endpoint) : e.text.toList =
    if ':' ∈ e.host.toList then
      '[' :: (e.host.toList ++ ']' :: ':' :: (toString e.port.toNat).toList)
    else e.host.toList ++ ':' :: (toString e.port.toNat).toList := by
  rw [text]
  by_cases hcolon : ':' ∈ e.host.toList <;> simp [hcolon]

theorem isBlank_of_isDigit {c : Char} (h : isDigit c = true) : isBlank c = false := by
  obtain ⟨hlow, hhigh⟩ := Bool.and_eq_true_iff.mp h
  have hlow : 48 ≤ c.toNat := UInt32.le_iff_toNat_le.mp (of_decide_eq_true hlow)
  have hhigh : c.toNat ≤ 57 := UInt32.le_iff_toNat_le.mp (of_decide_eq_true hhigh)
  rw [Bool.eq_false_iff]
  exact fun hblank => not_graphic_of_isBlank hblank ⟨by omega, by omega⟩

/-- The text of an endpoint ends with a digit. -/
theorem getLast?_text (e : Endpoint) : ∀ c ∈ e.text.toList.getLast?, isBlank c = false := by
  have hlast (front : List Char) :
      (front ++ (toString e.port.toNat).toList).getLast? = (toString e.port.toNat).toList.getLast? :=
    List.getLast?_append_of_ne_nil _ (toString_ne_nil _)
  have hsame : e.text.toList.getLast? = (toString e.port.toNat).toList.getLast? := by
    rw [toList_text]
    split
    next =>
      have hfront := hlast ('[' :: (e.host.toList ++ [']', ':']))
      simpa using hfront
    next =>
      have hfront := hlast (e.host.toList ++ [':'])
      simpa using hfront
  intro c hc
  rw [hsame] at hc
  exact isBlank_of_isDigit (isDigit_of_mem_toString (List.mem_of_getLast? hc))

/-- Nothing is left out when a text without blanks in front is read. -/
theorem trimChars_text (h : ∀ c ∈ e.text.toList.head?, isBlank c = false) :
    trimChars e.text.toList = e.text.toList :=
  (trimmed_self h (getLast?_text e)).eq

/-- A text without brackets is not read as one with brackets: its last colon would have to stand
both behind the whole host and behind a part that is longer than the host. -/
theorem not_bracketed_of_plain {front back : List Char} {n : Nat}
    (hnumeral : Numeral n port) (hback : ∀ c ∈ back, isBlank c = true)
    {digits : List Char} (hdigits : ':' ∉ digits) :
    host ++ ':' :: digits ≠ front ++ '[' :: (host ++ ']' :: ':' :: port) ++ back := by
  intro heq
  have hlast : ':' ∉ port ++ back := by
    rw [List.mem_append, not_or]
    exact ⟨colon_notMem hnumeral, fun hmem => absurd (hback _ hmem) (by decide)⟩
  have hsplit := splitLastColon?_append host hdigits
  have hsplit' := splitLastColon?_append (front ++ '[' :: (host ++ [']'])) hlast
  rw [heq, show front ++ '[' :: (host ++ ']' :: ':' :: port) ++ back =
    front ++ '[' :: (host ++ [']']) ++ ':' :: (port ++ back) by simp, hsplit'] at hsplit
  have hlength := congrArg List.length (Prod.mk.inj (Option.some.inj hsplit)).1
  simp only [List.length_append, List.length_cons] at hlength
  omega

/-- The text of an endpoint is read as that endpoint, if there is a port and a host, and if the
host holds either a colon but not the mark that ends a host in brackets, or no colon and neither a
bracket nor a blank at its front. -/
theorem parse_text_eq_ok_iff (e : Endpoint) : parse e.text = .ok e ↔
    e.port ≠ 0 ∧ e.host ≠ "" ∧
      ((':' ∈ e.host.toList ∧ ¬[']', ':'] <:+: e.host.toList) ∨
        (':' ∉ e.host.toList ∧ e.host.toList.head? ≠ some '[' ∧
          ∀ c ∈ e.host.toList.head?, isBlank c = false)) := by
  rw [parse_eq_ok_iff]
  constructor
  · have htrimmed := trimmed_trimChars e.text.toList
    generalize trimChars e.text.toList = t at htrimmed
    intro h
    have hport : e.port ≠ 0 := fun hzero => absurd h.bounds.1 (by rw [hzero]; decide)
    cases h with
    | bracketed parts hopen =>
        refine ⟨hport, parts.named, Or.inl ⟨?_, hopen⟩⟩
        by_contra hcolon
        obtain ⟨front, back, hsame, -, hback⟩ := htrimmed.around
        rw [toList_text, if_neg hcolon] at hsame
        have hdigits := colon_notMem (numeral_toString e.port.toNat)
        exact not_bracketed_of_plain parts.numeral hback hdigits hsame
    | plain parts hcolon hbracket =>
        refine ⟨hport, parts.named, Or.inr ⟨hcolon, hbracket, fun c hc => htrimmed.head c ?_⟩⟩
        rw [List.head?_append, Option.mem_def.mp hc]
        rfl
  · rintro ⟨hport, hhost, hcase⟩
    have parts : Parts e.host e.port.toNat (toString e.port.toNat).toList :=
      ⟨hhost, numeral_toString _, Nat.pos_of_ne_zero fun hzero => hport (UInt16.toNat_inj.mp hzero),
        Nat.le_of_lt_succ e.port.toNat_lt⟩
    rcases hcase with ⟨hcolon, hopen⟩ | ⟨hcolon, hbracket, hhead⟩
    · rw [trimChars_text, toList_text, if_pos hcolon]
      · exact .bracketed parts hopen
      · rw [toList_text, if_pos hcolon]
        intro c hc
        obtain rfl := Option.some.inj hc
        decide
    · obtain ⟨c, more, hcons⟩ := List.exists_cons_of_ne_nil (mt String.toList_eq_nil_iff.mp hhost)
      rw [trimChars_text, toList_text, if_neg hcolon]
      · exact .plain parts hcolon hbracket
      · rw [toList_text, if_neg hcolon, hcons]
        rwa [hcons] at hhead

-- The blank is not part of the text that is read, and the host ends at the first mark.
example : parse (⟨" h", 1⟩ : Endpoint).text = .ok ⟨"h", 1⟩ := by decide +kernel

example : parse (⟨"a]:b", 1⟩ : Endpoint).text = .error ⟨"[a]:b]:1"⟩ := by decide +kernel

end ProxyTiming.Net.Endpoint
