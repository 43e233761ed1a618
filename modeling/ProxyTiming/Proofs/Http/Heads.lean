import ProxyTiming.Http.Request
import ProxyTiming.Proofs.Http.Requestable
import ProxyTiming.Proofs.Peer
import ProxyTiming.Text.Hex

/-!
# The head of a request is read line by line

What a URL and a client's name for itself can put into the head of a request stays within its own
line: neither holds a character that ends one, and in the bytes of a text such a character stands
only where it stands in the text.

So whoever cuts the head at the line ends finds the six lines that were put into it, and the blank
line behind them; and whoever looks for a blank line finds that one.
-/

namespace ProxyTiming.Http

open ProxyTiming.Text

/-! ### Texts as bytes -/

section

variable {c : Char} {b : UInt8} {s : String}

theorem utf8_eq (s : String) : utf8 s = s.toList.flatMap String.utf8EncodeChar := by
  conv => lhs; rw [← String.ofList_toList (s := s)]
  rw [utf8, String.toUTF8_eq_toByteArray, String.toByteArray_ofList, List.utf8Encode,
    List.toList_data_toByteArray]

theorem utf8_append (s t : String) : utf8 (s ++ t) = utf8 s ++ utf8 t := by
  rw [utf8_eq, utf8_eq, utf8_eq, String.toList_append, List.flatMap_append]

/-- A byte below 128 is a character by itself. -/
theorem toNat_of_mem_utf8EncodeChar (h : b ∈ String.utf8EncodeChar c) (hb : b.toNat < 128) :
    c.toNat = b.toNat := by
  have hhigh {n : Nat} (hn : 128 ≤ n % 256) (hmem : b = UInt8.ofNat n) : False := by
    rw [hmem, UInt8.toNat_ofNat'] at hb
    omega
  unfold String.utf8EncodeChar at h
  dsimp only at h
  split_ifs at h with hone htwo hthree
  · rw [List.mem_singleton.mp h, UInt8.toNat_ofNat']
    exact (Nat.mod_eq_of_lt (Nat.lt_of_le_of_lt hone (by decide))).symm
  -- The bytes of every longer form have their highest bit set.
  all_goals simp only [List.mem_cons, List.not_mem_nil, or_false] at h
  · rcases h with h | h <;> exact (hhigh (by omega) h).elim
  · rcases h with h | h | h <;> exact (hhigh (by omega) h).elim
  · rcases h with h | h | h | h <;> exact (hhigh (by omega) h).elim

theorem exists_of_mem_utf8 (h : b ∈ utf8 s) (hb : b.toNat < 128) :
    ∃ c ∈ s.toList, c.toNat = b.toNat := by
  rw [utf8_eq] at h
  obtain ⟨c, hc, hmem⟩ := List.mem_flatMap.mp h
  exact ⟨c, hc, toNat_of_mem_utf8EncodeChar hmem hb⟩

end

/-! ### Lines -/

def lineBreak : List UInt8 := [13, 10]

def linesOf : List UInt8 → List (List UInt8)
  | [] => []
  | 13 :: 10 :: rest => [] :: linesOf rest
  | b :: rest =>
    match linesOf rest with
    | [] => [[b]]
    | line :: lines => (b :: line) :: lines

def block (lines : List (List UInt8)) : List UInt8 := lines.flatMap (· ++ lineBreak) ++ lineBreak

section

variable {b : UInt8} {bytes line : List UInt8} {lines : List (List UInt8)}

theorem linesOf_line (h : 13 ∉ line) (bytes : List UInt8) :
    linesOf (line ++ (lineBreak ++ bytes)) = line :: linesOf bytes := by
  induction line with
  | nil => rfl
  | cons b line ih =>
      obtain ⟨hb, hline⟩ : 13 ≠ b ∧ 13 ∉ line := by simpa using h
      rw [List.cons_append, linesOf, ih hline]
      exact fun rest heq _ => hb heq.symm

theorem block_cons (line : List UInt8) (lines : List (List UInt8)) :
    block (line :: lines) = line ++ (lineBreak ++ block lines) := by
  simp [block]

/-- Nothing is read from a block but the lines that were put into it, and the blank one. -/
theorem linesOf_block (h : ∀ line ∈ lines, 13 ∉ line) : linesOf (block lines) = lines ++ [[]] := by
  induction lines with
  | nil => rfl
  | cons line lines ih =>
      obtain ⟨hline, hlines⟩ := List.forall_mem_cons.mp h
      rw [block_cons, linesOf_line hline, ih hlines, List.cons_append]

theorem headOf?_cons (h : b ≠ 13) : headOf? (b :: bytes) = (headOf? bytes).map (b :: ·) := by
  rw [headOf?, if_neg]
  simp [blankLine, Ne.symm h]

theorem headOf?_line (h : 13 ∉ line) (bytes : List UInt8) :
    headOf? (line ++ bytes) = (headOf? bytes).map (line ++ ·) := by
  induction line with
  | nil => simp
  | cons b line ih =>
      obtain ⟨hb, hline⟩ : 13 ≠ b ∧ 13 ∉ line := by simpa using h
      rw [List.cons_append, headOf?_cons (Ne.symm hb), ih hline, Option.map_map]
      rfl

/-- A line break ends the head only if another one follows it. -/
theorem headOf?_lineBreak (h : bytes.head? ≠ some 13) :
    headOf? (lineBreak ++ bytes) = (headOf? bytes).map (lineBreak ++ ·) := by
  have hopen : blankLine.isPrefixOf (lineBreak ++ bytes) = false := by
    cases bytes with
    | nil => rfl
    | cons b rest =>
        have hb : (13 == b) = false := by simpa using fun heq : 13 = b => h (by rw [heq]; rfl)
        simp [blankLine, lineBreak, List.isPrefixOf, hb]
  show headOf? (13 :: 10 :: bytes) = _
  rw [headOf?, if_neg (by rw [Bool.not_eq_true]; exact hopen), headOf?_cons (by decide),
    Option.map_map]
  rfl

/-- The blank line at the end of a block is the first one in it. -/
theorem headOf?_block (hne : lines ≠ []) (h : ∀ line ∈ lines, line ≠ [] ∧ 13 ∉ line) :
    headOf? (block lines) = some (block lines) := by
  induction lines with
  | nil => exact absurd rfl hne
  | cons line lines ih =>
      obtain ⟨⟨-, hline⟩, hlines⟩ := List.forall_mem_cons.mp h
      rw [block_cons, headOf?_line hline]
      cases lines with
      | nil => rfl
      | cons next lines =>
          obtain ⟨⟨hnonempty, hnext⟩, -⟩ := List.forall_mem_cons.mp hlines
          have hfirst : (block (next :: lines)).head? ≠ some 13 := by
            obtain ⟨b, more, rfl⟩ := List.exists_cons_of_ne_nil hnonempty
            rw [block_cons]
            intro hb
            exact hnext (Option.some.inj hb ▸ List.mem_cons_self)
          rw [headOf?_lineBreak hfirst, ih (List.cons_ne_nil _ _) hlines]
          rfl

end

/-! ### What is put into a head -/

def Inline (s : String) : Prop := ∀ c ∈ s.toList, c ≠ '\r' ∧ c ≠ '\n'

instance (s : String) : Decidable (Inline s) :=
  List.decidableBAll (fun c => c ≠ '\r' ∧ c ≠ '\n') s.toList

def headLines (path host userAgent : String) : List String :=
  ["GET " ++ path ++ " HTTP/1.1", "host: " ++ host, "user-agent: " ++ userAgent,
    "accept: " ++ acceptValue, "accept-language: " ++ acceptLanguageValue, "connection: close"]

/-- A head with these lines, and nothing that anybody could take for another one. -/
structure IsHead (path host userAgent : String) (head : List UInt8) : Prop where
  layout : head = block ((headLines path host userAgent).map utf8)
  visible : ∀ c ∈ path.toList, c ≠ ' ' ∧ c ≠ '\r' ∧ c ≠ '\n'
  values : ∀ value ∈ [host, userAgent, acceptValue, acceptLanguageValue, "close"],
    ∀ c ∈ value.toList, c ≠ '\r' ∧ c ≠ '\n' ∧ c ≠ '\x00'
  unbroken : ∀ line ∈ headLines path host userAgent, 13 ∉ utf8 line ∧ 10 ∉ utf8 line
  lines : linesOf head = (headLines path host userAgent).map utf8 ++ [[]]
  complete : headOf? head = some head

section

variable {c : Char} {s s' userAgent : String} {t : Target} {request : Request}

theorem Inline.append (h : Inline s) (h' : Inline s') : Inline (s ++ s') := by
  intro c hc
  rw [String.toList_append] at hc
  exact (List.mem_append.mp hc).elim (h c) (h' c)

theorem Inline.unbroken (h : Inline s) : 13 ∉ utf8 s ∧ 10 ∉ utf8 s := by
  constructor
  · intro hmem
    obtain ⟨c, hc, hcode⟩ := exists_of_mem_utf8 hmem (by decide)
    exact (h c hc).1 (Char.toNat_inj.mp hcode)
  · intro hmem
    obtain ⟨c, hc, hcode⟩ := exists_of_mem_utf8 hmem (by decide)
    exact (h c hc).2 (Char.toNat_inj.mp hcode)

theorem ne_of_isHeaderValueChar (h : isHeaderValueChar c = true) :
    c ≠ '\r' ∧ c ≠ '\n' ∧ c ≠ '\x00' := by
  refine ⟨?_, ?_, ?_⟩ <;> rintro rfl <;> exact absurd h (by decide)

theorem visible_of_isPathChar (h : isPathChar c = true) : 33 ≤ c.toNat := by
  simp only [isPathChar, Bool.or_eq_true, Bool.and_eq_true, decide_eq_true_eq, beq_iff_eq] at h
  omega

theorem visible_of_isQueryChar (h : isQueryChar c = true) : 33 ≤ c.toNat := by
  simp only [isQueryChar, Bool.or_eq_true, Bool.and_eq_true, decide_eq_true_eq, beq_iff_eq] at h
  omega

theorem visible_of_isPath {path : List Char} (h : isPath path = true) (hc : c ∈ path) :
    33 ≤ c.toNat := by
  obtain ⟨hpath, hquery⟩ := Bool.and_eq_true_iff.mp h
  rw [← List.takeWhile_append_dropWhile (p := (· ≠ '?')) (l := path)] at hc
  rcases List.mem_append.mp hc with hc | hc
  · exact visible_of_isPathChar (List.all_eq_true.mp hpath c hc)
  · exact visible_of_isQueryChar (List.all_eq_true.mp hquery c hc)

/-- Whatever is asked for shows: it holds neither blanks nor line ends. -/
theorem Target.visible_pathAndQuery {url : String} (h : Target.parse url = .ok t)
    (hc : c ∈ t.pathAndQuery.toList) : 33 ≤ c.toNat := by
  obtain ⟨u, huri, hscheme, hofUri⟩ := Target.parse_eq_ok_iff.mp h
  obtain ⟨-, tail, -, hpath⟩ := Uri.parse_eq_ok_iff hscheme |>.mp huri
  obtain ⟨-, hvalid⟩ := scanPath_eq_ok_iff.mp hpath
  rw [pathAndQuery_of_ofUri hofUri] at hc
  split at hc
  · rw [List.mem_singleton.mp hc]
    decide
  · rw [String.toList_ofList] at hc
    exact visible_of_isPath hvalid hc

theorem Request.forTarget_eq_ok (h : Request.forTarget t userAgent = .ok request) :
    request = ⟨t.pathAndQuery, headersFor t userAgent⟩ ∧
      ∀ header ∈ headersFor t userAgent, ∀ c ∈ header.2.toList, isHeaderValueChar c = true := by
  unfold Request.forTarget at h
  split at h
  next => cases h
  next =>
    dsimp only at h
    split at h
    next hclean =>
      refine ⟨(Except.ok.inj h).symm, fun header hheader => ?_⟩
      exact List.all_eq_true.mp (List.all_eq_true.mp hclean header hheader)
    next => cases h

theorem utf8_headerLines (headers : List (String × String)) : utf8 (Request.headerLines headers) =
    (headers.map fun header => utf8 (header.1 ++ ": " ++ header.2)).flatMap (· ++ lineBreak) := by
  have hbreak : utf8 Request.lineEnd = lineBreak := by decide
  induction headers with
  | nil => rfl
  | cons header headers ih =>
      obtain ⟨name, value⟩ := header
      rw [Request.headerLines, utf8_append, utf8_append _ Request.lineEnd, hbreak, ih]
      rfl

theorem utf8_head (path : String) (t : Target) (userAgent : String) :
    utf8 (Request.head ⟨path, Request.headersFor t userAgent⟩) =
      block ((headLines path t.authority userAgent).map utf8) := by
  have hbreak : utf8 Request.lineEnd = lineBreak := by decide
  rw [Request.head, utf8_append, utf8_append, utf8_append _ Request.lineEnd, utf8_headerLines,
    hbreak]
  simp [block, headLines, Request.headersFor]

theorem inline_headLines {path host userAgent : String} (hpath : Inline path)
    (hvalues : ∀ value ∈ [host, userAgent, acceptValue, acceptLanguageValue], Inline value) :
    ∀ line ∈ headLines path host userAgent, Inline line := by
  have hget : Inline "GET " ∧ Inline " HTTP/1.1" := by decide
  have hnames : Inline "host: " ∧ Inline "user-agent: " ∧ Inline "accept: " := by decide
  have hothers : Inline "accept-language: " ∧ Inline "connection: close" := by decide
  simp only [List.forall_mem_cons] at hvalues
  obtain ⟨hhost, hagent, haccept, hlanguage, -⟩ := hvalues
  simp only [headLines, List.forall_mem_cons]
  exact ⟨(hget.1.append hpath).append hget.2, hnames.1.append hhost, hnames.2.1.append hagent,
    hnames.2.2.append haccept, hothers.1.append hlanguage, hothers.2, nofun⟩

theorem utf8_headLines_ne_nil (path host userAgent : String) :
    ∀ line ∈ headLines path host userAgent, utf8 line ≠ [] := by
  have hfixed : utf8 "GET " ≠ [] ∧ utf8 "host: " ≠ [] ∧ utf8 "user-agent: " ≠ [] ∧
      utf8 "accept: " ≠ [] ∧ utf8 "accept-language: " ≠ [] ∧ utf8 "connection: close" ≠ [] := by
    decide
  simp only [headLines, List.forall_mem_cons, utf8_append, List.append_assoc]
  simp [hfixed]

/-- Whatever is requested, the head of the request has the lines that it should have. -/
theorem isHead_of_forTarget {url : String} (htarget : Target.parse url = .ok t)
    (h : Request.forTarget t userAgent = .ok request) :
    IsHead t.pathAndQuery t.authority userAgent (utf8 request.head) := by
  obtain ⟨rfl, hclean⟩ := Request.forTarget_eq_ok h
  have hvalues : ∀ value ∈ [t.authority, userAgent, acceptValue, acceptLanguageValue, "close"],
      ∀ c ∈ value.toList, c ≠ '\r' ∧ c ≠ '\n' ∧ c ≠ '\x00' := by
    intro value hvalue c hc
    have hheader : value ∈ (Request.headersFor t userAgent).map Prod.snd := hvalue
    obtain ⟨header, hmem, rfl⟩ := List.mem_map.mp hheader
    exact ne_of_isHeaderValueChar (hclean header hmem c hc)
  have hpath : ∀ c ∈ t.pathAndQuery.toList, c ≠ ' ' ∧ c ≠ '\r' ∧ c ≠ '\n' := by
    intro c hc
    have hvisible := Target.visible_pathAndQuery htarget hc
    refine ⟨?_, ?_, ?_⟩ <;> rintro rfl <;> exact absurd hvisible (by decide)
  have hinline : ∀ line ∈ headLines t.pathAndQuery t.authority userAgent, Inline line :=
    inline_headLines (fun c hc => (hpath c hc).2) fun value hvalue c hc =>
      (hvalues value (List.mem_append_left ["close"] hvalue) c hc).imp_right And.left
  have hlines : ∀ line ∈ (headLines t.pathAndQuery t.authority userAgent).map utf8,
      line ≠ [] ∧ 13 ∉ line := by
    intro line hline
    obtain ⟨text, htext, rfl⟩ := List.mem_map.mp hline
    exact ⟨utf8_headLines_ne_nil _ _ _ text htext, (hinline text htext).unbroken.1⟩
  refine ⟨utf8_head _ _ _, hpath, hvalues, fun line hline => (hinline line hline).unbroken, ?_, ?_⟩
  · rw [utf8_head]
    exact linesOf_block fun line hline => (hlines line hline).2
  · rw [utf8_head]
    exact headOf?_block (List.cons_ne_nil _ _) hlines

end

end ProxyTiming.Http
