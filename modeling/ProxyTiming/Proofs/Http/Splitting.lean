import Mathlib.Data.List.TakeWhile
import Mathlib.Tactic.SplitIfs
import ProxyTiming.Proofs.Http.HostHeader

/-!
# How URLs are taken apart

A URL that can be requested is a mark, an authority and a tail, one after the other.  The mark
tells whether the channel is to be secured; the authority goes up to the first character that
ends it; and of the tail everything before a fragment is the path with its query.

The parser looks at a text in many ways before it comes to that.  Here its verdict is put into
one equivalence, so that nothing else has to look at the parser again.
-/

namespace ProxyTiming.Http

variable {secure : Bool} {cs rest authority tail mark path : List Char} {c : Char} {u : Uri}

/-! ### Paths -/

def beforeFragment (cs : List Char) : List Char := cs.takeWhile (· ≠ '#')

def isPath (path : List Char) : Bool :=
  (path.takeWhile (· ≠ '?')).all isPathChar && (path.dropWhile (· ≠ '?')).all isQueryChar

theorem beforeFragment_cons (h : c ≠ '#') :
    beforeFragment (c :: cs) = c :: beforeFragment cs :=
  List.takeWhile_cons_of_pos (by simpa using h)

theorem isPath_cons (h : c ≠ '?') : isPath (c :: path) = (isPathChar c && isPath path) := by
  simp [isPath, h, Bool.and_assoc]

theorem isPath_query (query : List Char) : isPath ('?' :: query) = query.all isQueryChar := by
  have hmark : isQueryChar '?' = true := by decide
  simp [isPath, hmark]

theorem scanQuery_eq (cs : List Char) : scanQuery cs =
    if (beforeFragment cs).all isQueryChar then .ok (beforeFragment cs)
    else .error .invalidCharacter := by
  induction cs with
  | nil => rfl
  | cons c cs ih =>
      rw [scanQuery, ih]
      by_cases hmark : c = '#'
      · rw [if_pos hmark, hmark]
        rfl
      · rw [if_neg hmark, beforeFragment_cons hmark, List.all_cons]
        by_cases hc : isQueryChar c = true
        · by_cases hall : (beforeFragment cs).all isQueryChar = true <;>
            simp only [hc, hall] <;> rfl
        · simp [hc]

theorem scanPath_eq (cs : List Char) : scanPath cs =
    if isPath (beforeFragment cs) then .ok (beforeFragment cs) else .error .invalidCharacter := by
  induction cs with
  | nil => rfl
  | cons c cs ih =>
      rw [scanPath, ih, scanQuery_eq]
      by_cases hmark : c = '#'
      · rw [if_pos hmark, hmark]
        rfl
      rw [if_neg hmark, beforeFragment_cons hmark]
      by_cases hquery : c = '?'
      · rw [if_pos hquery, hquery, isPath_query]
        by_cases hall : (beforeFragment cs).all isQueryChar = true <;> simp only [hall] <;> rfl
      · rw [if_neg hquery, isPath_cons hquery]
        by_cases hc : isPathChar c = true
        · by_cases hall : isPath (beforeFragment cs) = true <;> simp only [hc, hall] <;> rfl
        · simp [hc]

theorem scanPath_eq_ok_iff :
    scanPath cs = .ok path ↔ path = beforeFragment cs ∧ isPath path = true := by
  rw [scanPath_eq]
  split_ifs with hpath
  · constructor
    · intro h
      obtain rfl := Except.ok.inj h
      exact ⟨rfl, hpath⟩
    · rintro ⟨rfl, -⟩
      rfl
  · refine ⟨nofun, ?_⟩
    rintro ⟨rfl, h⟩
    exact absurd h hpath

theorem beforeFragment_eq_self (h : '#' ∉ cs) : beforeFragment cs = cs :=
  List.takeWhile_eq_self_iff.mpr fun _ hc => decide_eq_true fun heq => h (heq ▸ hc)

theorem not_mem_beforeFragment (cs : List Char) : '#' ∉ beforeFragment cs := fun h => by
  simpa using List.all_eq_true.mp List.all_takeWhile '#' h

/-- What follows a fragment's mark has no say. -/
theorem beforeFragment_append (h : '#' ∈ cs) (more : List Char) :
    beforeFragment (cs ++ more) = beforeFragment cs := by
  induction cs with
  | nil => cases h
  | cons c cs ih =>
      by_cases hmark : c = '#'
      · rw [hmark]
        rfl
      · rw [List.cons_append, beforeFragment_cons hmark, beforeFragment_cons hmark,
          ih ((List.mem_cons.mp h).resolve_left (Ne.symm hmark))]

/-- A path that has been scanned is a path again. -/
theorem scanPath_scanned (h : scanPath cs = .ok path) : scanPath path = .ok path := by
  obtain ⟨rfl, hpath⟩ := scanPath_eq_ok_iff.mp h
  exact scanPath_eq_ok_iff.mpr
    ⟨(beforeFragment_eq_self (not_mem_beforeFragment cs)).symm, hpath⟩

/-! ### Authorities -/

theorem isAuthorityChar_of_step {s s' : AuthorityScan} (h : s.step c = .ok s') :
    c = '%' ∨ isAuthorityChar c = true := by
  unfold AuthorityScan.step at h
  dsimp only at h
  split_ifs at h with hcolon hcolons hopen hbad hclose hbad' hat hpercent hc
  · exact .inr (hcolon ▸ by decide)
  · exact .inr (hopen ▸ by decide)
  · exact .inr (hclose ▸ by decide)
  · exact .inr (hat ▸ by decide)
  · exact .inl hpercent
  · exact .inr hc

theorem isAuthorityChar_of_steps {s s' : AuthorityScan} (h : s.steps cs = .ok s') (hc : c ∈ cs) :
    c = '%' ∨ isAuthorityChar c = true := by
  induction cs generalizing s with
  | nil => cases hc
  | cons d cs ih =>
      rw [AuthorityScan.steps] at h
      split at h
      next s₁ hstep =>
        rcases List.mem_cons.mp hc with rfl | hc
        · exact isAuthorityChar_of_step hstep
        · exact ih h hc
      next => cases h

theorem graphic_of_isAlphanumeric (h : isAlphanumeric c = true) :
    33 ≤ c.toNat ∧ c.toNat ≤ 126 := by
  simp only [isAlphanumeric, Bool.or_eq_true, Bool.and_eq_true, decide_eq_true_eq, Char.le_def,
    UInt32.le_iff_toNat_le] at h
  have hnat : c.val.toNat = c.toNat := rfl
  simp only [hnat, UInt32.reduceToNat, Char.reduceVal] at h
  omega

/-- The characters of an accepted authority can all be seen. -/
theorem Scanned.graphic (h : Scanned authority) (hc : c ∈ authority) :
    33 ≤ c.toNat ∧ c.toNat ≤ 126 := by
  obtain ⟨s, hsteps, -⟩ := h
  have hmarks : ("!$&'()*+,-.:;=@[]_~".toList.all fun d =>
      decide (33 ≤ d.toNat) && decide (d.toNat ≤ 126)) = true := by decide
  rcases isAuthorityChar_of_steps hsteps hc with rfl | hchar
  · decide
  · rcases Bool.or_eq_true_iff.mp hchar with halpha | hmark
    · exact graphic_of_isAlphanumeric halpha
    · simpa using List.all_eq_true.mp hmarks c (List.contains_iff_mem.mp hmark)

theorem splitAuthority_eq_ok_iff : splitAuthority cs = .ok (authority, tail) ↔
    cs ≠ [] ∧ Scanned authority ∧ authority = cs.takeWhile (fun c => !endsAuthority c) ∧
      tail = cs.dropWhile fun c => !endsAuthority c := by
  unfold splitAuthority Scanned
  dsimp only
  constructor
  · intro h
    split_ifs at h with hempty
    split at h
    next => cases h
    next s hsteps =>
      split_ifs at h with hcomplete
      obtain ⟨rfl, rfl⟩ := Prod.mk.inj (Except.ok.inj h)
      exact ⟨fun hnil => hempty (List.isEmpty_iff.mpr hnil), ⟨s, hsteps, hcomplete⟩, rfl, rfl⟩
  · rintro ⟨hne, ⟨s, hsteps, hcomplete⟩, rfl, rfl⟩
    rw [if_neg fun hempty => hne (List.isEmpty_iff.mp hempty), hsteps]
    exact if_pos hcomplete

/-! ### Schemes -/

def schemeName (secure : Bool) : String := if secure then "https" else "http"

def IsMark (secure : Bool) (mark : List Char) : Prop :=
  mark.map Char.toLower = (schemeName secure ++ "://").toList

theorem schemeName_inj {other : Bool} (h : schemeName secure = schemeName other) :
    secure = other := by
  revert h
  revert secure other
  decide

theorem startsWithIgnoringCase_iff {start : List Char} :
    startsWithIgnoringCase start cs = true ↔ (cs.take start.length).map Char.toLower = start := by
  rw [startsWithIgnoringCase, List.isPrefixOf_iff_prefix]
  constructor
  · intro h
    refine (h.eq_of_length_le ?_).symm
    rw [List.length_map]
    exact List.length_take_le _ _
  · exact fun h => ⟨[], (List.append_nil start).trans h.symm⟩

theorem length_of_isMark (h : IsMark secure mark) :
    (schemeName secure ++ "://").toList.length = mark.length := by
  rw [← h, List.length_map]

/-- A text starts with the mark of one scheme at most. -/
theorem startsWithIgnoringCase_mark (h : IsMark secure mark) (other : Bool) (rest : List Char) :
    startsWithIgnoringCase (schemeName other ++ "://").toList (mark ++ rest) =
      decide (other = secure) := by
  have hlength := length_of_isMark h
  have hfour : ∀ b, 4 < (schemeName b ++ "://").toList.length := by decide
  by_cases hsame : other = secure
  · rw [decide_eq_true hsame, hsame, startsWithIgnoringCase_iff, hlength, List.take_left]
    exact h
  · rw [decide_eq_false hsame, Bool.eq_false_iff]
    intro hstart
    -- The fifth character tells the one from the other.
    have hfifth := congrArg (·[4]?) (startsWithIgnoringCase_iff.mp hstart)
    have hmark := congrArg (·[4]?) h
    simp only [List.getElem?_map, List.getElem?_take, if_pos (hfour other)] at hfifth
    rw [List.getElem?_append_left (hlength ▸ hfour secure), ← List.getElem?_map, hmark] at hfifth
    clear hmark hstart hlength h
    revert hsame hfifth
    revert secure other
    decide

theorem splitScheme_of_isMark (h : IsMark secure mark) (rest : List Char) :
    splitScheme (mark ++ rest) = .ok (some (schemeName secure), rest) := by
  have hstart := startsWithIgnoringCase_mark h
  have hdrop {n : Nat} (hn : n = (schemeName secure ++ "://").toList.length) :
      (mark ++ rest).drop n = rest := by
    rw [hn, length_of_isMark h, List.drop_left]
  have hhttp : startsWithIgnoringCase "http://".toList (mark ++ rest) = decide (false = secure) :=
    hstart false rest
  have hhttps : startsWithIgnoringCase "https://".toList (mark ++ rest) = decide (true = secure) :=
    hstart true rest
  unfold splitScheme
  rw [hhttp, hhttps]
  cases secure with
  | false => rw [if_pos (by decide), hdrop (by decide)]; rfl
  | true => rw [if_neg (by decide), if_pos (by decide), hdrop (by decide)]; rfl

theorem isMark_of_splitScheme (h : splitScheme cs = .ok (some (schemeName secure), rest)) :
    ∃ mark, IsMark secure mark ∧ cs = mark ++ rest := by
  have hstart (other : Bool) {n : Nat} (hn : (schemeName other ++ "://").toList.length = n)
      (hstart : startsWithIgnoringCase (schemeName other ++ "://").toList cs = true)
      (hsome : some (schemeName other) = some (schemeName secure)) (hrest : cs.drop n = rest) :
      ∃ mark, IsMark secure mark ∧ cs = mark ++ rest := by
    obtain rfl := schemeName_inj (Option.some.inj hsome)
    rw [← hrest, ← hn]
    exact ⟨_, startsWithIgnoringCase_iff.mp hstart, (List.take_append_drop _ cs).symm⟩
  unfold splitScheme at h
  dsimp only at h
  split at h
  next hhttp =>
    obtain ⟨hsome, hrest⟩ := Prod.mk.inj (Except.ok.inj h)
    exact hstart false (by decide) hhttp hsome hrest
  next =>
    split at h
    next hhttps =>
      obtain ⟨hsome, hrest⟩ := Prod.mk.inj (Except.ok.inj h)
      exact hstart true (by decide) hhttps hsome hrest
    next =>
      split at h
      next rest' hdrop =>
        split_ifs at h
        · cases (Prod.mk.inj (Except.ok.inj h)).1
        · obtain ⟨hsome, rfl⟩ := Prod.mk.inj (Except.ok.inj h)
          have hscheme : cs.takeWhile isSchemeChar = (schemeName secure).toList := by
            rw [← Option.some.inj hsome, String.toList_ofList]
          have hcs : cs = (schemeName secure ++ "://").toList ++ rest' := by
            rw [← List.takeWhile_append_dropWhile (p := isSchemeChar) (l := cs), hscheme, hdrop,
              String.toList_append, List.append_assoc]
            rfl
          exact ⟨_, by cases secure <;> unfold IsMark <;> decide, hcs⟩
      next => cases (Prod.mk.inj (Except.ok.inj h)).1

/-! ### Whole URLs -/

theorem endsAuthority_iff : endsAuthority c = true ↔ c = '/' ∨ c = '?' ∨ c = '#' := by
  simp [endsAuthority, or_assoc]

/-- A text, taken apart into the mark of a scheme, an accepted authority and what follows it. -/
structure Splits (secure : Bool) (cs authority tail : List Char) : Prop where
  mark : ∃ mark, IsMark secure mark ∧ cs = mark ++ (authority ++ tail)
  nonempty : authority ≠ []
  scanned : Scanned authority
  closed : ∀ c ∈ tail.head?, endsAuthority c = true

theorem Scanned.not_endsAuthority (h : Scanned authority) (hc : c ∈ authority) :
    endsAuthority c = false := by
  obtain ⟨s, hsteps, -⟩ := h
  rw [Bool.eq_false_iff]
  intro hends
  have hchar := isAuthorityChar_of_steps hsteps hc
  rcases endsAuthority_iff.mp hends with rfl | rfl | rfl <;> revert hchar <;> decide

/-- An accepted authority goes up to the first character that ends it. -/
theorem Splits.span (h : Splits secure cs authority tail) :
    (authority ++ tail).takeWhile (fun c => !endsAuthority c) = authority ∧
      (authority ++ tail).dropWhile (fun c => !endsAuthority c) = tail := by
  have hopen : ∀ c ∈ authority, (!endsAuthority c) = true := fun c hc => by
    rw [h.scanned.not_endsAuthority hc]
    rfl
  rw [List.takeWhile_append_of_pos hopen, List.dropWhile_append_of_pos hopen]
  have hclosed := h.closed
  cases tail with
  | nil => exact ⟨List.append_nil _, rfl⟩
  | cons c tail =>
      have hc := hclosed c rfl
      constructor
      · rw [List.takeWhile_cons_of_neg (by simp [hc]), List.append_nil]
      · rw [List.dropWhile_cons_of_neg (by simp [hc])]

/-- Behind the mark of a scheme there is nothing but an authority and a path. -/
theorem ofChars_of_isMark (h : IsMark secure mark) (rest : List Char) :
    Uri.ofChars (mark ++ rest) = (do
      let (authority, tail) ← splitAuthority rest
      if authority.isEmpty then .error .invalidFormat
      else do
        let path ← scanPath tail
        .ok ⟨some (schemeName secure), authority, path⟩) := by
  obtain ⟨more, hletters⟩ : ∃ more, (schemeName secure ++ "://").toList = 'h' :: 't' :: more := by
    cases secure <;> exact ⟨_, rfl⟩
  have hmark : mark.map Char.toLower = 'h' :: 't' :: more := h.trans hletters
  obtain ⟨c, mark', rfl, hc, hmark'⟩ := List.map_eq_cons_iff.mp hmark
  obtain ⟨d, mark'', rfl, -, -⟩ := List.map_eq_cons_iff.mp hmark'
  have hslash : c ≠ '/' := by
    rintro rfl
    revert hc
    decide
  have hsplit := splitScheme_of_isMark h rest
  rw [List.cons_append, List.cons_append] at hsplit ⊢
  rw [Uri.ofChars]
  · rw [hsplit]
    rfl
  · nofun
  · nofun
  · nofun
  · nofun
  · rintro rest' heq
    exact hslash (List.cons.inj heq).1

theorem scheme_of_authorityOnly {fault : UriFault} (h : authorityOnly fault cs = .ok u) :
    u.scheme = none := by
  obtain ⟨⟨authority, rest⟩, -, h⟩ := exists_of_bind h
  dsimp only at h
  split_ifs at h
  rw [← Except.ok.inj h]

/-- A text has a scheme only behind its mark. -/
theorem isMark_of_ofChars (h : Uri.ofChars cs = .ok u)
    (hscheme : u.scheme = some (schemeName secure)) :
    ∃ mark rest, IsMark secure mark ∧ cs = mark ++ rest := by
  have hnone {fault : UriFault} {cs' : List Char} (h : authorityOnly fault cs' = .ok u) :
      ∃ mark rest, IsMark secure mark ∧ cs = mark ++ rest := by
    rw [scheme_of_authorityOnly h] at hscheme
    cases hscheme
  unfold Uri.ofChars at h
  split at h
  next => cases h
  next =>
    rw [← Except.ok.inj h] at hscheme
    cases hscheme
  next =>
    rw [← Except.ok.inj h] at hscheme
    cases hscheme
  next => exact hnone h
  next =>
    obtain ⟨path, -, h⟩ := exists_of_bind h
    rw [← Except.ok.inj h] at hscheme
    cases hscheme
  next =>
    obtain ⟨⟨scheme, rest⟩, hsplit, h⟩ := exists_of_bind h
    dsimp only at h
    split at h
    next => exact hnone h
    next =>
      obtain ⟨⟨authority, tail⟩, -, h⟩ := exists_of_bind h
      dsimp only at h
      split_ifs at h
      obtain ⟨path, -, h⟩ := exists_of_bind h
      rw [← Except.ok.inj h] at hscheme
      obtain rfl := Option.some.inj hscheme
      obtain ⟨mark, hmark, rfl⟩ := isMark_of_splitScheme hsplit
      exact ⟨mark, rest, hmark, rfl⟩

/-- The URLs with one of the two schemes are the texts that can be taken apart, with a path in
their tail. -/
theorem ofChars_eq_ok_iff (hscheme : u.scheme = some (schemeName secure)) :
    Uri.ofChars cs = .ok u ↔
      ∃ tail, Splits secure cs u.authority tail ∧ scanPath tail = .ok u.pathAndQuery := by
  constructor
  · intro h
    obtain ⟨mark, rest, hmark, rfl⟩ := isMark_of_ofChars h hscheme
    rw [ofChars_of_isMark hmark] at h
    obtain ⟨⟨authority, tail⟩, hauthority, h⟩ := exists_of_bind h
    dsimp only at h
    split_ifs at h with hempty
    obtain ⟨path, hpath, h⟩ := exists_of_bind h
    obtain rfl := Except.ok.inj h
    obtain ⟨-, hscanned, hfront, rfl⟩ := splitAuthority_eq_ok_iff.mp hauthority
    have hclosed := List.head?_dropWhile_not (fun c => !endsAuthority c) rest
    refine ⟨_, ⟨⟨mark, hmark, ?_⟩, fun hnil => hempty (List.isEmpty_iff.mpr hnil), hscanned, ?_⟩,
      hpath⟩
    · rw [hfront, List.takeWhile_append_dropWhile]
    · intro c hc
      rw [Option.mem_def.mp hc] at hclosed
      simpa using hclosed
  · rintro ⟨tail, hsplits, hpath⟩
    obtain ⟨mark, hmark, rfl⟩ := hsplits.mark
    obtain ⟨htake, hdrop⟩ := hsplits.span
    have hauthority : splitAuthority (u.authority ++ tail) = .ok (u.authority, tail) :=
      splitAuthority_eq_ok_iff.mpr ⟨List.append_ne_nil_of_left_ne_nil hsplits.nonempty _,
        hsplits.scanned, htake.symm, hdrop.symm⟩
    have hne : ¬u.authority.isEmpty = true := fun h => hsplits.nonempty (List.isEmpty_iff.mp h)
    rw [ofChars_of_isMark hmark, hauthority]
    show (if u.authority.isEmpty = true then _ else scanPath tail >>= _) = _
    rw [if_neg hne, hpath, ← hscheme]
    rfl

theorem Uri.parse_eq_ok_iff {url : String} (hscheme : u.scheme = some (schemeName secure)) :
    Uri.parse url = .ok u ↔ url.utf8ByteSize ≤ maxUriLength ∧
      ∃ tail, Splits secure url.toList u.authority tail ∧ scanPath tail = .ok u.pathAndQuery := by
  rw [← ofChars_eq_ok_iff hscheme, Uri.parse]
  split_ifs with hlength
  · exact ⟨nofun, fun h => absurd h.1 (Nat.not_le.mpr hlength)⟩
  · exact ⟨fun h => ⟨Nat.le_of_not_lt hlength, h⟩, fun h => h.2⟩

/-- The path is no longer than the whole URL. -/
theorem utf8ByteSize_path_le {url : String} (h : Splits secure url.toList authority tail)
    (hpath : scanPath tail = .ok path) :
    (String.ofList path).utf8ByteSize ≤ url.utf8ByteSize := by
  obtain ⟨mark, -, hurl⟩ := h.mark
  obtain ⟨fragment, rfl⟩ : path <+: tail :=
    (scanPath_eq_ok_iff.mp hpath).1 ▸ List.takeWhile_prefix _
  rw [← String.ofList_toList (s := url), hurl]
  simp only [String.ofList_append, String.utf8ByteSize_append]
  omega

namespace Target

theorem secure_of_ofUri {t : Target} (h : ofUri u secure = .ok t) : t.secure = secure := by
  unfold ofUri at h
  dsimp only at h
  split at h
  · cases h
  · rw [← Except.ok.inj h]

/-- A target comes of a URL that has one of the two schemes. -/
theorem parse_eq_ok_iff {url : String} {t : Target} : parse url = .ok t ↔
    ∃ u, Uri.parse url = .ok u ∧ u.scheme = some (schemeName t.secure) ∧
      ofUri u t.secure = .ok t := by
  unfold parse
  constructor
  · intro h
    split at h
    next => cases h
    next u huri =>
      split at h
      next hscheme =>
        obtain hsecure := secure_of_ofUri h
        rw [hsecure]
        exact ⟨u, huri, hscheme, h⟩
      next hscheme =>
        obtain hsecure := secure_of_ofUri h
        rw [hsecure]
        exact ⟨u, huri, hscheme, h⟩
      next => cases h
  · rintro ⟨u, huri, hscheme, h⟩
    rw [huri]
    dsimp only
    rw [hscheme]
    cases hsecure : t.secure <;> rw [hsecure] at h <;> exact h

end Target

end ProxyTiming.Http
