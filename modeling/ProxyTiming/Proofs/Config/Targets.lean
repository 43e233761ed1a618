import Mathlib.Tactic.SplitIfs
import ProxyTiming.Proofs.Config.Runnable
import ProxyTiming.Proofs.Http.Requestable
import ProxyTiming.Proofs.Text.Blank

/-!
# Blanks around the URL of a target

The URL of a target is looked at in two ways.  A configuration is checked with the blanks at the
ends of the URL left out; but whoever asks for a target by its name gets the URL as it was
written, and that is what requests are made of.

The two agree only where blanks do no harm.  A blank in front always does, for a URL begins with
its scheme.  A blank at the end does so too, unless a fragment stands before it, for no request
looks at a fragment.
-/

namespace ProxyTiming

open ProxyTiming.Http ProxyTiming.Text

variable {secure secure' : Bool} {cs authority authority' tail tail' trail mark : List Char}
  {c : Char}

/-! ### Blanks -/

theorem not_endsAuthority_of_isBlank (h : isBlank c = true) : endsAuthority c = false := by
  rw [Bool.eq_false_iff]
  intro hends
  rcases endsAuthority_iff.mp hends with rfl | rfl | rfl <;> exact absurd h (by decide)

theorem toLower_of_isBlank (h : isBlank c = true) : c.toLower = c := by
  have hnot := not_graphic_of_isBlank h
  unfold Char.toLower
  split
  next hupper =>
    have hlow : 65 ≤ c.toNat := UInt32.le_iff_toNat_le.mp hupper.1
    have hhigh : c.toNat ≤ 90 := UInt32.le_iff_toNat_le.mp hupper.2
    exact absurd ⟨by omega, by omega⟩ hnot
  next => rfl

/-- A text with no blank in front is trimmed at its end only. -/
theorem exists_trail {s : String} (h : ∀ c ∈ s.toList.head?, isBlank c = false) :
    ∃ trail, s.toList = (trim s).toList ++ trail ∧ ∀ c ∈ trail, isBlank c = true := by
  obtain ⟨front, trail, hsame, hfront, htrail⟩ := (trimmed_trimChars s.toList).around
  have hnil : front = [] := by
    cases front with
    | nil => rfl
    | cons c front =>
        rw [hsame] at h
        exact absurd ((h c rfl).symm.trans (hfront c List.mem_cons_self)) Bool.false_ne_true
  rw [hnil, List.nil_append] at hsame
  exact ⟨trail, by rwa [trim, String.toList_ofList], htrail⟩

/-! ### URLs with blanks -/

/-- A URL begins with a letter. -/
theorem Http.Splits.head_not_blank (h : Splits secure cs authority tail) :
    ∀ c ∈ cs.head?, isBlank c = false := by
  obtain ⟨mark, hmark, rfl⟩ := h.mark
  obtain ⟨more, hletters⟩ : ∃ more, (schemeName secure ++ "://").toList = 'h' :: more := by
    cases secure <;> exact ⟨_, rfl⟩
  obtain ⟨d, rest, rfl, hd, -⟩ := List.map_eq_cons_iff.mp (hmark.trans hletters)
  intro c hc
  obtain rfl := Option.some.inj hc
  rw [Bool.eq_false_iff]
  intro hblank
  rw [toLower_of_isBlank hblank] at hd
  exact absurd (hd ▸ hblank) (by decide)

theorem Http.Splits.append (h : Splits secure cs authority tail) (hne : tail ≠ [])
    (more : List Char) : Splits secure (cs ++ more) authority (tail ++ more) := by
  obtain ⟨mark, hmark, hcs⟩ := h.mark
  refine ⟨⟨mark, hmark, by rw [hcs, List.append_assoc, List.append_assoc]⟩, h.nonempty, h.scanned,
    fun c hc => h.closed c ?_⟩
  cases tail with
  | nil => exact absurd rfl hne
  | cons d tail => exact hc

/-- Blanks behind a URL belong to its tail, for no authority holds a blank. -/
theorem Http.Splits.of_append (h : Splits secure cs authority tail)
    (h' : Splits secure' (cs ++ trail) authority' tail') (hne : trail ≠ [])
    (hblank : ∀ c ∈ trail, isBlank c = true) :
    tail ≠ [] ∧ authority' = authority ∧ tail' = tail ++ trail := by
  obtain ⟨mark, hmark, rfl⟩ := h.mark
  obtain ⟨mark', hmark', heq⟩ := h'.mark
  -- Two marks of one text are the same, for the text is split only once.
  have hsplit := splitScheme_of_isMark hmark' (authority' ++ tail')
  rw [← heq, List.append_assoc, List.append_assoc, splitScheme_of_isMark hmark] at hsplit
  have hrest : authority ++ (tail ++ trail) = authority' ++ tail' :=
    (Prod.mk.inj (Except.ok.inj hsplit)).2
  obtain ⟨htake, hdrop⟩ := h'.span
  rw [← hrest] at htake hdrop
  have htail : tail ≠ [] := by
    rintro rfl
    have hopen : ∀ c ∈ authority ++ trail, (!endsAuthority c) = true := fun c hc => by
      rcases List.mem_append.mp hc with hc | hc
      · rw [h.scanned.not_endsAuthority hc]
        rfl
      · rw [not_endsAuthority_of_isBlank (hblank c hc)]
        rfl
    rw [List.nil_append, List.takeWhile_eq_self_iff.mpr hopen] at htake
    obtain ⟨c, hc⟩ := List.exists_mem_of_ne_nil trail hne
    have hmem : c ∈ authority' := htake ▸ List.mem_append_right authority hc
    exact not_graphic_of_isBlank (hblank c hc) (h'.scanned.graphic hmem)
  obtain ⟨htake', hdrop'⟩ := (h.append htail trail).span
  exact ⟨htail, htake.symm.trans htake', hdrop.symm.trans hdrop'⟩

theorem Http.Splits.mem_tail (h : Splits secure cs authority tail) (hmem : '#' ∈ cs) :
    '#' ∈ tail := by
  obtain ⟨mark, hmark, rfl⟩ := h.mark
  rcases List.mem_append.mp hmem with hmem | hmem
  · have hlower := List.mem_map_of_mem (f := Char.toLower) hmem
    rw [hmark] at hlower
    exact absurd hlower (by cases secure <;> decide)
  · refine (List.mem_append.mp hmem).resolve_left fun hauthority => ?_
    exact absurd (h.scanned.not_endsAuthority hauthority) (by decide)

/-- Blanks at the ends of a URL do no harm: there are none, or there is none in front and those at
the end are behind a fragment. -/
def BlanksPass (url : String) : Prop :=
  trim url = url ∨ (∀ c ∈ url.toList.head?, isBlank c = false) ∧ '#' ∈ (trim url).toList ∧
    url.utf8ByteSize ≤ maxUriLength

theorem blanksPass_of_parse {url : String} {t : Http.Target}
    (h : Http.Target.parse (trim url) = .ok t) (hurl : Http.Target.parse url = .ok t) :
    BlanksPass url := by
  obtain ⟨u, huri, hscheme, hofUri⟩ := Http.Target.parse_eq_ok_iff.mp h
  obtain ⟨u', huri', hscheme', hofUri'⟩ := Http.Target.parse_eq_ok_iff.mp hurl
  obtain ⟨-, tail, hsplits, hpath⟩ := (Uri.parse_eq_ok_iff hscheme).mp huri
  obtain ⟨hlength, tail', hsplits', hpath'⟩ := (Uri.parse_eq_ok_iff hscheme').mp huri'
  have hhead := hsplits'.head_not_blank
  obtain ⟨trail, htrail, hblank⟩ := exists_trail hhead
  by_cases hnil : trail = []
  · rw [hnil, List.append_nil] at htrail
    exact .inl (String.toList_inj.mp htrail.symm)
  refine .inr ⟨hhead, ?_, hlength⟩
  rw [htrail] at hsplits'
  obtain ⟨hne, -, rfl⟩ := hsplits.of_append hsplits' hnil hblank
  by_contra hmark
  -- Without a fragment the blanks are a part of the path, and make another one of it.
  have hwhole : '#' ∉ tail := fun hmem => hmark <| by
    obtain ⟨front, -, hcs⟩ := hsplits.mark
    rw [hcs]
    simp [hmem]
  have hblanks : '#' ∉ trail := fun hmem => absurd (hblank '#' hmem) (by decide)
  have hnone : '#' ∉ tail ++ trail := fun hmem =>
    (List.mem_append.mp hmem).elim hwhole hblanks
  have hpath := (scanPath_eq_ok_iff.mp hpath).1.trans (beforeFragment_eq_self hwhole)
  have hpath' := (scanPath_eq_ok_iff.mp hpath').1.trans (beforeFragment_eq_self hnone)
  have hsame := (pathAndQuery_of_ofUri hofUri).symm.trans (pathAndQuery_of_ofUri hofUri')
  rw [hpath, hpath', if_neg hne, if_neg (by simp [hne]), String.ofList_inj] at hsame
  exact hnil (by simpa using hsame)

theorem parse_of_blanksPass {url : String} {t : Http.Target}
    (h : Http.Target.parse (trim url) = .ok t) (pass : BlanksPass url) :
    Http.Target.parse url = .ok t := by
  rcases pass with hsame | ⟨hhead, hmark, hlength⟩
  · rwa [hsame] at h
  obtain ⟨u, huri, hscheme, hofUri⟩ := Http.Target.parse_eq_ok_iff.mp h
  obtain ⟨-, tail, hsplits, hpath⟩ := (Uri.parse_eq_ok_iff hscheme).mp huri
  obtain ⟨trail, htrail, -⟩ := exists_trail hhead
  have hmem := hsplits.mem_tail hmark
  refine Http.Target.parse_eq_ok_iff.mpr ⟨u, ?_, hscheme, hofUri⟩
  refine (Uri.parse_eq_ok_iff hscheme).mpr ⟨hlength, tail ++ trail, ?_, ?_⟩
  · rw [htrail]
    exact hsplits.append (List.ne_nil_of_mem hmem) trail
  · rwa [scanPath_eq, beforeFragment_append hmem, ← scanPath_eq]

/-! ### The targets of a configuration -/

namespace Config

/-- A target without problems is one by the look of its trimmed URL, and is resolved to the URL as
it was written.  If the trimmed URL can be requested, the other one leads to the same target just
if the blanks pass. -/
theorem resolved_parses_iff {c : Config} {target : Target} {t : Http.Target}
    (h : c.problems = [])
    (first : (c.targets.find? fun other => other.name == target.name) = some target)
    (trimmed : Http.Target.parse (trim target.url) = .ok t) :
    looksLikeUrl (trim target.url) = true ∧
      c.resolveTarget (some target.name) = .ok target.url ∧
      (Http.Target.parse target.url = .ok t ↔ BlanksPass target.url) := by
  have hproblems := (problems_eq_nil.mp h).2.1 target (List.mem_of_find?_eq_some first)
  refine ⟨?_, ?_, blanksPass_of_parse trimmed, parse_of_blanksPass trimmed⟩
  · simp only [Target.problems, List.append_eq_nil_iff, when_eq_nil] at hproblems
    simpa using hproblems.2
  · rw [resolveTarget]
    simp [first]

/-- A blank at the end of a URL that nobody sees. -/
theorem resolved_parses_behind_fragment :
    let url := "http://h/a#top "
    let c : Config :=
      { targets := [⟨"home", url⟩]
        proxies := Table.empty.insert "a" ⟨"10.0.0.1:1080", "first", none, none⟩
        scenarios := []
        settings := .default }
    let t : Http.Target := ⟨"h", 80, false, "h", "/a"⟩
    c.problems = [] ∧ Http.Target.parse (trim url) = .ok t ∧
      c.resolveTarget (some "home") = .ok url ∧ Http.Target.parse url = .ok t := by
  intro url c t
  have hproblems : c.problems = [] := by decide +kernel
  have htrimmed : Http.Target.parse (trim url) = .ok t := by decide +kernel
  have hhead : url.toList.head? = some 'h' := by decide +kernel
  have hfront : ∀ d ∈ url.toList.head?, isBlank d = false := fun d hd => by
    obtain rfl := Option.some.inj (hhead.symm.trans hd)
    decide
  have hpass : BlanksPass url := .inr ⟨hfront, by decide +kernel, by decide +kernel⟩
  obtain ⟨-, hresolved, hparses⟩ :=
    @resolved_parses_iff c ⟨"home", url⟩ t hproblems rfl htrimmed
  exact ⟨hproblems, htrimmed, hresolved, hparses.mpr hpass⟩

/-- A blank in front of a good URL, which passes the check and can never be requested. -/
theorem not_resolved_parses_of_blank_in_front :
    ∃ (c : Config) (target : Target) (t : Http.Target), c.problems = [] ∧
      (c.targets.find? fun other => other.name == target.name) = some target ∧
      Http.Target.parse (trim target.url) = .ok t ∧
      c.resolveTarget (some target.name) = .ok target.url ∧
      ¬∃ t', Http.Target.parse target.url = .ok t' := by
  refine ⟨⟨[⟨"home", " http://h/"⟩], Table.empty.insert "a" ⟨"10.0.0.1:1080", "first", none, none⟩,
    [], .default⟩, ⟨"home", " http://h/"⟩, ⟨"h", 80, false, "h", "/"⟩, by decide +kernel, rfl,
    by decide +kernel, rfl, ?_⟩
  have hfault : Http.Target.parse " http://h/" = .error (.uri .invalidCharacter) := by
    decide +kernel
  rintro ⟨t', h⟩
  rw [hfault] at h
  cases h

end Config

end ProxyTiming
