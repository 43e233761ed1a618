import Mathlib.Tactic.SplitIfs
import ProxyTiming.Proofs.Http.Splitting

/-!
# Which URLs can be requested

A request is asked for by the path of its URL and the query behind it.  The text of the two is
taken out of the URL and then parsed once more, by itself; and by itself a query is no URL.

So a URL with a query has to have a path.  Without a query it need not, for an empty path is
written as a slash.  There is no other way to fail: the authority cannot spoil a header, and
the path is no longer than the URL.
-/

namespace ProxyTiming.Http

open ProxyTiming.Text

/-! ### Paths by themselves -/

namespace Uri

def path (u : Uri) : List Char := u.pathAndQuery.takeWhile (· ≠ '?')

def query (u : Uri) : List Char := u.pathAndQuery.dropWhile (· ≠ '?')

/-- What a request for the URL is to ask for. -/
def asked (u : Uri) : String :=
  String.ofList ((if u.path = [] then ['/'] else u.path) ++ u.query)

theorem path_append_query (u : Uri) : u.path ++ u.query = u.pathAndQuery :=
  List.takeWhile_append_dropWhile

end Uri

theorem ofChars_of_slash {cs path : List Char} (h : scanPath ('/' :: cs) = .ok path) :
    Uri.ofChars ('/' :: cs) = .ok ⟨none, [], path⟩ := by
  cases cs with
  | nil =>
      obtain rfl := Except.ok.inj h
      rfl
  | cons c cs =>
      show (scanPath ('/' :: c :: cs) >>= _) = _
      rw [h]
      rfl

def queryFault (query : List Char) : UriFault :=
  if query = ['?'] then .invalidCharacter else .invalidFormat

/-- In front of a query there is an empty authority, and that is no URL. -/
theorem ofChars_of_query (cs : List Char) :
    Uri.ofChars ('?' :: cs) = .error (queryFault ('?' :: cs)) := by
  have hsplit : splitAuthority ('?' :: cs) = .ok ([], '?' :: cs) := rfl
  have hfault (fault : UriFault) : authorityOnly fault ('?' :: cs) = .error fault := by
    rw [authorityOnly, hsplit]
    rfl
  cases cs with
  | nil => exact hfault _
  | cons c cs =>
      have hscheme : splitScheme ('?' :: c :: cs) = .ok (none, '?' :: c :: cs) := rfl
      have hlong : queryFault ('?' :: c :: cs) = .invalidFormat := if_neg (by simp)
      rw [hlong]
      show (splitScheme ('?' :: c :: cs) >>= _) = _
      rw [hscheme]
      exact hfault _

/-! ### Headers -/

theorem hostOf_within (authority : List Char) : hostOf authority <+: behindUser authority := by
  have hbehind : (afterLast? '@' authority).getD authority = behindUser authority := rfl
  simp only [hostOf, hbehind]
  split
  · exact throughFirst_prefix _ _
  · exact List.takeWhile_prefix _

theorem mem_of_mem_hostOf {authority : List Char} {c : Char} (h : c ∈ hostOf authority) :
    c ∈ authority := by
  obtain ⟨-, front, heq⟩ := behindUser_spec authority
  rw [heq]
  exact List.mem_append_right _ ((hostOf_within authority).subset h)

theorem isHeaderValueChar_of_graphic {c : Char} (h : 33 ≤ c.toNat ∧ c.toNat ≤ 126) :
    isHeaderValueChar c = true := by
  have hlow : 32 ≤ c.toNat := by omega
  have hhigh : c.toNat ≠ 127 := by omega
  simp [isHeaderValueChar, hlow, hhigh]

/-- The header that names the host is fit to be one. -/
theorem authority_of_ofUri {u : Uri} {secure : Bool} {t : Target}
    (h : Target.ofUri u secure = .ok t) (hscanned : Scanned u.authority) :
    ∀ c ∈ t.authority.toList, isHeaderValueChar c = true := by
  have hhost : ∀ c ∈ hostOf u.authority, isHeaderValueChar c = true := fun c hc =>
    isHeaderValueChar_of_graphic (hscanned.graphic (mem_of_mem_hostOf hc))
  unfold Target.ofUri at h
  dsimp only at h
  split at h
  · cases h
  · obtain rfl := Except.ok.inj h
    cases portOf? u.authority with
    | none => simpa [String.toList_ofList] using hhost
    | some port =>
        have hcolon : isHeaderValueChar ':' = true := by decide
        have hdigits : ∀ c ∈ (toString port.toNat).toList, isHeaderValueChar c = true :=
          fun c hc => isHeaderValueChar_of_graphic <|
            graphic_of_isAlphanumeric (Bool.or_eq_true_iff.mpr (.inr (isDigit_of_mem_toString hc)))
        intro c hc
        simp only [String.toList_append, String.toList_ofList, List.mem_append] at hc
        rcases hc with (hc | hc) | hc
        · exact hhost c hc
        · rw [List.mem_singleton.mp hc]
          exact hcolon
        · exact hdigits c hc

theorem headersFor_clean {t : Target} {userAgent : String}
    (hauthority : ∀ c ∈ t.authority.toList, isHeaderValueChar c = true)
    (hagent : ∀ c ∈ userAgent.toList, isHeaderValueChar c = true) :
    ((Request.headersFor t userAgent).all fun (_, value) => value.toList.all isHeaderValueChar) =
      true := by
  have hfixed : acceptValue.toList.all isHeaderValueChar = true ∧
      acceptLanguageValue.toList.all isHeaderValueChar = true ∧
      "close".toList.all isHeaderValueChar = true := by decide
  have hauthority := List.all_eq_true.mpr hauthority
  have hagent := List.all_eq_true.mpr hagent
  simp only [Request.headersFor, List.all_cons, List.all_nil, hauthority, hagent, hfixed,
    Bool.and_self]

/-! ### The request -/

theorem pathAndQuery_of_ofUri {u : Uri} {secure : Bool} {t : Target}
    (h : Target.ofUri u secure = .ok t) :
    t.pathAndQuery = if u.pathAndQuery = [] then "/" else String.ofList u.pathAndQuery := by
  unfold Target.ofUri at h
  dsimp only at h
  split at h
  · cases h
  · rw [← Except.ok.inj h]
    simp [List.isEmpty_iff]

/-- A path that has been taken from behind an authority starts with a slash, if it does not start
with the query. -/
theorem scanned_path_cases {tail path : List Char}
    (hclosed : ∀ c ∈ tail.head?, endsAuthority c = true) (h : scanPath tail = .ok path) :
    path = [] ∨ (∃ cs, path = '/' :: cs) ∨ ∃ cs, path = '?' :: cs := by
  obtain ⟨rfl, -⟩ := scanPath_eq_ok_iff.mp h
  cases tail with
  | nil => exact .inl rfl
  | cons c tail =>
      rcases endsAuthority_iff.mp (hclosed c rfl) with rfl | rfl | rfl
      · exact .inr (.inl ⟨_, beforeFragment_cons (by decide)⟩)
      · exact .inr (.inr ⟨_, beforeFragment_cons (by decide)⟩)
      · exact .inl rfl

/-- A text that has been taken from a URL is not too long to be one. -/
theorem parse_ofList {cs : List Char} (h : (String.ofList cs).utf8ByteSize ≤ maxUriLength) :
    Uri.parse (String.ofList cs) = Uri.ofChars cs := by
  rw [Uri.parse, if_neg (Nat.not_lt.mpr h), String.toList_ofList]

/-- A URL that is a target can be requested if it has a path, or no query; then the request asks
for the path, or a slash in place of an empty one, and the query.  A URL with a query and without
a path cannot be requested at all. -/
theorem Request.forTarget_of_parse {url userAgent : String} {t : Target}
    (htarget : Target.parse url = .ok t)
    (hagent : ∀ c ∈ userAgent.toList, isHeaderValueChar c = true) :
    ∃ u, Uri.parse url = .ok u ∧
      if u.path = [] ∧ u.query ≠ [] then
        Request.forTarget t userAgent = .error (.path (queryFault u.query))
      else
        Request.forTarget t userAgent = .ok ⟨u.asked, Request.headersFor t userAgent⟩ ∧
          u.asked.toList.head? = some '/' := by
  obtain ⟨u, huri, hscheme, hofUri⟩ := Target.parse_eq_ok_iff.mp htarget
  obtain ⟨hlength, tail, hsplits, hpath⟩ := Uri.parse_eq_ok_iff hscheme |>.mp huri
  have hfits := (utf8ByteSize_path_le hsplits hpath).trans hlength
  have hclean := headersFor_clean (authority_of_ofUri hofUri hsplits.scanned) hagent
  have hasked := pathAndQuery_of_ofUri hofUri
  refine ⟨u, huri, ?_⟩
  unfold Request.forTarget
  rw [hasked]
  rcases scanned_path_cases hsplits.closed hpath with hnil | ⟨cs, hslash⟩ | ⟨cs, hquery⟩
  · have hslash : Uri.parse "/" = .ok ⟨none, [], ['/']⟩ := rfl
    have hu : u.path = [] ∧ u.query = [] := by simp [Uri.path, Uri.query, hnil]
    have hwhole : u.asked = "/" := by
      rw [Uri.asked, hu.1, hu.2]
      rfl
    rw [if_neg fun h => h.2 hu.2, if_pos hnil, hslash, hwhole]
    exact ⟨if_pos hclean, rfl⟩
  · have hu : u.path ≠ [] := by simp [Uri.path, hslash]
    have hne : u.pathAndQuery ≠ [] := by simp [hslash]
    have hwhole : u.asked = String.ofList u.pathAndQuery := by
      rw [Uri.asked, if_neg hu, u.path_append_query]
    have hparse : Uri.ofChars u.pathAndQuery = .ok ⟨none, [], u.pathAndQuery⟩ := by
      have hscanned := scanPath_scanned hpath
      rw [hslash] at hscanned ⊢
      exact ofChars_of_slash hscanned
    rw [if_neg fun h => hu h.1, if_neg hne, parse_ofList hfits, hparse, hwhole]
    refine ⟨if_pos hclean, ?_⟩
    rw [String.toList_ofList, hslash]
    rfl
  · have hu : u.path = [] ∧ u.query = u.pathAndQuery := by simp [Uri.path, Uri.query, hquery]
    have hne : u.pathAndQuery ≠ [] := by simp [hquery]
    have hparse : Uri.ofChars u.pathAndQuery = .error (queryFault u.pathAndQuery) := by
      rw [hquery]
      exact ofChars_of_query cs
    rw [hu.2, if_pos ⟨hu.1, hne⟩, if_neg hne, parse_ofList hfits, hparse]

/-- A path with a query behind a port, and a fragment that is dropped. -/
theorem Request.forTarget_of_path_and_query :
    let url := "https://user@[::1]:81/a?b=1#c"
    let t : Target := ⟨"::1", 81, true, "[::1]:81", "/a?b=1"⟩
    Target.parse url = .ok t ∧
      Request.forTarget t "x" = .ok ⟨"/a?b=1", Request.headersFor t "x"⟩ := by
  intro url t
  have htarget : Target.parse url = .ok t := by decide +kernel
  have huri : Uri.parse url =
      .ok ⟨some "https", "user@[::1]:81".toList, "/a?b=1".toList⟩ := by decide +kernel
  have hagent : ∀ c ∈ "x".toList, isHeaderValueChar c = true := List.all_eq_true.mp (by decide)
  obtain ⟨u, hu, hrequest⟩ := Request.forTarget_of_parse htarget hagent
  obtain rfl := Except.ok.inj (huri.symm.trans hu)
  exact ⟨htarget, hrequest.1⟩

/-- A URL that is a target and cannot be requested, whatever the client calls itself. -/
theorem Request.not_forTarget_of_bare_query :
    ∃ t, Target.parse "http://h?q" = .ok t ∧
      ¬∃ userAgent request, Request.forTarget t userAgent = .ok request := by
  have htarget : Target.parse "http://h?q" = .ok ⟨"h", 80, false, "h", "?q"⟩ := by decide +kernel
  refine ⟨_, htarget, ?_⟩
  rintro ⟨userAgent, request, h⟩
  have hparse : Uri.parse "?q" = .error .invalidFormat := by decide +kernel
  rw [Request.forTarget, hparse] at h
  cases h

end ProxyTiming.Http
