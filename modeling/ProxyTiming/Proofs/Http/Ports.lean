import Mathlib.Tactic.SplitIfs
import ProxyTiming.Proofs.Http.Splitting

/-!
# Which port a target has

The port of a target is the number that the authority of the URL ends with, behind a colon, if
that fits into a port; otherwise it is the port that the scheme stands for.  A number that does
not fit is not complained about: it is the same as no number at all, and the header names the host
alone.

Colons stand in other places as well, before a user's password and in the brackets around a host.
None of them is taken for the mark of a port, for what follows such a colon holds the sign or the
bracket that it stands before, and so is no numeral.
-/

namespace ProxyTiming.Http

open ProxyTiming.Text

variable {secure : Bool} {authority numeral : List Char} {n : Nat} {port : UInt16} {u : Uri}
  {t : Target}

/-! ### Ports in authorities -/

/-- The authority shows a number for a port: behind a colon, and with nothing behind it. -/
def Shows (authority : List Char) (n : Nat) : Prop :=
  ∃ before numeral, authority = before ++ ':' :: numeral ∧ Numeral n numeral

theorem colon_notMem (h : Numeral n numeral) : ':' ∉ numeral := fun hcolon =>
  absurd (h.isDigit_of_mem hcolon (by decide)) (by decide)

/-- The number is behind the last colon. -/
theorem shows_iff : Shows authority n ↔
    ∃ numeral, afterLast? ':' authority = some numeral ∧ Numeral n numeral := by
  constructor
  · rintro ⟨before, numeral, rfl, hnumeral⟩
    exact ⟨numeral, afterLast?_append before (colon_notMem hnumeral), hnumeral⟩
  · rintro ⟨numeral, hafter, hnumeral⟩
    obtain ⟨-, before, rfl⟩ := exists_of_afterLast? hafter
    exact ⟨before, numeral, rfl, hnumeral⟩

/-- An authority shows one number at most. -/
theorem Shows.unique {m : Nat} (h : Shows authority m) (h' : Shows authority n) : m = n := by
  obtain ⟨numeral, hafter, hnumeral⟩ := shows_iff.mp h
  obtain ⟨numeral', hafter', hnumeral'⟩ := shows_iff.mp h'
  obtain rfl := Option.some.inj (hafter.symm.trans hafter')
  exact hnumeral.unique hnumeral'

/-- The port that is read is the number that is shown. -/
theorem portOf?_eq_some_iff : portOf? authority = some port ↔ Shows authority port.toNat := by
  rw [portOf?, Option.bind_eq_some_iff, shows_iff]
  simp only [port?_eq_some_iff]

/-! ### The port of a target -/

/-- The target has the port that its URL shows. -/
structure Keeps (u : Uri) (t : Target) (shown : Nat) : Prop where
  port : t.port.toNat = shown
  authority : t.authority = String.ofList (hostOf u.authority) ++ ":" ++ toString shown

/-- The target has the port of its URL's scheme. -/
structure Defaults (u : Uri) (t : Target) : Prop where
  port : t.port = if u.scheme = some "https" then 443 else 80
  authority : t.authority = String.ofList (hostOf u.authority)

theorem keeps_of_portOf? (h : Target.ofUri u secure = .ok t)
    (hport : portOf? u.authority = some port) : Keeps u t port.toNat := by
  unfold Target.ofUri at h
  rw [hport] at h
  dsimp only at h
  split at h
  · cases h
  · obtain rfl := Except.ok.inj h
    exact ⟨rfl, rfl⟩

theorem defaults_of_portOf? (hscheme : u.scheme = some (schemeName secure))
    (h : Target.ofUri u secure = .ok t) (hport : portOf? u.authority = none) : Defaults u t := by
  unfold Target.ofUri at h
  rw [hport] at h
  dsimp only at h
  split at h
  · cases h
  · obtain rfl := Except.ok.inj h
    refine ⟨?_, rfl⟩
    rw [hscheme]
    cases secure <;> rfl

/-- A target has the port that its URL shows, if it shows one that fits.  If the number is too
large for a port, or if there is none, the port is that of the scheme. -/
theorem Target.port_of_parse {url : String} {u : Uri} {t : Target} (huri : Uri.parse url = .ok u)
    (h : Target.parse url = .ok t) :
    (∀ n, Shows u.authority n → if n ≤ 65535 then Keeps u t n else Defaults u t) ∧
    ((¬∃ n, Shows u.authority n) → Defaults u t) := by
  obtain ⟨u', huri', hscheme, hofUri⟩ := Target.parse_eq_ok_iff.mp h
  obtain rfl := Except.ok.inj (huri.symm.trans huri')
  constructor
  · intro n hshows
    split_ifs with hfits
    · have hsame : (UInt16.ofNat n).toNat = n := UInt16.toNat_ofNat_of_lt' (Nat.lt_succ_of_le hfits)
      have hport : portOf? u.authority = some (UInt16.ofNat n) :=
        portOf?_eq_some_iff.mpr (hsame.symm ▸ hshows)
      have hkeeps := keeps_of_portOf? hofUri hport
      rwa [hsame] at hkeeps
    · refine defaults_of_portOf? hscheme hofUri (Option.eq_none_iff_forall_ne_some.mpr ?_)
      intro port hport
      have hsame := hshows.unique (portOf?_eq_some_iff.mp hport)
      exact hfits (hsame ▸ Nat.le_of_lt_succ port.toNat_lt)
  · intro hnone
    refine defaults_of_portOf? hscheme hofUri (Option.eq_none_iff_forall_ne_some.mpr ?_)
    exact fun port hport => hnone ⟨_, portOf?_eq_some_iff.mp hport⟩

/-- A port behind brackets that hold colons, and a user's password that is not a port. -/
theorem Target.port_of_bracketed_host :
    let shown := "https://user:1@[::1]:8443/"
    let unshown := "https://user:1@[::1]/"
    let u : Uri := ⟨some "https", "user:1@[::1]:8443".toList, ['/']⟩
    let u' : Uri := ⟨some "https", "user:1@[::1]".toList, ['/']⟩
    let t : Target := ⟨"::1", 8443, true, "[::1]:8443", "/"⟩
    let t' : Target := ⟨"::1", 443, true, "[::1]", "/"⟩
    (Uri.parse shown = .ok u ∧ Target.parse shown = .ok t ∧ Keeps u t 8443) ∧
      Uri.parse unshown = .ok u' ∧ Target.parse unshown = .ok t' ∧ Defaults u' t' := by
  intro shown unshown u u' t t'
  have huri : Uri.parse shown = .ok u := by decide +kernel
  have huri' : Uri.parse unshown = .ok u' := by decide +kernel
  have htarget : Target.parse shown = .ok t := by decide +kernel
  have htarget' : Target.parse unshown = .ok t' := by decide +kernel
  have hdigits : ∀ c ∈ "8443".toList, isDigit c = true := List.all_eq_true.mp (by decide)
  have hshows : Shows u.authority 8443 :=
    ⟨"user:1@[::1]".toList, "8443".toList, rfl, numeral_of_digits (by decide) hdigits⟩
  have hnone : ¬∃ n, Shows u'.authority n := by
    rintro ⟨n, hshows⟩
    obtain ⟨numeral, hafter, hnumeral⟩ := shows_iff.mp hshows
    obtain rfl : "1]".toList = numeral := Option.some.inj hafter
    exact absurd (hnumeral.isDigit_of_mem (c := ']') (by decide) (by decide)) (by decide)
  exact ⟨⟨huri, htarget, (Target.port_of_parse huri htarget).1 8443 hshows⟩, huri', htarget',
    (Target.port_of_parse huri' htarget').2 hnone⟩

/-- A target on a port that its URL does not show. -/
theorem Target.not_keeps_of_large_port :
    ∃ u t, Uri.parse "http://h:99999/" = .ok u ∧ Target.parse "http://h:99999/" = .ok t ∧
      Shows u.authority 99999 ∧ ¬Keeps u t 99999 ∧ t.port = 80 := by
  have huri : Uri.parse "http://h:99999/" = .ok ⟨some "http", "h:99999".toList, ['/']⟩ := by
    decide +kernel
  have htarget : Target.parse "http://h:99999/" = .ok ⟨"h", 80, false, "h", "/"⟩ := by
    decide +kernel
  have hdigits : ∀ c ∈ "99999".toList, isDigit c = true := List.all_eq_true.mp (by decide)
  have hshows : Shows "h:99999".toList 99999 :=
    ⟨['h'], "99999".toList, rfl, numeral_of_digits (by decide) hdigits⟩
  exact ⟨_, _, huri, htarget, hshows, fun h => absurd h.port (by decide), rfl⟩

end ProxyTiming.Http
