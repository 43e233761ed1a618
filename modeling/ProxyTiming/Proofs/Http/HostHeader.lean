import Mathlib.Data.List.Basic
import Mathlib.Tactic.SplitIfs
import ProxyTiming.Http.Request
import ProxyTiming.Proofs.Text.Decimal

/-!
# The host header names the target

The header that names the host is written from the authority of the URL, without the user and
with the port in decimal.  Whoever reads it as an authority finds the host and the port that
the client connects to.

A host in brackets is the delicate case, for it holds colons of its own.  It can be told from
its port because the scan of an authority accepts no bracket that is not closed.
-/

namespace ProxyTiming.Http

open ProxyTiming.Text

variable {mark c : Char} {cs rest : List Char}

/-! ### What follows a mark -/

theorem afterLast?_eq_none_iff : afterLast? mark cs = none ↔ mark ∉ cs := by
  induction cs with
  | nil => simp [afterLast?]
  | cons c cs ih =>
      rw [afterLast?, List.mem_cons, not_or, ← ih]
      cases afterLast? mark cs with
      | some rest => simp
      | none => simp [eq_comm]

theorem afterLast?_append (before : List Char) (h : mark ∉ rest) :
    afterLast? mark (before ++ mark :: rest) = some rest := by
  induction before with
  | nil =>
      rw [List.nil_append, afterLast?, afterLast?_eq_none_iff.mpr h]
      exact if_pos rfl
  | cons c before ih => rw [List.cons_append, afterLast?, ih]

theorem exists_of_afterLast? (h : afterLast? mark cs = some rest) :
    mark ∉ rest ∧ ∃ before, cs = before ++ mark :: rest := by
  induction cs with
  | nil => cases h
  | cons c cs ih =>
      rw [afterLast?] at h
      split at h
      next rest' hrest =>
        obtain rfl := Option.some.inj h
        obtain ⟨hnot, before, rfl⟩ := ih hrest
        exact ⟨hnot, c :: before, rfl⟩
      next hnone =>
        split_ifs at h with hc
        obtain rfl := Option.some.inj h
        exact ⟨afterLast?_eq_none_iff.mp hnone, [], by rw [hc]; rfl⟩

/-! ### What stands before a mark -/

theorem throughFirst_prefix (mark : Char) (cs : List Char) : throughFirst mark cs <+: cs := by
  induction cs with
  | nil => exact List.prefix_rfl
  | cons c cs ih =>
      rw [throughFirst]
      split_ifs
      · exact ⟨cs, rfl⟩
      · exact List.cons_prefix_cons.mpr ⟨rfl, ih⟩

/-- The text up to a mark ends with the mark, and the mark is the only one in it. -/
theorem throughFirst_eq (h : mark ∈ cs) :
    ∃ front, mark ∉ front ∧ throughFirst mark cs = front ++ [mark] := by
  induction cs with
  | nil => cases h
  | cons c cs ih =>
      rw [throughFirst]
      split_ifs with hc
      · exact ⟨[], List.not_mem_nil, by rw [hc]; rfl⟩
      · obtain ⟨front, hfront, heq⟩ := ih ((List.mem_cons.mp h).resolve_left (Ne.symm hc))
        exact ⟨c :: front, by simp [hfront, Ne.symm hc], by rw [heq]; rfl⟩

theorem throughFirst_append {front : List Char} (h : mark ∉ front) (rest : List Char) :
    throughFirst mark (front ++ mark :: rest) = front ++ [mark] := by
  induction front with
  | nil =>
      rw [List.nil_append, throughFirst]
      exact if_pos rfl
  | cons c front ih =>
      rw [List.mem_cons, not_or] at h
      rw [List.cons_append, throughFirst, if_neg (Ne.symm h.1), ih h.2]
      rfl

/-! ### Scanned authorities -/

theorem exists_of_bind {ε α β : Type} {x : Except ε α} {f : α → Except ε β} {b : β}
    (h : (x >>= f) = .ok b) : ∃ a, x = .ok a ∧ f a = .ok b := by
  cases x with
  | error e => cases h
  | ok a => exact ⟨a, rfl, h⟩

def Scanned (authority : List Char) : Prop :=
  ∃ s, AuthorityScan.start.steps authority = .ok s ∧ s.isComplete = true

namespace AuthorityScan

variable {s s' : AuthorityScan}

/-- What one character does to the brackets. -/
theorem brackets_of_step (h : s.step c = .ok s') :
    (c = '[' ∧ s.opened = false ∧ s'.opened = true ∧ s'.closed = s.closed) ∨
      (c = ']' ∧ s.opened = true ∧ s'.opened = true ∧ s'.closed = true) ∨
      (c ≠ '[' ∧ c ≠ ']' ∧ s'.opened = s.opened ∧ s'.closed = s.closed) := by
  unfold step at h
  dsimp only at h
  split_ifs at h <;> cases h <;> simp_all

theorem steps_append (s : AuthorityScan) (front cs : List Char) :
    s.steps (front ++ cs) = s.steps front >>= fun s => s.steps cs := by
  induction front generalizing s with
  | nil => rfl
  | cons c front ih =>
      rw [List.cons_append, steps, steps]
      cases s.step c with
      | ok s => exact ih s
      | error e => rfl

/-- An opened bracket stays so. -/
theorem opened_of_steps (h : s.steps cs = .ok s') (hopened : s.opened = true) :
    s'.opened = true := by
  induction cs generalizing s with
  | nil => exact Except.ok.inj h ▸ hopened
  | cons c cs ih =>
      rw [steps] at h
      split at h
      next s₁ hstep =>
        apply ih h
        rcases brackets_of_step hstep with ⟨-, -, h₁, -⟩ | ⟨-, -, h₁, -⟩ | ⟨-, -, h₁, -⟩
        · exact h₁
        · exact h₁
        · exact h₁.trans hopened
      next => cases h

/-- A bracket that gets closed is closed by a bracket. -/
theorem mem_of_steps (h : s.steps cs = .ok s') (hopen : s.closed = false)
    (hclosed : s'.closed = true) : ']' ∈ cs := by
  induction cs generalizing s with
  | nil =>
      obtain rfl := Except.ok.inj h
      rw [hopen] at hclosed
      cases hclosed
  | cons c cs ih =>
      rw [steps] at h
      split at h
      next s₁ hstep =>
        rcases brackets_of_step hstep with ⟨-, -, -, h₁⟩ | ⟨rfl, -⟩ | ⟨-, -, -, h₁⟩
        · exact List.mem_cons_of_mem c (ih h (h₁.trans hopen))
        · exact List.mem_cons_self
        · exact List.mem_cons_of_mem c (ih h (h₁.trans hopen))
      next => cases h

/-- No bracket is closed that has not been opened. -/
theorem closed_of_steps (h : s.steps cs = .ok s') (hclosed : s.opened = false → s.closed = false) :
    s'.opened = false → s'.closed = false := by
  induction cs generalizing s with
  | nil => exact Except.ok.inj h ▸ hclosed
  | cons c cs ih =>
      rw [steps] at h
      split at h
      next s₁ hstep =>
        apply ih h
        rcases brackets_of_step hstep with ⟨-, -, h₁, -⟩ | ⟨-, -, h₁, -⟩ | ⟨-, -, h₁, h₂⟩
        · simp [h₁]
        · simp [h₁]
        · rwa [h₁, h₂]
      next => cases h

end AuthorityScan

/-- In an accepted authority every bracket is closed. -/
theorem Scanned.closes {front : List Char} (h : Scanned (front ++ '[' :: cs)) : ']' ∈ cs := by
  obtain ⟨s, hsteps, hcomplete⟩ := h
  rw [AuthorityScan.steps_append] at hsteps
  obtain ⟨s₁, hfront, hsteps⟩ := exists_of_bind hsteps
  rw [AuthorityScan.steps] at hsteps
  split at hsteps
  next s₂ hstep =>
    rcases AuthorityScan.brackets_of_step hstep with
      ⟨-, hnew, hopened, hclosed⟩ | ⟨hc, -⟩ | ⟨hc, -⟩
    · have hnot := AuthorityScan.closed_of_steps hfront (fun _ => rfl) hnew
      have hbrackets : s.opened = s.closed := by
        simp only [AuthorityScan.isComplete, Bool.and_eq_true, beq_iff_eq] at hcomplete
        exact hcomplete.1.1.1
      apply AuthorityScan.mem_of_steps hsteps (hclosed.trans hnot)
      rw [← hbrackets]
      exact AuthorityScan.opened_of_steps hsteps hopened
    · cases hc
    · exact absurd rfl hc
  next => cases hsteps

/-! ### Hosts -/

def behindUser (authority : List Char) : List Char := (afterLast? '@' authority).getD authority

theorem behindUser_spec (authority : List Char) :
    '@' ∉ behindUser authority ∧ ∃ front, authority = front ++ behindUser authority := by
  unfold behindUser
  cases h : afterLast? '@' authority with
  | none => exact ⟨afterLast?_eq_none_iff.mp h, [], rfl⟩
  | some rest =>
      obtain ⟨hnot, before, heq⟩ := exists_of_afterLast? h
      refine ⟨hnot, before ++ ['@'], ?_⟩
      rw [List.append_assoc]
      exact heq

/-- What the host of an authority looks like: brackets with something in them, or no colon and no
bracket in front. -/
inductive Host : List Char → Prop where
  | bracketed (inner : List Char) (h : ']' ∉ inner) (user : '@' ∉ inner) :
      Host ('[' :: inner ++ [']'])
  | plain (c : Char) (cs : List Char) (hc : c ≠ '[') (colon : ':' ∉ c :: cs)
      (user : '@' ∉ c :: cs) : Host (c :: cs)

theorem host_of_scanned {authority : List Char} (h : Scanned authority)
    (hne : hostOf authority ≠ []) : Host (hostOf authority) := by
  obtain ⟨huser, front, heq⟩ := behindUser_spec authority
  have hbehind : (afterLast? '@' authority).getD authority = behindUser authority := rfl
  simp only [hostOf, hbehind] at hne ⊢
  generalize behindUser authority = hostAndPort at *
  split at hne
  next rest =>
    rw [heq] at h
    obtain ⟨inner, hinner, hthrough⟩ := throughFirst_eq h.closes
    have hall : throughFirst ']' ('[' :: rest) = '[' :: inner ++ [']'] := by
      rw [throughFirst, if_neg (by decide), hthrough]
      rfl
    have hfront := throughFirst_prefix ']' ('[' :: rest)
    rw [hall] at hfront ⊢
    exact .bracketed inner hinner fun hmem => huser (hfront.subset (by simp [hmem]))
  next hnot =>
    cases hostAndPort with
    | nil => exact absurd rfl hne
    | cons c cs =>
        have hcolon : c ≠ ':' := by
          rintro rfl
          exact hne rfl
        have htake : (c :: cs).takeWhile (· ≠ ':') = c :: cs.takeWhile (· ≠ ':') :=
          List.takeWhile_cons_of_pos (by simpa using hcolon)
        have hfront := List.takeWhile_prefix (l := c :: cs) (· ≠ ':')
        rw [htake] at hfront ⊢
        refine .plain c _ ?_ (fun hmem => ?_) fun hmem => huser (hfront.subset hmem)
        · rintro rfl
          exact hnot cs rfl
        · rw [← htake] at hmem
          simpa using List.all_eq_true.mp List.all_takeWhile ':' hmem

/-- A host is found again in front of a port, or by itself. -/
theorem hostOf_append {host port : List Char} (h : Host host)
    (hport : port = [] ∨ ∃ digits, port = ':' :: digits ∧ '@' ∉ digits) :
    hostOf (host ++ port) = host := by
  have huser : '@' ∉ host ++ port := by
    have hhost : '@' ∉ host := by cases h <;> simp_all
    rcases hport with rfl | ⟨digits, rfl, hdigits⟩ <;> simp_all
  have hbehind : (afterLast? '@' (host ++ port)).getD (host ++ port) = host ++ port := by
    rw [afterLast?_eq_none_iff.mpr huser]
    rfl
  unfold hostOf
  rw [hbehind]
  cases h with
  | bracketed inner hinner =>
      have hfront : ']' ∉ '[' :: inner := by simp [hinner]
      have hthrough := throughFirst_append hfront port
      rw [List.append_assoc]
      exact hthrough
  | plain c cs hc colon =>
      dsimp only
      split
      next rest heq => exact absurd (List.cons.inj heq).1 hc
      next =>
        have hall : ∀ d ∈ c :: cs, decide (d ≠ ':') = true := fun d hd =>
          decide_eq_true fun heq => colon (heq ▸ hd)
        rw [List.takeWhile_append_of_pos hall]
        rcases hport with rfl | ⟨digits, rfl, -⟩
        · exact List.append_nil _
        · exact List.append_nil _

/-- By itself a host shows no port. -/
theorem portOf?_host {host : List Char} (h : Host host) : portOf? host = none := by
  unfold portOf?
  cases h with
  | plain c cs hc colon =>
      rw [afterLast?_eq_none_iff.mpr colon]
      rfl
  | bracketed inner hinner =>
      cases hafter : afterLast? ':' ('[' :: inner ++ [']']) with
      | none => rfl
      | some rest =>
          -- Whatever follows a colon in the brackets ends with the bracket.
          obtain ⟨-, before, heq⟩ := exists_of_afterLast? hafter
          have hlast := congrArg List.getLast? heq
          rw [List.getLast?_concat, List.getLast?_append_cons] at hlast
          have hmem : ']' ∈ ':' :: rest := List.mem_of_getLast? hlast.symm
          have hrest : ']' ∈ rest := (List.mem_cons.mp hmem).resolve_left (by decide)
          exact port?_eq_none_of_mem hrest (by decide) (by decide)

/-! ### From the URL to the header -/

theorem scanned_of_splitAuthority {authority : List Char}
    (h : splitAuthority cs = .ok (authority, rest)) : Scanned authority := by
  unfold splitAuthority at h
  dsimp only at h
  split_ifs at h
  split at h
  next => cases h
  next s hsteps =>
    split_ifs at h with hcomplete
    obtain ⟨rfl, -⟩ := Prod.mk.inj (Except.ok.inj h)
    exact ⟨s, hsteps, hcomplete⟩

theorem scanned_of_authorityOnly {fault : UriFault} {u : Uri} (h : authorityOnly fault cs = .ok u) :
    Scanned u.authority := by
  obtain ⟨⟨authority, rest⟩, hsplit, h⟩ := exists_of_bind h
  dsimp only at h
  split_ifs at h
  obtain rfl := Except.ok.inj h
  exact scanned_of_splitAuthority hsplit

/-- Whatever authority a URL has, it has been accepted. -/
theorem scanned_of_parse {url : String} {u : Uri} (h : Uri.parse url = .ok u)
    (hne : u.authority ≠ []) : Scanned u.authority := by
  unfold Uri.parse Uri.ofChars at h
  split_ifs at h
  split at h
  next => cases h
  next =>
    obtain rfl := Except.ok.inj h
    exact absurd rfl hne
  next =>
    obtain rfl := Except.ok.inj h
    exact absurd rfl hne
  next => exact scanned_of_authorityOnly h
  next =>
    obtain ⟨path, -, h⟩ := exists_of_bind h
    obtain rfl := Except.ok.inj h
    exact absurd rfl hne
  next =>
    obtain ⟨⟨scheme, rest⟩, -, h⟩ := exists_of_bind h
    dsimp only at h
    split at h
    next => exact scanned_of_authorityOnly h
    next =>
      obtain ⟨⟨authority, rest⟩, hsplit, h⟩ := exists_of_bind h
      dsimp only at h
      split_ifs at h
      obtain ⟨path, -, h⟩ := exists_of_bind h
      obtain rfl := Except.ok.inj h
      exact scanned_of_splitAuthority hsplit

/-- The header names the host and the port of the target. -/
structure Names (authority : String) (t : Target) : Prop where
  host : String.ofList (withoutBrackets (hostOf authority.toList)) = t.host
  port : (portOf? authority.toList).getD (if t.secure then 443 else 80) = t.port

theorem names_of_ofUri {u : Uri} {secure : Bool} {t : Target} (h : Target.ofUri u secure = .ok t)
    (hscanned : u.authority ≠ [] → Scanned u.authority) : Names t.authority t := by
  unfold Target.ofUri at h
  dsimp only at h
  by_cases hempty : (hostOf u.authority).isEmpty
  · rw [if_pos hempty] at h
    cases h
  rw [if_neg hempty] at h
  obtain rfl := Except.ok.inj h
  have hne : hostOf u.authority ≠ [] := fun hnil => hempty (List.isEmpty_iff.mpr hnil)
  have hhost := host_of_scanned (hscanned fun hnil => hne (by rw [hnil]; rfl)) hne
  cases hport : portOf? u.authority with
  | none =>
      have hread := hostOf_append hhost (.inl rfl)
      rw [List.append_nil] at hread
      constructor
      · simp [String.toList_ofList, hread]
      · simp [String.toList_ofList, portOf?_host hhost]
  | some port =>
      have htext : (String.ofList (hostOf u.authority) ++ ":" ++ toString port.toNat).toList =
          hostOf u.authority ++ ':' :: (toString port.toNat).toList := by
        simp [String.toList_append, String.toList_ofList]
      have hdigits {c : Char} (hc : isDigit c = false) : c ∉ (toString port.toNat).toList := by
        intro hmem
        rw [isDigit_of_mem_toString hmem] at hc
        cases hc
      constructor
      · dsimp only
        rw [htext, hostOf_append hhost (.inr ⟨_, rfl, hdigits (by decide)⟩)]
      · dsimp only
        rw [htext, portOf?, afterLast?_append _ (hdigits (by decide)), Option.bind_some,
          port?_toString]

/-- The header is written so that it names the target. -/
theorem names_of_parse {url : String} {t : Target} (h : Target.parse url = .ok t) :
    Names t.authority t := by
  unfold Target.parse at h
  split at h
  next => cases h
  next u huri =>
    split at h
    next => exact names_of_ofUri h (scanned_of_parse huri)
    next => exact names_of_ofUri h (scanned_of_parse huri)
    next => cases h

end ProxyTiming.Http
