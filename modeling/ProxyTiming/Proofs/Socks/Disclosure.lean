import Mathlib.Data.List.Infix
import ProxyTiming.Proofs.Socks.Conversation
import ProxyTiming.Proofs.Socks.Transcript

/-!
# What a negotiation gives away

Whoever sits at the other end may answer anything, at any pace, and break the connection
wherever he likes.  What he gets to see of the client depends on what he has said before: the
greeting in any case, user name and password only if he has asked for them, and the request
only if he needs no login or has accepted it.

The bound on what may be said, `permitted`, is a function of what has been heard.  It is kept
at every moment of a negotiation and not only at its end, so that it also tells what comes
first.
-/

namespace ProxyTiming.Socks

open ProxyTiming.Stream ProxyTiming.Text

def requestBytes (d : Destination) : List UInt8 :=
  match connectRequest d with
  | .ok request => request
  | .error _ => []

def loginBytes? (c : Option Credentials) : Option (List UInt8) :=
  c.bind fun credentials => (loginRequest credentials).toOption

/-- All that the client may have said once these bytes have been heard. -/
def permitted (d : Destination) (c : Option Credentials) (heard : List UInt8) : List UInt8 :=
  greeting c ++
    if [5, 0] <+: heard then requestBytes d
    else if [5, 2] <+: heard then
      match loginBytes? c with
      | none => []
      | some login => login ++ if heard[3]? = some 0 then requestBytes d else []
    else []

/-- Nothing is broken or refused yet: all that was said got through, all that was waited for
came, and a tunnel can still come of what was heard. -/
structure Ready (c : Option Credentials) (acts : List Act) : Prop where
  whole : ∀ act ∈ acts, act.IsWhole
  hopeful : ∃ conversation, Conversation c conversation ∧ heardIn acts <+: conversation

/-- Up to here the client has said no more than it may, and its last words only with hope. -/
structure Discreet (d : Destination) (c : Option Credentials) (acts : List Act) : Prop where
  within : saidIn acts <+: permitted d c (heardIn acts)
  ready (before : List Act) (message part : List UInt8) :
    acts = before ++ [.said message part] → part ≠ [] → Ready c before

section

variable {d : Destination} {c : Option Credentials} {acts : List Act}
  {bytes heard message part : List UInt8} {count : Nat}

/-! ### More may be said when more has been heard -/

theorem permitted_of_short (h : heard.length < 2) : permitted d c heard = greeting c := by
  have hnot (a b : UInt8) : ¬[a, b] <+: heard := fun hprefix =>
    absurd hprefix.length_le (Nat.not_le.mpr h)
  rw [permitted, if_neg (hnot 5 0), if_neg (hnot 5 2), List.append_nil]

theorem permitted_prefix_append (more : List UInt8) :
    permitted d c heard <+: permitted d c (heard ++ more) := by
  -- The first two bytes select the case.  Without them only the greeting is permitted, and with
  -- them more bytes can only add that the login was accepted.
  rcases Nat.lt_or_ge heard.length 2 with hshort | hlong
  · rw [permitted_of_short hshort]
    exact List.prefix_append _ _
  · obtain ⟨a, b, rest, rfl⟩ : ∃ a b rest, heard = a :: b :: rest := by
      match heard with
      | a :: b :: rest => exact ⟨a, b, rest, rfl⟩
    simp only [permitted, List.cons_append, List.cons_prefix_cons, List.nil_prefix, and_true]
    apply (List.prefix_append_right_inj _).mpr
    by_cases hnone : 5 = a ∧ 0 = b
    · rw [if_pos hnone, if_pos hnone]
    · rw [if_neg hnone, if_neg hnone]
      by_cases hpassword : 5 = a ∧ 2 = b
      · rw [if_pos hpassword, if_pos hpassword]
        cases loginBytes? c with
        | none => exact List.prefix_rfl
        | some login =>
            apply (List.prefix_append_right_inj _).mpr
            by_cases haccepted : (a :: b :: rest)[3]? = some 0
            · have hlength := (List.getElem?_eq_some_iff.mp haccepted).1
              have hmore : (a :: b :: (rest ++ more))[3]? = some 0 :=
                (List.getElem?_append_left hlength).trans haccepted
              rw [if_pos haccepted, if_pos hmore]
            · rw [if_neg haccepted]
              exact List.nil_prefix
      · rw [if_neg hpassword, if_neg hpassword]

theorem Discreet.hear (h : Discreet d c acts) : Discreet d c (acts ++ [.heard count bytes]) where
  within := by
    simp only [saidIn_append, saidIn_heard, saidIn_nil, List.append_nil, heardIn_append]
    exact h.within.trans (permitted_prefix_append _)
  ready before message part hacts := by
    obtain ⟨-, hact⟩ := List.append_inj' hacts rfl
    simp at hact

theorem Discreet.say (ready : Ready c acts)
    (within : saidIn acts ++ message <+: permitted d c (heardIn acts))
    (hpart : part <+: message) : Discreet d c (acts ++ [.said message part]) where
  within := by
    simp only [saidIn_append, saidIn_said, saidIn_nil, List.append_nil, heardIn_append,
      heardIn_said, heardIn_nil]
    exact ((List.prefix_append_right_inj _).mpr hpart).trans within
  ready before message' part' hacts _ := by
    obtain ⟨rfl, -⟩ := List.append_inj' hacts rfl
    exact ready

theorem Ready.say (h : Ready c acts) : Ready c (acts ++ [.said message message]) where
  whole act hact := by
    rcases List.mem_append.mp hact with hact | hact
    · exact h.whole act hact
    · rw [List.mem_singleton.mp hact]
      exact rfl
  hopeful := by simpa using h.hopeful

theorem Ready.hear (h : Ready c acts) (length : bytes.length = count)
    (hopeful : ∃ conversation,
      Conversation c conversation ∧ heardIn acts ++ bytes <+: conversation) :
    Ready c (acts ++ [.heard count bytes]) where
  whole act hact := by
    rcases List.mem_append.mp hact with hact | hact
    · exact h.whole act hact
    · rw [List.mem_singleton.mp hact]
      exact length
  hopeful := by simpa using hopeful

/-! ### Part for part -/

theorem always_readBound (h : Discreet d c acts) :
    (readBound count).Always (Discreet d c) acts :=
  ⟨h, fun _ _ => h.hear, fun _ _ => h.hear⟩

theorem always_readAddress (kind : UInt8) (h : Discreet d c acts) :
    (readAddress kind).Always (Discreet d c) acts := by
  unfold readAddress
  split_ifs
  · exact always_readBound h
  · exact always_readBound h
  · exact ⟨h, fun _ _ => h.hear, fun _ _ => always_readBound h.hear⟩
  · exact h

theorem always_readReply (h : Discreet d c acts) : readReply.Always (Discreet d c) acts := by
  refine ⟨h, fun _ _ => h.hear, fun header _ => ?_⟩
  dsimp only
  split_ifs
  · exact h.hear
  · exact h.hear
  · exact always_readAddress _ h.hear

theorem always_askToConnect (h : Discreet d c acts) (ready : Ready c acts)
    (within : saidIn acts ++ requestBytes d <+: permitted d c (heardIn acts)) :
    (askToConnect d).Always (Discreet d c) acts := by
  unfold askToConnect
  unfold requestBytes at within
  cases hrequest : connectRequest d with
  | error host => exact h
  | ok request =>
      rw [hrequest] at within
      exact ⟨h, fun part hpart => .say ready within hpart,
        always_readReply (.say ready within List.prefix_rfl)⟩

theorem permitted_loginAsked {login : List UInt8} (sendable : loginBytes? c = some login)
    (rest : List UInt8) : permitted d c (5 :: 2 :: rest) =
      greeting c ++ (login ++ if rest[1]? = some 0 then requestBytes d else []) := by
  rw [permitted, if_neg (by simp), if_pos (by simp), sendable]
  rfl

theorem always_logIn {credentials : Credentials} (given : c = some credentials)
    (h : Discreet d c acts) (ready : credentials.Fit → Ready c acts)
    (said : saidIn acts = greeting c) (heard : heardIn acts = [5, 2]) :
    (logIn credentials (askToConnect d)).Always (Discreet d c) acts := by
  unfold logIn
  cases hlogin : loginRequest credentials with
  | error tooLong => cases tooLong <;> exact h
  | ok login =>
      have hfit := (exists_loginRequest_iff credentials).mp ⟨login, hlogin⟩
      have ready := ready hfit
      have sendable : loginBytes? c = some login := by
        rw [given, loginBytes?, Option.bind_some, hlogin]
        rfl
      have within : saidIn acts ++ login <+: permitted d c (heardIn acts) := by
        rw [said, heard, permitted_loginAsked sendable]
        exact (List.prefix_append_right_inj _).mpr (List.prefix_append _ _)
      have hsaid := Discreet.say ready within List.prefix_rfl
      refine ⟨h, fun part hpart => .say ready within hpart, hsaid, fun _ _ => hsaid.hear,
        fun status hlength => ?_⟩
      dsimp only
      split_ifs with hrejected
      · exact hsaid.hear
      · obtain ⟨v, code, rfl⟩ := List.length_eq_two.mp hlength
        obtain rfl : code = 0 := not_ne_iff.mp hrejected
        apply always_askToConnect hsaid.hear
        · refine ready.say.hear hlength ⟨_, .intro 2 [v, 0] 0 1 (List.replicate 6 0)
            (.password credentials given hfit v) (.ipv4 _ rfl), ?_⟩
          simp [heard]
        · simp [said, heard, permitted_loginAsked sendable]

/-- At every moment of a negotiation the client has said no more than it may. -/
theorem always_negotiation (d : Destination) (c : Option Credentials) :
    (negotiation d c).Always (Discreet d c) [] := by
  have hnothing : Discreet d c [] := ⟨List.nil_prefix, by simp⟩
  have hready : Ready c [] := ⟨by simp, _,
    .intro 0 [] 0 1 (List.replicate 6 0) .noLogin (.ipv4 _ rfl), List.nil_prefix⟩
  have within : saidIn [] ++ greeting c <+: permitted d c (heardIn []) := List.prefix_append _ _
  have hsaid := Discreet.say hready within List.prefix_rfl
  refine ⟨hnothing, fun part hpart => .say hready within hpart, hsaid, fun _ _ => hsaid.hear,
    fun choice hlength => ?_⟩
  dsimp only
  split_ifs with hversion
  · exact hsaid.hear
  · obtain ⟨v, method, rfl⟩ := List.length_eq_two.mp hlength
    obtain rfl : v = 5 := not_ne_iff.mp hversion
    show (afterSelection c method (askToConnect d)).Always (Discreet d c) _
    unfold afterSelection
    split_ifs with hnone hpassword hrefused
    · subst hnone
      apply always_askToConnect hsaid.hear
      · exact hready.say.hear hlength ⟨_, .intro 0 [] 0 1 (List.replicate 6 0) .noLogin
          (.ipv4 _ rfl), by simp [methodNone]⟩
      · simp [permitted, methodNone]
    · subst hpassword
      cases c with
      | none => exact hsaid.hear
      | some credentials =>
          apply always_logIn rfl hsaid.hear _ (by simp) (by simp [methodPassword])
          intro hfit
          exact hready.say.hear hlength ⟨_, .intro 2 [0, 0] 0 1 (List.replicate 6 0)
            (.password credentials rfl hfit 0) (.ipv4 _ rfl), by simp [methodPassword]⟩
    · exact hsaid.hear
    · exact hsaid.hear

end

/-! ### Two pairs of credentials -/

section

variable {d : Destination} {credentials : Credentials}

/-- Until a login is asked for, the negotiation does not depend on the credentials. -/
theorem afterSelection_of_other {method : UInt8} (h : method ≠ 2) (other : Credentials)
    (next : Dialogue (Except Failure Unit)) :
    afterSelection (some credentials) method next = afterSelection (some other) method next := by
  unfold afterSelection
  split_ifs with hnone hpassword
  · rfl
  · exact absurd hpassword h
  · rfl
  · rfl

variable {σ : Type} {channel : Channel σ}

/-- Two pairs of credentials cannot be told apart over a channel on which no login is asked for;
and if one is asked for, they could not be told apart before. -/
theorem negotiation_of_other (d : Destination) (credentials other : Credentials)
    (a : channel.Account) (s : σ) :
    ((negotiation d (some credentials)).over channel s =
        (negotiation d (some other)).over channel s ∧
      (negotiation d (some credentials)).transcript a s =
        (negotiation d (some other)).transcript a s) ∨
    ∃ front, front <+: (negotiation d (some credentials)).transcript a s ∧
      front <+: (negotiation d (some other)).transcript a s ∧ [5, 2] <+: heardIn front := by
  simp only [negotiation, Dialogue.over, Dialogue.transcript]
  rcases hsend : channel.send (greeting (some credentials)) s with ⟨fate, s'⟩
  rw [show channel.send (greeting (some other)) s = (fate, s') from hsend]
  cases fate with
  | lost reason => exact .inl ⟨rfl, rfl⟩
  | stalled => exact .inl ⟨rfl, rfl⟩
  | value u =>
      dsimp only
      rcases hreceive : channel.receive 2 s' with ⟨fate, s''⟩
      cases fate with
      | lost reason => exact .inl ⟨rfl, rfl⟩
      | stalled => exact .inl ⟨rfl, rfl⟩
      | value choice =>
          obtain ⟨hlength, hunread⟩ := a.length_receive hreceive
          obtain ⟨v, method, rfl⟩ := List.length_eq_two.mp hlength
          dsimp only
          by_cases hasked : v = 5 ∧ method = 2
          · obtain ⟨rfl, rfl⟩ := hasked
            right
            refine ⟨[.said (greeting (some credentials)) (a.through s s'),
              .heard 2 (a.came s' s'')], List.prefix_append [_, _] _, List.prefix_append [_, _] _, ?_⟩
            rw [a.came_eq hunread]
            exact List.prefix_rfl
          · have hsame : (if byteAt [v, method] 0 ≠ version then
                  Dialogue.fail (.wrongVersion (byteAt [v, method] 0) .methodSelection)
                else afterSelection (some credentials) (byteAt [v, method] 1) (askToConnect d)) =
                (if byteAt [v, method] 0 ≠ version then
                  Dialogue.fail (.wrongVersion (byteAt [v, method] 0) .methodSelection)
                else afterSelection (some other) (byteAt [v, method] 1) (askToConnect d)) := by
              split_ifs with hversion
              · rfl
              · exact afterSelection_of_other
                  (fun hmethod => hasked ⟨not_ne_iff.mp hversion, hmethod⟩) other _
            exact .inl ⟨by rw [hsame], by rw [hsame]; rfl⟩

end

/-! ### Over a script -/

def transcriptOver (d : Destination) (c : Option Credentials) (s : Scripted) : List Act :=
  (negotiation d c).transcript Scripted.account s

/-- What a negotiation over a script gives away. -/
structure Discretion (d : Destination) (c : Option Credentials) (s : Scripted) : Prop where
  /-- The transcript holds all that is written … -/
  written : (s.negotiate d c).2.written = s.written ++ saidIn (transcriptOver d c s)
  /-- … and all that is read. -/
  read : s.unread = heardIn (transcriptOver d c s) ++ (s.negotiate d c).2.unread
  /-- At every moment no more has been written than what has been read permits. -/
  within (moment : List Act) :
    moment <+: transcriptOver d c s → saidIn moment <+: permitted d c (heardIn moment)
  /-- Nothing is written once something has failed or has been refused. -/
  ready (before : List Act) (message part : List UInt8) :
    before ++ [.said message part] <+: transcriptOver d c s → part ≠ [] → Ready c before
  /-- Credentials make no difference before a login is asked for … -/
  blind (credentials other : Credentials) (moment : List Act) :
    c = some credentials → moment <+: transcriptOver d c s → ¬[5, 2] <+: heardIn moment →
      moment <+: transcriptOver d (some other) s
  /-- … and none at all if it never is. -/
  alike (credentials other : Credentials) :
    c = some credentials → ¬[5, 2] <+: heardIn (transcriptOver d c s) →
      s.negotiate d (some other) = s.negotiate d c ∧
        transcriptOver d (some other) s = transcriptOver d c s
  /-- Of a login that cannot be sent no byte is written … -/
  noLogin (credentials : Credentials) :
    c = some credentials → ¬credentials.Fit → [5, 2] <+: heardIn (transcriptOver d c s) →
      saidIn (transcriptOver d c s) <+: greeting c
  /-- … and none of a request that cannot be sent. -/
  noRequest (host : String) (port : UInt16) :
    d = .domain host port → 255 < (utf8 host).length →
      saidIn (transcriptOver d c s) <+: greeting c ++ (loginBytes? c).getD []

section

variable {d : Destination} {c : Option Credentials} {heard : List UInt8}

theorem permitted_of_not_sendable (h : loginBytes? c = none) (hasked : [5, 2] <+: heard) :
    permitted d c heard = greeting c := by
  obtain ⟨rest, rfl⟩ := hasked
  rw [permitted, if_neg (by simp), if_pos (List.prefix_append _ _), h, List.append_nil]

theorem permitted_prefix_of_no_request (h : requestBytes d = []) :
    permitted d c heard <+: greeting c ++ (loginBytes? c).getD [] := by
  rw [permitted, h]
  apply (List.prefix_append_right_inj _).mpr
  cases loginBytes? c with
  | none => simp
  | some login =>
      simp only [List.append_nil, ite_self, Option.getD_some]
      split_ifs
      · exact List.nil_prefix
      · exact List.prefix_rfl
      · exact List.nil_prefix

theorem loginBytes?_of_not_fit {credentials : Credentials} (h : ¬credentials.Fit) :
    loginBytes? (some credentials) = none := by
  rw [← exists_loginRequest_iff] at h
  rw [loginBytes?, Option.bind_some]
  cases hlogin : loginRequest credentials with
  | error tooLong => rfl
  | ok login => exact absurd ⟨login, hlogin⟩ h

theorem requestBytes_of_long {host : String} (h : 255 < (utf8 host).length) (port : UInt16) :
    requestBytes (.domain host port) = [] := by
  rw [requestBytes, connectRequest, (counted?_eq_none_iff host).mpr h]

variable {credentials : Credentials} {s : Scripted}

theorem moment_blind {moment : List Act} (other : Credentials)
    (hmoment : moment <+: transcriptOver d (some credentials) s)
    (hnot : ¬[5, 2] <+: heardIn moment) : moment <+: transcriptOver d (some other) s := by
  rcases negotiation_of_other d credentials other Scripted.account s with
    ⟨-, hsame⟩ | ⟨front, hfront, hother, hasked⟩
  · rw [transcriptOver, hsame] at hmoment
    exact hmoment
  · rcases List.prefix_or_prefix_of_prefix hmoment hfront with hbefore | ⟨later, rfl⟩
    · exact hbefore.trans hother
    · rw [heardIn_append] at hnot
      exact absurd (hasked.trans (List.prefix_append _ _)) hnot

theorem negotiate_alike (other : Credentials)
    (hnot : ¬[5, 2] <+: heardIn (transcriptOver d (some credentials) s)) :
    s.negotiate d (some other) = s.negotiate d (some credentials) ∧
      transcriptOver d (some other) s = transcriptOver d (some credentials) s := by
  rcases negotiation_of_other d credentials other Scripted.account s with
    ⟨hend, hsame⟩ | ⟨front, ⟨later, hfront⟩, -, hasked⟩
  · exact ⟨by rw [Scripted.negotiate, Scripted.negotiate, hend], hsame.symm⟩
  · rw [transcriptOver, ← hfront, heardIn_append] at hnot
    exact absurd (hasked.trans (List.prefix_append _ _)) hnot

theorem said_within {moment : List Act} (h : moment <+: transcriptOver d c s) :
    saidIn moment <+: permitted d c (heardIn moment) :=
  ((always_negotiation d c).transcript Scripted.account s moment h).within

end

/-- Whatever a proxy says and wherever the stream breaks, the client discloses no more than it
has to. -/
theorem negotiate_discreet (d : Destination) (c : Option Credentials) (s : Scripted) :
    Discretion d c s where
  written := by
    rw [(negotiate_eq_ok_iff c s).2]
    exact (negotiation d c).written_over Scripted.account s
  read := by
    rw [(negotiate_eq_ok_iff c s).2]
    exact (negotiation d c).unread_over Scripted.account Scripted.unread_send s
  within _ := said_within
  ready before message part h :=
    ((always_negotiation d c).transcript Scripted.account s _ h).ready before message part rfl
  blind := by
    rintro credentials other moment rfl hmoment hnot
    exact moment_blind other hmoment hnot
  alike := by
    rintro credentials other rfl hnot
    exact negotiate_alike other hnot
  noLogin := by
    rintro credentials rfl hfit hasked
    rw [← permitted_of_not_sendable (d := d) (loginBytes?_of_not_fit hfit) hasked]
    exact said_within List.prefix_rfl
  noRequest := by
    rintro host port rfl hlong
    exact (said_within List.prefix_rfl).trans
      (permitted_prefix_of_no_request (requestBytes_of_long hlong port))

/-- A proxy that asks for a login, over a stream that breaks in the middle of the password. -/
theorem negotiate_discreet_of_broken_login :
    let d : Destination := .domain "a" 80
    let c : Option Credentials := some ⟨"u", "pass"⟩
    let s : Scripted := { Scripted.ofReads [.data [5], .data [2, 1]] with limit := some 10 }
    (s.negotiate d c).2.written = greeting c ++ [1, 1, 117, 4, 112, 97] ∧
      saidIn (transcriptOver d c s) <+: permitted d c (heardIn (transcriptOver d c s)) ∧
      heardIn (transcriptOver d c s) = [5, 2] := by
  intro d c s
  have h := negotiate_discreet d c s
  refine ⟨by decide +kernel, h.within _ List.prefix_rfl, by decide +kernel⟩

end ProxyTiming.Socks
