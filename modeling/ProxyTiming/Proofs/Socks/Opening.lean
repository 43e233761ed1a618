import ProxyTiming.Proofs.Socks.Disclosure
import ProxyTiming.Proofs.Socks.Reading

/-!
# What has been said when the tunnel is open

A negotiation may break off anywhere, but there are only two ways in which it can succeed: with
a login and without one.  In both the client's messages are complete, and a proxy that reads
them finds the credentials and the destination that the client was given, and nothing else.

Of a negotiation that breaks off the proxy may find less, but nothing different.
-/

namespace ProxyTiming.Socks

open ProxyTiming.Text

inductive Opened (d : Destination) (c : Option Credentials) : List UInt8 → List UInt8 → Prop where
  | noLogin (request later : List UInt8) (encoded : connectRequest d = .ok request) :
      Opened d c (greeting c ++ request) (5 :: 0 :: later)
  | loggedIn (credentials : Credentials) (login request later : List UInt8)
      (given : c = some credentials) (sendable : loginRequest credentials = .ok login)
      (encoded : connectRequest d = .ok request) :
      Opened d c (greeting c ++ login ++ request) (5 :: 2 :: later)

/-! ### Where a negotiation can end -/

/-- What holds when a dialogue ends well, whatever is answered, once `acts` have happened. -/
def Dialogue.Ends (P : List Act → Prop) : Dialogue (Except Failure Unit) → List Act → Prop
  | .done result, acts => result = .ok () → P acts
  | .send message next, acts => next.Ends P (acts ++ [.said message message])
  | .receive count next, acts =>
    ∀ bytes, bytes.length = count → (next bytes).Ends P (acts ++ [.heard count bytes])

section

variable {d : Destination} {c : Option Credentials} {acts : List Act} {said heard : List UInt8}

theorem Dialogue.ends_fail {P : List Act → Prop} (f : Failure) : (Dialogue.fail f).Ends P acts :=
  nofun

/-- A dialogue that ends well over a channel leaves a transcript of that kind. -/
theorem Dialogue.Ends.transcript {σ : Type} {channel : Channel σ} {P : List Act → Prop}
    {dialogue : Dialogue (Except Failure Unit)} (h : dialogue.Ends P acts) (a : channel.Account)
    (s : σ) (hok : (dialogue.over channel s).1 = some (.ok ())) :
    P (acts ++ dialogue.transcript a s) := by
  induction dialogue generalizing acts s with
  | done result =>
      rw [Dialogue.transcript, List.append_nil]
      exact h (Option.some.inj hok)
  | send message next ih =>
      rcases hsend : channel.send message s with ⟨fate, s'⟩
      rw [Dialogue.over, hsend] at hok
      cases fate with
      | lost reason => cases hok
      | stalled => cases hok
      | value u =>
          simp only [Dialogue.transcript, hsend, a.through_eq (a.written_send hsend)]
          rw [List.append_cons]
          exact ih h s' hok
  | receive count next ih =>
      rcases hreceive : channel.receive count s with ⟨fate, s'⟩
      rw [Dialogue.over, hreceive] at hok
      cases fate with
      | lost reason => cases hok
      | stalled => cases hok
      | value bytes =>
          obtain ⟨hlength, hunread⟩ := a.length_receive hreceive
          simp only [Dialogue.transcript, hreceive, a.came_eq hunread]
          rw [List.append_cons]
          exact ih bytes (h bytes hlength) s' hok

/-! ### The two ways to succeed -/

theorem Opened.hear (h : Opened d c said heard) (more : List UInt8) :
    Opened d c said (heard ++ more) := by
  cases h with
  | noLogin request later encoded => exact .noLogin request (later ++ more) encoded
  | loggedIn credentials login request later given sendable encoded =>
      exact .loggedIn credentials login request (later ++ more) given sendable encoded

def Opening (d : Destination) (c : Option Credentials) (acts : List Act) : Prop :=
  Opened d c (saidIn acts) (heardIn acts)

theorem Opening.hear (h : Opening d c acts) (count : Nat) (bytes : List UInt8) :
    Opening d c (acts ++ [.heard count bytes]) := by
  simpa [Opening] using Opened.hear h bytes

/-- Nothing more is said once the request is. -/
theorem ends_readReply (h : Opening d c acts) : readReply.Ends (Opening d c) acts := by
  have hbound {acts : List Act} (h : Opening d c acts) (count : Nat) :
      (readBound count).Ends (Opening d c) acts := fun bytes _ _ => h.hear count bytes
  intro header _
  dsimp only
  split_ifs
  · exact Dialogue.ends_fail _
  · exact Dialogue.ends_fail _
  · unfold readAddress
    split_ifs
    · exact hbound (h.hear _ _) 6
    · exact hbound (h.hear _ _) 18
    · exact fun length _ => hbound ((h.hear _ _).hear _ _) _
    · exact Dialogue.ends_fail _

theorem ends_askToConnect
    (h : ∀ request, connectRequest d = .ok request →
      Opened d c (saidIn acts ++ request) (heardIn acts)) :
    (askToConnect d).Ends (Opening d c) acts := by
  unfold askToConnect
  cases hrequest : connectRequest d with
  | error host => exact Dialogue.ends_fail _
  | ok request =>
      apply ends_readReply
      simpa [Opening] using h request hrequest

theorem ends_logIn {credentials : Credentials} (given : c = some credentials)
    (said : saidIn acts = greeting c) (heard : heardIn acts = [5, 2]) :
    (logIn credentials (askToConnect d)).Ends (Opening d c) acts := by
  unfold logIn
  cases hlogin : loginRequest credentials with
  | error tooLong => cases tooLong <;> exact Dialogue.ends_fail _
  | ok login =>
      intro status _
      dsimp only
      split_ifs
      · exact Dialogue.ends_fail _
      · refine ends_askToConnect fun request hrequest => ?_
        simpa [said, heard] using
          Opened.loggedIn credentials login request status given hlogin hrequest

/-- A negotiation that succeeds does so in one of the two ways. -/
theorem ends_negotiation (d : Destination) (c : Option Credentials) :
    (negotiation d c).Ends (Opening d c) [] := by
  intro choice hlength
  dsimp only
  split_ifs with hversion
  · exact Dialogue.ends_fail _
  · obtain ⟨v, method, rfl⟩ := List.length_eq_two.mp hlength
    obtain rfl : v = 5 := not_ne_iff.mp hversion
    show (afterSelection c method (askToConnect d)).Ends _ _
    unfold afterSelection
    split_ifs with hnone hpassword
    · subst hnone
      refine ends_askToConnect fun request hrequest => ?_
      simpa [methodNone] using Opened.noLogin (c := c) request [] hrequest
    · subst hpassword
      cases c with
      | none => exact Dialogue.ends_fail _
      | some credentials => exact ends_logIn rfl (by simp) (by simp [methodPassword])
    · exact Dialogue.ends_fail _
    · exact Dialogue.ends_fail _

/-! ### What the proxy has read -/

def loginFor (c : Option Credentials) (method : UInt8) : Option Login :=
  if method = methodPassword then c.map Credentials.login else none

/-- The proxy reads everything that the client has said by the time the tunnel is open. -/
theorem takeSpoken_of_opened (h : Opened d c said heard) :
    ∃ method, heard[1]? = some method ∧
      takeSpoken method said = some (⟨offered c, loginFor c method, d.goal⟩, []) := by
  cases h with
  | noLogin request later encoded =>
      have hgoal := takeConnect_of_connectRequest encoded []
      rw [List.append_nil] at hgoal
      refine ⟨0, rfl, ?_⟩
      rw [takeSpoken_greeting]
      simp [takeLoginFor, methodPassword, hgoal, loginFor]
  | loggedIn credentials login request later given sendable encoded =>
      have hgoal := takeConnect_of_connectRequest encoded []
      rw [List.append_nil] at hgoal
      refine ⟨2, rfl, ?_⟩
      rw [List.append_assoc, takeSpoken_greeting]
      simp [takeLoginFor, methodPassword, takeLogin_of_loginRequest sendable, hgoal, loginFor,
        given]

/-- What may be said after the greeting, by the method that was selected. -/
inductive Permitted (d : Destination) (c : Option Credentials) : UInt8 → List UInt8 → Prop where
  | nothing (method : UInt8) : Permitted d c method []
  | request : Permitted d c 0 (requestBytes d)
  | login (credentials : Credentials) (login request : List UInt8) (given : c = some credentials)
      (sendable : loginRequest credentials = .ok login)
      (accepted : request = [] ∨ request = requestBytes d) : Permitted d c 2 (login ++ request)

theorem permitted_eq {method : UInt8} (selected : heard[1]? = some method) :
    ∃ more, permitted d c heard = greeting c ++ more ∧ Permitted d c method more := by
  refine ⟨_, rfl, ?_⟩
  by_cases hnone : [5, 0] <+: heard
  · obtain ⟨later, rfl⟩ := hnone
    obtain rfl : 0 = method := Option.some.inj selected
    rw [if_pos (List.prefix_append _ _)]
    exact .request
  rw [if_neg hnone]
  by_cases hpassword : [5, 2] <+: heard
  · obtain ⟨later, rfl⟩ := hpassword
    obtain rfl : 2 = method := Option.some.inj selected
    rw [if_pos (List.prefix_append _ _)]
    cases hsendable : loginBytes? c with
    | none => exact .nothing 2
    | some login =>
        obtain ⟨credentials, rfl, hlogin⟩ := Option.bind_eq_some_iff.mp hsendable
        refine .login credentials login _ rfl ?_ ?_
        · cases hrequest : loginRequest credentials with
          | error tooLong => simp [hrequest, Except.toOption] at hlogin
          | ok message => simpa [hrequest, Except.toOption] using hlogin
        · exact (ite_eq_or_eq _ _ _).symm
  · rw [if_neg hpassword]
    exact .nothing method

theorem goal_of_taken {request rest : List UInt8} {goal : Goal}
    (h : request = [] ∨ request = requestBytes d)
    (hread : takeConnect request = some (goal, rest)) : goal = d.goal := by
  rcases h with rfl | rfl
  · cases hread
  · rw [requestBytes] at hread
    split at hread
    next request hrequest =>
      have hgoal := takeConnect_of_connectRequest hrequest []
      rw [List.append_nil, hread] at hgoal
      exact (Prod.mk.inj (Option.some.inj hgoal)).1
    next => cases hread

/-- Whatever the proxy reads off what the client may say is what the client was given. -/
theorem spoken_of_permitted {method : UInt8} {spoken : Spoken} {rest : List UInt8}
    (h : said <+: permitted d c heard) (selected : heard[1]? = some method)
    (hread : takeSpoken method said = some (spoken, rest)) :
    spoken = ⟨offered c, loginFor c method, d.goal⟩ := by
  -- It would read the same if all had been said that may be.
  obtain ⟨more, hmore⟩ := h
  have hread := takeSpoken_steady method hread more
  obtain ⟨bytes, hbytes, hpermitted⟩ := permitted_eq (d := d) (c := c) selected
  rw [hmore, hbytes, takeSpoken_greeting] at hread
  obtain ⟨⟨login, bytes'⟩, hlogin, hafter⟩ := Option.bind_eq_some_iff.mp hread
  obtain ⟨⟨goal, rest'⟩, hgoal, heq⟩ := Option.map_eq_some_iff.mp hafter
  obtain ⟨rfl, -⟩ := Prod.mk.inj heq
  cases hpermitted with
  | nothing =>
      unfold takeLoginFor at hlogin
      split_ifs at hlogin
      · cases hlogin
      · cases hlogin
        cases hgoal
  | request =>
      cases hlogin
      rw [goal_of_taken (.inr rfl) hgoal]
      rfl
  | login credentials message request given sendable accepted =>
      rw [takeLoginFor, if_pos (show (2 : UInt8) = methodPassword from rfl),
        takeLogin_of_loginRequest sendable] at hlogin
      cases hlogin
      rw [goal_of_taken accepted hgoal, given]
      rfl

end

end ProxyTiming.Socks
