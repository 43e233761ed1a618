import ProxyTiming.Proofs.Socks.Conversation

/-!
# What makes a negotiation fail

A negotiation that fails blames something: the connection, what the proxy has said, or what the
client was given.  The client is to blame in three cases only, a user name, a password or a host
name of more than 255 bytes.  So it never comes to the first two with credentials that fit, and
never to the third with a destination whose name fits.
-/

namespace ProxyTiming.Socks

open ProxyTiming.Text

variable {d : Destination} {c : Option Credentials} {f : Failure}

/-- Why a negotiation may fail, given what the client was given. -/
inductive Cause (d : Destination) (c : Option Credentials) : Failure → Prop where
  | lost (reason : String) : Cause d c (.lost reason)
  | wrongVersion (found : UInt8) (answer : Answer) (wrong : found ≠ version) :
      Cause d c (.wrongVersion found answer)
  | loginRequired (given : c = none) : Cause d c .loginRequired
  | noMethodAccepted : Cause d c .noMethodAccepted
  | unknownMethod (found : UInt8) : Cause d c (.unknownMethod found)
  | usernameTooLong (credentials : Credentials) (given : c = some credentials)
      (long : 255 < (utf8 credentials.username).length) : Cause d c .usernameTooLong
  | passwordTooLong (credentials : Credentials) (given : c = some credentials)
      (long : 255 < (utf8 credentials.password).length) : Cause d c .passwordTooLong
  | loginRejected (credentials : Credentials) (given : c = some credentials) (status : UInt8)
      (nonzero : status ≠ 0) : Cause d c (.loginRejected status)
  | hostTooLong (host : String) (port : UInt16) (asked : d = .domain host port)
      (long : 255 < (utf8 host).length) : Cause d c (.hostTooLong host)
  | refused (code : UInt8) (nonzero : code ≠ 0) : Cause d c (.refused code)
  | unknownAddressKind (found : UInt8) : Cause d c (.unknownAddressKind found)

/-! ### Dialogues -/

/-- Every failure with which the dialogue ends, whatever is answered, is of this kind. -/
def Dialogue.Blames {α : Type} (P : Failure → Prop) : Dialogue (Except Failure α) → Prop
  | .done (.ok _) => True
  | .done (.error f) => P f
  | .send _ next => next.Blames P
  | .receive _ next => ∀ bytes, (next bytes).Blames P

/-- Over a channel the connection may be lost as well. -/
theorem Dialogue.Blames.over {α σ : Type} {channel : Channel σ} {P : Failure → Prop}
    {dialogue : Dialogue (Except Failure α)} (h : dialogue.Blames P)
    (lost : ∀ reason, P (.lost reason)) {s : σ}
    (hfail : (dialogue.over channel s).1 = some (.error f)) : P f := by
  induction dialogue generalizing s with
  | done result =>
      obtain rfl : result = .error f := Option.some.inj hfail
      exact h
  | send message next ih =>
      rcases hsend : channel.send message s with ⟨fate, s'⟩
      rw [Dialogue.over, hsend] at hfail
      cases fate with
      | value u => exact ih h hfail
      | lost reason =>
          obtain rfl : Failure.lost reason = f := Except.error.inj (Option.some.inj hfail)
          exact lost reason
      | stalled => cases hfail
  | receive count next ih =>
      rcases hreceive : channel.receive count s with ⟨fate, s'⟩
      rw [Dialogue.over, hreceive] at hfail
      cases fate with
      | value bytes => exact ih bytes (h bytes) hfail
      | lost reason =>
          obtain rfl : Failure.lost reason = f := Except.error.inj (Option.some.inj hfail)
          exact lost reason
      | stalled => cases hfail

/-! ### The negotiation -/

theorem blames_readReply : readReply.Blames (Cause d c) := by
  intro header
  dsimp only
  split_ifs with hversion hcode
  · exact .wrongVersion _ _ hversion
  · exact .refused _ hcode
  · rw [readAddress]
    split_ifs
    · exact fun _ => trivial
    · exact fun _ => trivial
    · exact fun _ _ => trivial
    · exact .unknownAddressKind _

theorem blames_askToConnect : (askToConnect d).Blames (Cause d c) := by
  rw [askToConnect]
  cases hrequest : connectRequest d with
  | ok request => exact blames_readReply
  | error host =>
      rw [connectRequest.eq_def] at hrequest
      split at hrequest
      · cases hrequest
      · cases hrequest
      · rename_i name port
        split at hrequest
        · cases hrequest
        · rename_i hcounted
          obtain rfl : name = host := Except.error.inj hrequest
          exact .hostTooLong name port rfl ((counted?_eq_none_iff name).mp hcounted)

theorem blames_logIn {credentials : Credentials} (given : c = some credentials)
    {next : Dialogue (Except Failure Unit)} (h : next.Blames (Cause d c)) :
    (logIn credentials next).Blames (Cause d c) := by
  rw [logIn]
  cases hlogin : loginRequest credentials with
  | ok request =>
      intro status
      dsimp only
      split_ifs with hstatus
      · exact .loginRejected credentials given _ hstatus
      · exact h
  | error tooLong =>
      rw [loginRequest] at hlogin
      split at hlogin
      · cases hlogin
      · rename_i huser
        obtain rfl : TooLong.username = tooLong := Except.error.inj hlogin
        exact .usernameTooLong credentials given ((counted?_eq_none_iff _).mp huser)
      · rename_i hpass _
        obtain rfl : TooLong.password = tooLong := Except.error.inj hlogin
        exact .passwordTooLong credentials given ((counted?_eq_none_iff _).mp hpass)

theorem blames_negotiation (d : Destination) (c : Option Credentials) :
    (negotiation d c).Blames (Cause d c) := by
  intro choice
  dsimp only
  split_ifs with hversion
  · exact .wrongVersion _ _ hversion
  · unfold afterSelection
    split_ifs
    · exact blames_askToConnect
    · cases c with
      | none => exact .loginRequired rfl
      | some credentials => exact blames_logIn rfl blames_askToConnect
    · exact .noMethodAccepted
    · exact .unknownMethod _

/-- A negotiation over a channel fails for one of these causes. -/
theorem cause_of_negotiation {σ : Type} {channel : Channel σ} {s : σ}
    (h : ((negotiation d c).over channel s).1 = some (.error f)) : Cause d c f :=
  (blames_negotiation d c).over .lost h

/-- With credentials that fit, or without any, nothing is too long but perhaps the host. -/
theorem Cause.fits (h : Cause d c f) (fit : ∀ credentials ∈ c, credentials.Fit) :
    f ≠ .usernameTooLong ∧ f ≠ .passwordTooLong ∧
      ∀ host, f = .hostTooLong host → ∃ port, d = .domain host port ∧ 255 < (utf8 host).length := by
  cases h with
  | usernameTooLong credentials given long => exact absurd (fit credentials given).1 (by omega)
  | passwordTooLong credentials given long => exact absurd (fit credentials given).2 (by omega)
  | hostTooLong host port asked long =>
      refine ⟨nofun, nofun, fun host' h => ?_⟩
      obtain rfl : host = host' := Failure.hostTooLong.inj h
      exact ⟨port, asked, long⟩
  | _ => exact ⟨nofun, nofun, nofun⟩

end ProxyTiming.Socks
