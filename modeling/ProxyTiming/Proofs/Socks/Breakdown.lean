import ProxyTiming.Proofs.Socks.Readable
import ProxyTiming.Proofs.Socks.Transcript

/-!
# Where a negotiation breaks down

A negotiation has two parts.  In the first one the proxy selects a way to log in, and accepts the
login if there is one; in the second one it replies to the request.  It can break down in either,
since the connection is lost, since the proxy says something else than it should, or since the
client has been given a text that cannot be sent.

How far it had come is told by the bytes that have been taken off the stream, and what the failure
is called depends on that alone.  The proxy's own attempt to reach the target has failed if these
bytes end with a whole reply that says so.  A name that is too long is found out when the first part
is over, before anything of the second.  Everything else is the negotiation's own failure, and
so is a reply that breaks off, wherever it does.
-/

namespace ProxyTiming.Stream.Scripted

open ProxyTiming.Socks

/-! ### Whole reads and whole writes -/

/-- A whole read brings all its bytes, or the connection is lost before the last of them. -/
theorem receiveWithin_cases (fuel : Nat) (done : List UInt8) (n : Nat) (s : Scripted)
    (hfuel : n < fuel) :
    (∃ bytes s', receiveWithin fuel done n s = (.value (done ++ bytes), s') ∧
      bytes.length = n ∧ s.unread = bytes ++ s'.unread) ∨
    ∃ reason part s', receiveWithin fuel done n s = (.lost reason, s') ∧
      part.length < n ∧ s.unread = part ++ s'.unread := by
  induction fuel generalizing done n s with
  | zero => exact absurd hfuel (Nat.not_lt_zero n)
  | succ fuel ih =>
      rw [receiveWithin]
      split_ifs with hn
      · subst hn
        exact .inl ⟨[], s, by rw [List.append_nil], rfl, rfl⟩
      · have hpos := Nat.pos_of_ne_zero hn
        rcases read_cases n s with
          ⟨reason, rest, hread, hunread⟩ | ⟨bytes, rest, hread, hle, hunread⟩
        · rw [hread]
          exact .inr ⟨reason, [], _, rfl, hpos, hunread⟩
        · rw [hread]
          cases bytes with
          | nil => exact .inr ⟨earlyEndMessage, [], _, rfl, hpos, hunread⟩
          | cons b bs =>
              have hone : 0 < (b :: bs).length := Nat.zero_lt_succ _
              dsimp only
              rcases ih (done ++ b :: bs) (n - (b :: bs).length) { s with reads := rest }
                  (by omega) with
                ⟨more, s', hmore, hlength, hrest⟩ | ⟨reason, part, s', hlost, hlength, hrest⟩
              · refine .inl ⟨b :: bs ++ more, s', ?_, ?_, ?_⟩
                · rw [hmore, List.append_assoc]
                · rw [List.length_append]
                  omega
                · rw [hunread, hrest, List.append_assoc]
              · refine .inr ⟨reason, b :: bs ++ part, s', hlost, ?_, ?_⟩
                · rw [List.length_append]
                  omega
                · rw [hunread, hrest, List.append_assoc]

theorem receiveExactly_cases (n : Nat) (s : Scripted) :
    (∃ bytes s', s.receiveExactly n = (.value bytes, s') ∧
      bytes.length = n ∧ s.unread = bytes ++ s'.unread) ∨
    ∃ reason part s', s.receiveExactly n = (.lost reason, s') ∧
      part.length < n ∧ s.unread = part ++ s'.unread :=
  receiveWithin_cases (n + 1) [] n s (Nat.lt_succ_self n)

theorem sendWithin_cases (fuel : Nat) (bytes : List UInt8) (s : Scripted) :
    (sendWithin fuel bytes s).1 = .value () ∨
      ∃ reason, (sendWithin fuel bytes s).1 = .lost reason := by
  induction fuel generalizing bytes s with
  | zero => exact .inl rfl
  | succ fuel ih =>
      rw [sendWithin]
      split_ifs
      · exact .inl rfl
      · rcases s.write bytes with ⟨reason | n, s'⟩
        · exact .inr ⟨reason, rfl⟩
        · dsimp only
          split_ifs
          · exact .inr ⟨writeZeroMessage, rfl⟩
          · exact ih _ _

end ProxyTiming.Stream.Scripted

namespace ProxyTiming.Socks

open ProxyTiming.Stream ProxyTiming.Text

/-! ### Dialogues -/

/-- What can be said of every failure with which the dialogue ends, and of what has been heard
until then, whatever is answered and wherever the connection is lost. -/
def Dialogue.Breaks {α : Type} (P : List UInt8 → Failure → Prop) :
    Dialogue (Except Failure α) → List UInt8 → Prop
  | .done (.ok _), _ => True
  | .done (.error f), heard => P heard f
  | .send _ next, heard => (∀ reason, P heard (.lost reason)) ∧ next.Breaks P heard
  | .receive count next, heard =>
    (∀ part reason, part.length < count → P (heard ++ part) (.lost reason)) ∧
      ∀ bytes, bytes.length = count → (next bytes).Breaks P (heard ++ bytes)

/-- Over a script a dialogue always ends, and what has been heard is what is not unread. -/
theorem Dialogue.Breaks.over {α : Type} {P : List UInt8 → Failure → Prop}
    {dialogue : Dialogue (Except Failure α)} {heard : List UInt8} (h : dialogue.Breaks P heard)
    (s : Scripted) :
    ∃ result more, (dialogue.over Scripted.channel s).1 = some result ∧
      s.unread = more ++ (dialogue.over Scripted.channel s).2.unread ∧
      ∀ f, result = .error f → P (heard ++ more) f := by
  induction dialogue generalizing heard s with
  | done result =>
      refine ⟨result, [], rfl, rfl, ?_⟩
      rintro f rfl
      rw [List.append_nil]
      exact h
  | send message next ih =>
      have hunread := Scripted.unread_send message s
      have hcases := Scripted.sendWithin_cases (message.length + 1) message s
      rcases hsend : Scripted.channel.send message s with ⟨fate, s'⟩
      rw [hsend] at hunread
      rw [show Scripted.sendWithin (message.length + 1) message s = (fate, s') from hsend] at hcases
      rw [Dialogue.over, hsend, ← hunread]
      obtain rfl | ⟨reason, rfl⟩ := hcases
      · exact ih h.2 s'
      · refine ⟨_, [], rfl, rfl, ?_⟩
        rintro f hf
        obtain rfl := Except.error.inj hf
        rw [List.append_nil]
        exact h.1 reason
  | receive count next ih =>
      rw [Dialogue.over]
      rcases Scripted.receiveExactly_cases count s with
        ⟨bytes, s', hreceive, hlength, hunread⟩ | ⟨reason, part, s', hreceive, hlength, hunread⟩
      · rw [show Scripted.channel.receive count s = (.value bytes, s') from hreceive]
        obtain ⟨result, more, hresult, hmore, hP⟩ := ih bytes (h.2 bytes hlength) s'
        refine ⟨result, bytes ++ more, hresult, ?_, ?_⟩
        · rw [hunread, hmore, List.append_assoc]
        · rwa [← List.append_assoc]
      · rw [show Scripted.channel.receive count s = (.lost reason, s') from hreceive]
        refine ⟨_, part, rfl, hunread, ?_⟩
        rintro f hf
        obtain rfl := Except.error.inj hf
        exact h.1 part reason hlength

/-! ### How far a negotiation had come -/

/-- The proxy has selected a way to log in, and has accepted the login if there is one. -/
inductive Selected (c : Option Credentials) : List UInt8 → Prop where
  | intro (method : UInt8) (login : List UInt8) (h : Selection c method login) :
      Selected c ([5, method] ++ login)

inductive Unselected (c : Option Credentials) : List UInt8 → Failure → Prop where
  | lost (heard : List UInt8) (reason : String) (short : heard.length < 2) :
      Unselected c heard (.lost reason)
  | wrongVersion (found method : UInt8) (wrong : found ≠ 5) :
      Unselected c [found, method] (.wrongVersion found .methodSelection)
  | loginRequired (given : c = none) : Unselected c [5, 2] .loginRequired
  | noMethodAccepted : Unselected c [5, 255] .noMethodAccepted
  | unknownMethod (method : UInt8) (unknown : method ∉ [0, 2, 255]) :
      Unselected c [5, method] (.unknownMethod method)
  | usernameTooLong (credentials : Credentials) (given : c = some credentials)
      (long : 255 < (utf8 credentials.username).length) :
      Unselected c [5, 2] .usernameTooLong
  | passwordTooLong (credentials : Credentials) (given : c = some credentials)
      (long : 255 < (utf8 credentials.password).length) :
      Unselected c [5, 2] .passwordTooLong
  | lostInLogin (credentials : Credentials) (given : c = some credentials) (part : List UInt8)
      (reason : String) (short : part.length < 2) : Unselected c ([5, 2] ++ part) (.lost reason)
  | loginRejected (credentials : Credentials) (given : c = some credentials) (v status : UInt8)
      (nonzero : status ≠ 0) : Unselected c [5, 2, v, status] (.loginRejected status)

inductive Unopened (d : Destination) : List UInt8 → Failure → Prop where
  | hostTooLong (host : String) (port : UInt16) (asked : d = .domain host port)
      (long : 255 < (utf8 host).length) : Unopened d [] (.hostTooLong host)
  | lost (request part : List UInt8) (reason : String) (encoded : connectRequest d = .ok request)
      (short : part.length < 4) : Unopened d part (.lost reason)
  | wrongVersion (found code reserved kind : UInt8) (wrong : found ≠ 5) :
      Unopened d [found, code, reserved, kind] (.wrongVersion found .connectReply)
  | refused (code reserved kind : UInt8) (nonzero : code ≠ 0) :
      Unopened d [5, code, reserved, kind] (.refused code)
  | unknownAddressKind (reserved kind : UInt8) (unknown : kind ∉ [1, 3, 4]) :
      Unopened d [5, 0, reserved, kind] (.unknownAddressKind kind)
  | lostInAddress (reserved kind : UInt8) (part : List UInt8) (reason : String) :
      Unopened d ([5, 0, reserved, kind] ++ part) (.lost reason)

/-- What has been heard, and what has failed, when a negotiation has broken down. -/
inductive Breakdown (d : Destination) (c : Option Credentials) : List UInt8 → Failure → Prop where
  | early (heard : List UInt8) (f : Failure) (h : Unselected c heard f) : Breakdown d c heard f
  | late (selected since : List UInt8) (f : Failure) (h : Selected c selected)
      (h' : Unopened d since f) : Breakdown d c (selected ++ since) f

/-! ### Part for part -/

section

variable {d : Destination} {c : Option Credentials} {selected heard since : List UInt8}

theorem breaks_readBound (h : Selected c selected) (reserved kind : UInt8) (count : Nat)
    (part : List UInt8) : (readBound count).Breaks (Breakdown d c)
      (selected ++ ([5, 0, reserved, kind] ++ part)) := by
  refine ⟨fun more reason _ => ?_, fun _ _ => trivial⟩
  rw [List.append_assoc, List.append_assoc]
  exact .late selected _ _ h (.lostInAddress reserved kind (part ++ more) reason)

theorem breaks_readAddress (h : Selected c selected) (reserved kind : UInt8) :
    (readAddress kind).Breaks (Breakdown d c) (selected ++ [5, 0, reserved, kind]) := by
  have hbound (count : Nat) (part : List UInt8) :=
    breaks_readBound (d := d) h reserved kind count part
  rw [readAddress]
  split_ifs with hv4 hv6 hdomain
  · simpa using hbound 6 []
  · simpa using hbound 18 []
  · refine ⟨fun part reason _ => ?_, fun length _ => ?_⟩
    · rw [List.append_assoc]
      exact .late selected _ _ h (.lostInAddress reserved kind part reason)
    · rw [List.append_assoc]
      exact hbound _ length
  · have hunknown : kind ∉ [1, 3, 4] := by
      simp only [List.mem_cons, List.not_mem_nil, or_false, not_or]
      exact ⟨hv4, hdomain, hv6⟩
    exact .late selected _ _ h (.unknownAddressKind reserved kind hunknown)

theorem breaks_readReply (h : Selected c selected) {request : List UInt8}
    (encoded : connectRequest d = .ok request) :
    readReply.Breaks (Breakdown d c) selected := by
  refine ⟨fun part reason hshort =>
      .late selected part _ h (.lost request part reason encoded hshort),
    fun header hlength => ?_⟩
  obtain ⟨v, code, reserved, kind, rfl⟩ := List.length_eq_four.mp hlength
  dsimp only
  split_ifs with hversion hcode
  · exact .late selected _ _ h (.wrongVersion v code reserved kind hversion)
  · obtain rfl : v = 5 := not_ne_iff.mp hversion
    exact .late selected _ _ h (.refused code reserved kind hcode)
  · obtain rfl : v = 5 := not_ne_iff.mp hversion
    obtain rfl : code = 0 := not_ne_iff.mp hcode
    exact breaks_readAddress h reserved kind

theorem breaks_askToConnect (h : Selected c selected) :
    (askToConnect d).Breaks (Breakdown d c) selected := by
  rw [askToConnect]
  cases hrequest : connectRequest d with
  | ok request =>
      refine ⟨fun reason => ?_, breaks_readReply h hrequest⟩
      rw [← List.append_nil selected]
      exact .late selected [] _ h (.lost request [] reason hrequest (Nat.zero_lt_succ 3))
  | error host =>
      obtain ⟨port, asked, long⟩ := connectRequest_eq_error_iff.mp hrequest
      show Breakdown d c selected _
      rw [← List.append_nil selected]
      exact .late selected [] _ h (.hostTooLong host port asked long)

theorem breaks_logIn {credentials : Credentials} (given : c = some credentials) :
    (logIn credentials (askToConnect d)).Breaks (Breakdown d c) [5, 2] := by
  rw [logIn]
  cases hlogin : loginRequest credentials with
  | error tooLong =>
      rcases loginRequest_eq_error_iff.mp hlogin with ⟨long, rfl⟩ | ⟨-, long, rfl⟩
      · exact .early _ _ (.usernameTooLong credentials given long)
      · exact .early _ _ (.passwordTooLong credentials given long)
  | ok login =>
      have hfit := (exists_loginRequest_iff credentials).mp ⟨login, hlogin⟩
      refine ⟨fun reason => ?_, fun part reason hshort => ?_, fun status hlength => ?_⟩
      · exact .early _ _ (.lostInLogin credentials given [] reason (Nat.zero_lt_succ 1))
      · exact .early _ _ (.lostInLogin credentials given part reason hshort)
      · obtain ⟨v, code, rfl⟩ := List.length_eq_two.mp hlength
        dsimp only
        split_ifs with hrejected
        · exact .early _ _ (.loginRejected credentials given v code hrejected)
        · obtain rfl : code = 0 := not_ne_iff.mp hrejected
          exact breaks_askToConnect (.intro 2 [v, 0] (.password credentials given hfit v))

theorem breaks_negotiation (d : Destination) (c : Option Credentials) :
    (negotiation d c).Breaks (Breakdown d c) [] := by
  refine ⟨fun reason => .early _ _ (.lost [] reason (Nat.zero_lt_succ 1)),
    fun part reason hshort => .early _ _ (.lost part reason hshort), fun choice hlength => ?_⟩
  obtain ⟨v, method, rfl⟩ := List.length_eq_two.mp hlength
  dsimp only
  split_ifs with hversion
  · exact .early _ _ (.wrongVersion v method hversion)
  · obtain rfl : v = 5 := not_ne_iff.mp hversion
    show (afterSelection c method (askToConnect d)).Breaks (Breakdown d c) [5, method]
    unfold afterSelection
    split_ifs with hnone hpassword hrefused
    · subst hnone
      exact breaks_askToConnect (.intro 0 [] .noLogin)
    · subst hpassword
      cases c with
      | none => exact .early _ _ (.loginRequired rfl)
      | some credentials => exact breaks_logIn rfl
    · subst hrefused
      exact .early _ _ .noMethodAccepted
    · have hunknown : method ∉ [0, 2, 255] := by
        simp only [List.mem_cons, List.not_mem_nil, or_false, not_or]
        exact ⟨hnone, hpassword, hrefused⟩
      exact .early _ _ (.unknownMethod method hunknown)

/-! ### What the failure is called -/

inductive Refusal (c : Option Credentials) (code : UInt8) : List UInt8 → Prop where
  | intro (selected : List UInt8) (reserved kind : UInt8) (h : Selected c selected)
      (nonzero : code ≠ 0) : Refusal c code (selected ++ [5, code, reserved, kind])

theorem selected_iff : Selected c selected ↔ selected = [5, 0] ∨
    ∃ v credentials, selected = [5, 2, v, 0] ∧ c = some credentials ∧ credentials.Fit := by
  constructor
  · rintro ⟨_, _, _ | ⟨credentials, given, fit, v⟩⟩
    · exact .inl rfl
    · exact .inr ⟨v, credentials, rfl, given, fit⟩
  · rintro (rfl | ⟨v, credentials, rfl, given, fit⟩)
    · exact .intro 0 [] .noLogin
    · exact .intro 2 [v, 0] (.password credentials given fit v)

/-- It can be seen where the first part of a negotiation is over. -/
theorem Selected.unique {selected' since' : List UInt8} (h : Selected c selected)
    (h' : Selected c selected') (heq : selected ++ since = selected' ++ since') :
    selected = selected' ∧ since = since' := by
  rcases selected_iff.mp h with rfl | ⟨v, -, rfl, -⟩ <;>
    rcases selected_iff.mp h' with rfl | ⟨v', -, rfl, -⟩ <;> simp_all

/-- If no way to log in has been agreed upon, the first part is not over. -/
theorem Unselected.not_selected {f : Failure} (h : Unselected c heard f)
    (h' : Selected c selected) : heard ≠ selected ++ since := by
  intro heq
  rcases selected_iff.mp h' with rfl | ⟨v, -, rfl, -⟩
  · cases h with
    | lost _ _ short =>
        simp only [heq, List.length_append, List.length_cons] at short
        omega
    | _ => simp_all
  · cases h with
    | lost _ _ short =>
        simp only [heq, List.length_append, List.length_cons] at short
        omega
    | lostInLogin _ _ part _ short =>
        obtain rfl : part = [v, 0] ++ since := by simpa using heq
        simp only [List.length_append, List.length_cons] at short
        omega
    | _ => simp_all

theorem Unselected.not_refusal {f : Failure} {code : UInt8} (h : Unselected c heard f) :
    ¬Refusal c code heard := by
  rintro ⟨selected, reserved, kind, h', -⟩
  exact h.not_selected h' rfl

theorem Unselected.error_eq {f : Failure} (h : Unselected c heard f) :
    ∃ reason, f.error = .handshake reason := by
  cases h <;> exact ⟨_, rfl⟩

theorem refusal_append_iff {code : UInt8} (h : Selected c selected) :
    Refusal c code (selected ++ since) ↔
      code ≠ 0 ∧ ∃ reserved kind, since = [5, code, reserved, kind] := by
  constructor
  · generalize hheard : selected ++ since = heard
    rintro ⟨selected', reserved, kind, h', nonzero⟩
    exact ⟨nonzero, reserved, kind, (h.unique h' hheard).2⟩
  · rintro ⟨nonzero, reserved, kind, rfl⟩
    exact .intro selected reserved kind h nonzero

theorem selected_append_iff (h : Selected c selected) :
    Selected c (selected ++ since) ↔ since = [] := by
  constructor
  · intro h'
    exact (h.unique h' (List.append_nil _).symm).2
  · rintro rfl
    rwa [List.append_nil]

theorem isUnreachable_iff {code : UInt8} : isUnreachable code = true ↔ code ∈ [3, 4, 5] := by
  simp only [isUnreachable, Bool.and_eq_true, decide_eq_true_eq, List.mem_cons, List.not_mem_nil,
    or_false, ← UInt8.toNat_inj]
  show _ ↔ code.toNat = 3 ∨ code.toNat = 4 ∨ code.toNat = 5
  omega

end

def Destination.TooLong (d : Destination) : Prop :=
  ∃ host port, d = .domain host port ∧ 255 < (utf8 host).length

/-- The names of a failure tell how far the negotiation had come when it broke down. -/
structure Classified (d : Destination) (c : Option Credentials) (heard : List UInt8)
    (e : TrialError) : Prop where
  /-- The target could not be reached if a whole reply has been heard that says so. -/
  connection : (∃ reason, e = .connection reason) ↔ ∃ code ∈ [3, 4, 5], Refusal c code heard
  /-- There is no valid target if its name is too long, and nothing of the reply has been heard. -/
  invalidTarget : (∃ reason, e = .invalidTarget reason) ↔ Selected c heard ∧ d.TooLong
  /-- In every other case the negotiation itself has failed; there is no fourth name. -/
  handshake : (∃ reason, e = .handshake reason) ↔
    (¬∃ code ∈ [3, 4, 5], Refusal c code heard) ∧ ¬(Selected c heard ∧ d.TooLong)
  /-- Behind the four bytes that refuse the request nothing is heard. -/
  refused (code : UInt8) (front more : List UInt8) : Refusal c code front →
    heard = front ++ more → more = [] ∧ e = (Failure.refused code).error

section

variable {d : Destination} {c : Option Credentials} {selected heard since : List UInt8}
  {f : Failure}

/-- A failure has one of three names. -/
theorem handshake_iff {P Q : Prop} (f : Failure) (hP : (∃ reason, f.error = .connection reason) ↔ P)
    (hQ : (∃ reason, f.error = .invalidTarget reason) ↔ Q) :
    (∃ reason, f.error = .handshake reason) ↔ ¬P ∧ ¬Q := by
  rw [← hP, ← hQ]
  cases f with
  | refused code => cases hcode : isUnreachable code <;> simp [Failure.error, hcode]
  | _ => simp [Failure.error]

theorem Unselected.classified (h : Unselected c heard f) : Classified d c heard f.error := by
  obtain ⟨reason, he⟩ := h.error_eq
  have hunselected : ¬Selected c heard := fun h' =>
    h.not_selected h' (List.append_nil heard).symm
  have connection : (∃ reason, f.error = .connection reason) ↔
      ∃ code ∈ [3, 4, 5], Refusal c code heard := by
    constructor
    · rintro ⟨reason', he'⟩
      cases he.symm.trans he'
    · rintro ⟨code, -, h'⟩
      exact absurd h' h.not_refusal
  have invalidTarget : (∃ reason, f.error = .invalidTarget reason) ↔
      Selected c heard ∧ d.TooLong := by
    constructor
    · rintro ⟨reason', he'⟩
      cases he.symm.trans he'
    · exact fun h' => absurd h'.1 hunselected
  refine ⟨connection, invalidTarget, handshake_iff f connection invalidTarget, ?_⟩
  rintro code _ more ⟨selected, reserved, kind, h', -⟩ hheard
  rw [List.append_assoc] at hheard
  exact absurd hheard (h.not_selected h')

theorem Unopened.connection_iff (h : Unopened d since f) :
    (∃ reason, f.error = .connection reason) ↔
      ∃ code ∈ [3, 4, 5], ∃ reserved kind, since = [5, code, reserved, kind] := by
  cases h with
  | refused code reserved kind nonzero =>
      have hcode : isUnreachable code = true ↔ code ∈ [3, 4, 5] := isUnreachable_iff
      cases hunreachable : isUnreachable code <;> simp_all [Failure.error]
  | lost request _ reason encoded short =>
      constructor
      · rintro ⟨reason', he⟩
        cases he
      · rintro ⟨code, -, reserved, kind, rfl⟩
        exact absurd short (Nat.lt_irrefl 4)
  | _ => simp_all [Failure.error]

theorem Unopened.invalidTarget_iff (h : Unopened d since f) :
    (∃ reason, f.error = .invalidTarget reason) ↔ since = [] ∧ d.TooLong := by
  cases h with
  | hostTooLong host port asked long =>
      exact ⟨fun _ => ⟨rfl, host, port, asked, long⟩, fun _ => ⟨_, rfl⟩⟩
  | lost request _ reason encoded =>
      constructor
      · rintro ⟨reason', he⟩
        cases he
      · rintro ⟨-, host, port, hd, long⟩
        have herror := connectRequest_eq_error_iff.mpr ⟨port, hd, long⟩
        cases encoded.symm.trans herror
  | refused code => cases hunreachable : isUnreachable code <;> simp [Failure.error, hunreachable]
  | _ => simp [Failure.error]

/-- When the request has been refused nothing more is heard. -/
theorem Unopened.refused_of_heard {code reserved kind : UInt8} {more : List UInt8}
    (h : Unopened d since f) (hsince : since = [5, code, reserved, kind] ++ more)
    (nonzero : code ≠ 0) : more = [] ∧ f = .refused code := by
  cases h with
  | hostTooLong => cases hsince
  | lost request _ reason encoded short =>
      rw [hsince, List.length_append] at short
      exact absurd short (Nat.not_lt.mpr (Nat.le_add_right 4 _))
  | _ => simp_all

/-- What has been heard since a way to log in was agreed upon decides about the name. -/
theorem Unopened.classified (h : Selected c selected) (h' : Unopened d since f) :
    Classified d c (selected ++ since) f.error := by
  have connection : (∃ reason, f.error = .connection reason) ↔
      ∃ code ∈ [3, 4, 5], Refusal c code (selected ++ since) := by
    rw [h'.connection_iff]
    simp only [refusal_append_iff h]
    refine exists_congr fun code => and_congr_right fun hcode => ?_
    have nonzero : code ≠ 0 := by
      rintro rfl
      simp at hcode
    simp [nonzero]
  have invalidTarget : (∃ reason, f.error = .invalidTarget reason) ↔
      Selected c (selected ++ since) ∧ d.TooLong := by
    rw [h'.invalidTarget_iff, selected_append_iff h]
  refine ⟨connection, invalidTarget, handshake_iff f connection invalidTarget, ?_⟩
  rintro code _ more ⟨selected', reserved, kind, hselected, nonzero⟩ hheard
  rw [List.append_assoc] at hheard
  obtain ⟨hmore, hf⟩ := h'.refused_of_heard (h.unique hselected hheard).2 nonzero
  exact ⟨hmore, congrArg Failure.error hf⟩

theorem Breakdown.classified (h : Breakdown d c heard f) : Classified d c heard f.error := by
  cases h with
  | early _ _ h => exact h.classified
  | late selected since _ h h' => exact h'.classified h

end

/-! ### Over a script -/

/-- However the proxy's answers come, and wherever the stream ends or fails, a negotiation that
fails has a failure that fits what has been taken off the stream, and it has a name that can be
told from that alone. -/
theorem negotiate_classified (d : Destination) (c : Option Credentials) (s : Scripted)
    {e : TrialError} (h : (s.negotiate d c).1 = .error e) :
    ∃ heard f, s.unread = heard ++ (s.negotiate d c).2.unread ∧ e = f.error ∧
      Breakdown d c heard f ∧ Classified d c heard e := by
  obtain ⟨result, heard, hresult, hunread, hbreaks⟩ := (breaks_negotiation d c).over s
  rw [Scripted.negotiate] at h ⊢
  generalize (negotiation d c).over Scripted.channel s = end' at h hresult hunread ⊢
  obtain ⟨ended, s'⟩ := end'
  obtain rfl : ended = some result := hresult
  cases result with
  | ok => cases h
  | error f =>
      obtain rfl : f.error = e := Except.error.inj h
      have hbreakdown : Breakdown d c heard f := hbreaks f rfl
      exact ⟨heard, f, hunread, rfl, hbreakdown, hbreakdown.classified⟩

/-- A login is accepted, and the request refused; the reply is cut in the middle, and bytes that
nobody reads come with its second half. -/
theorem negotiate_classified_of_refused_login :
    let d : Destination := .domain "a" 80
    let c : Option Credentials := some ⟨"u", "p"⟩
    let s : Scripted := .ofReads [.data [5, 2, 1], .data [0, 5, 4], .data [0, 1, 9, 9]]
    (s.negotiate d c).1 = .error (.connection "proxy replied 0x04: host unreachable") ∧
      (s.negotiate d c).2.unread = [9, 9] ∧ Refusal c 4 [5, 2, 1, 0, 5, 4, 0, 1] ∧
      ∃ heard f, s.unread = heard ++ (s.negotiate d c).2.unread ∧
        Breakdown d c heard f ∧ Classified d c heard f.error := by
  intro d c s
  have hfails : (s.negotiate d c).1 =
      .error (.connection "proxy replied 0x04: host unreachable") := by
    decide +kernel
  obtain ⟨heard, f, hunread, he, hbreakdown, hclassified⟩ := negotiate_classified d c s hfails
  refine ⟨hfails, by decide +kernel, ?_, heard, f, hunread, hbreakdown, he ▸ hclassified⟩
  exact .intro [5, 2, 1, 0] 0 1 (.intro 2 [1, 0] (.password _ rfl (by decide) 1)) (by decide)

end ProxyTiming.Socks
