import Mathlib.Tactic.SplitIfs
import ProxyTiming.Proofs.Attempt.Ensures

/-!
# What an attempt is answered

A request is answered when it has been sent, the head of the final response has come in, and the
deadline has not passed by then.  All three can be seen in the session, without looking at what
the attempt makes of it: the trace tells what was sent, the connection what has come in, and the
number of waits whether one of them was cut off.

An attempt has a status if it was answered, and the status is that of the answer.  If it stops it
was not: before the exchange there is no request, and in the exchange it stops only for want of a
head, or of time.
-/

namespace ProxyTiming

open ProxyTiming.Net ProxyTiming.Socks ProxyTiming.Http

/-! ### Answers -/

def Effect.isRequest : Effect → Bool
  | .request _ => true
  | _ => false

def Watch.hasExpired (w : Watch) (waits : Nat) : Bool :=
  match w.deadline with
  | some d => decide (d.waits < waits)
  | none => false

namespace Session

def hasAsked (s : Session) : Bool := s.trace.any Effect.isRequest

/-- The status of the final response head that has come in after the request and before the
deadline. -/
def answer? (w : Watch) (s : Session) : Option UInt16 :=
  match s.link with
  | some link =>
    if s.hasAsked ∧ w.hasExpired s.waits = false then (responseStatus link.unread).toOption
    else none
  | none => none

end Session

/-! ### Waits -/

section

variable {w : Watch} {waits : Nat} {s : Session}

theorem Watch.hasExpired_zero (w : Watch) : w.hasExpired 0 = false := by
  unfold hasExpired
  cases w.deadline <;> simp

/-- The deadline passes in a wait just if it cuts that wait off. -/
theorem Watch.hasExpired_succ (h : w.hasExpired waits = false) :
    w.hasExpired (waits + 1) = (w.cut waits).isSome := by
  unfold hasExpired cut at *
  cases hdeadline : w.deadline with
  | none => rfl
  | some d =>
      simp only [hdeadline, decide_eq_false_iff_not, Nat.not_lt] at h
      by_cases heq : d.waits = waits
      · simp [heq]
      · have hlate : ¬d.waits < waits + 1 := by omega
        simp [heq, hlate]

/-- A wait that is not cut off is over in time. -/
theorem Watch.in_time_succ (h : w.hasExpired waits = false) (hcut : w.cut waits = none) :
    w.hasExpired (waits + 1) = false := by
  rw [hasExpired_succ h, hcut]
  rfl

theorem hasAsked_concat (e : Effect) (h : s.hasAsked = false) :
    ({ s with trace := s.trace ++ [e] } : Session).hasAsked = e.isRequest := by
  unfold Session.hasAsked at *
  simp [h]

theorem answer?_of_unasked (h : s.hasAsked = false) : s.answer? w = none := by
  unfold Session.answer?
  cases s.link <;> simp [h]

theorem answer?_of_expired (h : w.hasExpired s.waits = true) : s.answer? w = none := by
  unfold Session.answer?
  cases s.link <;> simp [h]

/-! ### On the way to the request -/

/-- Nothing has been asked yet, and there is still time. -/
structure Early (w : Watch) (s : Session) : Prop where
  unasked : s.hasAsked = false
  in_time : w.hasExpired s.waits = false

/-- The step sends nothing of a request, and is in time unless it stops. -/
def Approaches {α : Type} (w : Watch) (x : Step α) : Prop :=
  x.Ensures (Early w) (fun _ => Early w) fun s => s.hasAsked = false

namespace Approaches

variable {α β : Type} {x : Step α} {f : α → Step β}

theorem pure (a : α) : Approaches w (pure a) := Step.ensures_pure fun _ h => h

theorem stop (reason : Stop) : Approaches w (Step.stop reason : Step α) :=
  Step.ensures_stop reason fun _ h => h.unasked

theorem fail (e : TrialError) : Approaches w (Step.fail e : Step α) := stop (.failed e)

theorem ofExcept (r : Except TrialError α) : Approaches w (Step.ofExcept r) := by
  cases r with
  | ok a => exact pure a
  | error e => exact fail e

theorem measure (g : Collector → Collector) : Approaches w (Step.measure g) :=
  Step.ensures_modify fun _ h => ⟨h.unasked, h.in_time⟩

theorem keep (link : Link) : Approaches w (Step.keep link) :=
  Step.ensures_modify fun _ h => ⟨h.unasked, h.in_time⟩

theorem note {e : Effect} (he : e.isRequest = false) : Approaches w (Step.note e) :=
  Step.ensures_modify fun _ h => ⟨(hasAsked_concat e h.unasked).trans he, h.in_time⟩

theorem bind (hx : Approaches w x) (hf : ∀ a, Approaches w (f a)) : Approaches w (x >>= f) :=
  Step.Ensures.bind hx hf

/-- A wait that is cut off is followed by the end. -/
theorem await {after : Option Deadline → Step α} (hnone : Approaches w (after none))
    (hsome : ∀ d, (after (some d)).Ensures (fun s => s.hasAsked = false)
      (fun _ _ => False) fun s => s.hasAsked = false) :
    Approaches w (Step.await w >>= after) := by
  have hawait : (Step.await w).Ensures (Early w)
      (fun cut s => s.hasAsked = false ∧ (cut = none → Early w s)) fun s => s.hasAsked = false := by
    exact Step.ensures_await fun s h =>
      ⟨h.unasked, fun hcut => ⟨h.unasked, Watch.in_time_succ h.in_time hcut⟩⟩
  refine hawait.bind fun cut => ?_
  cases cut with
  | none => exact hnone.weaken (fun _ h => h.2 rfl) (fun _ _ h => h) fun _ h => h
  | some d => exact (hsome d).weaken (fun _ h => h.1) (fun _ _ h => h.elim) fun _ h => h

theorem wait : Approaches w (Step.wait w) :=
  await (pure ()) fun _ => Step.ensures_stop _ fun _ h => h

/-- A step on the way to the request is not answered. -/
theorem unanswered (h : Approaches w x) :
    x.Ensures (Early w) (fun _ => Early w) fun s => s.answer? w = none :=
  h.weaken (fun _ h => h) (fun _ _ h => h) fun _ h => answer?_of_unasked h

end Approaches

/-! ### The dial -/

variable {n : Network}

theorem approaches_resolve (side : Side) (host : String) (port : UInt16) :
    Approaches w (resolve w n side host port) := by
  unfold resolve
  cases IpAddr.ofText? host with
  | some ip => exact .pure _
  | none =>
      have hask : Approaches w (askFor host) := by
        unfold askFor
        split_ifs
        · exact .note rfl
        · exact .pure ()
      exact hask.bind fun _ => Approaches.wait.bind fun _ => (Approaches.measure _).bind fun _ =>
        .ofExcept _

theorem approaches_connectFirst (addresses : List SocketAddr) (complaint : String) :
    Approaches w (connectFirst w n complaint addresses) := by
  induction addresses generalizing complaint with
  | nil => exact .pure _
  | cons a rest ih =>
      have hnote : Approaches w (Step.note (.dial a)) := .note rfl
      refine hnote.bind fun _ => Approaches.wait.bind fun _ => ?_
      cases n.connect a with
      | ok link => exact .pure _
      | error reason => exact ih _

theorem approaches_dial (side : Side) (host : String) (port : UInt16) :
    Approaches w (dial w n side host port) := by
  refine (approaches_resolve side host port).bind fun addresses =>
    (approaches_connectFirst addresses _).bind fun result => (Approaches.measure _).bind fun _ => ?_
  cases result with
  | error complaint => exact .fail _
  | ok link => exact (Approaches.keep link).bind fun _ => .pure link

theorem approaches_destinationOf (c : Client) (t : Target) :
    Approaches w (destinationOf w n c t) := by
  unfold destinationOf
  split_ifs
  · refine (approaches_resolve .target t.host t.port).bind fun addresses => ?_
    cases addresses with
    | nil => exact .fail _
    | cons a rest => exact .pure _
  · exact .pure _

namespace Line

/-- Sending in time is over in time, or stalls. -/
theorem in_time_send {bytes : List UInt8} {l l' : Line} {fate : Fate Unit}
    (h : w.hasExpired l.waits = false) (hsend : (channel w).send bytes l = (fate, l'))
    (hfate : fate ≠ .stalled) : w.hasExpired l'.waits = false := by
  have hsend : send w bytes l = (fate, l') := hsend
  unfold send at hsend
  cases hcut : w.cut l.waits with
  | some d =>
      rw [hcut] at hsend
      exact absurd (Prod.mk.inj hsend).1.symm hfate
  | none =>
      rw [hcut] at hsend
      obtain ⟨-, rfl⟩ := Prod.mk.inj hsend
      exact Watch.in_time_succ h hcut

theorem in_time_receive {count : Nat} {l l' : Line} {fate : Fate (List UInt8)}
    (h : w.hasExpired l.waits = false) (hreceive : (channel w).receive count l = (fate, l'))
    (hfate : fate ≠ .stalled) : w.hasExpired l'.waits = false := by
  have hreceive : receive w count l = (fate, l') := hreceive
  unfold receive at hreceive
  cases hcut : w.cut l.waits with
  | some d =>
      rw [hcut] at hreceive
      exact absurd (Prod.mk.inj hreceive).1.symm hfate
  | none =>
      rw [hcut] at hreceive
      obtain ⟨-, rfl⟩ := Prod.mk.inj hreceive
      exact Watch.in_time_succ h hcut

/-- A dialogue that has an end has it in time. -/
theorem in_time_over {α : Type} (d : Dialogue (Except Failure α)) (l : Line)
    (h : w.hasExpired l.waits = false) (hend : (d.over (channel w) l).1 ≠ none) :
    w.hasExpired (d.over (channel w) l).2.waits = false := by
  induction d generalizing l with
  | done result => exact h
  | send bytes next ih =>
      rcases hsend : (channel w).send bytes l with ⟨fate, l'⟩
      have hin := in_time_send h hsend
      rw [Dialogue.over, hsend] at hend ⊢
      cases fate with
      | value u => exact ih l' (hin nofun) hend
      | lost reason => exact hin nofun
      | stalled => exact absurd rfl hend
  | receive count next ih =>
      rcases hreceive : (channel w).receive count l with ⟨fate, l'⟩
      have hin := in_time_receive h hreceive
      rw [Dialogue.over, hreceive] at hend ⊢
      cases fate with
      | value bytes => exact ih bytes l' (hin nofun) hend
      | lost reason => exact hin nofun
      | stalled => exact absurd rfl hend

end Line

theorem approaches_tunnel (d : Destination) (c : Option Credentials) (link : Link) :
    Approaches w (tunnel w d c link) := by
  have hnegotiate : (negotiate w d c link).Ensures (Early w)
      (fun result s => s.hasAsked = false ∧ (result.1 ≠ none → Early w s))
      fun s => s.hasAsked = false := by
    intro s h
    have hin := Line.in_time_over (negotiation d c) ⟨link, s.waits⟩ h.in_time
    unfold negotiate
    dsimp only
    rcases hover : (negotiation d c).over (Line.channel w) ⟨link, s.waits⟩ with ⟨result, line⟩
    rw [hover] at hin
    have hunasked := hasAsked_concat (.negotiation line.link.sent line.link.heard) h.unasked
    exact ⟨hunasked, fun hend => ⟨hunasked, hin hend⟩⟩
  refine hnegotiate.bind fun result => ?_
  have hon {β : Type} {y : Step β} (hsome : result.1 ≠ none) (hy : Approaches w y) :
      y.Ensures (fun s => s.hasAsked = false ∧ (result.1 ≠ none → Early w s)) (fun _ => Early w)
        fun s => s.hasAsked = false :=
    hy.weaken (fun _ h => h.2 hsome) (fun _ _ h => h) fun _ h => h
  match result with
  | (none, _) => exact Step.ensures_stop _ fun _ h => h.1
  | (some (.error f), _) => exact hon nofun ((Approaches.measure _).bind fun _ => .fail _)
  | (some (.ok ()), link) =>
      exact hon nofun ((Approaches.measure _).bind fun _ => (Approaches.measure _).bind fun _ =>
        .pure link)

theorem approaches_dialRoute (c : Client) (t : Target) : Approaches w (dialRoute w n c t) := by
  unfold dialRoute
  cases c.route with
  | direct => exact approaches_dial .target t.host t.port
  | proxy endpoint credentials =>
      exact (approaches_destinationOf c t).bind fun d =>
        (approaches_dial .proxy endpoint.host endpoint.port).bind fun link =>
          approaches_tunnel d credentials link

/-! ### On the connection -/

theorem approaches_secureChannel (link : Link) : Approaches w (secureChannel w link) := by
  have hoffer (bytes : List UInt8) : Approaches w (Step.note (.secure bytes)) := .note rfl
  refine Approaches.await ?_ fun d => ?_
  · rcases link.secure with ⟨_ | _ | _, link⟩
    · exact (hoffer _).bind fun _ => (Approaches.keep _).bind fun _ =>
        (Approaches.measure _).bind fun _ => .pure _
    · exact (hoffer _).bind fun _ => (Approaches.keep _).bind fun _ =>
        (Approaches.measure _).bind fun _ => .fail _
    · exact (hoffer _).bind fun _ => (Approaches.keep _).bind fun _ => .stop _
  · have hnote : (Step.note (.secure (hello.take d.sent))).Ensures (fun s => s.hasAsked = false)
        (fun _ s => s.hasAsked = false) fun s => s.hasAsked = false :=
      Step.ensures_modify fun _ h => hasAsked_concat _ h
    have hkeep (link : Link) : (Step.keep link).Ensures (fun s => s.hasAsked = false)
        (fun _ s => s.hasAsked = false) fun s => s.hasAsked = false :=
      Step.ensures_modify fun _ h => h
    exact hnote.bind fun _ => (hkeep _).bind fun _ => Step.ensures_stop _ fun _ h => h

theorem approaches_expectQuiet (link : Link) : Approaches w (expectQuiet w link) := by
  unfold expectQuiet
  split_ifs
  · exact .pure ()
  · have hread : Approaches w (readResponse w link.unread) := fun _ h => ⟨h.unasked, h.in_time⟩
    refine Approaches.await (hread.bind fun _ => .fail _) fun d => ?_
    have hpart : (readResponse w (link.unread.take d.received)).Ensures
        (fun s => s.hasAsked = false) (fun _ s => s.hasAsked = false) fun s => s.hasAsked = false :=
      fun _ h => h
    exact hpart.bind fun _ => Step.ensures_stop _ fun _ h => h

/-- The status is that of the response that has come in. -/
theorem received_eq_ok_iff {link : Link} {status : UInt16} :
    received link = .ok status ↔ responseStatus link.unread = .ok status := by
  unfold received
  split
  next h => simp [h]
  next h => simp [h]
  next h =>
    rw [h]
    split_ifs <;> simp

/-- Who asks has a status if there is an answer, and stops if there is none. -/
theorem ensures_ask_answer (request : Request) (link : Link) :
    (ask w request link).Ensures (Early w) (fun status s => s.answer? w = some status)
      fun s => s.answer? w = none := by
  have hawait : (Step.await w).Ensures (Early w)
      (fun cut s => s.hasAsked = false ∧ w.hasExpired s.waits = cut.isSome)
      fun s => s.answer? w = none :=
    Step.ensures_await fun s h => ⟨h.unasked, Watch.hasExpired_succ h.in_time⟩
  -- From here on nothing is waited for, so what is known of the time stays.
  have hnote (expired : Bool) (bytes : List UInt8) : (Step.note (.request bytes)).Ensures
      (fun s => s.hasAsked = false ∧ w.hasExpired s.waits = expired)
      (fun _ s => s.hasAsked = true ∧ w.hasExpired s.waits = expired)
      fun s => s.answer? w = none :=
    Step.ensures_modify fun s h => ⟨hasAsked_concat (.request bytes) h.1, h.2⟩
  have hkeep (expired : Bool) (link : Link) : (Step.keep link).Ensures
      (fun s => s.hasAsked = true ∧ w.hasExpired s.waits = expired)
      (fun _ s => s.link = some link ∧ s.hasAsked = true ∧ w.hasExpired s.waits = expired)
      fun s => s.answer? w = none :=
    Step.ensures_modify fun s h => ⟨rfl, h⟩
  have hread (expired : Bool) (link : Link) (bytes : List UInt8) : (readResponse w bytes).Ensures
      (fun s => s.link = some link ∧ s.hasAsked = true ∧ w.hasExpired s.waits = expired)
      (fun _ s => s.link = some link ∧ s.hasAsked = true ∧ w.hasExpired s.waits = expired)
      fun s => s.answer? w = none := fun s h => h
  refine hawait.bind fun cut => ?_
  cases cut with
  | some d =>
      exact (hnote true _).bind fun _ => (hkeep true _).bind fun _ => (hread true _ _).bind fun _ =>
        Step.ensures_stop _ fun s h => answer?_of_expired h.2.2
  | none =>
      refine (hnote false _).bind fun _ => (hkeep false _).bind fun _ =>
        (hread false _ _).bind fun _ => ?_
      cases hreceived : received (link.send (Text.utf8 request.head)) with
      | ok status =>
          refine Step.ensures_pure fun s ⟨hlink, hasked, hin⟩ => ?_
          rw [Session.answer?, hlink]
          dsimp only
          rw [received_eq_ok_iff.mp hreceived]
          exact if_pos ⟨hasked, hin⟩
      | error reason =>
          refine Step.ensures_stop _ fun s ⟨hlink, hasked, hin⟩ => ?_
          rw [Session.answer?, hlink]
          dsimp only
          cases hstatus : responseStatus (link.send (Text.utf8 request.head)).unread with
          | error halt => exact if_pos ⟨hasked, hin⟩
          | ok status =>
              rw [received_eq_ok_iff.mpr hstatus] at hreceived
              cases hreceived

theorem ensures_exchange_answer (request : Request) (link : Link) :
    (exchange w request link).Ensures (Early w) (fun status s => s.answer? w = some status)
      fun s => s.answer? w = none :=
  (approaches_expectQuiet link).unanswered.bind fun _ => ensures_ask_answer request link

theorem ensures_converse_answer (t : Target) (request : Request) (link : Link) :
    (converse w t request link).Ensures (Early w) (fun status s => s.answer? w = some status)
      fun s => s.answer? w = none := by
  unfold converse
  split_ifs
  · exact (approaches_secureChannel link).unanswered.bind fun link =>
      ensures_exchange_answer request link
  · exact ensures_exchange_answer request link

end

theorem early_start (w : Watch) : Early w .start := ⟨rfl, w.hasExpired_zero⟩

/-- A round trip has a status just if it was answered, and then it is that of the answer. -/
theorem ensures_roundTrip_answer (w : Watch) (n : Network) (c : Client) (url : String) :
    (roundTrip w n c url).Ensures (Early w) (fun status s => s.answer? w = some status)
      fun s => s.answer? w = none := by
  refine (Approaches.ofExcept (c.prepare url)).unanswered.bind fun (t, request) => ?_
  exact (approaches_dialRoute c t).unanswered.bind fun link =>
    ensures_converse_answer t request link

end ProxyTiming
