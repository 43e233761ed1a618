import Mathlib.Tactic.SplitIfs
import ProxyTiming.Proofs.Attempt.Ensures
import ProxyTiming.Proofs.Attempt.Line

/-!
# The trace tells all that is sent

What an attempt sends, it sends over one connection.  The trace tells of it in pieces, as it is
sent: the negotiation, the offer to secure the channel, the request.  Put together the pieces
are all that has been sent over the connection, at whatever moment the attempt stops.  So what
is not in the trace has not been sent.
-/

namespace ProxyTiming

open ProxyTiming.Net ProxyTiming.Socks ProxyTiming.Http

def Effect.sentBytes : Effect → List UInt8
  | .lookup _ => []
  | .dial _ => []
  | .negotiation said _ => said
  | .secure bytes => bytes
  | .request bytes => bytes

def sentIn (trace : List Effect) : List UInt8 := trace.flatMap Effect.sentBytes

theorem sentIn_concat (trace : List Effect) (e : Effect) :
    sentIn (trace ++ [e]) = sentIn trace ++ e.sentBytes := by
  simp [sentIn]

/-! ### From the dial to the end -/

def Unconnected (s : Session) : Prop := s.link = none ∧ sentIn s.trace = []

def Holds (link : Link) (s : Session) : Prop := s.link = some link ∧ link.sent = sentIn s.trace

/-- The trace tells all that has been sent. -/
def Tells (s : Session) : Prop := ∀ link, s.link = some link → link.sent = sentIn s.trace

section

variable {w : Watch} {n : Network} {s : Session} {link : Link} {e : Effect}

theorem Unconnected.tells (h : Unconnected s) : Tells s := by
  intro link hlink
  rw [h.1] at hlink
  cases hlink

theorem Holds.tells (h : Holds link s) : Tells s := by
  intro link' hlink
  obtain rfl := Option.some.inj (h.1.symm.trans hlink)
  exact h.2

theorem holds_measure (link : Link) (g : Collector → Collector) :
    (Step.measure g).Ensures (Holds link) (fun _ => Holds link) Tells :=
  Step.ensures_modify fun _ h => h

theorem holds_await (w : Watch) (link : Link) :
    (Step.await w).Ensures (Holds link) (fun _ => Holds link) Tells :=
  Step.ensures_await fun _ h => h

/-- Something is sent: first it is noted, then the connection is kept. -/
theorem ensures_send {α : Type} {link link' : Link} {rest : Unit → Step α}
    {after : α → Session → Prop} {stopped : Session → Prop}
    (hsent : link'.sent = link.sent ++ e.sentBytes)
    (h : ∀ u, (rest u).Ensures (Holds link') after stopped) :
    (Step.note e >>= fun _ => Step.keep link' >>= rest).Ensures (Holds link) after stopped := by
  have hnote : (Step.note e).Ensures (Holds link) (fun _ s => link'.sent = sentIn s.trace)
      stopped := Step.ensures_modify fun s hs => by rw [sentIn_concat, ← hs.2, hsent]
  have hkeep : (Step.keep link').Ensures (fun s => link'.sent = sentIn s.trace)
      (fun _ => Holds link') stopped := Step.ensures_modify fun s hs => ⟨rfl, hs⟩
  exact hnote.bind fun _ => hkeep.bind h

def Idles {α : Type} (x : Step α) : Prop := x.Ensures Unconnected (fun _ => Unconnected) Unconnected

theorem idles_pure {α : Type} (a : α) : Idles (pure a) := Step.ensures_pure fun _ h => h

theorem idles_fail {α : Type} (e : TrialError) : Idles (Step.fail e : Step α) :=
  Step.ensures_fail e fun _ h => h

theorem idles_measure (g : Collector → Collector) : Idles (Step.measure g) :=
  Step.ensures_modify fun _ h => h

theorem idles_note (he : e.sentBytes = []) : Idles (Step.note e) :=
  Step.ensures_modify fun s h => ⟨h.1, by rw [sentIn_concat, h.2, he]; rfl⟩

theorem Idles.bind {α β : Type} {x : Step α} {f : α → Step β} (hx : Idles x)
    (hf : ∀ a, Idles (f a)) : Idles (x >>= f) :=
  Step.Ensures.bind hx hf

theorem idles_resolve (side : Side) (host : String) (port : UInt16) :
    Idles (resolve w n side host port) := by
  unfold resolve
  cases IpAddr.ofText? host with
  | some ip => exact idles_pure _
  | none =>
      have hask : Idles (askFor host) := by
        unfold askFor
        split_ifs
        · exact idles_note rfl
        · exact idles_pure ()
      have hwait : Idles (Step.wait w) := Step.ensures_wait fun _ h => h
      refine hask.bind fun _ => hwait.bind fun _ => (idles_measure _).bind fun _ => ?_
      exact Step.ensures_ofExcept (fun _ _ _ h => h) fun _ h => h

theorem idles_destinationOf (c : Client) (t : Target) : Idles (destinationOf w n c t) := by
  unfold destinationOf
  split_ifs
  · refine (idles_resolve .target t.host t.port).bind fun addresses => ?_
    cases addresses with
    | nil => exact idles_fail _
    | cons a rest => exact idles_pure _
  · exact idles_pure _

theorem ensures_connectFirst (addresses : List SocketAddr) (complaint : String) :
    (connectFirst w n complaint addresses).Ensures Unconnected
      (fun result s => Unconnected s ∧ ∀ link, result = .ok link → link.sent = []) Unconnected := by
  induction addresses generalizing complaint with
  | nil => exact Step.ensures_pure fun _ h => ⟨h, nofun⟩
  | cons a rest ih =>
      have hnote : Idles (Step.note (.dial a)) := idles_note rfl
      have hwait : Idles (Step.wait w) := Step.ensures_wait fun _ h => h
      refine Step.Ensures.bind hnote fun _ => Step.Ensures.bind hwait fun _ => ?_
      cases hconnect : n.connect a with
      | ok link =>
          refine Step.ensures_pure fun s h => ⟨h, fun link' hlink => ?_⟩
          rw [← Except.ok.inj hlink, Network.connect_eq_ok hconnect]
          rfl
      | error reason => exact ih _

/-- The dial ends with a connection over which nothing has been sent. -/
theorem ensures_dial (side : Side) (host : String) (port : UInt16) :
    (dial w n side host port).Ensures Unconnected
      (fun link s => Holds link s ∧ link.sent = []) Unconnected := by
  refine Step.Ensures.bind (idles_resolve side host port) fun addresses =>
    (ensures_connectFirst addresses _).bind fun result => ?_
  have hmeasure {P : Prop} (g : Collector → Collector) : (Step.measure g).Ensures
      (fun s => Unconnected s ∧ P) (fun _ s => Unconnected s ∧ P) Unconnected :=
    Step.ensures_modify fun _ h => h
  refine (hmeasure _).bind fun _ => ?_
  cases result with
  | error complaint => exact Step.ensures_fail _ fun _ h => h.1
  | ok link =>
      have hkeep : (Step.keep link).Ensures
          (fun s => Unconnected s ∧
            ∀ link', (.ok link : Except String Link) = .ok link' → link'.sent = [])
          (fun _ s => Holds link s ∧ link.sent = []) Unconnected :=
        Step.ensures_modify fun s h => ⟨⟨rfl, (h.2 link rfl).trans h.1.2.symm⟩, h.2 link rfl⟩
      exact hkeep.bind fun _ => Step.ensures_pure fun _ h => h

theorem ensures_tunnel (d : Destination) (c : Option Credentials) (link : Link) :
    (tunnel w d c link).Ensures (fun s => Holds link s ∧ link.sent = []) Holds Tells := by
  have hnegotiate : (negotiate w d c link).Ensures (fun s => Holds link s ∧ link.sent = [])
      (fun result => Holds result.2) Tells := by
    intro s hs
    have hnone : sentIn s.trace = [] := hs.1.2.symm.trans hs.2
    refine ⟨rfl, ?_⟩
    show _ = sentIn (s.trace ++ [_])
    rw [sentIn_concat, hnone]
    rfl
  refine hnegotiate.bind fun result => ?_
  match result with
  | (none, _) => exact Step.ensures_stop _ fun _ h => h.tells
  | (some (.error f), _) =>
      exact (holds_measure _ _).bind fun _ => Step.ensures_fail _ fun _ h => h.tells
  | (some (.ok ()), link) =>
      exact (holds_measure link _).bind fun _ => (holds_measure link _).bind fun _ =>
        Step.ensures_pure fun _ h => h

theorem ensures_dialRoute (c : Client) (t : Target) :
    (dialRoute w n c t).Ensures Unconnected Holds Tells := by
  have hdial {β : Type} {after : β → Session → Prop} (side : Side) (host : String) (port : UInt16)
      {f : Link → Step β}
      (hf : ∀ link, (f link).Ensures (fun s => Holds link s ∧ link.sent = []) after Tells) :
      (dial w n side host port >>= f).Ensures Unconnected after Tells :=
    ((ensures_dial side host port).weaken (fun _ h => h) (fun _ _ h => h)
      fun _ h => h.tells).bind hf
  unfold dialRoute
  cases c.route with
  | direct =>
      exact (ensures_dial .target t.host t.port).weaken (fun _ h => h) (fun _ _ h => h.1)
        fun _ h => h.tells
  | proxy endpoint credentials =>
      refine Step.Ensures.bind ((idles_destinationOf c t).weaken (fun _ h => h) (fun _ _ h => h)
        fun _ h => h.tells) fun d => ?_
      exact hdial .proxy endpoint.host endpoint.port fun link => ensures_tunnel d credentials link

theorem sent_of_secure {link link' : Link} {fate : Fate Unit} (h : link.secure = (fate, link')) :
    link'.sent = link.sent ++ match fate with
      | .value _ => []
      | _ => hello := by
  unfold Link.secure at h
  dsimp only at h
  split at h
  · obtain ⟨rfl, rfl⟩ := Prod.mk.inj h
    exact (List.append_nil _).symm
  · split at h <;> obtain ⟨rfl, rfl⟩ := Prod.mk.inj h <;> rfl

theorem ensures_secureChannel (link : Link) :
    (secureChannel w link).Ensures (Holds link) Holds Tells := by
  refine (holds_await w link).bind fun cut => ?_
  cases cut with
  | some deadline => exact ensures_send rfl fun _ => Step.ensures_stop _ fun _ h => h.tells
  | none =>
      rcases hsecure : link.secure with ⟨fate, link'⟩
      have hsent := sent_of_secure hsecure
      cases fate with
      | value u =>
          exact ensures_send hsent fun _ => (holds_measure _ _).bind fun _ =>
            Step.ensures_pure fun _ h => h
      | lost reason =>
          exact ensures_send hsent fun _ => (holds_measure _ _).bind fun _ =>
            Step.ensures_fail _ fun _ h => h.tells
      | stalled => exact ensures_send hsent fun _ => Step.ensures_stop _ fun _ h => h.tells

theorem holds_readResponse (link : Link) (bytes : List UInt8) :
    (readResponse w bytes).Ensures (Holds link) (fun _ => Holds link) Tells := by
  have hmodify : (Step.modify fun s => { s with response := s.response ++ bytes }).Ensures
      (Holds link) (fun _ => Holds link) Tells := Step.ensures_modify fun _ h => h
  exact hmodify.bind fun _ => Step.ensures_modify fun _ h => h

theorem holds_expectQuiet (link : Link) :
    (expectQuiet w link).Ensures (Holds link) (fun _ => Holds link) Tells := by
  unfold expectQuiet
  split_ifs
  · exact Step.ensures_pure fun _ h => h
  · refine (holds_await w link).bind fun cut => ?_
    cases cut with
    | some deadline =>
        exact (holds_readResponse _ _).bind fun _ => Step.ensures_stop _ fun _ h => h.tells
    | none => exact (holds_readResponse _ _).bind fun _ => Step.ensures_fail _ fun _ h => h.tells

theorem ensures_exchange (request : Request) (link : Link) :
    (exchange w request link).Ensures (Holds link) (fun _ => Tells) Tells := by
  refine (holds_expectQuiet link).bind fun _ => (holds_await w link).bind fun cut => ?_
  cases cut with
  | some deadline =>
      exact ensures_send rfl fun _ => (holds_readResponse _ _).bind fun _ =>
        Step.ensures_stop _ fun _ h => h.tells
  | none =>
      refine ensures_send rfl fun _ => (holds_readResponse _ _).bind fun _ => ?_
      cases received (link.send (Text.utf8 request.head)) with
      | ok status => exact Step.ensures_pure fun _ h => h.tells
      | error reason => exact Step.ensures_stop _ fun _ h => h.tells

theorem ensures_converse (t : Target) (request : Request) (link : Link) :
    (converse w t request link).Ensures (Holds link) (fun _ => Tells) Tells := by
  unfold converse
  split_ifs
  · exact (ensures_secureChannel link).bind fun link => ensures_exchange request link
  · exact ensures_exchange request link

end

/-- Whatever an attempt has sent, its trace tells. -/
theorem Client.attempt_tells (w : Watch) (n : Network) (c : Client) (url : String) :
    Tells (c.attempt w n url).session := by
  have hprepare : (Step.ofExcept (c.prepare url)).Ensures Unconnected (fun _ => Unconnected)
      Tells := Step.ensures_ofExcept (fun _ _ _ h => h) fun _ h => h.tells
  refine Client.session_attempt (hprepare.bind fun (t, request) => ?_) ⟨rfl, rfl⟩
  exact (ensures_dialRoute c t).bind fun link => ensures_converse t request link

end ProxyTiming
