import Mathlib.Tactic.SplitIfs
import ProxyTiming.Proofs.Attempt.Answer
import ProxyTiming.Proofs.Attempt.Phases
import ProxyTiming.Proofs.Socks.Causes

/-!
# Why an attempt stops

Lookups, connections and the exchange stop an attempt for the same reasons: a connection that is
lost or never comes about, and the deadline.  Every other reason has one place.  A negotiation
may fail, and the proxy has been reached then, but not the target; a secure channel may fail, and
the target has been reached then, but not asked for anything; and a host may have too long a name
for the proxy to be asked for.

So the reason for which an attempt stops tells how far it has come.
-/

namespace ProxyTiming

open ProxyTiming.Net ProxyTiming.Socks ProxyTiming.Http ProxyTiming.Text

/-! ### Steps and their reasons to stop -/

namespace Step

variable {α β : Type} {x : Step α} {f : α → Step β} {before : Session → Prop}
  {after after' : α → Session → Prop} {stopped stopped' : Session → Prop}
  {P : Stop → Session → Prop}

theorem ensures_trivial (x : Step α) (before : Session → Prop) :
    x.Ensures before (fun _ _ => True) fun _ => True := by
  intro s _
  split <;> trivial

/-- Two triples of a step, in one. -/
theorem Ensures.and {before' : Session → Prop} (h : x.Ensures before after stopped)
    (h' : x.Ensures before' after' stopped') :
    x.Ensures (fun s => before s ∧ before' s) (fun a s => after a s ∧ after' a s)
      fun s => stopped s ∧ stopped' s := by
  intro s hs
  have hend := h s hs.1
  have hend' := h' s hs.2
  rcases hrun : x.run s with ⟨_ | a, s'⟩
  · rw [hrun] at hend hend'
    exact ⟨hend, hend'⟩
  · rw [hrun] at hend hend'
    exact ⟨hend, hend'⟩

/-- Whenever the step stops, from a session in which `before` holds, its reason and the session
that it leaves are `P`. -/
def StopsBy (before : Session → Prop) (x : Step α) (P : Stop → Session → Prop) : Prop :=
  ∀ s, before s → ∀ reason s', x.run s = (.error reason, s') → P reason s'

theorem stopsBy_of_ok (h : ∀ s, ∃ a s', x.run s = (.ok a, s')) : StopsBy before x P := by
  intro s _ reason s' hrun
  obtain ⟨a, s'', hok⟩ := h s
  cases hok.symm.trans hrun

theorem stopsBy_pure (a : α) : StopsBy before (pure a) P := stopsBy_of_ok fun _ => ⟨_, _, rfl⟩

theorem stopsBy_modify (g : Session → Session) : StopsBy before (modify g) P :=
  stopsBy_of_ok fun _ => ⟨_, _, rfl⟩

theorem stopsBy_await (w : Watch) : StopsBy before (await w) P :=
  stopsBy_of_ok fun _ => ⟨_, _, rfl⟩

theorem stopsBy_stop {reason : Stop} (h : ∀ s, before s → P reason s) :
    StopsBy before (stop reason : Step α) P := by
  rintro s hs reason' s' ⟨⟩
  exact h s hs

theorem StopsBy.bind {middle : α → Session → Prop} (hx : StopsBy before x P)
    (hmiddle : x.Ensures before middle fun _ => True) (hf : ∀ a, StopsBy (middle a) (f a) P) :
    StopsBy before (x >>= f) P := by
  intro s hs reason s' hrun
  have hend := hmiddle s hs
  rw [run_bind] at hrun
  rcases hfirst : x.run s with ⟨_ | a, s''⟩
  · rw [hfirst] at hrun
    cases hrun
    exact hx s hs _ _ hfirst
  · rw [hfirst] at hrun hend
    exact hf a s'' hend reason s' hrun

theorem StopsBy.weaken {before' : Session → Prop} {P' : Stop → Session → Prop}
    (h : StopsBy before x P) (hbefore : ∀ s, before' s → before s)
    (hP : ∀ reason s, P reason s → P' reason s) : StopsBy before' x P' :=
  fun s hs reason s' hrun => hP reason s' (h s (hbefore s hs) reason s' hrun)

/-- What the precondition says apart from the session may be used. -/
theorem stopsBy_of (h : ∀ s, before s → StopsBy before x P) : StopsBy before x P :=
  fun s hs => h s hs s hs

end Step

/-! ### The common reasons -/

inductive Stop.Plain : Stop → Prop where
  | stalled : Plain .stalled
  | connection (text : String) : Plain (.failed (.connection text))

def Falters {α : Type} (x : Step α) : Prop := x.StopsBy (fun _ => True) fun reason _ => reason.Plain

namespace Falters

variable {α β : Type} {x : Step α} {f : α → Step β}

theorem pure (a : α) : Falters (pure a) := Step.stopsBy_pure a

theorem modify (g : Session → Session) : Falters (Step.modify g) := Step.stopsBy_modify g

theorem await (w : Watch) : Falters (Step.await w) := Step.stopsBy_await w

theorem stop {reason : Stop} (h : reason.Plain) : Falters (Step.stop reason : Step α) :=
  Step.stopsBy_stop fun _ _ => h

theorem bind (hx : Falters x) (hf : ∀ a, Falters (f a)) : Falters (x >>= f) :=
  Step.StopsBy.bind hx (Step.ensures_trivial x _) hf

theorem wait (w : Watch) : Falters (Step.wait w) :=
  (await w).bind fun cut => by
    cases cut with
    | none => exact pure ()
    | some d => exact stop .stalled

end Falters

section

variable {w : Watch} {n : Network}

theorem falters_resolve (side : Side) (host : String) (port : UInt16) :
    Falters (resolve w n side host port) := by
  have hfound : Falters (Step.ofExcept (found host port (n.lookup host))) := by
    unfold found
    split
    · exact .stop (.connection _)
    · exact .stop (.connection _)
    · exact .pure _
  have hask : Falters (askFor host) := by
    unfold askFor
    split_ifs
    · exact .modify _
    · exact .pure ()
  unfold resolve
  cases IpAddr.ofText? host with
  | some ip => exact .pure _
  | none => exact hask.bind fun _ => (Falters.wait w).bind fun _ => (Falters.modify _).bind fun _ =>
      hfound

theorem falters_connectFirst (addresses : List SocketAddr) (complaint : String) :
    Falters (connectFirst w n complaint addresses) := by
  induction addresses generalizing complaint with
  | nil => exact .pure _
  | cons a rest ih =>
      have hnote : Falters (Step.note (.dial a)) := .modify _
      refine hnote.bind fun _ => (Falters.wait w).bind fun _ => ?_
      cases n.connect a with
      | ok link => exact .pure _
      | error reason => exact ih _

theorem falters_dial (side : Side) (host : String) (port : UInt16) :
    Falters (dial w n side host port) := by
  refine (falters_resolve side host port).bind fun addresses =>
    (falters_connectFirst addresses _).bind fun result => (Falters.modify _).bind fun _ => ?_
  cases result with
  | error complaint => exact .stop (.connection complaint)
  | ok link => exact (Falters.modify _).bind fun _ => .pure link

theorem falters_destinationOf (c : Client) (t : Target) : Falters (destinationOf w n c t) := by
  unfold destinationOf
  split_ifs
  · refine (falters_resolve .target t.host t.port).bind fun addresses => ?_
    cases addresses with
    | nil => exact .stop (.connection _)
    | cons a rest => exact .pure _
  · exact .pure _

theorem plain_of_received {link : Link} {reason : Stop} (h : received link = .error reason) :
    reason.Plain := by
  unfold received at h
  split at h
  · cases h
  · cases h
    exact .connection _
  · split_ifs at h <;> cases h
    · exact .connection _
    · exact .stalled

theorem falters_readResponse (bytes : List UInt8) : Falters (readResponse w bytes) :=
  (Falters.modify _).bind fun _ => .modify _

theorem falters_expectQuiet (link : Link) : Falters (expectQuiet w link) := by
  unfold expectQuiet
  split_ifs
  · exact .pure ()
  · refine (Falters.await w).bind fun cut => ?_
    cases cut with
    | some d => exact (falters_readResponse _).bind fun _ => .stop .stalled
    | none => exact (falters_readResponse _).bind fun _ => .stop (.connection _)

theorem falters_exchange (request : Request) (link : Link) :
    Falters (exchange w request link) := by
  have hsend {α : Type} {e : Effect} {link : Link} {bytes : List UInt8} {rest : Unit → Step α}
      (h : ∀ u, Falters (rest u)) :
      Falters (Step.note e >>= fun _ => Step.keep link >>= fun _ =>
        readResponse w bytes >>= rest) :=
    (Falters.modify _).bind fun _ => (Falters.modify _).bind fun _ =>
      (falters_readResponse _).bind h
  refine (falters_expectQuiet link).bind fun _ => (Falters.await w).bind fun cut => ?_
  cases cut with
  | some d => exact hsend fun _ => .stop .stalled
  | none =>
      refine hsend fun _ => ?_
      cases hreceived : received (link.send (utf8 request.head)) with
      | ok status => exact .pure _
      | error reason => exact .stop (plain_of_received hreceived)

/-! ### The reasons of an attempt -/

/-- How far an attempt with a client and a target has come if it stops for a reason. -/
inductive Explains (c : Client) (t : Target) : Stop → Session → Prop where
  | plain {reason : Stop} {s : Session} (plain : reason.Plain) : Explains c t reason s
  | handshake (text : String) (s : Session) (proxied : c.isDirect = false)
      (reached : s.collector.time .proxyTcpConnect ≠ .zero)
      (untunnelled : s.collector.time .targetTcpConnect = .zero) :
      Explains c t (.failed (.handshake text)) s
  | tls (text : String) (s : Session) (secure : t.secure = true)
      (connected : s.collector.time .targetTcpConnect ≠ .zero)
      (tried : s.collector.time .tlsHandshake ≠ .zero) (unasked : s.hasAsked = false) :
      Explains c t (.failed (.tls text)) s
  | hostTooLong (text : String) (s : Session) (proxied : c.isDirect = false)
      (remotely : c.resolveLocally = false) (named : IpAddr.ofText? t.host = none)
      (long : 255 < (utf8 t.host).length) : Explains c t (.failed (.invalidTarget text)) s

variable {c : Client} {t : Target} {ps : List Phase}

theorem Falters.explains {α : Type} {x : Step α} {before : Session → Prop} (h : Falters x) :
    x.StopsBy before (Explains c t) :=
  Step.StopsBy.weaken h (fun _ _ => trivial) fun _ _ => .plain

/-! ### The negotiation -/

def AsksByName (c : Client) (t : Target) (d : Destination) : Prop :=
  ∀ host port, d = .domain host port →
    host = t.host ∧ c.resolveLocally = false ∧ IpAddr.ofText? t.host = none

theorem ensures_destinationOf_named :
    (destinationOf w n c t).Ensures (fun _ => True) (fun d _ => AsksByName c t d)
      fun _ => True := by
  unfold destinationOf
  split_ifs with hlocal
  · refine (Step.ensures_trivial _ _).bind fun addresses => ?_
    cases addresses with
    | nil => exact Step.ensures_fail _ fun _ _ => trivial
    | cons a rest => exact Step.ensures_pure fun _ _ => nofun
  · refine Step.ensures_pure fun _ _ host port hd => ?_
    unfold Destination.ofHost at hd
    split at hd
    · cases hd
    next hname =>
      cases hd
      exact ⟨rfl, Bool.eq_false_iff.mpr hlocal, hname⟩

/-- What a failed negotiation is put down to. -/
theorem explains_of_cause {d : Destination} {credentials : Option Credentials} {f : Failure}
    {s : Session} (h : Cause d credentials f) (named : AsksByName c t d)
    (proxied : c.isDirect = false) (reached : s.collector.time .proxyTcpConnect ≠ .zero)
    (untunnelled : s.collector.time .targetTcpConnect = .zero) :
    Explains c t (.failed f.error) s := by
  cases h with
  | hostTooLong host port asked long =>
      obtain ⟨rfl, remotely, hname⟩ := named host port asked
      exact .hostTooLong _ _ proxied remotely hname long
  | refused code nonzero =>
      unfold Failure.error
      dsimp only
      split_ifs
      · exact .plain (.connection _)
      · exact .handshake _ _ proxied reached untunnelled
  | _ => exact .handshake _ _ proxied reached untunnelled

theorem stopsBy_tunnel {d : Destination} {credentials : Option Credentials} {link : Link}
    (named : AsksByName c t d) (proxied : c.isDirect = false) (reached : .proxyTcpConnect ∈ ps)
    (untunnelled : .targetTcpConnect ∉ ps) :
    (tunnel w d credentials link).StopsBy (Measures w ps) (Explains c t) := by
  have hend : (negotiate w d credentials link).Ensures (Measures w ps)
      (fun result s => Measures w ps s ∧ ∀ f, result.1 = some (.error f) → Cause d credentials f)
      fun _ => True := by
    intro s h
    exact ⟨h.congr rfl rfl, fun f => cause_of_negotiation⟩
  have hnever : (negotiate w d credentials link).StopsBy (Measures w ps) (Explains c t) :=
    Step.stopsBy_of_ok fun _ => ⟨_, _, rfl⟩
  refine hnever.bind hend fun result => ?_
  match result with
  | (none, _) => exact (Falters.stop .stalled).explains
  | (some (.ok ()), link) =>
      exact ((Falters.modify _).bind fun _ => (Falters.modify _).bind fun _ =>
        Falters.pure link).explains
  | (some (.error f), _) =>
      refine Step.stopsBy_of fun _ ⟨_, hcause⟩ => ?_
      refine (Step.stopsBy_modify _).bind ((advances_noteHandshake reached).weaken (fun _ h => h.1)
        (fun _ _ h => h) fun _ _ => trivial) fun _ => Step.stopsBy_stop fun s h => ?_
      refine explains_of_cause (hcause f rfl) named proxied ?_ ?_
      · exact (h.measured _).mpr (List.mem_append_left _ reached)
      · refine Decidable.not_not.mp fun hne => untunnelled ?_
        simpa using (h.measured _).mp hne

/-! ### The whole -/

theorem mem_lookupChain {side : Side} {host : String} {p : Phase} (h : p ∈ lookupChain side host) :
    p = side.lookupPhase := by
  unfold lookupChain at h
  split at h
  · cases h
  · exact List.mem_singleton.mp h

theorem stopsBy_dialRoute :
    (dialRoute w n c t).StopsBy (Measures w []) (Explains c t) := by
  unfold dialRoute
  split
  · exact (falters_dial _ _ _).explains
  next proxy credentials hroute =>
    have proxied : c.isDirect = false := by rw [Client.isDirect, hroute]
    have hmeasures : Advances w [] (destinationOf w n c t)
        (if c.resolveLocally then lookupChain .target t.host else []) :=
      advances_destinationOf n c t
    refine (falters_destinationOf c t).explains.bind
      ((hmeasures.and ensures_destinationOf_named).weaken (fun _ h => ⟨h, trivial⟩)
        (fun _ _ h => h) fun _ _ => trivial) fun d => ?_
    refine Step.stopsBy_of fun _ ⟨_, named⟩ => ?_
    refine (falters_dial _ _ _).explains.bind ((advances_dial n .proxy _ _).weaken (fun _ h => h.1)
      (fun _ _ h => h) fun _ _ => trivial) fun link => stopsBy_tunnel named proxied ?_ ?_
    · exact List.mem_append_right _ (List.mem_append_right _ (List.mem_singleton_self _))
    · have hnone {side : Side} {host : String} : .targetTcpConnect ∉ lookupChain side host :=
        fun h => by cases side <;> cases mem_lookupChain h
      unfold dialChain
      split_ifs <;> simp [hnone, Side.connectPhase]

structure Unasked (w : Watch) (ps : List Phase) (s : Session) : Prop where
  measures : Measures w ps s
  unasked : s.hasAsked = false

theorem stopsBy_secureChannel (secure : t.secure = true) (connected : .targetTcpConnect ∈ ps)
    (link : Link) : (secureChannel w link).StopsBy (Unasked w ps) (Explains c t) := by
  have hawait : (Step.await w).Ensures (Unasked w ps) (fun _ => Unasked w ps) fun _ => True :=
    Step.ensures_await fun s h => ⟨h.measures.congr rfl rfl, h.unasked⟩
  refine (Step.stopsBy_await w).bind hawait fun cut => ?_
  cases cut with
  | some d =>
      exact ((Falters.modify _).bind fun _ => (Falters.modify _).bind fun _ =>
        Falters.stop .stalled).explains
  | none =>
      rcases link.secure with ⟨_ | reason | _, link⟩
      · exact ((Falters.modify _).bind fun _ => (Falters.modify _).bind fun _ =>
          (Falters.modify _).bind fun _ => Falters.pure link).explains
      · have hnote : (Step.note (.secure hello)).Ensures (Unasked w ps) (fun _ => Unasked w ps)
            fun _ => True :=
          Step.ensures_modify fun s h =>
            ⟨h.measures.congr rfl rfl, hasAsked_concat (.secure hello) h.unasked⟩
        have hkeep : (Step.keep link).Ensures (Unasked w ps) (fun _ => Unasked w ps)
            fun _ => True :=
          Step.ensures_modify fun s h => ⟨h.measures.congr rfl rfl, h.unasked⟩
        have hmeasure : (Step.measure fun c =>
            { c with tlsHandshake := w.time .tlsHandshake }).Ensures (Unasked w ps)
            (fun _ => Unasked w (ps ++ [.tlsHandshake])) fun _ => True :=
          Step.ensures_modify fun s h => ⟨h.measures.add (d := w.time .tlsHandshake)
            (fun q => by cases q <;> simp [Collector.time]) (w.time_ne_zero _) (fun _ => rfl)
            h.measures.firstByte, h.unasked⟩
        refine (Step.stopsBy_modify _).bind hnote fun _ =>
          (Step.stopsBy_modify _).bind hkeep fun _ =>
            (Step.stopsBy_modify _).bind hmeasure fun _ => Step.stopsBy_stop fun s h => ?_
        have hmeasured {p : Phase} (hp : p ∈ ps ++ [.tlsHandshake]) :=
          (h.measures.measured p).mpr hp
        exact .tls reason s secure (hmeasured (List.mem_append_left _ connected))
          (hmeasured (List.mem_append_right _ (List.mem_singleton_self _))) h.unasked
      · exact ((Falters.modify _).bind fun _ => (Falters.modify _).bind fun _ =>
          Falters.stop .stalled).explains

theorem stopsBy_converse (connected : .targetTcpConnect ∈ ps) (request : Request) (link : Link) :
    (converse w t request link).StopsBy (Unasked w ps) (Explains c t) := by
  have hexchange (link : Link) {before : Session → Prop} :
      (exchange w request link).StopsBy before (Explains c t) :=
    (falters_exchange request link).explains
  unfold converse
  split_ifs with secure
  · exact (stopsBy_secureChannel secure connected link).bind (Step.ensures_trivial _ _)
      fun link => hexchange link
  · exact hexchange link

/-- On every route the last thing before the request is to reach the target. -/
theorem targetTcpConnect_mem_chain (r : Route) (resolveLocally : Bool) (t : Target) :
    .targetTcpConnect ∈ r.chain resolveLocally t := by
  cases r <;> simp [Route.chain, dialChain, Side.connectPhase]

/-- Whatever an attempt stops for, once the URL and the request are found to be in order, is
explained by how far it has come. -/
theorem stopsBy_roundTrip {url : String} {request : Request}
    (h : c.prepare url = .ok (t, request)) :
    (roundTrip w n c url).StopsBy (fun s => Measures w [] s ∧ Early w s) (Explains c t) := by
  have hmeasures : Advances w [] (dialRoute w n c t) (c.route.chain c.resolveLocally t) :=
    advances_dialRoute n c t
  unfold roundTrip
  rw [h]
  show Step.StopsBy _ (dialRoute w n c t >>= converse w t request) _
  refine (stopsBy_dialRoute.weaken (fun _ h => h.1) fun _ _ h => h).bind
    ((hmeasures.and (approaches_dialRoute c t)).weaken (fun _ h => h) (fun _ _ h => h)
      fun _ _ => trivial) fun link => ?_
  exact (stopsBy_converse (targetTcpConnect_mem_chain _ _ t) request link).weaken
    (fun s h => ⟨h.1, h.2.unasked⟩) fun _ _ h => h

end

end ProxyTiming
