import Mathlib.Tactic.SplitIfs
import ProxyTiming.Proofs.Attempt.Ensures

/-!
# The measured phases are a causal prefix

On its way to a response an attempt passes through a *chain* of phases.  The chain is known in
advance from the route and the URL: which names have to be looked up, whether there is a proxy,
whether the channel is secured.  Wherever the attempt ends, the phases measured are the front
part of the chain up to there, and none is measured that is not in the chain.

The proof goes along with the attempt.  Each of its steps *advances* by its own part of the
chain if it succeeds, and by some front part of it if it stops the attempt.
-/

namespace ProxyTiming

open ProxyTiming.Net ProxyTiming.Socks ProxyTiming.Http

/-! ### The chain of a route -/

def lookupChain (side : Side) (host : String) : List Phase :=
  match IpAddr.ofText? host with
  | some _ => []
  | none => [side.lookupPhase]

def dialChain (side : Side) (host : String) : List Phase :=
  lookupChain side host ++ [side.connectPhase]

def Route.chain (r : Route) (resolveLocally : Bool) (t : Target) : List Phase :=
  match r with
  | .direct => dialChain .target t.host
  | .proxy endpoint _ =>
    (if resolveLocally then lookupChain .target t.host else []) ++
      (dialChain .proxy endpoint.host ++ [.socks5Handshake, .targetTcpConnect])

def Http.Target.chain (t : Target) : List Phase :=
  (if t.secure then [.tlsHandshake] else []) ++ [.timeToFirstByte]

/-- The phases that a client passes through on its way to a response. -/
def Client.chain (c : Client) (t : Target) : List Phase :=
  c.route.chain c.resolveLocally t ++ t.chain

/-! ### What has been measured -/

/-- The time that has been measured for a phase, the total apart. -/
def Collector.time (c : Collector) : Phase → Duration
  | .proxyDns => c.proxyDns
  | .proxyTcpConnect => c.proxyTcpConnect
  | .socks5Handshake => c.socks5Handshake
  | .targetDnsLookup => c.targetDnsLookup
  | .targetTcpConnect => c.targetTcpConnect
  | .tlsHandshake => c.tlsHandshake
  | .timeToFirstByte => c.firstByte.getD .zero
  | .total => .zero

section

variable {c : Collector} {side : Side} {d : Duration} {q : Phase}

theorem time_noteLookup :
    (side.noteLookup d c).time q = if q = side.lookupPhase then d else c.time q := by
  cases side <;> cases q <;> rfl

theorem time_noteConnect :
    (side.noteConnect d c).time q = if q = side.connectPhase then d else c.time q := by
  cases side <;> cases q <;> rfl

end

structure Measures (w : Watch) (ps : List Phase) (s : Session) : Prop where
  measured (p : Phase) : s.collector.time p ≠ .zero ↔ p ∈ ps
  /-- The times that the time of the negotiation is derived from. -/
  lookup : .proxyDns ∈ ps → s.collector.proxyDns = w.time .proxyDns
  connect : .proxyTcpConnect ∈ ps → s.collector.proxyTcpConnect = w.time .proxyTcpConnect
  firstByte : s.collector.firstByte =
    if s.response = [] then none else some (w.time .timeToFirstByte)

namespace Watch

theorem time_ne_zero (w : Watch) (p : Phase) : w.time p ≠ .zero :=
  Duration.ne_zero_iff.mpr (w.time_pos p)

variable {w : Watch} {dns : Duration}

/-- A dial takes the time of all its parts. -/
theorem toNanos_dial (h : dns = .zero ∨ dns = w.time .proxyDns) :
    (w.dial dns).toNanos =
      dns.toNanos + (w.time .proxyTcpConnect).toNanos + (w.time .socks5Handshake).toNanos := by
  apply Duration.toNanos_ofNanos
  have hdial := w.dial_lt
  rcases h with rfl | rfl
  · rw [Duration.toNanos_zero]
    omega
  · omega

theorem dial_ne_zero (h : dns = .zero ∨ dns = w.time .proxyDns) : w.dial dns ≠ .zero := by
  rw [Duration.ne_zero_iff, toNanos_dial h]
  exact Nat.add_pos_right _ (w.time_pos .socks5Handshake)

/-- What is left of a dial after lookup and connection is the time of the negotiation. -/
theorem deriveHandshake_dial (h : dns = .zero ∨ dns = w.time .proxyDns) :
    deriveHandshake (w.dial dns) (w.time .proxyTcpConnect) dns = w.time .socks5Handshake := by
  apply Duration.toNanos_inj
  rw [deriveHandshake, Duration.toNanos_monus, Duration.toNanos_monus, toNanos_dial h]
  omega

end Watch

namespace Measures

variable {w : Watch} {ps : List Phase} {s s' : Session} {p : Phase}

theorem start (w : Watch) : Measures w [] .start where
  measured p := by cases p <;> simp [Session.start, Collector.start, Collector.time]
  lookup := by simp
  connect := by simp
  firstByte := rfl

/-- What has been measured does not depend on anything but the collector and the response. -/
theorem congr (h : Measures w ps s) (hcollector : s'.collector = s.collector)
    (hresponse : s'.response = s.response) : Measures w ps s' where
  measured := by rw [hcollector]; exact h.measured
  lookup := by rw [hcollector]; exact h.lookup
  connect := by rw [hcollector]; exact h.connect
  firstByte := by rw [hcollector, hresponse]; exact h.firstByte

/-- One more phase is measured. -/
theorem add {d : Duration} (h : Measures w ps s)
    (htime : ∀ q, s'.collector.time q = if q = p then d else s.collector.time q) (hd : d ≠ .zero)
    (hown : p = .proxyDns ∨ p = .proxyTcpConnect → d = w.time p)
    (hfirst : s'.collector.firstByte =
      if s'.response = [] then none else some (w.time .timeToFirstByte)) :
    Measures w (ps ++ [p]) s' where
  measured q := by
    rw [htime, List.mem_append, List.mem_singleton]
    split_ifs with hq
    · exact ⟨fun _ => .inr hq, fun _ => hd⟩
    · rw [h.measured]
      exact ⟨.inl, fun hmem => hmem.resolve_right hq⟩
  lookup hmem := by
    have hlookup := htime .proxyDns
    rw [List.mem_append, List.mem_singleton] at hmem
    split_ifs at hlookup with hp
    · exact hlookup.trans (hp ▸ hown (.inl hp.symm))
    · exact hlookup.trans (h.lookup (hmem.resolve_right hp))
  connect hmem := by
    have hconnect := htime .proxyTcpConnect
    rw [List.mem_append, List.mem_singleton] at hmem
    split_ifs at hconnect with hp
    · exact hconnect.trans (hp ▸ hown (.inr hp.symm))
    · exact hconnect.trans (h.connect (hmem.resolve_right hp))
  firstByte := hfirst

-- How long a dial took is computed from the collector.  The next two lemmas are about any
-- duration, because unfolding that computation is of no use.

theorem handshake {d : Duration} (h : Measures w ps s) (hd : d ≠ .zero) :
    Measures w (ps ++ [.socks5Handshake])
      { s with collector := { s.collector with socks5Handshake := d } } :=
  h.add (fun q => by cases q <;> rfl) hd (by simp) h.firstByte

theorem tunnel {d : Duration} (h : Measures w ps s) (hd : d ≠ .zero) :
    Measures w (ps ++ [.targetTcpConnect])
      { s with collector := { s.collector with targetTcpConnect := d } } :=
  h.add (fun q => by cases q <;> rfl) hd (by simp) h.firstByte

/-- The lookup of the proxy has taken its time, if there was one. -/
theorem proxyDns_cases (h : Measures w ps s) :
    s.collector.proxyDns = .zero ∨ s.collector.proxyDns = w.time .proxyDns := by
  by_cases hzero : s.collector.proxyDns = .zero
  · exact .inl hzero
  · exact .inr (h.lookup ((h.measured .proxyDns).mp hzero))

theorem timeToFirstByte_mem_iff (h : Measures w ps s) :
    .timeToFirstByte ∈ ps ↔ s.response ≠ [] := by
  rw [← h.measured]
  simp only [Collector.time, h.firstByte]
  split_ifs with hresponse
  · simp [hresponse]
  · simp [hresponse, w.time_ne_zero]

end Measures

/-! ### Steps that advance -/

section

variable {α β : Type} {w : Watch} {ps chain more : List Phase} {x : Step α} {f : α → Step β}

/-- The step measures the phases of a chain, one after the other; if it stops, some first ones
of them. -/
def Advances (w : Watch) (ps : List Phase) (x : Step α) (chain : List Phase) : Prop :=
  x.Ensures (Measures w ps) (fun _ => Measures w (ps ++ chain))
    fun s => ∃ part, part <+: chain ∧ Measures w (ps ++ part) s

namespace Advances

theorem bind (hx : Advances w ps x chain) (hf : ∀ a, Advances w (ps ++ chain) (f a) more) :
    Advances w ps (x >>= f) (chain ++ more) := by
  refine Step.Ensures.bind (hx.weaken (fun _ h => h) (fun _ _ h => h) ?_)
    fun a => (hf a).weaken (fun _ h => h) (fun _ s h => ?_) ?_
  · rintro s ⟨part, hpart, hmeasures⟩
    exact ⟨part, hpart.trans (List.prefix_append _ _), hmeasures⟩
  · rwa [← List.append_assoc]
  · rintro s ⟨part, hpart, hmeasures⟩
    refine ⟨chain ++ part, (List.prefix_append_right_inj _).mpr hpart, ?_⟩
    rwa [← List.append_assoc]

/-- A step that measures nothing, before the rest. -/
theorem quietly (hx : Advances w ps x []) (hf : ∀ a, Advances w ps (f a) chain) :
    Advances w ps (x >>= f) chain := by
  rw [← List.append_nil ps] at hf
  exact hx.bind hf

theorem pure (a : α) : Advances w ps (pure a) [] :=
  Step.ensures_pure fun s h => by rwa [List.append_nil]

theorem stop (reason : Stop) : Advances w ps (Step.stop reason : Step α) chain :=
  Step.ensures_stop reason fun s h => ⟨[], List.nil_prefix, by rwa [List.append_nil]⟩

theorem fail (e : TrialError) : Advances w ps (Step.fail e : Step α) chain := stop (.failed e)

theorem ofExcept (r : Except TrialError α) : Advances w ps (Step.ofExcept r) [] := by
  cases r with
  | ok a => exact pure a
  | error e => exact fail e

theorem of_unmeasured {g : Session → Session} (hcollector : ∀ s, (g s).collector = s.collector)
    (hresponse : ∀ s, (g s).response = s.response) : Advances w ps (Step.modify g) [] :=
  Step.ensures_modify fun s h => by
    rw [List.append_nil]
    exact h.congr (hcollector s) (hresponse s)

theorem note (e : Effect) : Advances w ps (Step.note e) [] :=
  of_unmeasured (fun _ => rfl) fun _ => rfl

theorem keep (l : Link) : Advances w ps (Step.keep l) [] :=
  of_unmeasured (fun _ => rfl) fun _ => rfl

/-- Sending measures nothing. -/
theorem send {e : Effect} {l : Link} {rest : Unit → Step α}
    (h : ∀ u, Advances w ps (rest u) chain) :
    Advances w ps (Step.note e >>= fun _ => Step.keep l >>= rest) chain :=
  (note e).quietly fun _ => (keep l).quietly h

theorem await : Advances w ps (Step.await w) [] :=
  Step.ensures_await fun s h => by
    rw [List.append_nil]
    exact h.congr rfl rfl

theorem wait : Advances w ps (Step.wait w) [] := by
  refine await.quietly fun cut => ?_
  cases cut with
  | none => exact pure ()
  | some d => exact stop .stalled

/-- Measuring a phase that takes the time of the watch. -/
theorem measure {p : Phase} {g : Collector → Collector}
    (htime : ∀ c q, (g c).time q = if q = p then w.time p else c.time q)
    (hfirst : ∀ c, (g c).firstByte = c.firstByte) : Advances w ps (Step.measure g) [p] :=
  Step.ensures_modify fun s h =>
    h.add (htime s.collector) (w.time_ne_zero p) (fun _ => rfl) ((hfirst _).trans h.firstByte)

end Advances

/-! ### The dial -/

theorem advances_resolve (n : Network) (side : Side) (host : String) (port : UInt16) :
    Advances w ps (resolve w n side host port) (lookupChain side host) := by
  unfold resolve lookupChain
  cases IpAddr.ofText? host with
  | some ip => exact .pure _
  | none =>
      have hask : Advances w ps (askFor host) [] := by
        unfold askFor
        split_ifs
        · exact .note _
        · exact .pure ()
      have hmeasure : Advances w ps
          (Step.measure (side.noteLookup (w.time side.lookupPhase))) [side.lookupPhase] := by
        refine .measure (fun _ _ => time_noteLookup) fun _ => ?_
        cases side <;> rfl
      exact hask.quietly fun _ => Advances.wait.quietly fun _ =>
        hmeasure.bind fun _ => .ofExcept _

theorem advances_connectFirst (n : Network) (addresses : List SocketAddr) (complaint : String) :
    Advances w ps (connectFirst w n complaint addresses) [] := by
  induction addresses generalizing complaint with
  | nil => exact .pure _
  | cons a rest ih =>
      refine (Advances.note _).quietly fun _ => Advances.wait.quietly fun _ => ?_
      cases n.connect a with
      | ok link => exact .pure _
      | error reason => exact ih _

theorem advances_connectAny (n : Network) (side : Side) (addresses : List SocketAddr) :
    Advances w ps (connectAny w n side addresses) [side.connectPhase] := by
  refine (advances_connectFirst n addresses _).quietly fun result => ?_
  have hmeasure : Advances w ps
      (Step.measure (side.noteConnect (w.time side.connectPhase))) [side.connectPhase] := by
    refine .measure (fun _ _ => time_noteConnect) fun _ => ?_
    cases side <;> rfl
  refine hmeasure.bind fun _ => ?_
  cases result with
  | error complaint => exact .fail _
  | ok link => exact (Advances.keep link).quietly fun _ => .pure link

theorem advances_dial (n : Network) (side : Side) (host : String) (port : UInt16) :
    Advances w ps (dial w n side host port) (dialChain side host) :=
  (advances_resolve n side host port).bind fun _ => advances_connectAny n side _

theorem advances_destinationOf (n : Network) (c : Client) (t : Target) :
    Advances w ps (destinationOf w n c t)
      (if c.resolveLocally then lookupChain .target t.host else []) := by
  unfold destinationOf
  split_ifs
  · rw [← List.append_nil (lookupChain _ _)]
    refine (advances_resolve n .target t.host t.port).bind fun addresses => ?_
    cases addresses with
    | nil => exact .fail _
    | cons a rest => exact .pure _
  · exact .pure _

/-- The time of a negotiation can be derived once the proxy has been reached. -/
theorem advances_noteHandshake (reached : .proxyTcpConnect ∈ ps) :
    Advances w ps (Step.measure (noteHandshake w)) [.socks5Handshake] :=
  Step.ensures_modify fun s h => by
    have htime := Watch.deriveHandshake_dial h.proxyDns_cases
    rw [← h.connect reached] at htime
    exact h.handshake (htime ▸ w.time_ne_zero _)

theorem advances_noteTunnel :
    Advances w ps (Step.measure (noteTunnel w)) [.targetTcpConnect] :=
  Step.ensures_modify fun _ h => h.tunnel (Watch.dial_ne_zero h.proxyDns_cases)

theorem advances_tunnel (d : Destination) (c : Option Credentials) (link : Link)
    (reached : .proxyTcpConnect ∈ ps) :
    Advances w ps (tunnel w d c link) [.socks5Handshake, .targetTcpConnect] := by
  have hnegotiate : Advances w ps (negotiate w d c link) [] := by
    intro s h
    exact ((List.append_nil ps).symm ▸ h).congr rfl rfl
  refine hnegotiate.quietly fun result => ?_
  match result with
  | (none, _) => exact .stop _
  | (some (.error f), _) => exact (advances_noteHandshake reached).bind fun _ => .fail _
  | (some (.ok ()), _) =>
      exact (advances_noteHandshake reached).bind fun _ => advances_noteTunnel.bind fun _ => .pure _

theorem advances_dialVia (n : Network) (proxy : Endpoint) (c : Option Credentials)
    (d : Destination) : Advances w ps (dialVia w n proxy c d)
      (dialChain .proxy proxy.host ++ [.socks5Handshake, .targetTcpConnect]) := by
  refine (advances_dial n .proxy proxy.host proxy.port).bind fun link => advances_tunnel d c link ?_
  exact List.mem_append_right _ (List.mem_append_right _ (List.mem_singleton_self _))

theorem advances_dialRoute (n : Network) (c : Client) (t : Target) :
    Advances w ps (dialRoute w n c t) (c.route.chain c.resolveLocally t) := by
  unfold dialRoute Route.chain
  cases c.route with
  | direct => exact advances_dial n .target t.host t.port
  | proxy endpoint credentials =>
      exact (advances_destinationOf n c t).bind fun d => advances_dialVia n endpoint credentials d

/-! ### On the connection -/

theorem advances_secureChannel (link : Link) :
    Advances w ps (secureChannel w link) [.tlsHandshake] := by
  have hmeasure : Advances w ps
      (Step.measure fun c => { c with tlsHandshake := w.time .tlsHandshake }) [.tlsHandshake] := by
    refine .measure (fun c q => ?_) fun _ => rfl
    cases q <;> simp [Collector.time]
  refine Advances.await.quietly fun cut => ?_
  cases cut with
  | some d => exact .send fun _ => .stop _
  | none =>
      rcases link.secure with ⟨_ | _ | _, link⟩
      · exact .send fun _ => hmeasure.bind fun _ => .pure _
      · exact .send fun _ => hmeasure.bind fun _ => .fail _
      · exact .send fun _ => .stop _

/-- Reading measures the first byte if it brings one. -/
theorem ensures_readResponse (bytes : List UInt8) (fresh : .timeToFirstByte ∉ ps)
    {stopped : Session → Prop} :
    (readResponse w bytes).Ensures (Measures w ps)
      (fun _ => Measures w (ps ++ if bytes = [] then [] else [.timeToFirstByte])) stopped := by
  intro s h
  have hresponse : s.response = [] :=
    Decidable.not_not.mp fun hresponse => fresh (h.timeToFirstByte_mem_iff.mpr hresponse)
  have hnone := h.firstByte
  rw [if_pos hresponse] at hnone
  cases bytes with
  | nil => exact ((List.append_nil ps).symm ▸ h).congr rfl (List.append_nil _)
  | cons b bs =>
      refine h.add (p := .timeToFirstByte) (d := w.time .timeToFirstByte) (fun q => ?_)
        (w.time_ne_zero _) nofun ?_
      · cases q with
        | timeToFirstByte =>
            simp [noteFirstByte, Collector.markFirstByte, Collector.time, hnone]
        | _ => rfl
      · simp [noteFirstByte, Collector.markFirstByte, hnone]

/-- There is no status without a byte. -/
theorem unread_of_received {link : Link} {status : UInt16} (h : received link = .ok status) :
    link.unread ≠ [] := by
  intro hempty
  have hshort : responseStatus [] = .error .short := rfl
  rw [received, hempty, hshort] at h
  dsimp only at h
  split at h <;> cases h

/-- What stops after it has read measures the first byte or nothing. -/
theorem ensures_readResponse_stop {after : α → Session → Prop} (bytes : List UInt8) (reason : Stop)
    (fresh : .timeToFirstByte ∉ ps) :
    (readResponse w bytes >>= fun _ => Step.stop reason).Ensures (Measures w ps) after
      fun s => ∃ part, part <+: [.timeToFirstByte] ∧ Measures w (ps ++ part) s := by
  refine (ensures_readResponse bytes fresh).bind fun _ => Step.ensures_stop _ fun s h => ⟨_, ?_, h⟩
  split_ifs
  · exact List.nil_prefix
  · exact List.prefix_rfl

/-- Nothing is measured on a quiet connection. -/
theorem ensures_expectQuiet (link : Link) (fresh : .timeToFirstByte ∉ ps) :
    (expectQuiet w link).Ensures (Measures w ps) (fun _ => Measures w ps)
      fun s => ∃ part, part <+: [.timeToFirstByte] ∧ Measures w (ps ++ part) s := by
  unfold expectQuiet
  split_ifs
  · exact Step.ensures_pure fun _ h => h
  · have hawait {stopped : Session → Prop} : (Step.await w).Ensures (Measures w ps)
        (fun _ => Measures w ps) stopped := Step.ensures_await fun _ h => h.congr rfl rfl
    refine hawait.bind fun cut => ?_
    cases cut with
    | some d => exact ensures_readResponse_stop _ _ fresh
    | none => exact ensures_readResponse_stop _ _ fresh

theorem advances_exchange (request : Request) (link : Link) (fresh : .timeToFirstByte ∉ ps) :
    Advances w ps (exchange w request link) [.timeToFirstByte] := by
  refine (ensures_expectQuiet link fresh).bind fun _ => Advances.await.quietly fun cut => ?_
  cases cut with
  | some d => exact Advances.send fun _ => ensures_readResponse_stop _ _ fresh
  | none =>
      refine Advances.send fun _ => ?_
      cases hreceived : received (link.send (Text.utf8 request.head)) with
      | error reason => exact ensures_readResponse_stop _ _ fresh
      | ok status =>
          refine (ensures_readResponse _ fresh).bind fun _ => Step.ensures_pure fun s h => ?_
          rwa [if_neg (unread_of_received hreceived)] at h

theorem advances_converse (t : Target) (request : Request) (link : Link)
    (fresh : .timeToFirstByte ∉ ps) : Advances w ps (converse w t request link) t.chain := by
  unfold converse Target.chain
  split_ifs
  · refine (advances_secureChannel link).bind fun link => advances_exchange request link ?_
    simpa using fresh
  · exact advances_exchange request link fresh

/-- The first byte comes last, and the total is apart. -/
theorem ne_of_mem_chain {r : Route} {resolveLocally : Bool} {t : Target} {p : Phase}
    (h : p ∈ r.chain resolveLocally t) : p ≠ .timeToFirstByte ∧ p ≠ .total := by
  have hlookup {side : Side} {host : String} (h : p ∈ lookupChain side host) :
      p ≠ .timeToFirstByte ∧ p ≠ .total := by
    unfold lookupChain at h
    cases hhost : IpAddr.ofText? host <;> cases side <;> simp_all [Side.lookupPhase]
  have hdial {side : Side} {host : String} (h : p ∈ dialChain side host) :
      p ≠ .timeToFirstByte ∧ p ≠ .total := by
    rcases List.mem_append.mp h with h | h
    · exact hlookup h
    · cases side <;> simp_all [Side.connectPhase]
  cases r with
  | direct => exact hdial h
  | proxy endpoint credentials =>
      simp only [Route.chain, List.mem_append] at h
      rcases h with h | h | h
      · cases resolveLocally
        · simp at h
        · exact hlookup h
      · exact hdial h
      · simp only [List.mem_cons, List.not_mem_nil, or_false] at h
        rcases h with rfl | rfl <;> simp

end

/-- An attempt that is prepared goes along its chain. -/
theorem advances_roundTrip {c : Client} {url : String} {t : Target} {request : Request}
    (w : Watch) (n : Network) (h : c.prepare url = .ok (t, request)) :
    Advances w [] (roundTrip w n c url) (c.chain t) := by
  unfold roundTrip
  rw [h]
  show Advances w [] (dialRoute w n c t >>= converse w t request) _
  exact (advances_dialRoute n c t).bind fun link =>
    advances_converse t request link fun h => (ne_of_mem_chain h).1 rfl

/-! ### The record -/

/-- The record shows what the collector holds. -/
theorem record_measures {w : Watch} {ps : List Phase} {s : Session} (h : Measures w ps s)
    {p : Phase} (hp : p ≠ .total) :
    (s.collector.record (w.time .total)).get p ≠ .zero ↔ p ∈ ps := by
  rw [← h.measured]
  cases p with
  | total => exact absurd rfl hp
  | timeToFirstByte =>
      rw [Duration.ne_zero_iff, Duration.ne_zero_iff]
      show 0 < (Duration.min _ _).toNanos ↔ _
      rw [Duration.toNanos_min, Nat.lt_min]
      exact and_iff_left (w.time_pos .total)
  | _ => rfl

/-- The record of an attempt shows what its collector holds, however it ended. -/
theorem Client.get_timings_attempt (w : Watch) (n : Network) (c : Client) (url : String)
    (p : Phase) : (c.attempt w n url).timings.get p =
      ((c.attempt w n url).session.collector.record (w.time .total)).get p := by
  unfold Client.attempt Attempt.timings
  rcases (roundTrip w n c url).run .start with ⟨outcome, s⟩
  cases outcome with
  | error reason => cases p <;> rfl
  | ok status =>
      simp only [Except.mapError, Collector.finish]
      cases isSuccessStatus status <;> cases p <;> rfl

/-- The phases measured in an attempt, the total apart, are a front part of the chain, and the
whole of it just if some of the response was read. -/
structure CausalPrefix (chain : List Phase) (a : Attempt) : Prop where
  initial : ∃ part, part <+: chain ∧ ∀ p, p ≠ .total → (a.timings.get p ≠ .zero ↔ p ∈ part)
  whole : (∀ p ∈ chain, a.timings.get p ≠ .zero) ↔ a.session.response ≠ []
  off (p : Phase) : p ≠ .total → p ∉ chain → a.timings.get p = .zero

theorem causalPrefix_of_measures {w : Watch} {front part : List Phase} {a : Attempt}
    (hrecord : ∀ p, a.timings.get p = (a.session.collector.record (w.time .total)).get p)
    (hfront : ∀ p ∈ front, p ≠ .timeToFirstByte ∧ p ≠ .total)
    (hpart : part <+: front ++ [.timeToFirstByte]) (h : Measures w part a.session) :
    CausalPrefix (front ++ [.timeToFirstByte]) a := by
  have hget {p : Phase} (hp : p ≠ .total) : a.timings.get p ≠ .zero ↔ p ∈ part := by
    rw [hrecord, record_measures h hp]
  refine ⟨⟨part, hpart, fun _ => hget⟩, ⟨fun hall => ?_, fun hresponse p hp => ?_⟩,
    fun p hp hoff => ?_⟩
  · rw [← h.timeToFirstByte_mem_iff, ← hget (by simp)]
    exact hall _ (List.mem_append_right _ (List.mem_singleton_self _))
  · -- The first byte is the last phase of the chain, so a front part with it is all of the chain.
    have hmem := h.timeToFirstByte_mem_iff.mpr hresponse
    have hwhole : part = front ++ [.timeToFirstByte] :=
      (List.prefix_concat_iff.mp hpart).resolve_right fun hle => (hfront _ (hle.subset hmem)).1 rfl
    have htotal : p ≠ .total := by
      rcases List.mem_append.mp hp with hp | hp
      · exact (hfront p hp).2
      · rw [List.mem_singleton.mp hp]
        simp
    rwa [hget htotal, hwhole]
  · exact Decidable.not_not.mp fun hne => hoff (hpart.subset ((hget hp).mp hne))

/-- However an attempt ends, the phases that it has measured are a causal prefix; and none is
measured if the URL or the request is rejected. -/
theorem Client.attempt_causalPrefix (w : Watch) (n : Network) (c : Client) (url : String) :
    match c.prepare url with
    | .error _ => ∀ p, p ≠ .total → (c.attempt w n url).timings.get p = .zero
    | .ok (t, _) => CausalPrefix (c.chain t) (c.attempt w n url) := by
  split
  next e h =>
    intro p hp
    have hempty := record_measures (.start w) hp
    rw [← Client.session_of_rejected w n h, ← Client.get_timings_attempt] at hempty
    exact Decidable.not_not.mp fun hne => absurd (hempty.mp hne) List.not_mem_nil
  next t request h =>
    obtain ⟨part, hpart, hmeasures⟩ : ∃ part, part <+: c.chain t ∧
        Measures w part (c.attempt w n url).session :=
      Client.session_attempt ((advances_roundTrip w n h).weaken (fun _ h => h)
        (fun _ _ h => ⟨_, List.prefix_rfl, h⟩) fun _ h => h) (.start w)
    rw [Client.chain, Target.chain, ← List.append_assoc] at hpart ⊢
    refine causalPrefix_of_measures (Client.get_timings_attempt w n c url) ?_ hpart hmeasures
    intro p hp
    rcases List.mem_append.mp hp with hp | hp
    · exact ne_of_mem_chain hp
    · split_ifs at hp <;> simp_all

end ProxyTiming
