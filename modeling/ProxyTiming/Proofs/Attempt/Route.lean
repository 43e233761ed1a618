import ProxyTiming.Proofs.Attempt.Account
import ProxyTiming.Proofs.Attempt.Effects

/-!
# An attempt stays on its route

A client without a proxy looks up and dials its target and talks to nobody else.  A client with
a proxy has the proxy look the target up, unless it is told to do so itself; then it does so
before anything else, and the proxy is given an address.

The traces of an attempt through a proxy are written down as a grammar, `Via`: what is done to
reach the proxy, one negotiation, and then what is said through the tunnel.  Everything that an
attempt may not do is missing from the grammar.
-/

namespace ProxyTiming

open ProxyTiming.Net ProxyTiming.Socks ProxyTiming.Http ProxyTiming.Text

/-! ### The destination -/

namespace Client

def lookupTrace (c : Client) (t : Target) : List Effect :=
  if c.resolveLocally then ProxyTiming.lookupTrace t.host else []

/-- What the proxy is asked for; nothing if the target is to be resolved here and cannot be. -/
def destination? (c : Client) (n : Network) (t : Target) : Option Destination :=
  if c.resolveLocally then (n.addressesOf t.host t.port).head?.map .address
  else some (.ofHost t.host t.port)

end Client

/-! ### Grammars of traces -/

/-- What the client says to a proxy is what it may say, and what the proxy reads off it is what
the client was given. -/
structure Asks (d : Destination) (c : Option Credentials) (said heard : List UInt8) : Prop where
  within : said <+: permitted d c heard
  read (method : UInt8) (spoken : Spoken) (rest : List UInt8) :
    heard[1]? = some method → takeSpoken method said = some (spoken, rest) →
      spoken = ⟨offered c, loginFor c method, d.goal⟩

inductive Talks (head : List UInt8) : Effect → Prop where
  | secure (bytes : List UInt8) (h : bytes <+: hello) : Talks head (.secure bytes)
  | request (bytes : List UInt8) (h : bytes <+: head) : Talks head (.request bytes)

structure Opens (n : Network) (proxy : Endpoint) (c : Option Credentials) (d : Destination)
    (way : List Effect) (said heard : List UInt8) : Prop where
  reaches : ∀ e ∈ way, Reaches n proxy.host proxy.port e
  asks : Asks d c said heard
  opened : Opened d c said heard

inductive Via (n : Network) (proxy : Endpoint) (c : Option Credentials) (d : Destination)
    (head : List UInt8) : List Effect → Prop where
  /-- The attempt ends on the way to the proxy … -/
  | reaching (way : List Effect) (reaches : ∀ e ∈ way, Reaches n proxy.host proxy.port e) :
      Via n proxy c d head way
  /-- … or with the negotiation … -/
  | asking (way : List Effect) (said heard : List UInt8)
      (reaches : ∀ e ∈ way, Reaches n proxy.host proxy.port e) (asks : Asks d c said heard) :
      Via n proxy c d head (way ++ [.negotiation said heard])
  /-- … or behind it. -/
  | talking (way : List Effect) (said heard : List UInt8) (talk : List Effect)
      (opens : Opens n proxy c d way said heard) (talks : ∀ e ∈ talk, Talks head e) :
      Via n proxy c d head (way ++ [.negotiation said heard] ++ talk)

/-! ### Through a proxy -/

section

variable {w : Watch} {n : Network} {c : Client} {proxy : Endpoint}
  {credentials : Option Credentials} {d : Destination} {t : Target} {head : List UInt8}

theorem performs_negotiate (p : Peer) :
    (negotiate w d credentials (.toPeer p)).Performs
      (fun result done => ∃ said heard, done = [.negotiation said heard] ∧
        Asks d credentials said heard ∧
        (result.1 = some (.ok ()) → Opened d credentials said heard))
      fun _ => False := by
  intro trace s hs
  have hsent := (negotiation d credentials).written_over (Line.account w) ⟨.toPeer p, s.waits⟩
  have hheard := Line.heard_over (w := w) (negotiation d credentials) ⟨.toPeer p, s.waits⟩
    (Link.inStep_toPeer p)
  have hdiscreet := (always_negotiation d credentials).transcript (Line.account w)
    ⟨.toPeer p, s.waits⟩ _ List.prefix_rfl
  have hends := (ends_negotiation d credentials).transcript (Line.account w) ⟨.toPeer p, s.waits⟩
  unfold negotiate
  dsimp only
  rcases hover : (negotiation d credentials).over (Line.channel w) ⟨.toPeer p, s.waits⟩ with
    ⟨result, line⟩
  rw [hover] at hsent hheard hends
  -- On a new connection nothing has been said or heard before.
  have hsaid : line.link.sent = saidIn _ := hsent
  have hheard : line.link.heard = heardIn _ := hheard
  refine ⟨_, congrArg (· ++ _) hs, line.link.sent, line.link.heard, rfl, ?_, fun hok => ?_⟩
  · rw [hsaid, hheard]
    exact ⟨hdiscreet.within, fun _ _ _ => spoken_of_permitted hdiscreet.within⟩
  · rw [hsaid, hheard]
    exact hends hok

theorem performs_tunnel (p : Peer) :
    (tunnel w d credentials (.toPeer p)).Performs
      (fun _ done => ∃ said heard, done = [.negotiation said heard] ∧
        Asks d credentials said heard ∧ Opened d credentials said heard)
      fun done => ∃ said heard, done = [.negotiation said heard] ∧
        Asks d credentials said heard := by
  refine ((performs_negotiate p).weaken (fun _ _ h => h) fun _ h => h.elim).bind ?_
  rintro result first ⟨said, heard, rfl, hasks, hopened⟩
  match result with
  | (none, _) => exact Step.performs_stop _ ⟨said, heard, rfl, hasks⟩
  | (some (.error f), _) =>
      refine Step.Performs.quietly (Step.performs_modify (fun _ => rfl) rfl) fun _ => ?_
      exact Step.performs_fail _ ⟨said, heard, rfl, hasks⟩
  | (some (.ok ()), _) =>
      refine Step.Performs.quietly (Step.performs_modify (fun _ => rfl) rfl) fun _ => ?_
      refine Step.Performs.quietly (Step.performs_modify (fun _ => rfl) rfl) fun _ => ?_
      exact Step.performs_pure ⟨said, heard, rfl, hasks, hopened rfl⟩

theorem does_tunnel {P : Effect → Prop} (h : ∀ said heard, P (.negotiation said heard)) (p : Peer) :
    Step.Does P (tunnel w d credentials (.toPeer p)) := by
  refine (performs_tunnel p).weaken ?_ ?_
  · rintro - done ⟨said, heard, rfl, -, -⟩
    exact List.forall_mem_singleton.mpr (h said heard)
  · rintro done ⟨said, heard, rfl, -⟩
    exact List.forall_mem_singleton.mpr (h said heard)

theorem performs_dialVia :
    (dialVia w n proxy credentials d).Performs
      (fun _ done => ∃ way said heard, done = way ++ [.negotiation said heard] ∧
        Opens n proxy credentials d way said heard)
      (Via n proxy credentials d head) := by
  refine Step.Performs.bind ((performs_dial .proxy).weaken (fun _ _ h => h)
    fun way h => .reaching way h) ?_
  rintro link way ⟨hway, rfl⟩
  refine (performs_tunnel n.peer).weaken ?_ ?_
  · rintro - rest ⟨said, heard, rfl, hasks, hopened⟩
    exact ⟨way, said, heard, rfl, hway, hasks, hopened⟩
  · rintro rest ⟨said, heard, rfl, hasks⟩
    exact .asking way said heard hway hasks

theorem ends_destinationOf :
    (destinationOf w n c t).Ends
      (fun d done => done = c.lookupTrace t ∧ c.destination? n t = some d)
      fun reason done => done = c.lookupTrace t ∧ ∃ addresses, Unresolved w addresses reason ∧
        (addresses = [] → c.destination? n t = none) := by
  unfold destinationOf Client.lookupTrace Client.destination?
  split_ifs
  · refine Step.Ends.bind ((ends_resolve .target).weaken (fun _ _ h => h) ?_) ?_
    · rintro reason done ⟨rfl, hunresolved⟩
      exact ⟨rfl, _, hunresolved, fun hnil => by rw [hnil]; rfl⟩
    rintro addresses first ⟨rfl, haddresses, hne⟩
    cases addresses with
    | nil => exact absurd rfl hne
    | cons a rest => exact Step.ends_pure ⟨List.append_nil _, by rw [← haddresses]; rfl⟩
  · exact Step.ends_pure ⟨rfl, rfl⟩

theorem performs_destinationOf :
    (destinationOf w n c t).Performs
      (fun d done => done = c.lookupTrace t ∧ c.destination? n t = some d)
      fun done => done = c.lookupTrace t :=
  ends_destinationOf.performs fun _ _ h => h.1

theorem performs_dialProxy :
    (dialProxy w n c proxy credentials t).Performs
      (fun _ done => ∃ d way said heard, c.destination? n t = some d ∧
        done = c.lookupTrace t ++ (way ++ [.negotiation said heard]) ∧
        Opens n proxy credentials d way said heard)
      fun done => ∃ rest, done = c.lookupTrace t ++ rest ∧
        (rest = [] ∨ ∃ d, c.destination? n t = some d ∧ Via n proxy credentials d head rest) := by
  refine Step.Performs.bind (performs_destinationOf.weaken (fun _ _ h => h)
    fun done h => ⟨[], by rw [List.append_nil]; exact h, .inl rfl⟩) ?_
  rintro d first ⟨rfl, hd⟩
  refine performs_dialVia.weaken ?_ fun rest h => ⟨rest, rfl, .inr ⟨d, hd, h⟩⟩
  rintro - rest ⟨way, said, heard, rfl, hopens⟩
  exact ⟨d, way, said, heard, hd, rfl, hopens⟩

/-! ### On the connection -/

theorem does_secureChannel {P : Effect → Prop} (h : ∀ bytes, bytes <+: hello → P (.secure bytes))
    (link : Link) : Step.Does P (secureChannel w link) := by
  have hnote (bytes : List UInt8) (hbytes : bytes <+: hello) :
      Step.Does P (Step.note (.secure bytes)) := Step.does_note (h bytes hbytes)
  have hkeep (link : Link) : Step.Does P (Step.keep link) := Step.does_modify fun _ => rfl
  have hmeasure (g : Collector → Collector) : Step.Does P (Step.measure g) :=
    Step.does_modify fun _ => rfl
  refine (Step.does_await w).bind fun cut => ?_
  cases cut with
  | some deadline =>
      exact (hnote _ (List.take_prefix _ _)).bind fun _ => (hkeep _).bind fun _ => Step.does_stop _
  | none =>
      rcases link.secure with ⟨_ | _ | _, link⟩
      · exact (hnote _ List.nil_prefix).bind fun _ => (hkeep _).bind fun _ =>
          (hmeasure _).bind fun _ => Step.does_pure _
      · exact (hnote _ List.prefix_rfl).bind fun _ => (hkeep _).bind fun _ =>
          (hmeasure _).bind fun _ => Step.does_stop _
      · exact (hnote _ List.prefix_rfl).bind fun _ => (hkeep _).bind fun _ => Step.does_stop _

theorem does_readResponse {P : Effect → Prop} (bytes : List UInt8) :
    Step.Does P (readResponse w bytes) :=
  (Step.does_modify fun _ => rfl).bind fun _ => Step.does_modify fun _ => rfl

/-- Whoever looks does nothing. -/
theorem does_expectQuiet {P : Effect → Prop} (link : Link) :
    Step.Does P (expectQuiet w link) := by
  unfold expectQuiet
  split_ifs
  · exact Step.does_pure ()
  · refine (Step.does_await w).bind fun cut => ?_
    cases cut with
    | some deadline => exact (does_readResponse _).bind fun _ => Step.does_stop _
    | none => exact (does_readResponse _).bind fun _ => Step.does_stop _

theorem does_exchange (request : Request) (link : Link) :
    Step.Does (Talks (utf8 request.head)) (exchange w request link) := by
  have hnote (bytes : List UInt8) (h : bytes <+: utf8 request.head) :
      Step.Does (Talks (utf8 request.head)) (Step.note (.request bytes)) :=
    Step.does_note (.request bytes h)
  have hkeep (link : Link) : Step.Does (Talks (utf8 request.head)) (Step.keep link) :=
    Step.does_modify fun _ => rfl
  refine (does_expectQuiet link).bind fun _ => (Step.does_await w).bind fun cut => ?_
  cases cut with
  | some deadline =>
      exact (hnote _ (List.take_prefix _ _)).bind fun _ => (hkeep _).bind fun _ =>
        (does_readResponse _).bind fun _ => Step.does_stop _
  | none =>
      refine (hnote _ List.prefix_rfl).bind fun _ => (hkeep _).bind fun _ =>
        (does_readResponse _).bind fun _ => ?_
      cases received (link.send (utf8 request.head)) with
      | ok status => exact Step.does_pure _
      | error reason => exact Step.does_stop _

theorem does_converse (request : Request) (link : Link) :
    Step.Does (Talks (utf8 request.head)) (converse w t request link) := by
  unfold converse
  split_ifs
  · exact (does_secureChannel Talks.secure link).bind fun link => does_exchange request link
  · exact does_exchange request link

/-! ### The whole -/

variable {url : String} {request : Request}

theorem ends_prepared (h : c.prepare url = .ok (t, request))
    {after : UInt16 → List Effect → Prop} {ended : Stop → List Effect → Prop}
    (hdial : (dialRoute w n c t >>= converse w t request).Ends after ended) :
    (roundTrip w n c url).Ends after ended := by
  unfold roundTrip
  rw [h]
  exact hdial

theorem performs_prepared (h : c.prepare url = .ok (t, request))
    {after : UInt16 → List Effect → Prop} {stopped : List Effect → Prop}
    (hdial : (dialRoute w n c t >>= converse w t request).Performs after stopped) :
    (roundTrip w n c url).Performs after stopped :=
  (ends_prepared h (hdial.ends fun _ _ hstopped => hstopped)).performs fun _ _ hstopped => hstopped

theorem performs_straight (hroute : c.route = .direct) :
    Step.Does (fun e => Reaches n t.host t.port e ∨ Talks (utf8 request.head) e)
      (dialRoute w n c t >>= converse w t request) := by
  have hdial : Step.Does (fun e => Reaches n t.host t.port e ∨ Talks (utf8 request.head) e)
      (dialRoute w n c t) := by
    unfold dialRoute
    rw [hroute]
    exact (performs_dial .target).weaken (fun _ _ h e he => .inl (h.1 e he))
      fun _ h e he => .inl (h e he)
  exact hdial.bind fun link => Step.Performs.weaken (does_converse request link)
    (fun _ _ h e he => .inr (h e he)) fun _ h e he => .inr (h e he)

theorem performs_throughProxy (hroute : c.route = .proxy proxy credentials) :
    (dialRoute w n c t >>= converse w t request).Performs
      (fun _ done => ∃ d rest, c.destination? n t = some d ∧ done = c.lookupTrace t ++ rest ∧
        Via n proxy credentials d (utf8 request.head) rest)
      fun done => ∃ rest, done = c.lookupTrace t ++ rest ∧ (rest = [] ∨
        ∃ d, c.destination? n t = some d ∧ Via n proxy credentials d (utf8 request.head) rest) := by
  unfold dialRoute
  rw [hroute]
  refine Step.Performs.bind performs_dialProxy ?_
  rintro link first ⟨d, way, said, heard, hd, rfl, hopens⟩
  have hvia {talk : List Effect} (h : ∀ e ∈ talk, Talks (utf8 request.head) e) :
      Via n proxy credentials d (utf8 request.head) (way ++ [.negotiation said heard] ++ talk) :=
    .talking way said heard talk hopens h
  refine Step.Performs.weaken (does_converse request link) (fun _ talk h => ?_) fun talk h => ?_
  · exact ⟨d, _, hd, List.append_assoc _ _ _, hvia h⟩
  · exact ⟨_, List.append_assoc _ _ _, .inr ⟨d, hd, hvia h⟩⟩

end

def Involves (n : Network) (proxy : Endpoint) (c : Option Credentials) (d : Destination)
    (head : List UInt8) (e : Effect) : Prop :=
  Reaches n proxy.host proxy.port e ∨
    (∃ said heard, e = .negotiation said heard ∧ Asks d c said heard) ∨ Talks head e

/-- An attempt looks up and dials its target alone, and says to it nothing of a negotiation. -/
structure KeepsToTarget (n : Network) (t : Target) (head : List UInt8) (a : Attempt) : Prop where
  does : ∀ e ∈ a.session.trace, Reaches n t.host t.port e ∨ Talks head e
  sent : ∀ link, a.session.link = some link → link.sent = sentIn a.session.trace

/-- An attempt looks up and dials its proxy alone, but for the target if that is to be resolved
here. -/
structure KeepsToProxy (n : Network) (c : Client) (proxy : Endpoint)
    (credentials : Option Credentials) (t : Target) (head : List UInt8) (a : Attempt) : Prop where
  /-- The proxy is asked for the host as the URL has it. -/
  remotely : c.resolveLocally = false →
    ∀ e ∈ a.session.trace, Involves n proxy credentials (.ofHost t.host t.port) head e
  /-- The target is resolved first, and the proxy is asked for the first of its addresses. -/
  locally : c.resolveLocally = true →
    ∃ rest, a.session.trace = lookupTrace t.host ++ rest ∧
      match n.addressesOf t.host t.port with
      | [] => rest = [] ∧ ∃ failure, a.result = .error failure
      | first :: _ => ∀ e ∈ rest, Involves n proxy credentials (.address first) head e
  sent : ∀ link, a.session.link = some link → link.sent = sentIn a.session.trace

/-- The trace of an attempt through a proxy. -/
theorem Client.trace_throughProxy {n : Network} {c : Client} {proxy : Endpoint}
    {credentials : Option Credentials} {t : Target} {url : String} {request : Request} (w : Watch)
    (h : c.prepare url = .ok (t, request)) (hroute : c.route = .proxy proxy credentials) :
    ∃ rest, (c.attempt w n url).session.trace = c.lookupTrace t ++ rest ∧
      ((∃ d, c.destination? n t = some d ∧ Via n proxy credentials d (utf8 request.head) rest) ∨
        rest = [] ∧ ∃ failure, (c.attempt w n url).result = .error failure) := by
  rcases Client.trace_attempt (w := w) (n := n)
      (performs_prepared h (performs_throughProxy hroute)) with
    ⟨-, d, rest, hd, htrace, hvia⟩ | ⟨⟨rest, htrace, hrest⟩, hfailed⟩
  · exact ⟨rest, htrace, .inl ⟨d, hd, hvia⟩⟩
  · exact ⟨rest, htrace, hrest.symm.imp id fun hnil => ⟨hnil, hfailed⟩⟩

theorem Via.involves {n : Network} {proxy : Endpoint} {c : Option Credentials} {d : Destination}
    {head : List UInt8} {rest : List Effect} (h : Via n proxy c d head rest) :
    ∀ e ∈ rest, Involves n proxy c d head e := by
  intro e he
  cases h with
  | reaching _ reaches => exact .inl (reaches e he)
  | asking way said heard reaches asks =>
      rcases List.mem_append.mp he with he | he
      · exact .inl (reaches e he)
      · exact .inr (.inl ⟨said, heard, List.mem_singleton.mp he, asks⟩)
  | talking way said heard talk opens talks =>
      rcases List.mem_append.mp he with he | he
      · rcases List.mem_append.mp he with he | he
        · exact .inl (opens.reaches e he)
        · exact .inr (.inl ⟨said, heard, List.mem_singleton.mp he, opens.asks⟩)
      · exact .inr (.inr (talks e he))

/-- Whatever happens, an attempt keeps to its route: no name is looked up, no address dialled and
nothing said but what the route takes. -/
theorem Client.attempt_keeps_to_route (w : Watch) (n : Network) (c : Client) (url : String) :
    match c.prepare url with
    | .error _ => (c.attempt w n url).session.trace = []
    | .ok (t, request) =>
      match c.route with
      | .direct => KeepsToTarget n t (utf8 request.head) (c.attempt w n url)
      | .proxy proxy credentials =>
        KeepsToProxy n c proxy credentials t (utf8 request.head) (c.attempt w n url) := by
  split
  next e h => rw [Client.session_of_rejected w n h, Session.start]
  next t request h =>
    have hsent := c.attempt_tells w n url
    split
    next hroute =>
      refine ⟨?_, hsent⟩
      rcases Client.trace_attempt (performs_prepared h (performs_straight hroute)) with
        ⟨-, hdoes⟩ | ⟨hdoes, -⟩
      · exact hdoes
      · exact hdoes
    next proxy credentials hroute =>
      obtain ⟨rest, htrace, hrest⟩ := Client.trace_throughProxy (n := n) w h hroute
      refine ⟨fun hremote => ?_, fun hlocal => ⟨rest, ?_, ?_⟩, hsent⟩
      · rw [htrace, Client.lookupTrace, hremote]
        rcases hrest with ⟨d, hd, hvia⟩ | ⟨rfl, -⟩
        · rw [Client.destination?, hremote] at hd
          obtain rfl := Option.some.inj hd
          exact hvia.involves
        · exact nofun
      · rw [htrace, Client.lookupTrace, if_pos hlocal]
      · rcases hrest with ⟨d, hd, hvia⟩ | ⟨rfl, hfailed⟩
        · rw [Client.destination?, if_pos hlocal] at hd
          cases haddresses : n.addressesOf t.host t.port with
          | nil => simp [haddresses] at hd
          | cons first others =>
              rw [haddresses] at hd
              obtain rfl := Option.some.inj hd
              exact hvia.involves
        · split
          · exact ⟨rfl, hfailed⟩
          · exact nofun

end ProxyTiming
