import ProxyTiming.Proofs.Attempt.Agreement
import ProxyTiming.Proofs.Attempt.Connections
import ProxyTiming.Proofs.Http.Heads

/-!
# What an attempt sends of a request

An attempt sends the head of one request, and only after everything else; only the deadline can cut
it short.  What the head looks like has been settled before the attempt does anything at all: if a URL
or a client's name for itself could spoil it, the attempt fails, and nothing has been done.
-/

namespace ProxyTiming

open ProxyTiming.Net ProxyTiming.Socks ProxyTiming.Http ProxyTiming.Text

def requestsIn (trace : List Effect) : List (List UInt8) :=
  trace.filterMap fun
    | .request bytes => some bytes
    | _ => none

def Session.requests (s : Session) : List (List UInt8) := requestsIn s.trace

inductive Sends (w : Watch) (head : List UInt8) : Stop → List (List UInt8) → Prop where
  | nothing (reason : Stop) : Sends w head reason []
  | whole (reason : Stop) : Sends w head reason [head]
  | part (bytes : List UInt8) (front : bytes <+: head) (deadline : w.deadline.isSome = true) :
      Sends w head .stalled [bytes]

section

variable {w : Watch} {n : Network} {c : Client} {t : Target} {trace : List Effect}

theorem requestsIn_append (h : ∀ e ∈ trace, e.isRequest = false) (rest : List Effect) :
    requestsIn (trace ++ rest) = requestsIn rest := by
  have hnone : requestsIn trace = [] := by
    refine List.filterMap_eq_nil_iff.mpr fun e he => ?_
    have hother := h e he
    cases e with
    | request bytes => cases hother
    | _ => rfl
  rw [requestsIn, List.filterMap_append]
  exact congrArg (· ++ requestsIn rest) hnone

/-! ### Before the exchange -/

abbrev Unasking {α : Type} (x : Step α) : Prop := Step.Does (fun e => e.isRequest = false) x

theorem isRequest_of_reaches {host : String} {port : UInt16} {e : Effect}
    (h : Reaches n host port e) : e.isRequest = false := by
  cases h <;> rfl

theorem unasking_dial (side : Side) (host : String) (port : UInt16) :
    Unasking (dial w n side host port) :=
  (performs_dial side).weaken (fun _ _ h e he => isRequest_of_reaches (h.1 e he))
    fun _ h e he => isRequest_of_reaches (h e he)

theorem unasking_destinationOf : Unasking (destinationOf w n c t) := by
  have hquiet {done : List Effect} (h : done = c.lookupTrace t) :
      ∀ e ∈ done, e.isRequest = false := fun e he =>
    isRequest_of_reaches (Client.reaches_of_lookupTrace (n := n) (h ▸ he))
  exact performs_destinationOf.weaken (fun _ _ h => hquiet h.1) fun _ h => hquiet h

theorem unasking_dialVia (proxy : Endpoint) (credentials : Option Credentials) (d : Destination) :
    Unasking (dialVia w n proxy credentials d) := by
  have hreach {done : List Effect} (h : ∀ e ∈ done, Reaches n proxy.host proxy.port e) :
      ∀ e ∈ done, e.isRequest = false := fun e he => isRequest_of_reaches (h e he)
  refine Step.Performs.bind ((performs_dial .proxy).weaken (fun _ _ h => h) fun _ h => hreach h) ?_
  rintro link first ⟨hfirst, rfl⟩
  have hboth {rest : List Effect} (h : ∀ e ∈ rest, e.isRequest = false) :
      ∀ e ∈ first ++ rest, e.isRequest = false := fun e he =>
    (List.mem_append.mp he).elim (hreach hfirst e) (h e)
  have htunnel : Unasking (tunnel w d credentials (.toPeer n.peer)) :=
    does_tunnel (fun _ _ => rfl) n.peer
  exact Step.Performs.weaken htunnel (fun _ _ h => hboth h) fun _ h => hboth h

theorem unasking_dialRoute : Unasking (dialRoute w n c t) := by
  unfold dialRoute
  cases c.route with
  | direct => exact unasking_dial .target t.host t.port
  | proxy proxy credentials =>
      exact unasking_destinationOf.bind fun d => unasking_dialVia proxy credentials d

theorem unasking_secureChannel (link : Link) : Unasking (secureChannel w link) :=
  does_secureChannel (fun _ _ => rfl) link

/-! ### The exchange -/

def SendsHead {α : Type} (w : Watch) (head : List UInt8) (x : Step α) : Prop :=
  x.Ends (fun _ done => requestsIn done = [head]) fun reason done =>
    Sends w head reason (requestsIn done)

theorem sendsHead_ask (request : Request) (link : Link) :
    SendsHead w (utf8 request.head) (ask w request link) := by
  have hsend {α : Type} {bytes : List UInt8} {link : Link} {unread : List UInt8} {x : Step α}
      {after : α → List Effect → Prop} {ended : Stop → List Effect → Prop}
      (hx : x.Ends (fun a done => after a (.request bytes :: done))
        fun reason done => ended reason (.request bytes :: done)) :
      (do
        Step.note (.request bytes)
        Step.keep link
        readResponse w unread
        x).Ends after ended := by
    have hnote {ended : Stop → List Effect → Prop} : (Step.note (.request bytes)).Ends
        (fun _ done => done = [.request bytes]) ended := Step.ends_note _ rfl
    refine hnote.bind ?_
    rintro - first rfl
    refine Step.Ends.quietly (Step.ends_modify (fun _ => rfl) rfl) fun _ => ?_
    refine Step.Ends.quietly ?_ fun _ => hx
    exact Step.Ends.quietly (Step.ends_modify (fun _ => rfl) rfl) fun _ =>
      Step.ends_modify (fun _ => rfl) rfl
  refine (Step.ends_await w).bind ?_
  rintro cut first ⟨rfl, hdeadline⟩
  cases cut with
  | some d => exact hsend (Step.ends_stop (.part _ (List.take_prefix _ _) (hdeadline rfl)))
  | none =>
      refine hsend ?_
      cases received (link.send (utf8 request.head)) with
      | ok status => exact Step.ends_pure rfl
      | error reason => exact Step.ends_stop (.whole reason)

theorem Unasking.bind {α β : Type} {x : Step α} {f : α → Step β} {head : List UInt8}
    (hx : Unasking x) (hf : ∀ a, SendsHead w head (f a)) : SendsHead w head (x >>= f) := by
  have hnone {done : List Effect} (h : ∀ e ∈ done, e.isRequest = false) : requestsIn done = [] := by
    have hrest := requestsIn_append h []
    rwa [List.append_nil] at hrest
  refine Step.Ends.bind (Step.Performs.ends hx fun reason done h => ?_) fun a first hfirst => ?_
  · rw [hnone h]
    exact .nothing reason
  · refine (hf a).weaken (fun _ rest h => ?_) fun reason rest h => ?_
    · rwa [requestsIn_append hfirst]
    · rwa [requestsIn_append hfirst]

theorem sendsHead_exchange (request : Request) (link : Link) :
    SendsHead w (utf8 request.head) (exchange w request link) :=
  Unasking.bind (does_expectQuiet link) fun _ => sendsHead_ask request link

theorem sendsHead_converse (request : Request) (link : Link) :
    SendsHead w (utf8 request.head) (converse w t request link) := by
  unfold converse
  split_ifs
  · exact (unasking_secureChannel link).bind fun link => sendsHead_exchange request link
  · exact sendsHead_exchange request link

theorem sendsHead_roundTrip {url : String} {request : Request}
    (h : c.prepare url = .ok (t, request)) :
    SendsHead w (utf8 request.head) (roundTrip w n c url) :=
  ends_prepared h (unasking_dialRoute.bind fun link => sendsHead_converse request link)

/-! ### Attempts -/

/-- An attempt sends a head: not at all, or as a whole, or a front part of it until the deadline. -/
inductive Sent (w : Watch) (c : Client) (head : List UInt8) (a : Attempt) : Prop where
  | nothing (unsent : a.session.requests = [])
  | whole (sent : a.session.requests = [head])
  | part (bytes : List UInt8) (front : bytes <+: head) (sent : a.session.requests = [bytes])
      (deadline : w.deadline.isSome = true)
      (expired : ∃ f, a.result = .error f ∧ f.error = .timeout c.timeout)

structure Rejected (a : Attempt) : Prop where
  failed : ∃ f text, a.result = .error f ∧ f.error = .invalidTarget text
  idle : a.session.trace = []
  unmeasured : ∀ p, p ≠ .total → a.timings.get p = .zero

/-- An attempt asks for the target of its URL with a head that has the lines of such a head, and no
others. -/
structure AsksOnce (w : Watch) (c : Client) (t : Target) (head : List UInt8) (a : Attempt) :
    Prop where
  isHead : IsHead t.pathAndQuery t.authority c.userAgent head
  sent : Sent w c head a
  /-- What is sent is what comes out on the connection. -/
  tells : ∀ link, a.session.link = some link → link.sent = sentIn a.session.trace

theorem rejected_of_prepare {url : String} {e : TrialError} (h : c.prepare url = .error e) :
    Rejected (c.attempt w n url) := by
  have hidle := Client.session_of_rejected w n h
  obtain ⟨text, rfl⟩ := invalidTarget_of_prepare h
  obtain ⟨f, hresult, herror⟩ := Client.result_of_rejected w n h
  refine ⟨⟨f, text, hresult, herror⟩, by rw [hidle]; rfl, fun p hp => ?_⟩
  rw [Client.get_timings_attempt, hidle]
  have hempty := record_measures (.start w) hp
  exact Decidable.not_not.mp fun hne => absurd (hempty.mp hne) List.not_mem_nil

theorem sent_of_prepare {url : String} {request : Request}
    (h : c.prepare url = .ok (t, request)) :
    Sent w c (utf8 request.head) (c.attempt w n url) := by
  rcases Client.attempt_ends (sendsHead_roundTrip (w := w) (n := n) h) with
    ⟨-, hwhole⟩ | ⟨reason, hsends, hfailed⟩
  · exact .whole hwhole
  · generalize hrequests : requestsIn (c.attempt w n url).session.trace = requests at hsends
    cases hsends with
    | nothing _ => exact .nothing hrequests
    | whole _ => exact .whole hrequests
    | part bytes front deadline => exact .part bytes front hrequests deadline hfailed

end

/-- Whatever URL and whatever name for itself a client is given, an attempt is rejected before it
does anything, or all that it sends of a request is one head with the lines that it should have. -/
theorem Client.sends_no_other_head (w : Watch) (n : Network) (c : Client) (url : String) :
    Rejected (c.attempt w n url) ∨
      ∃ t head, Target.parse url = .ok t ∧ AsksOnce w c t head (c.attempt w n url) := by
  cases hprepare : c.prepare url with
  | error e => exact .inl (rejected_of_prepare hprepare)
  | ok prepared =>
      obtain ⟨t, request⟩ := prepared
      obtain ⟨htarget, hrequest⟩ := prepare_eq_ok hprepare
      exact .inr ⟨t, utf8 request.head, htarget, isHead_of_forTarget htarget hrequest,
        sent_of_prepare hprepare, Client.attempt_tells w n c url⟩

end ProxyTiming
