import Mathlib.Algebra.GroupWithZero.Nat
import ProxyTiming.Proofs.Attempt.Route

/-!
# One connection for each attempt

An attempt dials the target, or the proxy, until an address accepts, and that is the only connection
it has.  Whatever goes wrong on it is final: no name is looked up any more, and no other address is
dialled.  So any number of attempts have at most as many connections.
-/

namespace ProxyTiming

open ProxyTiming.Net ProxyTiming.Socks ProxyTiming.Http ProxyTiming.Text

/-- The addresses that an attempt is to dial: those of the target or of the proxy.  A target that
is to be resolved here, and cannot be, leaves nothing to dial. -/
def Client.addresses (c : Client) (n : Network) (t : Target) : List SocketAddr :=
  match c.route with
  | .direct => n.addressesOf t.host t.port
  | .proxy proxy _ =>
    if (c.destination? n t).isSome then n.addressesOf proxy.host proxy.port else []

namespace Effect

def seeks : Effect → Bool
  | .lookup _ => true
  | .dial _ => true
  | .negotiation _ _ => false
  | .secure _ => false
  | .request _ => false

def connects (n : Network) : Effect → Bool
  | .dial a => n.accepts a
  | _ => false

end Effect

/-! ### Traces -/

def Looking (trace : List Effect) : Prop := ∀ e ∈ trace, ∃ name, e = .lookup name

def Quiet (trace : List Effect) : Prop := ∀ e ∈ trace, e.seeks = false

/-- The traces of an attempt that has a connection: lookups, dialled addresses of which the last
one accepts, and what is said on the connection. -/
inductive Connects (n : Network) (addresses : List SocketAddr) : List Effect → Prop where
  | intro {looks talk : List Effect} {a : SocketAddr} {dialled : List SocketAddr}
      (looking : Looking looks) (tries : Tries n addresses a dialled)
      (accepts : n.accepts a = true) (quiet : Quiet talk) :
      Connects n addresses (looks ++ (dialled.map .dial ++ talk))

inductive Strays (w : Watch) (n : Network) (addresses : List SocketAddr) :
    Stop → List Effect → Prop where
  | intro {looks : List Effect} {dialled : List SocketAddr} {reason : Stop}
      (looking : Looking looks) (misses : Misses w n addresses dialled reason) :
      Strays w n addresses reason (looks ++ dialled.map .dial)

def Settles (w : Watch) (n : Network) (addresses : List SocketAddr) (reason : Stop)
    (trace : List Effect) : Prop :=
  Connects n addresses trace ∨ Strays w n addresses reason trace

section

variable {w : Watch} {n : Network} {c : Client} {t : Target} {addresses dialled : List SocketAddr}
  {a : SocketAddr} {reason : Stop} {looks trace talk : List Effect}

theorem Looking.append (h : Looking looks) (h' : Looking trace) : Looking (looks ++ trace) :=
  List.forall_mem_append.mpr ⟨h, h'⟩

theorem quiet_nil : Quiet [] := nofun

theorem Quiet.append (h : Quiet trace) (h' : Quiet talk) : Quiet (trace ++ talk) :=
  List.forall_mem_append.mpr ⟨h, h'⟩

theorem Connects.append (h : Connects n addresses trace) (hquiet : Quiet talk) :
    Connects n addresses (trace ++ talk) := by
  cases h with
  | intro looking tries accepts quiet =>
      rw [List.append_assoc, List.append_assoc]
      exact .intro looking tries accepts (quiet.append hquiet)

theorem Connects.after (h : Connects n addresses trace) (hlooking : Looking looks) :
    Connects n addresses (looks ++ trace) := by
  cases h with
  | intro looking tries accepts quiet =>
      rw [← List.append_assoc]
      exact .intro (hlooking.append looking) tries accepts quiet

theorem Strays.after (h : Strays w n addresses reason trace) (hlooking : Looking looks) :
    Strays w n addresses reason (looks ++ trace) := by
  cases h with
  | intro looking misses =>
      rw [← List.append_assoc]
      exact .intro (hlooking.append looking) misses

theorem Settles.after (h : Settles w n addresses reason trace) (hlooking : Looking looks) :
    Settles w n addresses reason (looks ++ trace) :=
  h.imp (fun h => h.after hlooking) fun h => h.after hlooking

theorem looking_lookupTrace (host : String) : Looking (lookupTrace host) := by
  intro e he
  unfold lookupTrace at he
  split at he
  next => cases he
  next =>
    split_ifs at he
    · exact ⟨host, List.mem_singleton.mp he⟩
    · cases he

theorem Client.looking_lookupTrace (c : Client) (t : Target) : Looking (c.lookupTrace t) := by
  unfold Client.lookupTrace
  split_ifs
  · exact ProxyTiming.looking_lookupTrace t.host
  · nofun

/-! ### On every route -/

theorem ends_dial_connects (side : Side) (host : String) (port : UInt16) :
    (dial w n side host port).Ends
      (fun link done => link = .toPeer n.peer ∧ Connects n (n.addressesOf host port) done)
      (Strays w n (n.addressesOf host port)) := by
  refine (ends_dial side).weaken ?_ ?_
  · rintro link done ⟨hlink, a, dialled, htries, haccepts, rfl⟩
    refine ⟨hlink, ?_⟩
    have hconnects := Connects.intro (looking_lookupTrace host) htries haccepts quiet_nil
    rwa [List.append_nil] at hconnects
  · rintro reason done ⟨dialled, hmisses, rfl⟩
    exact .intro (looking_lookupTrace host) hmisses

theorem quiet_converse (request : Request) (link : Link) :
    Step.Does (fun e => e.seeks = false) (converse w t request link) := by
  have hquiet {e : Effect} (h : Talks (utf8 request.head) e) : e.seeks = false := by
    cases h <;> rfl
  exact Step.Performs.weaken (does_converse request link) (fun _ _ h e he => hquiet (h e he))
    fun _ h e he => hquiet (h e he)

theorem ends_dialVia {proxy : Endpoint} {credentials : Option Credentials} {d : Destination} :
    (dialVia w n proxy credentials d).Ends
      (fun _ done => Connects n (n.addressesOf proxy.host proxy.port) done)
      (Settles w n (n.addressesOf proxy.host proxy.port)) := by
  refine Step.Ends.bind ((ends_dial_connects .proxy proxy.host proxy.port).weaken (fun _ _ h => h)
    fun _ _ h => .inr h) ?_
  rintro link first ⟨rfl, hconnects⟩
  have hquiet : Step.Does (fun e => e.seeks = false) (tunnel w d credentials (.toPeer n.peer)) :=
    does_tunnel (fun _ _ => rfl) n.peer
  exact Step.Ends.weaken (hquiet.ends fun _ _ h => h) (fun _ _ h => hconnects.append h)
    fun _ _ h => .inl (hconnects.append h)

theorem ends_dialRoute :
    (dialRoute w n c t).Ends (fun _ done => Connects n (c.addresses n t) done)
      (Settles w n (c.addresses n t)) := by
  unfold dialRoute Client.addresses
  cases c.route with
  | direct =>
      exact (ends_dial_connects .target t.host t.port).weaken (fun _ _ h => h.2) fun _ _ h => .inr h
  | proxy proxy credentials =>
      have hlooks := c.looking_lookupTrace t
      refine Step.Ends.bind (ends_destinationOf.weaken (fun _ _ h => h) ?_) ?_
      · rintro reason done ⟨rfl, addresses, hunresolved, hnone⟩
        rw [← List.append_nil (c.lookupTrace t)]
        refine .inr (Strays.intro hlooks (.unresolved ?_))
        cases hunresolved with
        | expired deadline => exact .expired deadline
        | notFound text empty => exact .notFound text (by rw [hnone empty]; rfl)
      · rintro d first ⟨rfl, hd⟩
        rw [hd]
        exact ends_dialVia.weaken (fun _ _ h => h.after hlooks) fun _ _ h => h.after hlooks

theorem ends_roundTrip {url : String} {request : Request}
    (h : c.prepare url = .ok (t, request)) :
    (roundTrip w n c url).Ends (fun _ done => Connects n (c.addresses n t) done)
      (Settles w n (c.addresses n t)) := by
  refine ends_prepared h (ends_dialRoute.bind fun link first hconnects => ?_)
  exact Step.Ends.weaken ((quiet_converse request link).ends fun _ _ h => h)
    (fun _ _ h => hconnects.append h) fun _ _ h => .inl (hconnects.append h)

/-! ### What is dialled -/

def dialedIn (trace : List Effect) : List SocketAddr :=
  trace.filterMap fun
    | .dial address => some address
    | _ => none

theorem dialedIn_dials (dialled : List SocketAddr) : dialedIn (dialled.map .dial) = dialled := by
  rw [dialedIn, List.filterMap_map]
  exact List.filterMap_some

theorem dialedIn_of_looking (hlooking : Looking looks) (rest : List Effect) :
    dialedIn (looks ++ rest) = dialedIn rest := by
  have hnone : dialedIn looks = [] := by
    refine List.filterMap_eq_nil_iff.mpr fun e he => ?_
    obtain ⟨name, rfl⟩ := hlooking e he
    rfl
  rw [dialedIn, List.filterMap_append]
  exact congrArg (· ++ dialedIn rest) hnone

theorem dialedIn_of_quiet (hquiet : Quiet talk) (dials : List Effect) :
    dialedIn (dials ++ talk) = dialedIn dials := by
  have hnone : dialedIn talk = [] := by
    refine List.filterMap_eq_nil_iff.mpr fun e he => ?_
    have hseeks := hquiet e he
    cases e with
    | dial a => cases hseeks
    | _ => rfl
  rw [dialedIn, List.filterMap_append]
  exact (congrArg (dialedIn dials ++ ·) hnone).trans (List.append_nil _)

theorem Connects.dialed (h : Connects n addresses trace) :
    ∃ a, Tries n addresses a (dialedIn trace) ∧ n.accepts a = true := by
  cases h with
  | intro looking tries accepts quiet =>
      rw [dialedIn_of_looking looking, dialedIn_of_quiet quiet, dialedIn_dials]
      exact ⟨_, tries, accepts⟩

theorem Strays.dialed (h : Strays w n addresses reason trace) :
    Misses w n addresses (dialedIn trace) reason := by
  cases h with
  | intro looking misses =>
      rw [dialedIn_of_looking looking, dialedIn_dials]
      exact misses

theorem Tries.countP_le (h : Tries n addresses a dialled) : dialled.countP n.accepts ≤ 1 := by
  obtain ⟨before, after, -, hbefore, rfl⟩ := h
  have hnone : before.countP n.accepts = 0 :=
    List.countP_eq_zero.mpr fun b hb => by simp [hbefore b hb]
  rw [List.countP_append, hnone, Nat.zero_add]
  exact List.countP_le_length

theorem Misses.countP_le (h : Misses w n addresses dialled reason) :
    dialled.countP n.accepts ≤ 1 := by
  cases h with
  | unresolved _ => exact Nat.zero_le 1
  | expired _ tries => exact tries.countP_le
  | refused a refusal all _ _ =>
      have hnone : addresses.countP n.accepts = 0 :=
        List.countP_eq_zero.mpr fun b hb => by simp [all b hb]
      rw [hnone]
      exact Nat.zero_le 1

/-! ### What comes after -/

/-- Once an address has accepted, no name is looked up and no address is dialled. -/
def Final (n : Network) (trace : List Effect) : Prop :=
  trace.Pairwise fun earlier later => earlier.connects n = true → later.seeks = false

theorem final_of_unconnected (h : ∀ e ∈ trace, e.connects n = false) : Final n trace :=
  List.pairwise_of_forall_mem_list fun e he _ _ hconnects =>
    absurd ((h e he).symm.trans hconnects) Bool.false_ne_true

/-- Only the last effect before the talk may be a connection. -/
theorem final_of_quiet {e : Effect} (h : ∀ e ∈ trace, e.connects n = false) (hquiet : Quiet talk) :
    Final n (trace ++ e :: talk) := by
  refine List.pairwise_append.mpr ⟨final_of_unconnected h, List.pairwise_cons.mpr ⟨?_, ?_⟩, ?_⟩
  · exact fun later hlater _ => hquiet later hlater
  · exact List.pairwise_of_forall_mem_list fun _ _ later hlater _ => hquiet later hlater
  · exact fun earlier hearlier _ _ hconnects =>
      absurd ((h earlier hearlier).symm.trans hconnects) Bool.false_ne_true

theorem unconnected_of_refusing (hlooking : Looking looks)
    (hrefusing : ∀ a ∈ dialled, n.accepts a = false) :
    ∀ e ∈ looks ++ dialled.map .dial, e.connects n = false := by
  intro e he
  rcases List.mem_append.mp he with he | he
  · obtain ⟨name, rfl⟩ := hlooking e he
    rfl
  · obtain ⟨a, ha, rfl⟩ := List.mem_map.mp he
    exact hrefusing a ha

theorem final_of_tries (hlooking : Looking looks) (htries : Tries n addresses a dialled)
    (hquiet : Quiet talk) : Final n (looks ++ (dialled.map .dial ++ talk)) := by
  obtain ⟨refusing, after, -, hrefusing, rfl⟩ := htries
  have hfinal : Final n (looks ++ refusing.map .dial ++ .dial a :: talk) :=
    final_of_quiet (unconnected_of_refusing hlooking hrefusing) hquiet
  simpa using hfinal

theorem Connects.final (h : Connects n addresses trace) : Final n trace := by
  cases h with
  | intro looking tries _ quiet => exact final_of_tries looking tries quiet

theorem Strays.final (h : Strays w n addresses reason trace) : Final n trace := by
  cases h with
  | intro looking misses =>
      cases misses with
      | unresolved _ => exact final_of_unconnected (unconnected_of_refusing looking nofun)
      | expired _ tries =>
          have hfinal := final_of_tries looking tries quiet_nil
          rwa [List.append_nil] at hfinal
      | refused _ _ all _ _ => exact final_of_unconnected (unconnected_of_refusing looking all)

/-! ### Attempts -/

inductive Dialled (w : Watch) (n : Network) (c : Client) (addresses : List SocketAddr)
    (a : Attempt) : Prop where
  /-- The first address that accepts has been dialled last. -/
  | connected (b : SocketAddr) (tries : Tries n addresses b a.session.dialed)
      (accepts : n.accepts b = true)
  /-- There is no connection, and the error says why. -/
  | missed (reason : Stop) (misses : Misses w n addresses a.session.dialed reason)
      (failed : ∃ f, a.result = .error f ∧ f.error = c.errorOf reason)

/-- The attempt dials the addresses in order, until one accepts, and looks for no other then. -/
structure DialsInOrder (w : Watch) (n : Network) (c : Client) (addresses : List SocketAddr)
    (a : Attempt) : Prop where
  inOrder : a.session.dialed <+: addresses
  outcome : Dialled w n c addresses a
  final : Final n a.session.trace

theorem Dialled.countP_le {attempt : Attempt} (h : Dialled w n c addresses attempt) :
    attempt.session.dialed.countP n.accepts ≤ 1 := by
  cases h with
  | connected _ tries _ => exact tries.countP_le
  | missed _ misses _ => exact misses.countP_le

theorem dialsInOrder {url : String} {request : Request} (h : c.prepare url = .ok (t, request)) :
    DialsInOrder w n c (c.addresses n t) (c.attempt w n url) := by
  have hconnected (h : Connects n (c.addresses n t) (c.attempt w n url).session.trace) :
      DialsInOrder w n c (c.addresses n t) (c.attempt w n url) := by
    obtain ⟨b, tries, accepts⟩ := h.dialed
    exact ⟨tries.inOrder, .connected b tries accepts, h.final⟩
  rcases Client.attempt_ends (ends_roundTrip (w := w) (n := n) h) with
    ⟨-, hconnects⟩ | ⟨reason, hconnects | hstrays, hfailed⟩
  · exact hconnected hconnects
  · exact hconnected hconnects
  · exact ⟨hstrays.dialed.inOrder, .missed reason hstrays.dialed hfailed, hstrays.final⟩

end

structure Execution where
  watch : Watch
  network : Network
  client : Client
  url : String

namespace Execution

def attempt (x : Execution) : Attempt := x.client.attempt x.watch x.network x.url

def connections (x : Execution) : Nat := x.attempt.session.dialed.countP x.network.accepts

theorem connections_le (x : Execution) : x.connections ≤ 1 := by
  cases hprepare : x.client.prepare x.url with
  | error e =>
      have hidle : x.attempt.session = .start := Client.session_of_rejected _ _ hprepare
      rw [connections, hidle]
      exact Nat.zero_le 1
  | ok prepared => exact (dialsInOrder hprepare).outcome.countP_le

end Execution

/-- An attempt dials the addresses in order, until one accepts; what happens then does not make it
look for another.  So some attempts have no more connections than there are attempts. -/
theorem Client.dials_in_order :
    (∀ (w : Watch) (n : Network) (c : Client) (url : String),
      match c.prepare url with
      | .error _ => (c.attempt w n url).session.trace = []
      | .ok (t, _) => DialsInOrder w n c (c.addresses n t) (c.attempt w n url)) ∧
    ∀ executions : List Execution,
      (executions.map Execution.connections).sum ≤ executions.length := by
  refine ⟨fun w n c url => ?_, fun executions => ?_⟩
  · cases hprepare : c.prepare url with
    | error e =>
        dsimp only
        rw [Client.session_of_rejected w n hprepare]
        rfl
    | ok prepared => exact dialsInOrder hprepare
  · induction executions with
    | nil => exact Nat.le_refl 0
    | cons x rest ih =>
        have hfirst := x.connections_le
        rw [List.map_cons, List.sum_cons, List.length_cons]
        omega

-- The first of three addresses refuses, the second one accepts, and the third one is left alone.
example :
    let address (last : UInt8) : IpAddr := .v4 (Ipv4.ofBytes 10 0 0 last)
    let n : Network := ⟨[("h", [address 1, address 2, address 3])], .some [("10.0.0.1", .refused)],
      ⟨false, fun _ => none, none, false, false⟩⟩
    ((Client.direct .zero).attempt .tick n "http://h").session.dialed =
      [⟨address 1, 80⟩, ⟨address 2, 80⟩] := by
  decide +kernel

end ProxyTiming
