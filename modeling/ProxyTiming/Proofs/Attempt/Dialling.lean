import Mathlib.Tactic.SplitIfs
import ProxyTiming.Proofs.Attempt.Ensures

/-!
# In which order addresses are dialled

A host has the addresses that its name is found under, or is one.  They are dialled one after the
other, and the first one that accepts is the last one that is dialled.  If none accepts, all of them
have been dialled, and the complaint is about the last.

The dialled addresses are the front part of the list in every case.  What there is to say of them is
therefore where the list breaks off, and why: `Tries` if an address is dialled and no later one,
`Misses` if there is no connection in the end.
-/

namespace ProxyTiming

open ProxyTiming.Net

/-! ### Addresses -/

def Network.addressesOf (n : Network) (host : String) (port : UInt16) : List SocketAddr :=
  match IpAddr.ofText? host with
  | some ip => [⟨ip, port⟩]
  | none =>
    match n.lookup host with
    | .ok ips => ips.map fun ip => ⟨ip, port⟩
    | .error _ => []

def lookupTrace (host : String) : List Effect :=
  match IpAddr.ofText? host with
  | some _ => []
  | none => if Network.canAsk host then [.lookup host] else []

def Network.accepts (n : Network) (a : SocketAddr) : Bool := (n.refusals.find a.ip).isNone

section

variable {w : Watch} {n : Network} {host : String} {port : UInt16} {a b : SocketAddr}
  {addresses rest dialled : List SocketAddr} {reason : Stop}

theorem Network.accepts_of_connect {link : Link} (h : n.connect a = .ok link) :
    n.accepts a = true := by
  unfold connect at h
  split at h
  next => cases h
  next hnone => rw [accepts, hnone, Option.isNone_none]

theorem Network.refuses_of_connect {refusal : Refusal} (h : n.connect a = .error refusal) :
    n.accepts a = false := by
  unfold connect at h
  split at h
  next hsome => rw [accepts, hsome, Option.isNone_some]
  next => cases h

/-! ### Looking up -/

inductive Unresolved (w : Watch) (addresses : List SocketAddr) : Stop → Prop where
  | expired (deadline : w.deadline.isSome = true) : Unresolved w addresses .stalled
  | notFound (text : String) (empty : addresses = []) :
      Unresolved w addresses (.failed (.connection text))

theorem found_eq_ok (hname : IpAddr.ofText? host = none)
    (h : found host port (n.lookup host) = .ok addresses) :
    addresses = n.addressesOf host port ∧ addresses ≠ [] := by
  unfold found at h
  rw [Network.addressesOf, hname]
  dsimp only
  split at h
  next => cases h
  next => cases h
  next ips hne hlookup =>
    obtain rfl := Except.ok.inj h
    rw [hlookup]
    exact ⟨rfl, fun hnil => hne (List.map_eq_nil_iff.mp hnil)⟩

theorem found_eq_error {e : TrialError} (hname : IpAddr.ofText? host = none)
    (h : found host port (n.lookup host) = .error e) :
    n.addressesOf host port = [] ∧ ∃ text, e = .connection text := by
  unfold found at h
  rw [Network.addressesOf, hname]
  dsimp only
  split at h
  next fault hlookup =>
    rw [hlookup]
    exact ⟨rfl, _, (Except.error.inj h).symm⟩
  next hlookup =>
    rw [hlookup]
    exact ⟨rfl, _, (Except.error.inj h).symm⟩
  next => cases h

theorem ends_resolve (side : Side) :
    (resolve w n side host port).Ends
      (fun addresses done => done = lookupTrace host ∧ addresses = n.addressesOf host port ∧
        addresses ≠ [])
      fun reason done => done = lookupTrace host ∧
        Unresolved w (n.addressesOf host port) reason := by
  unfold resolve lookupTrace
  cases hname : IpAddr.ofText? host with
  | some ip =>
      refine Step.ends_pure ⟨rfl, ?_, List.cons_ne_nil _ _⟩
      rw [Network.addressesOf, hname]
  | none =>
      have hask {ended : Stop → List Effect → Prop} : (askFor host).Ends
          (fun _ done => done = if Network.canAsk host then [.lookup host] else []) ended := by
        unfold askFor
        split_ifs
        · exact Step.ends_note _ rfl
        · exact Step.ends_pure rfl
      refine hask.bind fun _ first hfirst => ?_
      refine (Step.ends_wait w rfl fun hdeadline => ?_).quietly fun _ => ?_
      · exact ⟨by rwa [List.append_nil], .expired hdeadline⟩
      refine Step.Ends.quietly (Step.ends_modify (fun _ => rfl) rfl) fun _ => ?_
      cases hfound : found host port (n.lookup host) with
      | ok addresses => exact Step.ends_pure ⟨by rwa [List.append_nil], found_eq_ok hname hfound⟩
      | error e =>
          obtain ⟨hnone, text, rfl⟩ := found_eq_error hname hfound
          exact Step.ends_stop ⟨by rwa [List.append_nil], .notFound text hnone⟩

/-! ### Connecting -/

/-- Of the addresses, `a` is dialled, and before it those in front of it, all of which refuse. -/
def Tries (n : Network) (addresses : List SocketAddr) (a : SocketAddr)
    (dialled : List SocketAddr) : Prop :=
  ∃ before after, addresses = before ++ a :: after ∧ (∀ b ∈ before, n.accepts b = false) ∧
    dialled = before ++ [a]

theorem tries_head (a : SocketAddr) (rest : List SocketAddr) : Tries n (a :: rest) a [a] :=
  ⟨[], rest, rfl, nofun, rfl⟩

theorem Tries.cons (h : Tries n rest b dialled) (refuses : n.accepts a = false) :
    Tries n (a :: rest) b (a :: dialled) := by
  obtain ⟨before, after, rfl, hbefore, rfl⟩ := h
  exact ⟨a :: before, after, rfl, List.forall_mem_cons.mpr ⟨refuses, hbefore⟩, rfl⟩

theorem Tries.inOrder (h : Tries n addresses a dialled) : dialled <+: addresses := by
  obtain ⟨before, after, rfl, -, rfl⟩ := h
  exact ⟨after, by rw [List.append_assoc]; rfl⟩

/-- The complaint after all addresses have refused: it names the last one. -/
inductive Complaint (n : Network) (complaint : String) : List SocketAddr → String → Prop where
  | none : Complaint n complaint [] complaint
  | last {addresses : List SocketAddr} (a : SocketAddr) (refusal : Refusal)
      (hlast : addresses.getLast? = some a) (hrefusal : n.connect a = .error refusal) :
      Complaint n complaint addresses (connectComplaint a refusal)

theorem Complaint.cons {complaint text : String} {refusal : Refusal}
    (hrefusal : n.connect a = .error refusal)
    (h : Complaint n (connectComplaint a refusal) rest text) :
    Complaint n complaint (a :: rest) text := by
  cases h with
  | none => exact .last a refusal rfl hrefusal
  | last b refusal' hlast hrefusal' =>
      exact .last b refusal' (by rw [List.getLast?_cons, hlast]; rfl) hrefusal'

theorem ends_connectFirst (addresses : List SocketAddr) (complaint : String) :
    (connectFirst w n complaint addresses).Ends
      (fun result done => match result with
        | .ok link => link = .toPeer n.peer ∧ ∃ a dialled, Tries n addresses a dialled ∧
            n.accepts a = true ∧ done = dialled.map .dial
        | .error text => (∀ a ∈ addresses, n.accepts a = false) ∧
            Complaint n complaint addresses text ∧ done = addresses.map .dial)
      fun reason done => reason = .stalled ∧ w.deadline.isSome = true ∧
        ∃ a dialled, Tries n addresses a dialled ∧ done = dialled.map .dial := by
  induction addresses generalizing complaint with
  | nil => exact Step.ends_pure ⟨nofun, .none, rfl⟩
  | cons a rest ih =>
      have hnote {ended : Stop → List Effect → Prop} : (Step.note (.dial a)).Ends
          (fun _ done => done = [.dial a]) ended := Step.ends_note _ rfl
      refine hnote.bind ?_
      rintro - first rfl
      refine (Step.ends_wait w rfl fun hdeadline => ?_).quietly fun _ => ?_
      · exact ⟨rfl, hdeadline, a, [a], tries_head a rest, rfl⟩
      cases hconnect : n.connect a with
      | ok link =>
          exact Step.ends_pure ⟨Network.connect_eq_ok hconnect, a, [a], tries_head a rest,
            Network.accepts_of_connect hconnect, rfl⟩
      | error refusal =>
          have hrefuses := Network.refuses_of_connect hconnect
          refine (ih (connectComplaint a refusal)).weaken ?_ ?_
          · rintro (text | link) later h
            · obtain ⟨hall, hcomplaint, rfl⟩ := h
              exact ⟨List.forall_mem_cons.mpr ⟨hrefuses, hall⟩, hcomplaint.cons hconnect, rfl⟩
            · obtain ⟨hlink, b, dialled, htries, haccepts, rfl⟩ := h
              exact ⟨hlink, b, a :: dialled, htries.cons hrefuses, haccepts, rfl⟩
          · rintro reason later ⟨hreason, hdeadline, b, dialled, htries, rfl⟩
            exact ⟨hreason, hdeadline, b, a :: dialled, htries.cons hrefuses, rfl⟩

inductive Misses (w : Watch) (n : Network) (addresses : List SocketAddr) :
    List SocketAddr → Stop → Prop where
  | unresolved {reason : Stop} (unresolved : Unresolved w addresses reason) :
      Misses w n addresses [] reason
  /-- The deadline passes while an address is dialled. -/
  | expired {a : SocketAddr} {dialled : List SocketAddr} (deadline : w.deadline.isSome = true)
      (tries : Tries n addresses a dialled) : Misses w n addresses dialled .stalled
  | refused (a : SocketAddr) (refusal : Refusal) (all : ∀ a ∈ addresses, n.accepts a = false)
      (last : addresses.getLast? = some a) (refuses : n.connect a = .error refusal) :
      Misses w n addresses addresses (.failed (.connection (connectComplaint a refusal)))

theorem Misses.inOrder (h : Misses w n addresses dialled reason) : dialled <+: addresses := by
  cases h with
  | unresolved _ => exact List.nil_prefix
  | expired _ tries => exact tries.inOrder
  | refused _ _ _ _ _ => exact List.prefix_rfl

theorem ends_connectAny (side : Side) (addresses : List SocketAddr) :
    (connectAny w n side addresses).Ends
      (fun link done => link = .toPeer n.peer ∧ ∃ a dialled, Tries n addresses a dialled ∧
        n.accepts a = true ∧ done = dialled.map .dial)
      fun reason done => ∃ dialled, Misses w n addresses dialled reason ∧
        done = dialled.map .dial := by
  refine Step.Ends.bind ((ends_connectFirst addresses _).weaken (fun _ _ h => h) ?_) ?_
  · rintro reason done ⟨rfl, hdeadline, a, dialled, htries, rfl⟩
    exact ⟨dialled, .expired hdeadline htries, rfl⟩
  rintro (text | link) first h
  · obtain ⟨hall, hcomplaint, rfl⟩ := h
    refine Step.Ends.quietly (Step.ends_modify (fun _ => rfl) rfl) fun _ => Step.ends_stop ?_
    rw [List.append_nil]
    cases hcomplaint with
    | none => exact ⟨[], .unresolved (.notFound _ rfl), rfl⟩
    | last a refusal hlast hrefusal => exact ⟨addresses, .refused a refusal hall hlast hrefusal, rfl⟩
  · refine Step.Ends.quietly (Step.ends_modify (fun _ => rfl) rfl) fun _ => ?_
    refine Step.Ends.quietly (Step.ends_modify (fun _ => rfl) rfl) fun _ => Step.ends_pure ?_
    rwa [List.append_nil]

theorem ends_dial (side : Side) :
    (dial w n side host port).Ends
      (fun link done => link = .toPeer n.peer ∧ ∃ a dialled,
        Tries n (n.addressesOf host port) a dialled ∧ n.accepts a = true ∧
          done = lookupTrace host ++ dialled.map .dial)
      fun reason done => ∃ dialled, Misses w n (n.addressesOf host port) dialled reason ∧
        done = lookupTrace host ++ dialled.map .dial := by
  refine Step.Ends.bind ((ends_resolve side).weaken (fun _ _ h => h) ?_) ?_
  · rintro reason done ⟨rfl, hunresolved⟩
    exact ⟨[], .unresolved hunresolved, (List.append_nil _).symm⟩
  rintro addresses first ⟨rfl, rfl, -⟩
  refine (ends_connectAny side _).weaken ?_ ?_
  · rintro link done ⟨hlink, a, dialled, htries, haccepts, rfl⟩
    exact ⟨hlink, a, dialled, htries, haccepts, rfl⟩
  · rintro reason done ⟨dialled, hmisses, rfl⟩
    exact ⟨dialled, hmisses, rfl⟩

end

end ProxyTiming
