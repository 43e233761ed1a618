import ProxyTiming.Proofs.Attempt.Dialling
import ProxyTiming.Proofs.Attempt.Line

/-!
# What an attempt does to the world

The trace of an attempt tells which names it looked up, which addresses it dialled, what it said
to whom.  Which traces there can be depends on the route alone, and not on who answers what.
Straight to a target, only the target is looked up and dialled.  Through a proxy it is the proxy
that is looked up and dialled, and the target is looked up before all that or not at all; what is
said to the proxy is what a negotiation may say.

As with the measured phases, an attempt can break off anywhere, so the traces of a part of it
are described in both ways: how they look if that part succeeds, and how they look if it stops.
-/

namespace ProxyTiming

open ProxyTiming.Net ProxyTiming.Socks ProxyTiming.Http ProxyTiming.Text

/-! ### Looking up and dialling -/

/-- What may be done to reach a host: its own name is looked up, if it is one, and its own
addresses are dialled. -/
inductive Reaches (n : Network) (host : String) (port : UInt16) : Effect → Prop where
  | lookup (h : IpAddr.ofText? host = none) : Reaches n host port (.lookup host)
  | dial (a : SocketAddr) (h : a ∈ n.addressesOf host port) : Reaches n host port (.dial a)

section

variable {w : Watch} {n : Network} {host : String} {port : UInt16} {e : Effect}

theorem reaches_of_lookupTrace (h : e ∈ lookupTrace host) : Reaches n host port e := by
  unfold lookupTrace at h
  split at h
  next => cases h
  next hname =>
    split_ifs at h
    · rw [List.mem_singleton.mp h]
      exact .lookup hname
    · cases h

theorem reaches_of_dials {dials : List Effect}
    (h : dials <+: (n.addressesOf host port).map Effect.dial) (he : e ∈ dials) :
    Reaches n host port e := by
  obtain ⟨a, ha, rfl⟩ := List.mem_map.mp (h.subset he)
  exact .dial a ha

/-- To reach a host is all that is done to reach it. -/
theorem performs_dial (side : Side) :
    (dial w n side host port).Performs
      (fun link done => (∀ e ∈ done, Reaches n host port e) ∧ link = .toPeer n.peer)
      fun done => ∀ e ∈ done, Reaches n host port e := by
  have hreach {dialled : List SocketAddr} (h : dialled <+: n.addressesOf host port) :
      ∀ e ∈ lookupTrace host ++ dialled.map .dial, Reaches n host port e := by
    intro e he
    rcases List.mem_append.mp he with he | he
    · exact reaches_of_lookupTrace he
    · exact reaches_of_dials (h.map _) he
  refine ((ends_dial side).weaken ?_ fun _ _ h => h).performs ?_
  · rintro link done ⟨hlink, a, dialled, htries, -, rfl⟩
    exact ⟨hreach htries.inOrder, hlink⟩
  · rintro reason done ⟨dialled, hmisses, rfl⟩
    exact hreach hmisses.inOrder

end

end ProxyTiming
