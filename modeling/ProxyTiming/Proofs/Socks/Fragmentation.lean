import Mathlib.Tactic.SplitIfs
import ProxyTiming.Proofs.Stream.Serving

/-!
# However the bytes are cut

A network may deliver the bytes of a proxy in chunks of any sizes.  Two streams are *recuts* of
each other if they differ in nothing but the places where the bytes to come are cut.  A whole
read and a whole write lead from recuts to recuts and have the same fate on both, so no
dialogue can tell recuts apart, whatever its steps are and wherever the stream ends, fails or
stops to accept bytes.
-/

namespace ProxyTiming.Stream

open ProxyTiming.Socks

def script (chunks : List (List UInt8)) (ending : Option String) : List Chunk :=
  chunks.map .data ++ ending.toList.map .failure

theorem serves_script {chunks : List (List UInt8)} (h : ∀ chunk ∈ chunks, chunk ≠ [])
    (ending : Option String) : Serves (script chunks ending) chunks.flatten ending := by
  induction chunks with
  | nil =>
      cases ending with
      | none => exact .ended
      | some reason => exact .failing reason
  | cons chunk chunks ih =>
      rw [List.forall_mem_cons] at h
      exact .data h.1 (ih h.2)

/-- Streams that differ in nothing but the places where the bytes to come are cut. -/
structure Recut (s t : Scripted) : Prop where
  served : ∃ bytes ending, Serves s.reads bytes ending ∧ Serves t.reads bytes ending
  same : t = { s with reads := t.reads }

namespace Recut

variable {s t : Scripted}

theorem unread (h : Recut s t) : s.unread = t.unread := by
  obtain ⟨bytes, ending, hs, ht⟩ := h.served
  rw [Scripted.unread_of_serves hs rfl, Scripted.unread_of_serves ht rfl]

theorem written (h : Recut s t) : s.written = t.written := by
  rw [h.same]

/-! ### Writes -/

theorem write_withReads (bytes : List UInt8) (s : Scripted) (reads : List Chunk) :
    { s with reads := reads }.write bytes =
      ((s.write bytes).1, { (s.write bytes).2 with reads := reads }) := by
  have hroom : Scripted.room { s with reads := reads } = s.room := rfl
  simp only [Scripted.write, hroom]
  split_ifs <;> rfl

theorem reads_write (bytes : List UInt8) (s : Scripted) : (s.write bytes).2.reads = s.reads := by
  simp only [Scripted.write]
  split_ifs <;> rfl

/-- A write does not look at the bytes to come, and leaves them as they are. -/
theorem sendWithin_withReads (fuel : Nat) (bytes : List UInt8) (s : Scripted)
    (reads : List Chunk) :
    Scripted.sendWithin fuel bytes { s with reads := reads } =
      ((Scripted.sendWithin fuel bytes s).1,
        { (Scripted.sendWithin fuel bytes s).2 with reads := reads }) := by
  induction fuel generalizing bytes s with
  | zero => rfl
  | succ fuel ih =>
      simp only [Scripted.sendWithin, write_withReads]
      split_ifs with hempty
      · rfl
      · rcases s.write bytes with ⟨_ | n, s'⟩
        · rfl
        · dsimp only
          split_ifs
          · rfl
          · exact ih _ _

theorem reads_sendWithin (fuel : Nat) (bytes : List UInt8) (s : Scripted) :
    (Scripted.sendWithin fuel bytes s).2.reads = s.reads := by
  induction fuel generalizing bytes s with
  | zero => rfl
  | succ fuel ih =>
      simp only [Scripted.sendWithin]
      have hreads := reads_write bytes s
      split_ifs with hempty
      · rfl
      · rcases hwrite : s.write bytes with ⟨_ | n, s'⟩
        · rwa [hwrite] at hreads
        · dsimp only
          rw [hwrite] at hreads
          split_ifs
          · exact hreads
          · rw [ih, hreads]

theorem sendAll (h : Recut s t) (bytes : List UInt8) :
    (s.sendAll bytes).1 = (t.sendAll bytes).1 ∧ Recut (s.sendAll bytes).2 (t.sendAll bytes).2 := by
  have hsend := sendWithin_withReads (bytes.length + 1) bytes s t.reads
  rw [← h.same] at hsend
  have hs := reads_sendWithin (bytes.length + 1) bytes s
  simp only [Scripted.sendAll, hsend]
  exact ⟨trivial, ⟨by simpa only [hs] using h.served, rfl⟩⟩

/-! ### Reads -/

theorem receiveExactly (h : Recut s t) (n : Nat) :
    (s.receiveExactly n).1 = (t.receiveExactly n).1 ∧
      Recut (s.receiveExactly n).2 (t.receiveExactly n).2 := by
  obtain ⟨bytes, ending, hs, ht⟩ := h.served
  rcases Scripted.receiveExactly_of_serves hs n with ⟨hle, reads, hreads, heq⟩ | ⟨hlt, heq⟩
  · rcases Scripted.receiveExactly_of_serves ht n with ⟨-, reads', hreads', heq'⟩ | ⟨hlt, -⟩
    · rw [heq, heq']
      exact ⟨rfl, ⟨_, ending, hreads, hreads'⟩, by rw [h.same]⟩
    · exact absurd hle (Nat.not_le.mpr hlt)
  · rcases Scripted.receiveExactly_of_serves ht n with ⟨hle, -⟩ | ⟨-, heq'⟩
    · exact absurd hle (Nat.not_le.mpr hlt)
    · rw [heq, heq']
      exact ⟨rfl, ⟨[], none, .ended, .ended⟩, by rw [h.same]⟩

/-! ### Dialogues -/

/-- No dialogue can tell how the bytes are cut. -/
theorem over_channel {α : Type} (h : Recut s t) (d : Dialogue (Except Failure α)) :
    (d.over Scripted.channel s).1 = (d.over Scripted.channel t).1 ∧
      Recut (d.over Scripted.channel s).2 (d.over Scripted.channel t).2 := by
  induction d generalizing s t with
  | done result => exact ⟨rfl, h⟩
  | send message next ih =>
      obtain ⟨hfate, hrecut⟩ := h.sendAll message
      simp only [Dialogue.over, Scripted.channel]
      rcases hs : s.sendAll message with ⟨fate, s'⟩
      rcases ht : t.sendAll message with ⟨fate', t'⟩
      rw [hs, ht] at hfate hrecut
      obtain rfl : fate = fate' := hfate
      cases fate with
      | value => exact ih hrecut
      | lost reason => exact ⟨rfl, hrecut⟩
      | stalled => exact ⟨rfl, hrecut⟩
  | receive count next ih =>
      obtain ⟨hfate, hrecut⟩ := h.receiveExactly count
      simp only [Dialogue.over, Scripted.channel]
      rcases hs : s.receiveExactly count with ⟨fate, s'⟩
      rcases ht : t.receiveExactly count with ⟨fate', t'⟩
      rw [hs, ht] at hfate hrecut
      obtain rfl : fate = fate' := hfate
      cases fate with
      | value bytes => exact ih bytes hrecut
      | lost reason => exact ⟨rfl, hrecut⟩
      | stalled => exact ⟨rfl, hrecut⟩

theorem negotiate (h : Recut s t) (d : Destination) (c : Option Credentials) :
    (s.negotiate d c).1 = (t.negotiate d c).1 ∧
      Recut (s.negotiate d c).2 (t.negotiate d c).2 := by
  obtain ⟨hresult, hrecut⟩ := h.over_channel (negotiation d c)
  simp only [Scripted.negotiate]
  rcases hs : (negotiation d c).over Scripted.channel s with ⟨result, s'⟩
  rcases ht : (negotiation d c).over Scripted.channel t with ⟨result', t'⟩
  rw [hs, ht] at hresult hrecut
  obtain rfl : result = result' := hresult
  rcases result with _ | _ | _ <;> exact ⟨rfl, hrecut⟩

end Recut

/-- A negotiation comes to the same end however the proxy's bytes are cut into chunks, whatever
limit there is to writes, and whether the stream then ends or fails.  It has written the same
bytes then; the same bytes are left to be read, and all else about the stream is the same. -/
theorem negotiate_of_recut (d : Destination) (c : Option Credentials) (s : Scripted)
    {chunks chunks' : List (List UInt8)} (nonempty : ∀ chunk ∈ chunks, chunk ≠ [])
    (nonempty' : ∀ chunk ∈ chunks', chunk ≠ []) (same : chunks.flatten = chunks'.flatten)
    (ending : Option String) :
    let first := { s with reads := script chunks ending }.negotiate d c
    let second := { s with reads := script chunks' ending }.negotiate d c
    first.1 = second.1 ∧ first.2.written = second.2.written ∧
      first.2.unread = second.2.unread ∧ Recut first.2 second.2 := by
  intro first second
  have hrecut : Recut { s with reads := script chunks ending }
      { s with reads := script chunks' ending } :=
    ⟨⟨chunks.flatten, ending, serves_script nonempty ending,
      same ▸ serves_script nonempty' ending⟩, rfl⟩
  obtain ⟨hresult, hrest⟩ := hrecut.negotiate d c
  exact ⟨hresult, hrest.written, hrest.unread, hrest⟩

/-- A login is rejected over a stream that takes only twelve bytes and then fails to be read: the
status of the login comes in the middle of a chunk, or alone. -/
theorem negotiate_of_recut_login :
    let d : Destination := .domain "a" 80
    let c : Option Credentials := some ⟨"u", "p"⟩
    let s : Scripted := { Scripted.ofReads [] with limit := some 12, failing := true }
    let chunks : List (List UInt8) := [[5, 2, 1], [9, 0, 0]]
    let chunks' : List (List UInt8) := [[5], [2], [1], [9], [0], [0]]
    let first := { s with reads := script chunks (some "reset") }.negotiate d c
    let second := { s with reads := script chunks' (some "reset") }.negotiate d c
    (∀ chunk ∈ chunks, chunk ≠ []) ∧ (∀ chunk ∈ chunks', chunk ≠ []) ∧
      chunks.flatten = chunks'.flatten ∧ first.1 = second.1 ∧
      first.1 = .error (.handshake "authentication rejected (status 0x09)") ∧
      first.2.unread = [0, 0] ∧ second.2.unread = [0, 0] := by
  intro d c s chunks chunks' first second
  have hnonempty : ∀ chunk ∈ chunks, chunk ≠ [] := by decide
  have hnonempty' : ∀ chunk ∈ chunks', chunk ≠ [] := by decide
  obtain ⟨hresult, -, hunread, -⟩ :=
    negotiate_of_recut d c s hnonempty hnonempty' rfl (some "reset")
  have hfirst : first.1 = .error (.handshake "authentication rejected (status 0x09)") := rfl
  have hleft : first.2.unread = [0, 0] := rfl
  exact ⟨hnonempty, hnonempty', rfl, hresult, hfirst, hleft, hunread ▸ hleft⟩

end ProxyTiming.Stream
