import ProxyTiming.Attempt.Dial
import ProxyTiming.Proofs.Peer
import ProxyTiming.Proofs.Socks.Opening

/-!
# A line keeps account

On a line to a peer, other than in a script, what there is to read depends on what has been
written.  It can be told from the transcript of a dialogue all the same: the peer never takes a
word back, so what has been heard is the front part of what has been said, at every moment.

So all that holds of a transcript over any channel holds of what is said and heard on a line,
and all of it wherever the deadline cuts the dialogue off.
-/

namespace ProxyTiming

open ProxyTiming.Socks

namespace Link

variable {l : Link}

/-- No more has been heard than has been said. -/
def InStep (l : Link) : Prop := l.consumed ≤ l.reaction.sent.length

theorem inStep_toPeer (p : Peer) : (toPeer p).InStep := Nat.zero_le _

theorem reaction_send (bytes : List UInt8) : l.reaction.sent <+: (l.send bytes).reaction.sent :=
  l.peer.sent_prefix l.secured l.sent bytes

theorem InStep.send (h : l.InStep) (bytes : List UInt8) : (l.send bytes).InStep :=
  Nat.le_trans h (reaction_send bytes).length_le

theorem heard_send (h : l.InStep) (bytes : List UInt8) : (l.send bytes).heard = l.heard := by
  obtain ⟨more, hmore⟩ := l.reaction_send bytes
  show (l.send bytes).reaction.sent.take l.consumed = l.reaction.sent.take l.consumed
  rw [← hmore, List.take_append_of_le_length h]

/-- Between two states of a connection these bytes have been read, and nothing else has been
done. -/
structure Reads (l : Link) (bytes : List UInt8) (l' : Link) : Prop where
  sent : l'.sent = l.sent
  unread : l.unread = bytes ++ l'.unread
  heard : l'.heard = l.heard ++ bytes
  inStep : l.InStep → l'.InStep

theorem reads_take {n : Nat} (h : n ≤ l.unread.length) :
    l.Reads (l.unread.take n) { l with consumed := l.consumed + n } where
  sent := rfl
  unread := by
    show _ = _ ++ l.reaction.sent.drop (l.consumed + n)
    rw [← List.drop_drop]
    exact (List.take_append_drop n l.unread).symm
  heard := List.take_add
  inStep hinStep := by
    rw [unread, List.length_drop] at h
    exact Nat.add_le_of_le_sub' hinStep h

/-- Of what is waited for, all comes or nothing. -/
theorem receive_cases (n : Nat) (l : Link) :
    (∃ bytes l', l.receive n = (.value bytes, l') ∧ bytes.length = n ∧ l.Reads bytes l') ∨
      ∃ fate, l.receive n = (fate, l) ∧ ∀ bytes, fate ≠ .value bytes := by
  unfold receive
  split_ifs with hle
  · exact .inl ⟨l.unread.take n, _, rfl, List.length_take_of_le hle, reads_take hle⟩
  · exact .inr ⟨_, rfl, nofun⟩
  · exact .inr ⟨_, rfl, nofun⟩

end Link

namespace Line

variable {w : Watch} {l l' : Line}

/-- Of a message the part up to the deadline gets through. -/
theorem send_cases (w : Watch) (bytes : List UInt8) (l : Line) :
    send w bytes l = (.value (), ⟨l.link.send bytes, l.waits + 1⟩) ∨
      ∃ count, send w bytes l = (.stalled, ⟨l.link.send (bytes.take count), l.waits + 1⟩) := by
  unfold send
  cases w.cut l.waits with
  | none => exact .inl rfl
  | some d => exact .inr ⟨d.sent, rfl⟩

theorem receive_cases (w : Watch) (n : Nat) (l : Line) :
    (∃ bytes link, receive w n l = (.value bytes, ⟨link, l.waits + 1⟩) ∧ bytes.length = n ∧
        l.link.Reads bytes link) ∨
      ∃ fate, receive w n l = (fate, ⟨l.link, l.waits + 1⟩) ∧ ∀ bytes, fate ≠ .value bytes := by
  unfold receive
  cases w.cut l.waits with
  | some d => exact .inr ⟨_, rfl, nofun⟩
  | none =>
      rcases l.link.receive_cases n with ⟨bytes, link, hreceive, h⟩ | ⟨fate, hreceive, h⟩
      · exact .inl ⟨bytes, link, by rw [hreceive], h⟩
      · exact .inr ⟨fate, by rw [hreceive], h⟩

def account (w : Watch) : (channel w).Account where
  written l := l.link.sent
  unread l := l.link.unread
  written_send {message s s' u} h := by
    rcases send_cases w message s with hsend | ⟨count, hsend⟩
    · obtain ⟨-, rfl⟩ := Prod.mk.inj (h.symm.trans hsend)
      rfl
    · obtain ⟨hfate, -⟩ := Prod.mk.inj (h.symm.trans hsend)
      cases hfate
  written_broken {message s s' fate} h := by
    rcases send_cases w message s with hsend | ⟨count, hsend⟩
    · obtain ⟨-, rfl⟩ := Prod.mk.inj (h.symm.trans hsend)
      exact ⟨message, List.prefix_rfl, rfl⟩
    · obtain ⟨-, rfl⟩ := Prod.mk.inj (h.symm.trans hsend)
      exact ⟨message.take count, List.take_prefix count message, rfl⟩
  length_receive {count bytes s s'} h := by
    rcases receive_cases w count s with
      ⟨bytes', link, hreceive, hlength, hreads⟩ | ⟨_, hreceive, hfate⟩
    · obtain ⟨hvalue, rfl⟩ := Prod.mk.inj (h.symm.trans hreceive)
      obtain rfl := Fate.value.inj hvalue
      exact ⟨hlength, hreads.unread⟩
    · exact absurd (Prod.mk.inj (h.symm.trans hreceive)).1.symm (hfate bytes)
  unread_receive {count s s' fate} h := by
    rcases receive_cases w count s with
      ⟨bytes', link, hreceive, hlength, hreads⟩ | ⟨_, hreceive, -⟩
    · obtain ⟨-, rfl⟩ := Prod.mk.inj (h.symm.trans hreceive)
      exact ⟨bytes', Nat.le_of_eq hlength, hreads.unread, hreads.sent⟩
    · obtain ⟨-, rfl⟩ := Prod.mk.inj (h.symm.trans hreceive)
      exact ⟨[], Nat.zero_le count, rfl, rfl⟩

/-- All that was heard in a dialogue on a line is in its transcript. -/
theorem heard_over {α : Type} (d : Dialogue (Except Failure α)) (l : Line) (h : l.link.InStep) :
    (d.over (channel w) l).2.link.heard = l.link.heard ++ heardIn (d.transcript (account w) l) := by
  induction d generalizing l with
  | done result => exact (List.append_nil _).symm
  | send message next ih =>
      rcases send_cases w message l with hsend | ⟨count, hsend⟩
      · have hsend : (channel w).send message l = _ := hsend
        simp only [Dialogue.over, Dialogue.transcript, hsend, heardIn_said]
        rw [ih _ (h.send message), Link.heard_send h]
      · have hsend : (channel w).send message l = _ := hsend
        simp only [Dialogue.over, Dialogue.transcript, hsend, heardIn_said, heardIn_nil]
        rw [Link.heard_send h, List.append_nil]
  | receive count next ih =>
      rcases receive_cases w count l with
        ⟨bytes, link, hreceive, -, hreads⟩ | ⟨fate, hreceive, hfate⟩
      · have hcame : (account w).came l ⟨link, l.waits + 1⟩ = bytes :=
          Channel.Account.came_eq hreads.unread
        have hreceive : (channel w).receive count l = _ := hreceive
        simp only [Dialogue.over, Dialogue.transcript, hreceive, heardIn_heard, hcame]
        rw [ih bytes _ (hreads.inStep h), hreads.heard, List.append_assoc]
      · have hcame : (account w).came l ⟨l.link, l.waits + 1⟩ = [] :=
          Channel.Account.came_eq rfl
        have hreceive : (channel w).receive count l = _ := hreceive
        cases fate with
        | value bytes => exact absurd rfl (hfate bytes)
        | lost reason | stalled =>
            simp [Dialogue.over, Dialogue.transcript, hreceive, hcame]

end Line

end ProxyTiming
