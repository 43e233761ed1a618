import Mathlib.Tactic.SplitIfs
import ProxyTiming.Proofs.Stream.Serving

/-!
# Transcripts

A dialogue that is held over a channel leaves a *transcript*: act by act, what was said and
how much of it got through, and what was waited for and how much of it came.  The bytes
written and the bytes read can be counted off a transcript, and, other than from the state of
the channel at the end, it can be told from it what came first.

What holds of a dialogue at every moment, whoever answers and wherever the channel breaks, is
a statement about the dialogue alone (`Dialogue.Always`).  It is carried over to the
transcript of every channel that keeps account of its bytes.
-/

namespace ProxyTiming.Socks

inductive Act where
  /-- A message was said, of which this part got through. -/
  | said (message part : List UInt8)
  /-- So many bytes were waited for, of which these came. -/
  | heard (count : Nat) (bytes : List UInt8)
deriving DecidableEq

namespace Act

def IsWhole : Act → Prop
  | said message part => part = message
  | heard count bytes => bytes.length = count

def saidBytes : Act → List UInt8
  | said _ part => part
  | heard _ _ => []

def heardBytes : Act → List UInt8
  | said _ _ => []
  | heard _ bytes => bytes

end Act

def saidIn (acts : List Act) : List UInt8 := acts.flatMap Act.saidBytes

def heardIn (acts : List Act) : List UInt8 := acts.flatMap Act.heardBytes

section

variable {acts more : List Act} {message part bytes : List UInt8} {count : Nat}

@[simp] theorem saidIn_nil : saidIn [] = [] := rfl

@[simp] theorem heardIn_nil : heardIn [] = [] := rfl

@[simp] theorem saidIn_append : saidIn (acts ++ more) = saidIn acts ++ saidIn more :=
  List.flatMap_append

@[simp] theorem heardIn_append : heardIn (acts ++ more) = heardIn acts ++ heardIn more :=
  List.flatMap_append

@[simp] theorem saidIn_said : saidIn (.said message part :: acts) = part ++ saidIn acts := rfl

@[simp] theorem saidIn_heard : saidIn (.heard count bytes :: acts) = saidIn acts := rfl

@[simp] theorem heardIn_said : heardIn (.said message part :: acts) = heardIn acts := rfl

@[simp] theorem heardIn_heard : heardIn (.heard count bytes :: acts) = bytes ++ heardIn acts := rfl

end

/-! ### Channels that keep account -/

/-- How the bytes that have passed over a channel can be told from its states. -/
structure Channel.Account {σ : Type} (c : Channel σ) where
  written : σ → List UInt8
  unread : σ → List UInt8
  written_send {message : List UInt8} {s s' : σ} {u : Unit} :
    c.send message s = (.value u, s') → written s' = written s ++ message
  /-- Of a message that does not get through, the front part may. -/
  written_broken {message : List UInt8} {s s' : σ} {fate : Fate Unit} :
    c.send message s = (fate, s') → ∃ part, part <+: message ∧ written s' = written s ++ part
  length_receive {count : Nat} {bytes : List UInt8} {s s' : σ} :
    c.receive count s = (.value bytes, s') → bytes.length = count ∧ unread s = bytes ++ unread s'
  /-- Of the bytes that are waited for in vain, some may come. -/
  unread_receive {count : Nat} {s s' : σ} {fate : Fate (List UInt8)} :
    c.receive count s = (fate, s') →
      ∃ bytes, bytes.length ≤ count ∧ unread s = bytes ++ unread s' ∧ written s' = written s

namespace Channel.Account

variable {σ : Type} {c : Channel σ} (a : c.Account)

def through (before after : σ) : List UInt8 := (a.written after).drop (a.written before).length

def came (before after : σ) : List UInt8 :=
  (a.unread before).take ((a.unread before).length - (a.unread after).length)

variable {a} {before after : σ} {bytes : List UInt8}

theorem through_eq (h : a.written after = a.written before ++ bytes) :
    a.through before after = bytes := by
  rw [through, h, List.drop_left]

theorem came_eq (h : a.unread before = bytes ++ a.unread after) : a.came before after = bytes := by
  rw [came, h, List.length_append, Nat.add_sub_cancel, List.take_left]

end Channel.Account

namespace Dialogue

variable {σ α : Type} {c : Channel σ}

def transcript (a : c.Account) : Dialogue (Except Failure α) → σ → List Act
  | .done _, _ => []
  | .send message next, s =>
    match c.send message s with
    | (.value _, s') => .said message (a.through s s') :: next.transcript a s'
    | (_, s') => [.said message (a.through s s')]
  | .receive count next, s =>
    match c.receive count s with
    | (.value bytes, s') => .heard count (a.came s s') :: (next bytes).transcript a s'
    | (_, s') => [.heard count (a.came s s')]

/-- All that was written in the dialogue is in its transcript. -/
theorem written_over (a : c.Account) (d : Dialogue (Except Failure α)) (s : σ) :
    a.written (d.over c s).2 = a.written s ++ saidIn (d.transcript a s) := by
  induction d generalizing s with
  | done result => simp [Dialogue.over, transcript]
  | send message next ih =>
      rcases hsend : c.send message s with ⟨fate, s'⟩
      obtain ⟨part, -, hpart⟩ := a.written_broken hsend
      cases fate <;> simp [Dialogue.over, transcript, hsend, ih, a.through_eq hpart, hpart]
  | receive count next ih =>
      rcases hreceive : c.receive count s with ⟨fate, s'⟩
      obtain ⟨bytes, -, -, hwritten⟩ := a.unread_receive hreceive
      cases fate <;> simp [Dialogue.over, transcript, hreceive, ih, hwritten]

/-- If saying something does not change what is to be read, all that was read in the dialogue is
in its transcript. -/
theorem unread_over (a : c.Account)
    (quiet : ∀ message s, a.unread (c.send message s).2 = a.unread s)
    (d : Dialogue (Except Failure α)) (s : σ) :
    a.unread s = heardIn (d.transcript a s) ++ a.unread (d.over c s).2 := by
  induction d generalizing s with
  | done result => rfl
  | send message next ih =>
      have hquiet := quiet message s
      rcases hsend : c.send message s with ⟨fate, s'⟩
      rw [hsend] at hquiet
      cases fate with
      | value => simp only [Dialogue.over, transcript, hsend, heardIn_said, ← ih, hquiet]
      | lost | stalled => simp [Dialogue.over, transcript, hsend, hquiet]
  | receive count next ih =>
      rcases hreceive : c.receive count s with ⟨fate, s'⟩
      obtain ⟨bytes, -, hunread, -⟩ := a.unread_receive hreceive
      cases fate with
      | value bytes' =>
          simp only [Dialogue.over, transcript, hreceive, heardIn_heard, a.came_eq hunread,
            List.append_assoc, ← ih, hunread]
      | lost | stalled => simp [Dialogue.over, transcript, hreceive, a.came_eq hunread, hunread]

/-! ### What holds at every moment -/

/-- A property of transcripts that holds at every moment of a dialogue, whatever is answered and
wherever the channel breaks, once `acts` have happened. -/
def Always (P : List Act → Prop) : Dialogue α → List Act → Prop
  | .done _, acts => P acts
  | .send message next, acts =>
    P acts ∧ (∀ part, part <+: message → P (acts ++ [.said message part])) ∧
      next.Always P (acts ++ [.said message message])
  | .receive count next, acts =>
    P acts ∧ (∀ bytes, bytes.length ≤ count → P (acts ++ [.heard count bytes])) ∧
      ∀ bytes, bytes.length = count → (next bytes).Always P (acts ++ [.heard count bytes])

/-- What holds at every moment of a dialogue holds of its transcript on every channel, and of
each front part of it. -/
theorem Always.transcript {P : List Act → Prop} {d : Dialogue (Except Failure α)}
    {acts : List Act} (h : d.Always P acts) (a : c.Account) (s : σ) :
    ∀ moment, moment <+: d.transcript a s → P (acts ++ moment) := by
  -- The induction is on the dialogue; what has happened so far grows by the act just done.
  induction d generalizing acts s with
  | done result =>
      intro moment hmoment
      rw [List.prefix_nil.mp hmoment, List.append_nil]
      exact h
  | send message next ih =>
      obtain ⟨hnow, hpart, hnext⟩ := h
      rcases hsend : c.send message s with ⟨fate, s'⟩
      obtain ⟨part, hprefix, hwritten⟩ := a.written_broken hsend
      intro moment hmoment
      cases fate with
      | value u =>
          simp only [Dialogue.transcript, hsend, a.through_eq (a.written_send hsend)] at hmoment
          rcases List.prefix_cons_iff.mp hmoment with rfl | ⟨later, rfl, hlater⟩
          · rwa [List.append_nil]
          · rw [List.append_cons]
            exact ih hnext s' later hlater
      | lost reason | stalled =>
          simp only [Dialogue.transcript, hsend, a.through_eq hwritten] at hmoment
          rcases List.prefix_cons_iff.mp hmoment with rfl | ⟨later, rfl, hlater⟩
          · rwa [List.append_nil]
          · rw [List.prefix_nil.mp hlater]
            exact hpart part hprefix
  | receive count next ih =>
      obtain ⟨hnow, hsome, hnext⟩ := h
      rcases hreceive : c.receive count s with ⟨fate, s'⟩
      obtain ⟨bytes, hle, hunread, -⟩ := a.unread_receive hreceive
      intro moment hmoment
      cases fate with
      | value bytes' =>
          obtain ⟨hlength, hunread⟩ := a.length_receive hreceive
          simp only [Dialogue.transcript, hreceive, a.came_eq hunread] at hmoment
          rcases List.prefix_cons_iff.mp hmoment with rfl | ⟨later, rfl, hlater⟩
          · rwa [List.append_nil]
          · rw [List.append_cons]
            exact ih bytes' (hnext bytes' hlength) s' later hlater
      | lost reason | stalled =>
          simp only [Dialogue.transcript, hreceive, a.came_eq hunread] at hmoment
          rcases List.prefix_cons_iff.mp hmoment with rfl | ⟨later, rfl, hlater⟩
          · rwa [List.append_nil]
          · rw [List.prefix_nil.mp hlater]
            exact hsome bytes hle

end Dialogue

end ProxyTiming.Socks

namespace ProxyTiming.Stream.Scripted

open ProxyTiming.Socks

/-! ### Scripts keep account -/

theorem write_cases (bytes : List UInt8) (s : Scripted) :
    s.write bytes = (.error closedMessage, s) ∨
      ∃ n, s.write bytes = (.ok n, { s with written := s.written ++ bytes.take n }) := by
  rw [write]
  split
  · exact .inl rfl
  · exact .inr ⟨_, rfl⟩

/-- Of a message that is written in several writes, each takes the next part. -/
theorem sendWithin_account (fuel : Nat) (bytes : List UInt8) (s : Scripted) :
    ∃ part, part <+: bytes ∧ (sendWithin fuel bytes s).2.written = s.written ++ part ∧
      (sendWithin fuel bytes s).2.reads = s.reads ∧
      ((sendWithin fuel bytes s).1 = .value () → bytes.length < fuel → part = bytes) := by
  induction fuel generalizing bytes s with
  | zero =>
      exact ⟨[], List.nil_prefix, (List.append_nil _).symm, rfl,
        fun _ hfuel => absurd hfuel (Nat.not_lt_zero _)⟩
  | succ fuel ih =>
      cases bytes with
      | nil => exact ⟨[], List.nil_prefix, (List.append_nil _).symm, rfl, fun _ _ => rfl⟩
      | cons b bs =>
          rw [sendWithin, if_neg (by simp)]
          rcases write_cases (b :: bs) s with hwrite | ⟨n, hwrite⟩
          · rw [hwrite]
            exact ⟨[], List.nil_prefix, (List.append_nil _).symm, rfl, by simp⟩
          · rw [hwrite]
            dsimp only
            split_ifs with hn
            · subst hn
              exact ⟨[], List.nil_prefix, by simp, rfl, by simp⟩
            · obtain ⟨part, hpart, hwritten, hreads, hall⟩ :=
                ih ((b :: bs).drop n) { s with written := s.written ++ (b :: bs).take n }
              refine ⟨(b :: bs).take n ++ part, ?_, ?_, hreads, ?_⟩
              · obtain ⟨rest, hrest⟩ := hpart
                exact ⟨rest, by rw [List.append_assoc, hrest, List.take_append_drop]⟩
              · rw [hwritten, List.append_assoc]
              · intro hvalue hfuel
                rw [hall hvalue (by simp at hfuel ⊢; omega), List.take_append_drop]

/-- A read into a buffer brings at most what the buffer holds. -/
theorem read_cases (n : Nat) (s : Scripted) :
    (∃ reason rest, s.read n = (.error reason, { s with reads := rest }) ∧
      s.unread = ({ s with reads := rest } : Scripted).unread) ∨
    ∃ bytes rest, s.read n = (.ok bytes, { s with reads := rest }) ∧ bytes.length ≤ n ∧
      s.unread = bytes ++ ({ s with reads := rest } : Scripted).unread := by
  rw [read]
  split
  next h => exact .inr ⟨[], [], by rw [← h], Nat.zero_le n, by simp [unread, h]⟩
  next reason rest h => exact .inl ⟨reason, rest, rfl, by simp [unread, h]⟩
  next bytes rest h =>
    split_ifs with hle
    · exact .inr ⟨bytes, rest, rfl, hle, by simp [unread, h]⟩
    · refine .inr ⟨bytes.take n, _, rfl, List.length_take_le n bytes, ?_⟩
      simp [unread, h, ← List.append_assoc]

/-- Of bytes that are read in several reads, each brings the next part. -/
theorem receiveWithin_account (fuel : Nat) (done : List UInt8) (n : Nat) (s : Scripted) :
    ∃ bytes, bytes.length ≤ n ∧ s.unread = bytes ++ (receiveWithin fuel done n s).2.unread ∧
      (receiveWithin fuel done n s).2.written = s.written ∧
      ∀ all, (receiveWithin fuel done n s).1 = .value all → n < fuel →
        all = done ++ bytes ∧ bytes.length = n := by
  induction fuel generalizing done n s with
  | zero => exact ⟨[], Nat.zero_le n, rfl, rfl, fun _ _ hfuel => absurd hfuel (Nat.not_lt_zero n)⟩
  | succ fuel ih =>
      rw [receiveWithin]
      split_ifs with hn
      · subst hn
        exact ⟨[], Nat.zero_le 0, rfl, rfl, by simp⟩
      · rcases read_cases n s with
          ⟨reason, rest, hread, hunread⟩ | ⟨bytes, rest, hread, hle, hunread⟩
        · rw [hread]
          exact ⟨[], Nat.zero_le n, hunread, rfl, by simp⟩
        · rw [hread]
          cases bytes with
          | nil => exact ⟨[], Nat.zero_le n, hunread, rfl, by simp⟩
          | cons b bs =>
              obtain ⟨more, hmore, hrest, hwritten, hall⟩ :=
                ih (done ++ b :: bs) (n - (b :: bs).length) { s with reads := rest }
              refine ⟨b :: bs ++ more, ?_, ?_, hwritten, ?_⟩
              · rw [List.length_append]
                omega
              · rw [hunread, hrest, List.append_assoc]
              · intro all hvalue hfuel
                have hpos : 0 < (b :: bs).length := Nat.zero_lt_succ _
                obtain ⟨rfl, hlength⟩ := hall all hvalue (by omega)
                exact ⟨List.append_assoc .., by rw [List.length_append]; omega⟩

def account : Scripted.channel.Account where
  written := written
  unread := unread
  written_send {message s s' u} h := by
    obtain ⟨part, -, hwritten, -, hall⟩ := sendWithin_account (message.length + 1) message s
    rw [show sendWithin (message.length + 1) message s = (.value u, s') from h] at hwritten hall
    rw [hwritten, hall rfl (Nat.lt_succ_self _)]
  written_broken {message s s' fate} h := by
    obtain ⟨part, hpart, hwritten, -, -⟩ := sendWithin_account (message.length + 1) message s
    rw [show sendWithin (message.length + 1) message s = (fate, s') from h] at hwritten
    exact ⟨part, hpart, hwritten⟩
  length_receive {count bytes s s'} h := by
    obtain ⟨came, -, hunread, -, hall⟩ := receiveWithin_account (count + 1) [] count s
    rw [show receiveWithin (count + 1) [] count s = (.value bytes, s') from h] at hunread hall
    obtain ⟨rfl, hlength⟩ := hall bytes rfl (Nat.lt_succ_self _)
    exact ⟨hlength, hunread⟩
  unread_receive {count s s' fate} h := by
    obtain ⟨came, hle, hunread, hwritten, -⟩ := receiveWithin_account (count + 1) [] count s
    rw [show receiveWithin (count + 1) [] count s = (fate, s') from h] at hunread hwritten
    exact ⟨came, hle, hunread, hwritten⟩

/-- Writing leaves what is to be read as it is. -/
theorem unread_send (message : List UInt8) (s : Scripted) :
    (Scripted.channel.send message s).2.unread = s.unread := by
  obtain ⟨-, -, -, hreads, -⟩ := sendWithin_account (message.length + 1) message s
  show (sendWithin (message.length + 1) message s).2.unread = s.unread
  rw [unread, hreads]
  rfl

end ProxyTiming.Stream.Scripted
