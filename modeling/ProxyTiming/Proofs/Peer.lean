import Mathlib.Tactic.SplitIfs
import ProxyTiming.Peer
import ProxyTiming.Proofs.Socks.Reading

/-!
# No peer takes a word back

What a peer has said is computed anew whenever more bytes have reached it.  That this is a
conversation at all rests on one fact: what it has said to some bytes is the front part of what
it has said when more have come.  It holds part for part, as a peer waits for one message after
the other, and its readers are steady.
-/

namespace ProxyTiming

open ProxyTiming.Socks

/-- Of two continuations the second says no more than the first, to those to whom the same has
been said. -/
def Outdoes (more less : Reaction → Reaction) : Prop :=
  ∀ r r' : Reaction, r.sent = r'.sent → (less r).sent <+: (more r').sent

/-- A part of a peer that says nothing of its own accord, and all the more the more it is sent. -/
structure Grows (part : List UInt8 → Reaction → Reaction) : Prop where
  quiet (r : Reaction) : part [] r = r
  more (bs later : List UInt8) : Outdoes (part (bs ++ later)) (part bs)

section

variable {p : Peer} {cue : Cue} {next next' : Reaction → Reaction}
  {part : List UInt8 → Reaction → Reaction}

theorem Grows.adds (h : Grows part) (bs : List UInt8) : Outdoes (part bs) id := by
  intro r r' hsent
  have hmore := h.more [] bs r r' hsent
  rwa [h.quiet] at hmore

theorem outdoes_hangUp : Outdoes Reaction.hangUp Reaction.hangUp :=
  fun _ _ hsent => hsent ▸ List.prefix_rfl

theorem outdoes_speak (h : Outdoes next' next) :
    Outdoes (p.speak cue next') (p.speak cue next) := by
  intro r r' hsent
  unfold Peer.speak
  cases p.reply cue with
  | none => exact outdoes_hangUp r r' hsent
  | some reply =>
      cases reply with
      | silence => exact hsent ▸ List.prefix_rfl
      | bytes bs =>
          dsimp only
          split_ifs
          · exact outdoes_hangUp _ _ (congrArg (· ++ bs) hsent)
          · exact h _ _ (congrArg (· ++ bs) hsent)

theorem speak_adds (h : Outdoes next id) : Outdoes (p.speak cue next) id := by
  intro r r' hsent
  unfold Peer.speak
  cases p.reply cue with
  | none => exact hsent ▸ List.prefix_rfl
  | some reply =>
      cases reply with
      | silence => exact hsent ▸ List.prefix_rfl
      | bytes bs =>
          dsimp only
          split_ifs
          · exact hsent ▸ List.prefix_append _ _
          · have hbytes : r.sent <+: r'.sent ++ bs := hsent ▸ List.prefix_append _ _
            exact hbytes.trans (h { r' with sent := r'.sent ++ bs } _ rfl)

theorem hangUp_adds : Outdoes Reaction.hangUp id := fun _ _ hsent => hsent ▸ List.prefix_rfl

/-- A peer that waits for a message waits until the message is complete. -/
theorem grows_listen {α : Type} {take : Taking α} (p : Peer) (cue : Cue) (steady : take.Steady)
    (hnil : take [] = none) (h : Grows part) : Grows (p.listen take cue part) where
  quiet r := by rw [Peer.listen, hnil]
  more bs later r r' hsent := by
    unfold Peer.listen
    cases htake : take bs with
    | none =>
        dsimp only
        split
        next => exact hsent ▸ List.prefix_rfl
        next a rest _ => exact speak_adds (h.adds rest) r _ hsent
    | some taken =>
        obtain ⟨a, rest⟩ := taken
        rw [steady htake later]
        exact outdoes_speak (h.more rest later) _ _ hsent

theorem length_of_headOf? {bs head : List UInt8} (h : headOf? bs = some head) :
    blankLine.length ≤ bs.length := by
  induction bs generalizing head with
  | nil => cases h
  | cons b bs ih =>
      rw [headOf?] at h
      split_ifs at h with hblank
      · exact (List.isPrefixOf_iff_prefix.mp hblank).length_le
      · obtain ⟨head', hhead, -⟩ := Option.map_eq_some_iff.mp h
        exact Nat.le_trans (ih hhead) (Nat.le_succ _)

/-- The first blank line stays the first. -/
theorem headOf?_append {bs head : List UInt8} (h : headOf? bs = some head) (later : List UInt8) :
    headOf? (bs ++ later) = some head := by
  induction bs generalizing head with
  | nil => cases h
  | cons b bs ih =>
      have hlength := length_of_headOf? h
      rw [headOf?] at h
      rw [List.cons_append, headOf?]
      split_ifs at h with hblank
      · rw [if_pos]
        · exact h
        · rw [List.isPrefixOf_iff_prefix] at hblank ⊢
          exact hblank.trans (List.prefix_append (b :: bs) later)
      · obtain ⟨head', hhead, rfl⟩ := Option.map_eq_some_iff.mp h
        rw [if_neg, ih hhead, Option.map_some]
        rw [List.isPrefixOf_iff_prefix] at hblank ⊢
        intro hlater
        exact hblank (List.prefix_of_prefix_length_le hlater (List.prefix_append (b :: bs) later)
          hlength)

theorem grows_serve (p : Peer) (secured : Bool) : Grows (p.serve secured) where
  quiet r := rfl
  more bs later r r' hsent := by
    have hadds (bs : List UInt8) : Outdoes (p.serve secured bs) id := by
      intro r r' hsent
      unfold Peer.serve
      split_ifs
      · exact hsent ▸ List.prefix_rfl
      · exact speak_adds hangUp_adds r r' hsent
      · exact hangUp_adds r r' hsent
      · split
        · exact hsent ▸ List.prefix_rfl
        · exact speak_adds hangUp_adds r _ hsent
    cases bs with
    | nil => exact hadds later r r' hsent
    | cons b bs =>
        simp only [Peer.serve, List.cons_append, List.isEmpty_cons, Bool.false_eq_true, if_false]
        split_ifs
        · exact outdoes_speak outdoes_hangUp r r' hsent
        · exact outdoes_hangUp r r' hsent
        · cases hhead : headOf? (b :: bs) with
          | none =>
              dsimp only
              split
              · exact hsent ▸ List.prefix_rfl
              · exact speak_adds hangUp_adds r _ hsent
          | some head =>
              rw [← List.cons_append, headOf?_append hhead later]
              exact outdoes_speak outdoes_hangUp _ _ hsent

theorem grows_awaitConnect (p : Peer) (secured : Bool) : Grows (p.awaitConnect secured) :=
  grows_listen p .connect takeConnect_steady rfl (grows_serve p secured)

theorem grows_awaitGreeting (p : Peer) (secured : Bool) : Grows (p.awaitGreeting secured) := by
  apply grows_listen p .greeting takeGreeting_steady rfl
  split_ifs
  · exact grows_listen p .login takeLogin_steady rfl (grows_awaitConnect p secured)
  · exact grows_awaitConnect p secured

end

/-- What a peer has said it has said. -/
theorem Peer.sent_prefix (p : Peer) (secured : Bool) (bs later : List UInt8) :
    (p.reaction secured bs).sent <+: (p.reaction secured (bs ++ later)).sent := by
  unfold Peer.reaction
  split_ifs
  · exact (grows_awaitGreeting p secured).more bs later .start .start rfl
  · exact (grows_serve p secured).more bs later .start .start rfl

end ProxyTiming
