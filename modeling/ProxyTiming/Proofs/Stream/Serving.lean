import ProxyTiming.Stream.Scripted

/-!
# What a script serves

A dialogue waits for a number of bytes and never asks how they are cut into chunks.  So of a
script without empty chunks only two things can be noticed from inside a dialogue: the bytes
of its chunks in a row, and what comes behind them, which is the end of the stream or a
failure.

This is made precise by a *plain* channel, whose state is nothing but the bytes that are
still to come.  A dialogue comes to the same end over a script as over the plain channel,
and leaves the same bytes unread.
-/

namespace ProxyTiming.Stream

open ProxyTiming.Socks

/-- A script serves some bytes in chunks, none of them empty; then the stream ends, or a read
fails. -/
inductive Serves : List Chunk → List UInt8 → Option String → Prop where
  | ended : Serves [] [] none
  | failing (reason : String) : Serves [.failure reason] [] (some reason)
  | data {chunk bytes : List UInt8} {reads : List Chunk} {ending : Option String}
      (nonempty : chunk ≠ []) (rest : Serves reads bytes ending) :
      Serves (.data chunk :: reads) (chunk ++ bytes) ending

theorem serves_map_data {chunks : List (List UInt8)} (h : ∀ chunk ∈ chunks, chunk ≠ []) :
    Serves (chunks.map .data) chunks.flatten none := by
  induction chunks with
  | nil => exact .ended
  | cons chunk chunks ih =>
      rw [List.forall_mem_cons] at h
      exact .data h.1 (ih h.2)

namespace Scripted

variable {s : Scripted} {reads : List Chunk} {bytes done : List UInt8} {ending : Option String}
  {fuel n : Nat}

theorem unread_of_serves (h : Serves reads bytes ending) (hreads : s.reads = reads) :
    s.unread = bytes := by
  rw [unread, hreads]
  clear hreads
  induction h with
  | ended => rfl
  | failing => rfl
  | data _ _ ih => rw [List.flatMap_cons, ih]

/-! ### Whole reads -/

theorem receiveWithin_zero (fuel : Nat) (done : List UInt8) (s : Scripted) :
    receiveWithin fuel done 0 s = (.value done, s) := by
  cases fuel <;> rfl

theorem receiveWithin_ended (h : s.reads = []) (hn : n ≠ 0) :
    receiveWithin (fuel + 1) done n s = (.lost earlyEndMessage, { s with reads := [] }) := by
  have hsame : ({ s with reads := [] } : Scripted) = s := by rw [← h]
  rw [receiveWithin, if_neg hn, hsame]
  simp only [read, h]

theorem receiveWithin_failing {reason : String} (h : s.reads = [.failure reason]) (hn : n ≠ 0) :
    receiveWithin (fuel + 1) done n s = (.lost reason, { s with reads := [] }) := by
  rw [receiveWithin, if_neg hn]
  simp only [read, h]

theorem receiveWithin_chunk {chunk : List UInt8} (h : s.reads = .data chunk :: reads)
    (nonempty : chunk ≠ []) (hle : chunk.length ≤ n) :
    receiveWithin (fuel + 1) done n s =
      receiveWithin fuel (done ++ chunk) (n - chunk.length) { s with reads := reads } := by
  have hpos := List.length_pos_iff.mpr nonempty
  rw [receiveWithin, if_neg (by omega)]
  simp only [read, h, if_pos hle]

theorem receiveWithin_part {chunk : List UInt8} (h : s.reads = .data chunk :: reads)
    (hn : n ≠ 0) (hlt : n < chunk.length) :
    receiveWithin (fuel + 1) done n s =
      (.value (done ++ chunk.take n), { s with reads := .data (chunk.drop n) :: reads }) := by
  have hpart : chunk.take n ≠ [] := by
    rw [Ne, List.take_eq_nil_iff]
    rintro (hzero | hnil)
    · exact hn hzero
    · rw [hnil] at hlt
      exact absurd hlt (Nat.not_lt_zero n)
  have hrest : n - (chunk.take n).length = 0 := by
    rw [List.length_take]
    omega
  rw [receiveWithin, if_neg hn]
  simp only [read, h, if_neg (Nat.not_le.mpr hlt)]
  rw [hrest, receiveWithin_zero]

/-- A read gets its bytes across all the chunks that it takes, or the script is at its end. -/
theorem receiveWithin_of_serves (h : Serves reads bytes ending) (s : Scripted)
    (done : List UInt8) (hreads : s.reads = reads) (hfuel : n < fuel) :
    (n ≤ bytes.length ∧ ∃ reads', Serves reads' (bytes.drop n) ending ∧
      receiveWithin fuel done n s = (.value (done ++ bytes.take n), { s with reads := reads' })) ∨
    (bytes.length < n ∧
      receiveWithin fuel done n s =
        (.lost (ending.getD earlyEndMessage), { s with reads := [] })) := by
  -- The induction is on the script: a read takes a whole chunk and goes on, or it is done.
  induction h generalizing s fuel n done with
  | ended =>
      by_cases hn : n = 0
      · subst hn
        rw [receiveWithin_zero]
        exact .inl ⟨Nat.le_refl 0, [], .ended, by simp [← hreads]⟩
      · obtain ⟨fuel, rfl⟩ := Nat.exists_eq_add_one.mpr (Nat.zero_lt_of_lt hfuel)
        exact .inr ⟨Nat.pos_of_ne_zero hn, receiveWithin_ended hreads hn⟩
  | failing reason =>
      by_cases hn : n = 0
      · subst hn
        rw [receiveWithin_zero]
        exact .inl ⟨Nat.le_refl 0, _, .failing reason, by simp [← hreads]⟩
      · obtain ⟨fuel, rfl⟩ := Nat.exists_eq_add_one.mpr (Nat.zero_lt_of_lt hfuel)
        exact .inr ⟨Nat.pos_of_ne_zero hn, receiveWithin_failing hreads hn⟩
  | @data chunk bytes reads ending nonempty rest ih =>
      obtain ⟨fuel, rfl⟩ := Nat.exists_eq_add_one.mpr (Nat.zero_lt_of_lt hfuel)
      have hpos := List.length_pos_iff.mpr nonempty
      rw [List.length_append]
      rcases Nat.lt_or_ge n chunk.length with hlt | hle
      · by_cases hn : n = 0
        · subst hn
          rw [receiveWithin_zero]
          exact .inl ⟨Nat.zero_le _, _, .data nonempty rest, by simp [← hreads]⟩
        · rw [receiveWithin_part hreads hn hlt, List.take_append_of_le_length (Nat.le_of_lt hlt),
            List.drop_append_of_le_length (Nat.le_of_lt hlt)]
          have hpart : chunk.drop n ≠ [] := by
            rw [Ne, List.drop_eq_nil_iff]
            omega
          exact .inl ⟨by omega, _, .data hpart rest, rfl⟩
      · have hless : n - chunk.length < fuel := by omega
        rw [receiveWithin_chunk hreads nonempty hle, List.take_append, List.drop_append,
          List.take_of_length_le hle, List.drop_of_length_le hle, List.nil_append,
          ← List.append_assoc]
        rcases ih { s with reads := reads } (done ++ chunk) rfl hless with
          ⟨hn, reads', hserves, heq⟩ | ⟨hn, heq⟩
        · exact .inl ⟨by omega, reads', hserves, heq⟩
        · exact .inr ⟨by omega, heq⟩

theorem receiveExactly_of_serves (h : Serves s.reads bytes ending) (n : Nat) :
    (n ≤ bytes.length ∧ ∃ reads', Serves reads' (bytes.drop n) ending ∧
      receiveExactly n s = (.value (bytes.take n), { s with reads := reads' })) ∨
    (bytes.length < n ∧
      receiveExactly n s = (.lost (ending.getD earlyEndMessage), { s with reads := [] })) :=
  receiveWithin_of_serves h s [] rfl (Nat.lt_succ_self n)

/-! ### Whole writes -/

theorem sendAll_of_unlimited (h : s.limit = none) (bytes : List UInt8) :
    sendAll bytes s = (.value (), { s with written := s.written ++ bytes }) := by
  cases bytes with
  | nil => simp [sendAll, sendWithin]
  | cons b bs => simp [sendAll, sendWithin, write, room, h]

/-! ### Dialogues -/

def plain (ending : Option String) : Channel (List UInt8) where
  send _ bytes := (.value (), bytes)
  receive n bytes :=
    if n ≤ bytes.length then (.value (bytes.take n), bytes.drop n)
    else (.lost (ending.getD earlyEndMessage), [])

/-- From inside a dialogue a script cannot be told from the bytes that it serves. -/
theorem over_channel {α : Type} (d : Dialogue (Except Failure α)) (h : Serves s.reads bytes ending)
    (unlimited : s.limit = none) :
    (d.over channel s).1 = (d.over (plain ending) bytes).1 ∧
      (d.over channel s).2.unread = (d.over (plain ending) bytes).2 := by
  induction d generalizing s bytes with
  | done result => exact ⟨rfl, unread_of_serves h rfl⟩
  | send message next ih =>
      simp only [Dialogue.over, channel, plain, sendAll_of_unlimited unlimited]
      exact ih h unlimited
  | receive count next ih =>
      rcases receiveExactly_of_serves h count with ⟨hn, reads', hserves, heq⟩ | ⟨hn, heq⟩
      · simp only [Dialogue.over, channel, plain, heq, if_pos hn]
        exact ih _ hserves unlimited
      · simp only [Dialogue.over, channel, plain, heq, if_neg (Nat.not_le.mpr hn)]
        exact ⟨trivial, rfl⟩

end Scripted

end ProxyTiming.Stream
