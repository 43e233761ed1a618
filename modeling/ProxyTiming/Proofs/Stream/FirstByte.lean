import Mathlib.Data.List.Induction
import Mathlib.Data.Option.Basic
import ProxyTiming.Stream.FirstByte

/-!
# A wrapped stream is as good as the bare one

Whoever uses a stream cannot tell whether it is wrapped: every operation has the same result, and
leaves the same stream behind.  The note of the first byte is there as soon as a read has brought a
byte, which is the same as saying that something of the script has been handed out; nothing else
leaves a note, and nothing changes one.

All of this is told of one operation first, and then of any number of them.
-/

namespace ProxyTiming.Stream

namespace Scripted

variable {s : Scripted} {op : Op} {bytes : List UInt8} {reason : String} {n : ℕ}

def after (ops : List Op) (s : Scripted) : Scripted := ops.foldl (fun s op => (s.perform op).2) s

theorem after_append_singleton (ops : List Op) (op : Op) (s : Scripted) :
    s.after (ops ++ [op]) = ((s.after ops).perform op).2 := by
  rw [after, List.foldl_append]
  rfl

/-- The operation is a read that succeeds and brings at least one byte. -/
def Brings (s : Scripted) (op : Op) : Prop :=
  ∃ size bytes, op = .read size ∧ (s.read size).1 = .ok bytes ∧ bytes ≠ []

theorem brings_read_iff (h : (s.read n).1 = .ok bytes) : s.Brings (.read n) ↔ bytes ≠ [] := by
  constructor
  · rintro ⟨_, _, heq, hread, hbytes⟩
    cases heq
    cases h.symm.trans hread
    exact hbytes
  · intro hbytes
    exact ⟨n, bytes, rfl, h, hbytes⟩

/-! ### What is left of the script -/

theorem unread_read_of_ok (h : (s.read n).1 = .ok bytes) :
    s.unread = bytes ++ (s.read n).2.unread := by
  cases hreads : s.reads with
  | nil =>
      simp only [read, hreads] at h ⊢
      cases h
      rfl
  | cons chunk rest =>
      cases chunk with
      | failure reason => simp [read, hreads] at h
      | data chunk =>
          simp only [read, hreads] at h ⊢
          split at h
          next hfits =>
            cases h
            simp [unread, hreads, if_pos hfits]
          next hlong =>
            cases h
            simp [unread, hreads, if_neg hlong, ← List.append_assoc]

theorem unread_read_of_error (h : (s.read n).1 = .error reason) :
    (s.read n).2.unread = s.unread := by
  cases hreads : s.reads with
  | nil => simp [read, hreads] at h
  | cons chunk rest =>
      cases chunk with
      | failure reason => simp [read, unread, hreads]
      | data chunk =>
          simp only [read, hreads] at h
          split at h <;> cases h

theorem unread_perform_of_brings (h : s.Brings op) :
    (s.perform op).2.unread.length < s.unread.length := by
  obtain ⟨size, bytes, rfl, hread, hbytes⟩ := h
  have hpos := List.length_pos_iff.mpr hbytes
  rw [unread_read_of_ok hread, List.length_append]
  exact Nat.lt_add_of_pos_left hpos

theorem unread_perform_of_not_brings (h : ¬s.Brings op) : (s.perform op).2.unread = s.unread := by
  cases op with
  | read size =>
      change (s.read size).2.unread = s.unread
      cases hread : (s.read size).1 with
      | error reason => exact unread_read_of_error hread
      | ok bytes =>
          obtain rfl : bytes = [] := by rwa [brings_read_iff hread, Decidable.not_not] at h
          exact (unread_read_of_ok hread).symm
  | write bytes =>
      simp only [perform, write]
      split <;> rfl
  | writeVectored buffers =>
      simp only [perform, writeAllBuffers, write]
      split <;> rfl
  | flush => rfl
  | shutdown => rfl
  | isVectored => rfl

/-! ### Whether a byte has been brought -/

def HasBrought (s : Scripted) (ops : List Op) : Prop :=
  ∃ before op later, ops = before ++ op :: later ∧ (s.after before).Brings op

theorem not_hasBrought_nil : ¬s.HasBrought [] := by
  rintro ⟨before, op, later, heq, -⟩
  exact absurd heq.symm (by simp)

theorem hasBrought_append_singleton {ops : List Op} :
    s.HasBrought (ops ++ [op]) ↔ s.HasBrought ops ∨ (s.after ops).Brings op := by
  constructor
  · rintro ⟨before, op', later, heq, hbrings⟩
    obtain rfl | ⟨later, last, rfl⟩ := List.eq_nil_or_concat later
    · obtain ⟨rfl, hop⟩ := List.append_inj' heq rfl
      obtain rfl := List.singleton_inj.mp hop
      exact .inr hbrings
    · rw [List.concat_eq_append, ← List.cons_append, ← List.append_assoc] at heq
      obtain ⟨rfl, -⟩ := List.append_inj' heq rfl
      exact .inl ⟨before, op', later, rfl, hbrings⟩
  · rintro (⟨before, op', later, rfl, hbrings⟩ | hbrings)
    · exact ⟨before, op', later ++ [op], by rw [List.append_assoc, List.cons_append], hbrings⟩
    · exact ⟨ops, op, [], rfl, hbrings⟩

/-- Some of the script has been handed out just if a byte has been brought. -/
theorem unread_after (ops : List Op) (s : Scripted) :
    (s.HasBrought ops ∧ (s.after ops).unread.length < s.unread.length) ∨
      (¬s.HasBrought ops ∧ (s.after ops).unread = s.unread) := by
  induction ops using List.reverseRecOn with
  | nil => exact .inr ⟨not_hasBrought_nil, rfl⟩
  | append_singleton ops op ih =>
      rw [hasBrought_append_singleton, after_append_singleton]
      by_cases hbrings : (s.after ops).Brings op
      · have hless := unread_perform_of_brings hbrings
        refine .inl ⟨.inr hbrings, ?_⟩
        obtain ⟨-, hlt⟩ | ⟨-, heq⟩ := ih
        · exact Nat.lt_trans hless hlt
        · rwa [heq] at hless
      · rw [unread_perform_of_not_brings hbrings, or_iff_left hbrings]
        exact ih

theorem unread_after_eq_iff {ops : List Op} :
    (s.after ops).unread = s.unread ↔ ¬s.HasBrought ops := by
  obtain ⟨hbrought, hlt⟩ | ⟨hnot, heq⟩ := s.unread_after ops
  · refine iff_of_false (fun heq => ?_) (not_not_intro hbrought)
    rw [heq] at hlt
    exact Nat.lt_irrefl _ hlt
  · exact iff_of_true heq hnot

/-! ### Buffers -/

theorem fill_of_ok {b : Buffer} (h : (s.read (b.size - b.filled.length)).1 = .ok bytes) :
    s.fill b =
      ((.ok (), ⟨b.filled ++ bytes, b.size⟩), (s.read (b.size - b.filled.length)).2) := by
  have hread : s.read (b.size - b.filled.length) = (.ok bytes, _) := Prod.ext h rfl
  rw [fill, hread]

theorem fill_of_error {b : Buffer} (h : (s.read (b.size - b.filled.length)).1 = .error reason) :
    s.fill b = ((.error reason, b), (s.read (b.size - b.filled.length)).2) := by
  have hread : s.read (b.size - b.filled.length) = (.error reason, _) := Prod.ext h rfl
  rw [fill, hread]

/-- A read into an empty buffer leaves there what a read brings. -/
theorem result_fill_ofSize (n : ℕ) (s : Scripted) :
    Buffer.result (s.fill (.ofSize n)).1 = .ofRead (s.read n).1 ∧
      (s.fill (.ofSize n)).2 = (s.read n).2 := by
  cases hread : (s.read n).1 with
  | ok bytes =>
      rw [fill_of_ok (b := .ofSize n) hread]
      exact ⟨rfl, rfl⟩
  | error reason =>
      rw [fill_of_error (b := .ofSize n) hread]
      exact ⟨rfl, rfl⟩

end Scripted

namespace FirstByte

variable {τ : Type} {s : FirstByte τ} {op : Op} {ops : List (τ × Op)} {now t : τ} {b : Buffer}

/-! ### One operation -/

theorem fill_eq (now : τ) (b : Buffer) (s : FirstByte τ) :
    (s.fill now b).1 = (s.inner.fill b).1 ∧ (s.fill now b).2.inner = (s.inner.fill b).2 := by
  rw [fill]
  split
  next heq => exact ⟨by rw [heq], by rw [heq]⟩
  next heq => exact ⟨by rw [heq], by rw [heq]⟩

/-- The note is left by what a read brings, wherever in a buffer it is put. -/
theorem fill_of_ok {bytes : List UInt8}
    (h : (s.inner.read (b.size - b.filled.length)).1 = .ok bytes) :
    s.fill now b =
      ((.ok (), ⟨b.filled ++ bytes, b.size⟩),
        ⟨(s.inner.read (b.size - b.filled.length)).2,
          if bytes = [] then s.stamp else s.stamp.or (some now)⟩) := by
  rw [fill, Scripted.fill_of_ok h]
  dsimp only
  rw [List.length_append]
  by_cases hbytes : bytes = []
  · rw [if_pos hbytes, hbytes, if_neg (by simp)]
  · have hpos := List.length_pos_iff.mpr hbytes
    rw [if_neg hbytes, if_pos (Nat.lt_add_of_pos_right hpos)]

theorem fill_of_error {reason : String}
    (h : (s.inner.read (b.size - b.filled.length)).1 = .error reason) :
    s.fill now b =
      ((.error reason, b), ⟨(s.inner.read (b.size - b.filled.length)).2, s.stamp⟩) := by
  rw [fill, Scripted.fill_of_error h]

/-- A buffer that is filled in part is as good as an empty one of the size that is left. -/
theorem fill_eq_perform (now : τ) (b : Buffer) (s : FirstByte τ) :
    (s.fill now b).2 = (s.perform now (.read (b.size - b.filled.length))).2 := by
  change _ = (s.fill now (.ofSize (b.size - b.filled.length))).2
  cases hread : (s.inner.read (b.size - b.filled.length)).1 with
  | ok bytes =>
      rw [fill_of_ok hread, fill_of_ok (b := .ofSize (b.size - b.filled.length)) hread]
      rfl
  | error reason =>
      rw [fill_of_error hread, fill_of_error (b := .ofSize (b.size - b.filled.length)) hread]
      rfl

/-- The wrapper passes an operation on, and its result back. -/
theorem perform_eq (now : τ) (op : Op) (s : FirstByte τ) :
    (s.perform now op).1 = (s.inner.perform op).1 ∧
      (s.perform now op).2.inner = (s.inner.perform op).2 := by
  cases op with
  | read size =>
      obtain ⟨hresult, hinner⟩ := s.fill_eq now (.ofSize size)
      obtain ⟨hbytes, hrest⟩ := s.inner.result_fill_ofSize size
      exact ⟨(congrArg Buffer.result hresult).trans hbytes, hinner.trans hrest⟩
  | write bytes => exact ⟨rfl, rfl⟩
  | writeVectored buffers => exact ⟨rfl, rfl⟩
  | flush => exact ⟨rfl, rfl⟩
  | shutdown => exact ⟨rfl, rfl⟩
  | isVectored => exact ⟨rfl, rfl⟩

theorem stamp_perform_of_brings (now : τ) (h : s.inner.Brings op) :
    (s.perform now op).2.stamp = s.stamp.or (some now) := by
  obtain ⟨size, bytes, rfl, hread, hbytes⟩ := h
  change (s.fill now (.ofSize size)).2.stamp = _
  rw [fill_of_ok (b := .ofSize size) hread]
  exact if_neg hbytes

theorem stamp_perform_of_not_brings (now : τ) (h : ¬s.inner.Brings op) :
    (s.perform now op).2.stamp = s.stamp := by
  cases op with
  | read size =>
      change (s.fill now (.ofSize size)).2.stamp = _
      cases hread : (s.inner.read size).1 with
      | error reason => rw [fill_of_error (b := .ofSize size) hread]
      | ok bytes =>
          rw [Scripted.brings_read_iff hread, Decidable.not_not] at h
          rw [fill_of_ok (b := .ofSize size) hread]
          exact if_pos h
  | write bytes => rfl
  | writeVectored buffers => rfl
  | flush => rfl
  | shutdown => rfl
  | isVectored => rfl

/-- A note that is there stays as it is. -/
theorem stamp_perform_of_some (now : τ) (op : Op) (h : s.stamp = some t) :
    (s.perform now op).2.stamp = some t := by
  by_cases hbrings : s.inner.Brings op
  · rw [stamp_perform_of_brings now hbrings, h, Option.some_or]
  · rw [stamp_perform_of_not_brings now hbrings, h]

/-! ### Any number of operations -/

def after (ops : List (τ × Op)) (s : FirstByte τ) : FirstByte τ :=
  ops.foldl (fun s (now, op) => (s.perform now op).2) s

theorem after_append (ops more : List (τ × Op)) (s : FirstByte τ) :
    s.after (ops ++ more) = (s.after ops).after more :=
  List.foldl_append

theorem inner_after (ops : List (τ × Op)) (s : FirstByte τ) :
    (s.after ops).inner = s.inner.after (ops.map Prod.snd) := by
  induction ops using List.reverseRecOn with
  | nil => rfl
  | append_singleton ops timed ih =>
      rw [List.map_append, after_append]
      exact ((s.after ops).perform_eq timed.1 timed.2).2.trans
        (by rw [ih]; exact (Scripted.after_append_singleton ..).symm)

theorem stamp_after_of_some (ops : List (τ × Op)) (h : s.stamp = some t) :
    (s.after ops).stamp = some t := by
  induction ops generalizing s with
  | nil => exact h
  | cons timed ops ih => exact ih (stamp_perform_of_some timed.1 timed.2 h)

/-- A note is there just if a byte has been brought. -/
theorem isSome_stamp_after_iff (ops : List (τ × Op)) (h : s.stamp = none) :
    (s.after ops).stamp.isSome = true ↔ s.inner.HasBrought (ops.map Prod.snd) := by
  induction ops using List.reverseRecOn with
  | nil =>
      refine iff_of_false ?_ Scripted.not_hasBrought_nil
      rw [after, List.foldl_nil, h]
      exact Bool.false_ne_true
  | append_singleton ops timed ih =>
      obtain ⟨now, op⟩ := timed
      rw [List.map_append, List.map_singleton, Scripted.hasBrought_append_singleton, ← ih,
        ← inner_after, after_append]
      change ((s.after ops).perform now op).2.stamp.isSome = true ↔ _
      by_cases hbrings : (s.after ops).inner.Brings op
      · rw [stamp_perform_of_brings now hbrings, Option.isSome_or]
        simp [hbrings]
      · rw [stamp_perform_of_not_brings now hbrings]
        simp [hbrings]

def ofStream (script : Scripted) : FirstByte τ := ⟨script, none⟩

/-- The wrapped stream and the bare one, after some operations. -/
structure Transparent (script : Scripted) (ops : List (τ × Op)) : Prop where
  same_stream : ((ofStream script).after ops).inner = script.after (ops.map Prod.snd)
  /-- Whatever comes next has the same result. -/
  same_result (now : τ) (op : Op) :
    (((ofStream script).after ops).perform now op).1 =
      ((script.after (ops.map Prod.snd)).perform op).1
  /-- So has a read into a buffer that is filled in part, and the same comes of the buffer. -/
  same_buffer (now : τ) (b : Buffer) :
    (((ofStream script).after ops).fill now b).1 = ((script.after (ops.map Prod.snd)).fill b).1
  /-- The wrapped stream does not take notice of what is in a buffer already. -/
  room (now : τ) (b : Buffer) :
    (((ofStream script).after ops).fill now b).2 =
      (((ofStream script).after ops).perform now (.read (b.size - b.filled.length))).2
  noted_iff : ((ofStream script).after ops).stamp.isSome = true ↔
    script.HasBrought (ops.map Prod.snd)
  /-- There is no note as long as nothing of the script has been handed out. -/
  not_noted_iff : ((ofStream script).after ops).stamp = none ↔
    (script.after (ops.map Prod.snd)).unread = script.unread
  /-- The first read that brings a byte is noted at its moment. -/
  first (now : τ) (op : Op) : ((ofStream script).after ops).stamp = none →
    (script.after (ops.map Prod.snd)).Brings op →
    ((ofStream script).after (ops ++ [(now, op)])).stamp = some now
  lasting (t : τ) (more : List (τ × Op)) : ((ofStream script).after ops).stamp = some t →
    ((ofStream script).after (ops ++ more)).stamp = some t

/-- Whatever the script of a stream is, and whatever has been done with it: the wrapper is not
noticed, and it notes the first byte and nothing else. -/
theorem transparent (script : Scripted) (ops : List (τ × Op)) : Transparent script ops := by
  have hinner := inner_after ops (ofStream script)
  have hnoted := isSome_stamp_after_iff (s := ofStream script) ops rfl
  exact
    { same_stream := hinner
      same_result := fun now op => by
        rw [(perform_eq now op _).1, hinner]
        rfl
      same_buffer := fun now b => by
        rw [(fill_eq now b _).1, hinner]
        rfl
      room := fun now b => fill_eq_perform now b _
      noted_iff := hnoted
      not_noted_iff := by
        rw [Scripted.unread_after_eq_iff, ← Option.isNone_iff_eq_none, ← Option.not_isSome,
          Bool.not_eq_true', Bool.eq_false_iff]
        exact not_congr hnoted
      first := fun now op hnone hbrings => by
        rw [after_append]
        refine (stamp_perform_of_brings now ?_).trans (by rw [hnone, Option.none_or])
        rw [hinner]
        exact hbrings
      lasting := fun t more hsome => by
        rw [after_append]
        exact stamp_after_of_some more hsome }

-- The end of the stream, a failure, no room, and then a byte.
example :
    let script := Scripted.ofReads [.data [], .failure "reset", .data [1, 2]]
    let ops : List (ℕ × Op) :=
      [(0, .read 4), (1, .read 4), (2, .read 0), (3, .read 1), (4, .read 1)]
    ((ofStream script).after ops).stamp = some 3 := rfl

end FirstByte

end ProxyTiming.Stream
