import ProxyTiming.Proofs.Json.Members
import ProxyTiming.Proofs.Time.Stamp
import ProxyTiming.Proofs.Uuid
import ProxyTiming.Run.Codec
import ProxyTiming.Run.Event

/-!
# Recorded runs are read back

A recorded run is a record of scalars, of two instants and of a list with a slot for each trial,
in which a trial is a record with a duration for each phase.  Durations and events have readers
of their own.  The parts of a duration are looked at as they come; the members of an event are
kept until its kind is known, and are then looked at again.  In the end nothing of a run or an
event is lost, whatever its texts are.
-/

namespace ProxyTiming

open ProxyTiming.Json

/-! ### Durations -/

namespace Duration

theorem ofParts_parts (d : Duration) (room : Nat) (rest : List Char) :
    ofParts d.secs d.nanos room rest = .ok (d, rest) := by
  have hsecs := d.secs_lt
  have hnanos := d.nanos_lt
  have hfits : d.secs + d.nanos / nanosPerSec < secsBound := by
    rw [Nat.div_eq_of_lt hnanos]
    exact hsecs
  rw [ofParts, if_pos hfits]
  change Except.ok (ofNanos d.toNanos, rest) = _
  rw [ofNanos_toNanos]

theorem readsBack (d : Duration) : codec.ReadsBack 1 d := by
  have hsecs := Reader.reads_natural "u64" (Nat.le_of_lt_succ d.secs_lt) (Nat.le_refl maxUnsigned)
  have hle : d.nanos ≤ 4294967295 := Nat.le_trans (Nat.le_of_lt d.nanos_lt) (by decide)
  have hnanos := Reader.reads_natural "u32" hle (by decide)
  have hsecsMember : Reader.Handles 0 readPart "secs" (.nat d.secs) ⟨none, none⟩
      ⟨some d.secs, none⟩ :=
    hsecs.member (fun secs => Parts.mk (some secs) none) fun room cs =>
      Reader.bind_of_ok (Reader.name_stringChars "secs" cs) _
  have hnanosMember : Reader.Handles 0 readPart "nanos" (.nat d.nanos) ⟨some d.secs, none⟩
      ⟨some d.secs, some d.nanos⟩ :=
    hnanos.member (fun nanos => Parts.mk (some d.secs) (some nanos)) fun room cs =>
      Reader.bind_of_ok (Reader.name_stringChars "nanos" cs) _
  have each := Reader.Handled.cons hsecsMember (.cons hnanosMember (.nil _))
  refine Reader.reads_object readObject (fun room gap rest blank => ?_) each.exact
    (fun room body rest hroom hbody => ?_)
  · exact Reader.bind_of_ok (Reader.valueStart_token (c := '\x7b') blank (by decide)) _
  · refine (Reader.bind_of_ok (Reader.members_written each hbody hroom rest) _).trans ?_
    exact ofParts_parts d room rest

end Duration

/-! ### Trials -/

namespace Timings

theorem readsBack_phase (p : Phase) (d : Duration) : (phaseField p).ReadsBack 1 d :=
  d.readsBack.field p.name

theorem readsBack (t : Timings) : codec.ReadsBack 2 t := by
  refine .map (Codec.readsBack_record _ (by decide) ?_) rfl
  exact ⟨readsBack_phase _ _, readsBack_phase _ _, readsBack_phase _ _, readsBack_phase _ _,
    readsBack_phase _ _, readsBack_phase _ _, readsBack_phase _ _, readsBack_phase _ _,
    ((Codec.readsBack_bool _).mono (Nat.zero_le 1)).field _,
    ((Codec.readsBack_word _).mono (Nat.zero_le 1)).field _,
    Codec.readsBack_optionalString _ _, trivial⟩

end Timings

/-! ### Runs -/

namespace Run

/-- A run that can be recorded: its counts have 64 bits, and the years of its instants have four
digits. -/
structure Recordable (r : Run) : Prop where
  totalCount : r.totalCount ≤ maxUnsigned
  successCount : r.successCount ≤ maxUnsigned
  failedCount : r.failedCount ≤ maxUnsigned
  startedAt : 0 ≤ r.startedAt.date.year ∧ r.startedAt.date.year ≤ 9999
  finishedAt : 0 ≤ r.finishedAt.date.year ∧ r.finishedAt.date.year ≤ 9999

theorem readsBack_id (u : Uuid) : idCodec.ReadsBack 0 u :=
  Codec.readsBack_formatted (by rw [Uuid.parse_text]; rfl)

theorem readsBack_instant {t : Time.Instant} (h : 0 ≤ t.date.year ∧ t.date.year ≤ 9999) :
    instantCodec.ReadsBack 0 t :=
  Codec.readsBack_formatted (by rw [t.parse_text .letter h]; rfl)

theorem ofName?_name (s : Status) : Status.ofName? s.name = some s := by cases s <;> decide

theorem readsBack_status (s : Status) : Status.codec.ReadsBack 0 s :=
  Codec.readsBack_variant (ofName?_name s)

theorem readsBack_trials (trials : List (Option Timings)) :
    (Codec.list (Codec.option Timings.codec)).ReadsBack 3 trials := by
  refine Codec.readsBack_list fun slot _ => ?_
  cases slot with
  | none => exact Codec.readsBack_none.mono (Nat.zero_le 2)
  | some t => exact t.readsBack.some nofun

theorem readsBack {r : Run} (h : r.Recordable) : codec.ReadsBack 4 r := by
  have hscalar {α : Type} {c : Codec α} {a : α} (hc : c.ReadsBack 0 a) (key : String) :
      (Codec.field key c).ReadsBack 3 a := (hc.mono (Nat.zero_le 3)).field key
  refine .map (Codec.readsBack_record _ (by decide) ?_) rfl
  exact ⟨hscalar (readsBack_id _) _, hscalar (Codec.readsBack_string _) _,
    hscalar (Codec.readsBack_string _) _, hscalar (Codec.readsBack_string _) _,
    hscalar (readsBack_status _) _, hscalar (Codec.readsBack_count h.totalCount) _,
    hscalar (Codec.readsBack_count h.successCount) _,
    hscalar (Codec.readsBack_count h.failedCount) _, (readsBack_trials _).field _,
    hscalar (readsBack_instant h.startedAt) _, hscalar (readsBack_instant h.finishedAt) _, trivial⟩

/-! ### Events -/

namespace Event

/-- An event whose counts have 64 bits. -/
def Recordable : Event → Prop
  | statusChange _ => True
  | progress completed succeeded failed total =>
    completed ≤ maxUnsigned ∧ succeeded ≤ maxUnsigned ∧ failed ≤ maxUnsigned ∧ total ≤ maxUnsigned

def kind : Event → Kind
  | statusChange _ => .statusChange
  | progress _ _ _ _ => .progress

def ownMembers : Event → List (String × Value)
  | statusChange status => [("status", .string status.name)]
  | progress completed succeeded failed total =>
    [("completed", .nat completed), ("succeeded", .nat succeeded), ("failed", .nat failed),
      ("total", .nat total)]

theorem members_eq (e : Event) : e.members = ("type", .string e.kind.name) :: e.ownMembers := by
  cases e <;> rfl

theorem ofName?_kind (k : Kind) : Kind.ofName? k.name = some k := by cases k <;> decide

theorem count_nat {n : Nat} (h : n ≤ maxUnsigned) : (Value.nat n).count = .ok n := by
  rw [Value.nat, Value.count, if_pos ⟨Int.natCast_nonneg n, Int.ofNat_le.mpr h⟩]
  rfl

/-- The members of an event make it up again. -/
theorem ofMembers_ownMembers {e : Event} (h : e.Recordable) :
    ofMembers e.kind e.ownMembers = .ok e := by
  cases e with
  | statusChange status => cases status <;> rfl
  | progress completed succeeded failed total =>
      obtain ⟨hcompleted, hsucceeded, hfailed, htotal⟩ := h
      simp [kind, ownMembers, ofMembers, countsOf, fill, required, count_nat, hcompleted,
        hsucceeded, hfailed, htotal, bind, Except.bind, pure, Except.pure, Except.map]

theorem handles_type (k : Kind) (kept : List (String × Value)) :
    Reader.Handles 0 readMember "type" (.string k.name) (none, kept) (some k, kept) := by
  have hread : readKind.Reads 0 (.string k.name) k := Reader.reads_variantName (ofName?_kind k)
  exact hread.member (fun k => (some k, kept)) fun room cs =>
    Reader.bind_of_ok (Reader.name_stringChars "type" cs) _

theorem handles_other {key : String} (hkey : key ≠ "type") {v : Value}
    (hv : Reader.any.Reads 0 v v) (k : Option Kind) (kept : List (String × Value)) :
    Reader.Handles 0 readMember key v (k, kept) (k, (key, v) :: kept) := by
  refine hv.member (fun v => (k, (key, v) :: kept)) fun room cs => ?_
  refine (Reader.bind_of_ok (Reader.name_stringChars key cs) _).trans ?_
  dsimp only
  rw [if_neg hkey]

/-- Members beside the kind are kept, the last one first. -/
theorem handled_others {ms : List (String × Value)}
    (each : ∀ m ∈ ms, m.1 ≠ "type" ∧ Reader.any.Reads 0 m.2 m.2) (k : Option Kind)
    (kept : List (String × Value)) :
    Reader.Handled 0 readMember ms (k, kept) (k, ms.reverse ++ kept) := by
  induction ms generalizing kept with
  | nil => exact .nil _
  | cons m ms ih =>
      obtain ⟨⟨hkey, hv⟩, hms⟩ := List.forall_mem_cons.mp each
      rw [List.reverse_cons, List.append_assoc]
      exact .cons (handles_other hkey hv k kept) (ih hms _)

theorem reads_ownMembers {e : Event} (h : e.Recordable) :
    ∀ m ∈ e.ownMembers, m.1 ≠ "type" ∧ Reader.any.Reads 0 m.2 m.2 := by
  cases e with
  | statusChange status =>
      rintro m hm
      obtain rfl := List.mem_singleton.mp hm
      exact ⟨(by decide : "status" ≠ "type"), Reader.reads_any_string _⟩
  | progress completed succeeded failed total =>
      obtain ⟨hcompleted, hsucceeded, hfailed, htotal⟩ := h
      simp only [ownMembers, List.forall_mem_cons, List.not_mem_nil, false_implies, implies_true,
        and_true]
      exact ⟨⟨by decide, Reader.reads_any_natural hcompleted⟩,
        ⟨by decide, Reader.reads_any_natural hsucceeded⟩,
        ⟨by decide, Reader.reads_any_natural hfailed⟩,
        ⟨by decide, Reader.reads_any_natural htotal⟩⟩

theorem readsBack {e : Event} (h : e.Recordable) : codec.ReadsBack 1 e := by
  have each := Reader.Handled.cons (handles_type e.kind [])
    (handled_others (reads_ownMembers h) (some e.kind) [])
  rw [← members_eq, List.append_nil] at each
  refine ⟨each.exact, fun {room cs rest} hroom hcs _ => ?_⟩
  cases hcs with
  | @object gap body _ blank written =>
      have hroom' : 0 < room - 1 := Nat.lt_sub_of_add_lt hroom
      have hobject : Reader.nested readObject room ('\x7b' :: (body ++ rest)) =
          .ok ((e.kind, e.ownMembers), rest) := by
        rw [Reader.nested_of_lt hroom]
        refine (Reader.bind_of_ok (Reader.members_written each written hroom' rest) _).trans ?_
        dsimp only
        rw [List.reverse_reverse]
        rfl
      rw [List.append_assoc, List.cons_append]
      have hstart : Reader.valueStart room (gap ++ '\x7b' :: (body ++ rest)) = .ok ('\x7b', _) :=
        Reader.valueStart_token blank (by decide)
      refine (Reader.bind_of_ok hstart _).trans ((Reader.bind_of_ok hobject _).trans ?_)
      dsimp only
      rw [ofMembers_ownMembers h]
      rfl

end Event

/-! ### What is recorded -/

/-- A recorded run and a recorded event are read as what they were, from every layout of their
documents; so recorded runs compare as they did before. -/
theorem recordings_kept {r : Run} {e : Event} (hr : r.Recordable) (he : e.Recordable) :
    Run.codec.Keeps r ∧ Event.codec.Keeps e ∧
      ∀ candidate : Run, candidate.Recordable → ∀ text text' : String,
        Written (Run.codec.write r) text.toList →
        Written (Run.codec.write candidate) text'.toList →
          (do
            let baseline ← Run.codec.decode text
            let candidate ← Run.codec.decode text'
            pure (baseline.compare candidate)) = .ok (r.compare candidate) := by
  have hkeeps {r : Run} (hr : r.Recordable) : Run.codec.Keeps r := (readsBack hr).keeps (by decide)
  refine ⟨hkeeps hr, (Event.readsBack he).keeps (by decide),
    fun candidate hcandidate text text' htext htext' => ?_⟩
  rw [(hkeeps hr).layout text htext, (hkeeps hcandidate).layout text' htext']
  rfl

/-- A run of three trials that was cancelled in a leap second: one has succeeded and one has failed,
for a reason with quotes in it, and one was never started. -/
def interrupted : Run where
  id := .nil
  testName := "\"burst\"\n"
  proxyName := "Zürich"
  targetUrl := "https://example.org/"
  status := .cancelled
  totalCount := 3
  successCount := 1
  failedCount := 1
  trials := [
    some { Timings.zero with total := ⟨18446744073709551615, 999999999, by decide, by decide⟩,
                             success := true, statusCode := 204 },
    some { Timings.zero with errorMessage := some "\\ \"reset\" \x01" },
    none]
  startedAt := .epoch
  finishedAt := ⟨⟨2016, 12, 31, by decide⟩, 86399, 1500000000, by decide, by decide, by decide⟩

theorem recordings_kept_of_interrupted :
    interrupted.Recordable ∧ Run.codec.Keeps interrupted ∧
      Event.codec.Keeps (.progress 2 1 1 18446744073709551615) := by
  have hrun : interrupted.Recordable :=
    ⟨by decide, by decide, by decide, by decide, by decide⟩
  have hevent : (Event.progress 2 1 1 18446744073709551615).Recordable :=
    ⟨by decide, by decide, by decide, by decide⟩
  obtain ⟨hkeeps, hkeeps', -⟩ := recordings_kept hrun hevent
  exact ⟨hrun, hkeeps, hkeeps'⟩

end Run

end ProxyTiming
