import ProxyTiming.Proofs.Run.Sound

/-!
# What a run has to tell

A run tells of itself in events: one as it starts, one as it ends, and in between one every
so many trials.  What it tells, and when, follows from its steps.  So a history has a *tale*,
which is there whether anybody listens or not.

The tale of a whole run is always of one form.  The run has started; so many trials are
back, then more, then more; and the run has ended in the status that it keeps.
-/

namespace ProxyTiming.Run

open ProxyTiming.Time

/-! ### One step -/

def progress (r : Run) : Event :=
  .progress r.completedCount r.successCount r.failedCount r.totalCount

def reportOf : Option Run → List Event
  | some r => if Aggregator.isReportDue r then [r.progress] else []
  | none => []

namespace Engine

variable {e e' : Engine} {l : Label} {ls : List Label}

def tells (e : Engine) : Label → List Event
  | .deliver =>
    match e.queue with
    | [] => []
    | o :: _ => reportOf (e.run.record? o.index o.timings)
  | .close _ => [.statusChange e.finalStatus]
  | _ => []

def tale (e : Engine) : List Label → List Event
  | [] => []
  | l :: ls => e.tells l ++ (e.advance l).tale ls

theorem tale_append {ls' : List Label} (h : e.follow ls = some e') :
    e.tale (ls ++ ls') = e.tale ls ++ e'.tale ls' := by
  induction ls generalizing e with
  | nil =>
      obtain rfl := Option.some.inj h
      rfl
  | cons l ls ih =>
      rw [← List.singleton_append, follow_append, follow_singleton, Option.bind_eq_some_iff] at h
      obtain ⟨e₁, hstep, hrest⟩ := h
      have hadvance : e.advance l = e₁ := by rw [advance, hstep, Option.getD_some]
      rw [List.cons_append, tale, tale, hadvance, ih hrest, List.append_assoc]

theorem tale_concat (h : e.follow ls = some e') (l : Label) :
    e.tale (ls ++ [l]) = e.tale ls ++ e'.tells l := by
  rw [tale_append h, tale, tale, List.append_nil]

end Engine

/-! ### A whole run -/

def isDueAt (count completed : Nat) : Bool :=
  decide (completed % progressInterval count = 0) || decide (completed = count)

/-- The events between the start and the end of a run: one for each number of trials at which one
is due.  Trials are counted as successful and failed ones. -/
structure TellsProgress (count completed : Nat) (counts : List (Nat × Nat))
    (events : List Event) : Prop where
  events_eq : events = counts.map fun (succeeded, failed) =>
    .progress (succeeded + failed) succeeded failed count
  due : (counts.map fun (succeeded, failed) => succeeded + failed) =
    (List.range' 1 completed).filter (isDueAt count)

theorem TellsProgress.none_yet (count : Nat) : TellsProgress count 0 [] [] := ⟨rfl, rfl⟩

theorem TellsProgress.increasing {count completed : Nat} {counts : List (Nat × Nat)}
    {events : List Event} (h : TellsProgress count completed counts events) :
    (counts.map fun (succeeded, failed) => succeeded + failed).Pairwise (· < ·) := by
  rw [h.due]
  exact (List.pairwise_lt_range').filter _

/-- One more trial is recorded. -/
theorem TellsProgress.record? {r r' : Run} {index : Nat} {t : Timings}
    {counts : List (Nat × Nat)} {events : List Event}
    (h : TellsProgress r.totalCount r.completedCount counts events)
    (hrecord : r.record? index t = some r') :
    ∃ counts', TellsProgress r'.totalCount r'.completedCount counts'
      (events ++ reportOf (some r')) := by
  have htotal : r'.totalCount = r.totalCount := congrArg Heading.count (heading_record? hrecord)
  have hone := completedCount_record? hrecord
  -- The numbers up to the new one are those up to the old one, and one that is due or is not.
  have hrange : List.range' 1 r'.completedCount =
      List.range' 1 r.completedCount ++ [r'.completedCount] := by
    rw [hone, List.range'_concat]
    simp [Nat.add_comm]
  cases hdue : Aggregator.isReportDue r' with
  | true =>
      refine ⟨counts ++ [(r'.successCount, r'.failedCount)], ?_, ?_⟩
      · rw [h.events_eq, reportOf, if_pos hdue, List.map_append, htotal]
        simp only [List.map_cons, List.map_nil, progress, completedCount, htotal]
      · have hlast : isDueAt r'.totalCount r'.completedCount = true := hdue
        rw [hrange, List.filter_append, htotal, ← h.due, ← htotal, List.filter_cons_of_pos hlast]
        simp [completedCount]
  | false =>
      refine ⟨counts, ?_, ?_⟩
      · rw [h.events_eq, reportOf, hdue, htotal]
        simp
      · have hlast : ¬isDueAt r'.totalCount r'.completedCount = true :=
          Bool.not_eq_true _ ▸ hdue
        rw [hrange, List.filter_append, htotal, ← h.due, ← htotal, List.filter_cons_of_neg hlast]
        simp

namespace Engine

variable {e e' : Engine} {l : Label} {ls : List Label} {p : Plan} {now : Instant}
  {cancelled : Bool} {journal : Journal}

def ending (e : Engine) : List Event := if e.closed then [.statusChange e.run.status] else []

theorem tells_deliver {o : Outcome} {rest : List Outcome} (queued : e.queue = o :: rest) :
    e.tells .deliver = reportOf (e.run.record? o.index o.timings) := by
  simp only [tells, queued]

/-- What a step does to the run, and what is told of it: a trial is recorded, or the run ends, or
there is nothing to tell. -/
theorem run_of_fires (hs : e.Sound p) (r : e.Fires l e') :
    (∃ index t r', e.run.record? index t = some r' ∧ e'.run = r' ∧
      e.closed = false ∧ e'.closed = false ∧ e.tells l = reportOf (some r')) ∨
    (e.closed = false ∧ e'.closed = true ∧ e'.run.completedCount = e.run.completedCount ∧
      e.tells l = [.statusChange e'.run.status]) ∨
    (e'.run = e.run ∧ e'.closed = e.closed ∧ e.tells l = []) := by
  cases r with
  | @deliver o rest queued =>
      have hrun : (e.aggregator.record o).run = (e.run.record? o.index o.timings).getD e.run :=
        Aggregator.run_record _ _
      rw [tells_deliver queued]
      cases hrecord : e.run.record? o.index o.timings with
      | none =>
          rw [hrecord, Option.getD_none] at hrun
          exact .inr (.inr ⟨hrun, rfl, rfl⟩)
      | some r' =>
          rw [hrecord, Option.getD_some] at hrun
          have hrunning : e.closed = false := by
            by_contra hclosed
            obtain ⟨-, -, -, hqueue⟩ :=
              (isSettled_iff e).mp (hs.finished (by simpa using hclosed)).1
            simp [hqueue] at queued
          exact .inl ⟨_, _, r', hrecord, hrun, hrunning, hrunning, rfl⟩
  | close _ running => exact .inr (.inl ⟨running, rfl, rfl, rfl⟩)
  | _ => exact .inr (.inr ⟨rfl, rfl, rfl⟩)

/-- Up to any moment a run has told of its progress, and of its end if it is over. -/
theorem tale_eq (h : (Engine.start p now cancelled journal).follow ls = some e) :
    ∃ counts events, TellsProgress p.count e.run.completedCount counts events ∧
      (Engine.start p now cancelled journal).tale ls = events ++ e.ending := by
  refine follow_induction (P := fun ls e => ∃ counts events,
    TellsProgress p.count e.run.completedCount counts events ∧
      (Engine.start p now cancelled journal).tale ls = events ++ e.ending) ?_ ?_ h
  · exact ⟨[], [], TellsProgress.none_yet p.count, rfl⟩
  intro ls e l e' hls ⟨counts, events, hprogress, htale⟩ r
  have htotal : e.run.totalCount = p.count := congrArg Heading.count (heading_of_follow hls)
  rw [tale_concat hls, htale]
  obtain ⟨index, t, r', hrecord, hrun, hrunning, hrunning', htells⟩ |
    ⟨hrunning, hclosed, hcount, htells⟩ | ⟨hrun, hsame, htells⟩ := run_of_fires (sound_of_follow hls) r
  · rw [← htotal] at hprogress
    obtain ⟨counts', hprogress'⟩ := hprogress.record? hrecord
    have htotal' : r'.totalCount = p.count :=
      (congrArg Heading.count (heading_record? hrecord)).trans htotal
    rw [htotal'] at hprogress'
    refine ⟨counts', events ++ reportOf (some r'), hrun ▸ hprogress', ?_⟩
    simp [htells, ending, hrunning, hrunning']
  · refine ⟨counts, events, hcount ▸ hprogress, ?_⟩
    simp [htells, ending, hrunning, hclosed]
  · refine ⟨counts, events, hrun ▸ hprogress, ?_⟩
    simp [htells, ending, hsame, hrun]

end Engine

end ProxyTiming.Run
