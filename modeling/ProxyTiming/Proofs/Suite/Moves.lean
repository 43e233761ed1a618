import ProxyTiming.Proofs.Run.Cancellation
import ProxyTiming.Proofs.Run.Progress
import ProxyTiming.Suite.Course

/-!
# The moves of a suite

The rules for the moves of a suite, as a relation with one constructor for each of them, and
what is true in every state that a suite can come to.

Most of it is about the runs that have been made.  A suite that goes on has completed all of
them.  Only the last one can be a run that was cancelled, and only if somebody has
cancelled; and then the suite does not go on.
-/

namespace ProxyTiming.Suite

open ProxyTiming.Run ProxyTiming.Config ProxyTiming.Time

/-! ### The rules -/

/-- The rules of a suite: what a move needs, and what comes of it. -/
inductive Course.Fires (plan : Client → Scenario → Plan) (c : Course) : Move → Course → Prop where
  | finish (choosing : c.activity = .choosing) (through : c.agenda = []) :
      Fires plan c .next
        { c.note .info (finishMessage c.entries.length) with activity := .finished }
  | skip {key : String} {reason : SetupError} {rest : List Item}
      (choosing : c.activity = .choosing) (item : c.agenda = .skip key reason :: rest) :
      Fires plan c .next { c.note .warn (skipMessage key reason) with agenda := rest }
  | pause {d : Duration} {rest : List Item} (choosing : c.activity = .choosing)
      (item : c.agenda = .pause d :: rest) :
      Fires plan c .next { c with agenda := rest, activity := .pausing }
  | begin (now : Instant) {client : Client} {sc : Scenario} {rest : List Item}
      (choosing : c.activity = .choosing) (item : c.agenda = .run client sc :: rest)
      (narrow : (plan client sc).strategy.width ≤ maxWidth) :
      Fires plan c (.begin now) ({ c with agenda := rest }.within client
        (.start (plan client sc) now c.cancelled c.journal))
  | inside {client : Client} {e e' : Engine} {l : Label}
      (running : c.activity = .running client e) (r : e.Fires l e') :
      Fires plan c (.inside l) (c.within client e')
  | conclude {client : Client} {e : Engine} (running : c.activity = .running client e)
      (closed : e.closed = true) :
      Fires plan c .conclude { c with
        entries := c.entries ++ [⟨client, e.run, e.dispatched⟩]
        activity := .checking e.run.isCancelled }
  | stop {runCancelled : Bool} (checking : c.activity = .checking runCancelled)
      (reason : runCancelled = true ∨ c.cancelled = true) :
      Fires plan c .look
        { c.note .warn (cancelMessage c.entries.length) with activity := .finished }
  | goOn (checking : c.activity = .checking false) (uncancelled : c.cancelled = false) :
      Fires plan c .look { c with activity := .choosing }
  | resume (pausing : c.activity = .pausing) :
      Fires plan c .resume { c with activity := .choosing }
  | cancel (outside : ∀ client e, c.activity ≠ .running client e)
      (uncancelled : c.cancelled = false) : Fires plan c .cancel { c with cancelled := true }

def Move.isCancel : Move → Bool
  | .inside l => l.isCancel
  | .cancel => true
  | _ => false

namespace Course

variable {plan : Client → Scenario → Plan} {c c' : Course} {m : Move} {ms : List Move}
  {client : Client} {e e' : Engine}

/-- Every move goes by one of the rules. -/
theorem fires_of_step (h : c.step plan m = some c') : c.Fires plan m c' := by
  cases m with
  | next =>
      simp only [step, next?] at h
      split at h
      · obtain rfl := Option.some.inj h
        exact .finish ‹_› ‹_›
      · obtain rfl := Option.some.inj h
        exact .skip ‹_› ‹_›
      · obtain rfl := Option.some.inj h
        exact .pause ‹_› ‹_›
      · cases h
  | begin now =>
      simp only [step, begin?] at h
      split at h
      · obtain ⟨narrow, h⟩ := Option.ite_none_right_eq_some.mp h
        obtain rfl := Option.some.inj h
        exact .begin now ‹_› ‹_› narrow
      · cases h
  | inside l =>
      simp only [step] at h
      split at h
      · obtain ⟨e', hstep, rfl⟩ := Option.map_eq_some_iff.mp h
        exact .inside ‹_› (Engine.fires_of_step hstep)
      · cases h
  | conclude =>
      simp only [step] at h
      split at h
      · obtain ⟨closed, h⟩ := Option.ite_none_right_eq_some.mp h
        obtain rfl := Option.some.inj h
        exact .conclude ‹_› closed
      · cases h
  | look =>
      simp only [step] at h
      split at h
      · rename_i runCancelled checking
        by_cases reason : runCancelled = true ∨ c.cancelled = true
        · rw [if_pos reason] at h
          obtain rfl := Option.some.inj h
          exact .stop checking reason
        · rw [if_neg reason] at h
          obtain rfl := Option.some.inj h
          obtain ⟨hrun, hcancelled⟩ := not_or.mp reason
          obtain rfl : runCancelled = false := by simpa using hrun
          exact .goOn checking (by simpa using hcancelled)
      · cases h
  | resume =>
      simp only [step] at h
      split at h
      · obtain rfl := Option.some.inj h
        exact .resume ‹_›
      · cases h
  | cancel =>
      simp only [step] at h
      split at h
      · cases h
      · rename_i outside
        obtain ⟨uncancelled, h⟩ := Option.ite_none_left_eq_some.mp h
        obtain rfl := Option.some.inj h
        exact .cancel outside (by simpa using uncancelled)

/-- Every rule is a move. -/
theorem Fires.step (r : c.Fires plan m c') : c.step plan m = some c' := by
  cases r with
  | finish choosing through => simp [Course.step, next?, choosing, through]
  | skip choosing item | pause choosing item => simp [Course.step, next?, choosing, item]
  | begin now choosing item narrow => simp [Course.step, begin?, choosing, item, narrow]
  | inside running r => simp [Course.step, running, r.step]
  | conclude running closed => simp [Course.step, running, closed]
  | stop checking reason => simp [Course.step, checking, reason]
  | goOn checking uncancelled => simp [Course.step, checking, uncancelled]
  | resume pausing => simp [Course.step, pausing]
  | cancel outside uncancelled =>
      rw [Course.step]
      split
      · rename_i running
        exact absurd running (outside _ _)
      · rw [uncancelled, if_neg Bool.false_ne_true]

theorem follow_induction {c₀ : Course} {P : List Move → Course → Prop} (start : P [] c₀)
    (hand_on : ∀ {ms c m c'}, c₀.follow plan ms = some c → P ms c → c.Fires plan m c' →
      P (ms ++ [m]) c')
    (h : c₀.follow plan ms = some c) : P ms c :=
  Steps.foldlM_induction start
    (fun _ _ _ _ hms hP hstep => hand_on hms hP (fires_of_step hstep)) h

theorem follow_split {c₀ : Course} {before after : List Move}
    (h : c₀.follow plan (before ++ m :: after) = some c) :
    ∃ c₁ c₂, c₀.follow plan before = some c₁ ∧ c₁.Fires plan m c₂ ∧
      c₂.follow plan after = some c := by
  obtain ⟨c₁, c₂, hbefore, hm, hafter⟩ := Steps.foldlM_split h
  exact ⟨c₁, c₂, hbefore, fires_of_step hm, hafter⟩

/-! ### Sound states -/

/-- The runs that are known to be completed, whatever has happened. -/
def firm (c : Course) : List Entry :=
  match c.activity with
  | .choosing | .running _ _ | .pausing => c.entries
  | .checking _ | .finished => c.entries.dropLast

structure Sound (c : Course) : Prop where
  /-- A run that is under way is in a sound state, in which the suite finds its token and its
  journal. -/
  running : ∀ client e, c.activity = .running client e → c.within client e = c ∧ ∃ p, e.Sound p
  firm : ∀ entry ∈ c.firm, entry.run.status = .completed
  /-- Whether the last run has been cancelled is known when the suite looks. -/
  checking : ∀ runCancelled, c.activity = .checking runCancelled → ∃ front last,
    c.entries = front ++ [last] ∧ last.run.isCancelled = runCancelled
  /-- Nothing but a cancellation keeps a run from being completed. -/
  entries : ∀ entry ∈ c.entries, entry.run.status = .completed ∨
    entry.run.status = .cancelled ∧ c.cancelled = true
  finished : c.activity = .finished →
    c.agenda = [] ∧ (∀ entry ∈ c.entries, entry.run.status = .completed) ∨ c.cancelled = true

theorem Sound.start (agenda : List Item) (cancelled : Bool) (journal : Journal) :
    (Course.start agenda cancelled journal).Sound where
  running _ _ h := by cases h
  firm := by simp [Course.start, Course.firm]
  checking _ h := by cases h
  entries := by simp [Course.start]
  finished h := by cases h

/-- Somebody cancels, or somebody has cancelled before. -/
theorem cancelled_iff_of_fires (h : c.Sound) (r : c.Fires plan m c') :
    c'.cancelled = true ↔ c.cancelled = true ∨ m.isCancel = true := by
  cases r with
  | @inside client e e' l running r =>
      obtain ⟨hsame, -⟩ := h.running _ _ running
      have htoken : e.cancelled = c.cancelled := congrArg Course.cancelled hsame
      rw [← htoken]
      cases r with
      | cancel => simp [within, Move.isCancel, Label.isCancel]
      | _ => exact (or_iff_left Bool.false_ne_true).symm
  | cancel => simp [Move.isCancel]
  | _ => exact (or_iff_left Bool.false_ne_true).symm

/-- Nobody takes a cancellation back. -/
theorem cancelled_of_fires (h : c.Sound) (r : c.Fires plan m c') (hcancelled : c.cancelled = true) :
    c'.cancelled = true := (cancelled_iff_of_fires h r).mpr (.inl hcancelled)

/-- A run that is over has been completed, or somebody has cancelled. -/
theorem status_of_closed {p : Plan} (hs : e.Sound p) (closed : e.closed = true) :
    e.run.status = .completed ∨ e.run.status = .cancelled ∧ e.cancelled = true := by
  obtain ⟨settled, hstatus⟩ := hs.finished closed
  obtain ⟨through, -⟩ := (Engine.isSettled_iff e).mp settled
  rw [hstatus, Engine.finalStatus]
  split_ifs with hless
  · exact .inr ⟨rfl, (hs.through through).resolve_right (Nat.ne_of_lt hless)⟩
  · exact .inl rfl

theorem Sound.completed (h : c.Sound) (hactivity : c.firm = c.entries) :
    ∀ entry ∈ c.entries, entry.run.status = .completed := by
  rw [← hactivity]
  exact h.firm

theorem firm_of_choosing (choosing : c.activity = .choosing) : c.firm = c.entries := by
  rw [firm, choosing]

theorem running_of_fires (h : c.Sound) (r : c.Fires plan m c') :
    ∀ client e, c'.activity = .running client e → c'.within client e = c' ∧ ∃ p, e.Sound p := by
  intro client e running
  cases r with
  | skip choosing =>
      change c.activity = _ at running
      rw [choosing] at running
      cases running
  | begin =>
      cases running
      exact ⟨rfl, _, Engine.Sound.start _ _ _ _⟩
  | inside running' r =>
      cases running
      obtain ⟨-, p, hs⟩ := h.running _ _ running'
      exact ⟨rfl, p, hs.fires r⟩
  | cancel outside => exact absurd running (outside client e)
  | _ => cases running

theorem firm_of_fires (h : c.Sound) (r : c.Fires plan m c') :
    ∀ entry ∈ c'.firm, entry.run.status = .completed := by
  cases r with
  | finish choosing =>
      -- The last run is not among the firm ones any more, though it has been completed.
      intro entry hentry
      exact h.completed (firm_of_choosing choosing) entry (List.mem_of_mem_dropLast hentry)
  | pause choosing | begin _ choosing => exact h.completed (firm_of_choosing choosing)
  | inside running => exact h.completed (by rw [firm, running])
  | conclude running =>
      rw [firm, List.dropLast_concat]
      exact h.completed (by rw [firm, running])
  | stop checking =>
      intro entry hentry
      refine h.firm entry ?_
      rw [firm, checking]
      exact hentry
  | goOn _ uncancelled =>
      -- Nobody has cancelled, so all runs are completed, the last one with the others.
      intro entry hentry
      refine (h.entries entry hentry).resolve_right fun ⟨_, hcancelled⟩ => ?_
      rw [uncancelled] at hcancelled
      cases hcancelled
  | resume pausing => exact h.completed (by rw [firm, pausing])
  | skip | cancel => exact h.firm

theorem entries_of_fires (h : c.Sound) (r : c.Fires plan m c') :
    ∀ entry ∈ c'.entries, entry.run.status = .completed ∨
      entry.run.status = .cancelled ∧ c'.cancelled = true := by
  have hold : ∀ entry ∈ c.entries, entry.run.status = .completed ∨
      entry.run.status = .cancelled ∧ c'.cancelled = true := fun entry hentry =>
    (h.entries entry hentry).imp_right (And.imp_right (cancelled_of_fires h r))
  cases r with
  | conclude running closed =>
      obtain ⟨hsame, p, hs⟩ := h.running _ _ running
      refine List.forall_mem_append.mpr ⟨hold, List.forall_mem_singleton.mpr ?_⟩
      rw [← hsame]
      exact status_of_closed hs closed
  | _ => exact hold

theorem checking_of_fires (r : c.Fires plan m c') (hc : ∀ runCancelled,
      c.activity = .checking runCancelled → ∃ front last,
        c.entries = front ++ [last] ∧ last.run.isCancelled = runCancelled) :
    ∀ runCancelled, c'.activity = .checking runCancelled → ∃ front last,
      c'.entries = front ++ [last] ∧ last.run.isCancelled = runCancelled := by
  intro runCancelled checking
  cases r with
  | skip choosing =>
      change c.activity = _ at checking
      rw [choosing] at checking
      cases checking
  | conclude =>
      cases checking
      exact ⟨_, _, rfl, rfl⟩
  | cancel => exact hc runCancelled checking
  | _ => cases checking

theorem finished_of_fires (h : c.Sound) (r : c.Fires plan m c') (finished : c'.activity = .finished) :
    c'.agenda = [] ∧ (∀ entry ∈ c'.entries, entry.run.status = .completed) ∨
      c'.cancelled = true := by
  cases r with
  | finish choosing through => exact .inl ⟨through, h.completed (firm_of_choosing choosing)⟩
  | skip choosing =>
      change c.activity = _ at finished
      rw [choosing] at finished
      cases finished
  | @stop runCancelled checking reason =>
      -- The last run has been cancelled, and this takes somebody who cancels.
      refine .inr (reason.elim (fun hrun => ?_) id)
      obtain ⟨front, last, hentries, hlast⟩ := h.checking _ checking
      have hmem : last ∈ c.entries := by rw [hentries]; simp
      have hstatus : last.run.status = .cancelled := by
        rw [hrun] at hlast
        simpa [Run.isCancelled] using hlast
      obtain hcompleted | ⟨-, hcancelled⟩ := h.entries last hmem
      · rw [hstatus] at hcompleted
        cases hcompleted
      · exact hcancelled
  | cancel => exact .inr rfl
  | _ => cases finished

/-- The rules lead from sound states to sound states. -/
theorem Sound.fires (h : c.Sound) (r : c.Fires plan m c') : c'.Sound where
  running := running_of_fires h r
  firm := firm_of_fires h r
  checking := checking_of_fires r h.checking
  entries := entries_of_fires h r
  finished := finished_of_fires h r

theorem Sound.follow {c₀ : Course} (h₀ : c₀.Sound) (h : c₀.follow plan ms = some c) : c.Sound :=
  follow_induction (P := fun _ c => c.Sound) h₀ (fun _ hs r => hs.fires r) h

end Course

end ProxyTiming.Suite
