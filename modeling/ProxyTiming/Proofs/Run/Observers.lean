import ProxyTiming.Proofs.Run.Silence

/-!
# Observers only listen

Somebody may listen to a run, through a box of some capacity out of which it takes events
when it likes, until it leaves.  An event that finds the box full, or nobody there, is lost.

For the run all of this is as if nobody had listened.  And for the observer there is one
sequence of events, the same for all observers, out of which it hears some: in order, and
all of them as long as there is room whenever something is told.
-/

namespace ProxyTiming.Run

open ProxyTiming.Time

/-! ### The box -/

namespace Observer

variable (o : Observer) (ev : Event) {evs : List Event} {o' : Observer}

def isOpen : Bool := o.present && o.hasRoom

def offered : Observer := if o.isOpen then { o with pending := o.pending ++ [ev] } else o

def listen (evs : List Event) : Observer := evs.foldl offered o

theorem received_offered_of_open (h : o.isOpen = true) :
    (o.offered ev).received = o.received ++ [ev] := by
  rw [offered, if_pos h, received, received, List.append_assoc]

theorem offered_of_closed (h : o.isOpen = false) : o.offered ev = o := by
  rw [offered, h, if_neg Bool.false_ne_true]

theorem received_listen (evs : List Event) :
    ∃ heard, (o.listen evs).received = o.received ++ heard ∧ heard.Sublist evs := by
  induction evs generalizing o with
  | nil => exact ⟨[], (List.append_nil _).symm, List.Sublist.refl _⟩
  | cons ev evs ih =>
      obtain ⟨heard, hreceived, hsublist⟩ := ih (o.offered ev)
      cases h : o.isOpen with
      | true =>
          rw [received_offered_of_open o ev h, List.append_assoc] at hreceived
          exact ⟨ev :: heard, hreceived, hsublist.cons_cons ev⟩
      | false =>
          rw [offered_of_closed o ev h] at hreceived
          refine ⟨heard, ?_, hsublist.cons ev⟩
          rw [listen, List.foldl_cons, offered_of_closed o ev h]
          exact hreceived

theorem received_listen_of_open (one : evs.length ≤ 1) (h : evs ≠ [] → o.isOpen = true) :
    (o.listen evs).received = o.received ++ evs := by
  match evs with
  | [] => exact (List.append_nil _).symm
  | [ev] => exact received_offered_of_open o ev (h (List.cons_ne_nil _ _))

theorem received_of_take? (h : o.take? = some o') : o'.received = o.received := by
  rw [take?] at h
  split at h
  · cases h
  · rename_i hpending
    obtain rfl := Option.some.inj h
    simp [received, hpending]

theorem received_of_leave? (h : o.leave? = some o') : o'.received = o.received := by
  obtain ⟨-, h⟩ := Option.ite_none_right_eq_some.mp h
  obtain rfl := Option.some.inj h
  rfl

end Observer

theorem Journal.observer_offer (j : Journal) (ev : Event) :
    (j.offer ev).observer = j.observer.map (·.offered ev) := by
  cases h : j.observer with
  | none => simp [offer, h]
  | some o =>
      cases hpresent : o.present <;> cases hroom : o.hasRoom <;>
        simp [offer, Observer.offered, Observer.isOpen, note, h, hpresent, hroom]

/-! ### One step -/

theorem Aggregator.observer_noteOutcome (a : Aggregator) (o : Outcome) :
    (a.noteOutcome o).journal.observer = a.journal.observer := by
  rw [noteOutcome]
  split
  · rfl
  · rw [noteFailure]
    dsimp only
    split <;> rfl

theorem Aggregator.observer_record (a : Aggregator) (o : Outcome) :
    (a.record o).journal.observer =
      a.journal.observer.map (·.listen (reportOf (a.run.record? o.index o.timings))) := by
  have hrun : (a.noteOutcome o).run = a.run := run_noteOutcome a o
  have hlisten (r : Run) : a.journal.observer.map (·.offered r.progress) =
      a.journal.observer.map (·.listen [r.progress]) := rfl
  have hsilent : a.journal.observer = a.journal.observer.map (·.listen []) := by
    cases a.journal.observer <;> rfl
  rw [record]
  dsimp only
  rw [hrun]
  cases a.run.record? o.index o.timings with
  | none => exact (observer_noteOutcome a o).trans hsilent
  | some r =>
      dsimp only [reportOf]
      split_ifs
      · rw [← hlisten, ← observer_noteOutcome a o]
        exact Journal.observer_offer _ _
      · exact (observer_noteOutcome a o).trans hsilent

namespace Engine

variable {e e' e₀ : Engine} {l : Label} {ls : List Label} {o₀ : Observer}

theorem length_reportOf_le (r? : Option Run) : (reportOf r?).length ≤ 1 := by
  cases r? with
  | none => exact Nat.zero_le 1
  | some r =>
      rw [reportOf]
      split_ifs <;> simp

theorem length_tells_le (e : Engine) (l : Label) : (e.tells l).length ≤ 1 := by
  cases l with
  | deliver =>
      rw [tells]
      split
      · exact Nat.zero_le 1
      · exact length_reportOf_le _
  | close => exact Nat.le_refl 1
  | _ => exact Nat.zero_le 1

theorem observer_of_fires (r : e.Fires l e') (hl : l.isObservers = false) :
    e'.journal.observer = e.journal.observer.map (·.listen (e.tells l)) := by
  have hsilent : e.journal.observer = e.journal.observer.map (·.listen []) := by
    cases e.journal.observer <;> rfl
  cases r with
  | deliver queued =>
      rw [tells_deliver queued]
      exact Aggregator.observer_record _ _
  | close =>
      refine (Journal.observer_offer _ _).trans ?_
      split_ifs <;> rfl
  | observe | leave => cases hl
  | _ => exact hsilent

/-- In every step the observer hears what is told, or nothing. -/
theorem hears_of_fires {o : Observer} (ho : e.journal.observer = some o) (r : e.Fires l e') :
    ∃ o' heard, e'.journal.observer = some o' ∧ o'.received = o.received ++ heard ∧
      heard.Sublist (e.tells l) ∧ ((e.tells l ≠ [] → o.isOpen = true) → heard = e.tells l) := by
  cases hl : l.isObservers with
  | true =>
      have htells : e.tells l = [] := tells_of_observers hl
      -- The observer takes out what it has already got, or leaves.
      have hkeep : ∃ o', e'.journal.observer = some o' ∧ o'.received = o.received := by
        cases r with
        | @observe o' taken =>
            rw [ho] at taken
            exact ⟨o', rfl, o.received_of_take? taken⟩
        | @leave o' left =>
            rw [ho] at left
            exact ⟨o', rfl, o.received_of_leave? left⟩
        | _ => cases hl
      obtain ⟨o', ho', hreceived⟩ := hkeep
      rw [htells]
      exact ⟨o', [], ho', by rw [hreceived, List.append_nil], List.Sublist.refl _, fun _ => rfl⟩
  | false =>
      have ho' := observer_of_fires r hl
      rw [ho, Option.map_some] at ho'
      by_cases h : e.tells l ≠ [] → o.isOpen = true
      · exact ⟨_, _, ho', o.received_listen_of_open (length_tells_le e l) h, List.Sublist.refl _,
          fun _ => rfl⟩
      · obtain ⟨heard, hreceived, hsublist⟩ := o.received_listen (e.tells l)
        exact ⟨_, heard, ho', hreceived, hsublist, fun h' => absurd h' h⟩

/-! ### Histories -/

/-- Whenever something is told, the observer is there and has room in the box. -/
def Unhindered (e₀ : Engine) (ls : List Label) : Prop :=
  ∀ before l after e o, ls = before ++ l :: after → e₀.follow before = some e →
    e.journal.observer = some o → e.tells l ≠ [] → o.isOpen = true

theorem Unhindered.of_concat (h : Unhindered e₀ (ls ++ [l])) : Unhindered e₀ ls := by
  rintro before l' after e o rfl
  exact h before l' (after ++ [l]) e o (by simp)

theorem hears_of_follow (ho₀ : e₀.journal.observer = some o₀) (h : e₀.follow ls = some e) :
    ∃ o heard, e.journal.observer = some o ∧ o.received = o₀.received ++ heard ∧
      heard.Sublist (e₀.tale ls) ∧ (Unhindered e₀ ls → heard = e₀.tale ls) := by
  refine follow_induction (P := fun ls e => ∃ o heard, e.journal.observer = some o ∧
    o.received = o₀.received ++ heard ∧ heard.Sublist (e₀.tale ls) ∧
      (Unhindered e₀ ls → heard = e₀.tale ls)) ?_ ?_ h
  · exact ⟨o₀, [], ho₀, (List.append_nil _).symm, List.Sublist.refl _, fun _ => rfl⟩
  intro ls e l e' hls ⟨o, heard, ho, hreceived, hsublist, hall⟩ r
  obtain ⟨o', more, ho', hreceived', hsublist', hall'⟩ := hears_of_fires ho r
  rw [tale_concat hls]
  refine ⟨o', heard ++ more, ho', ?_, hsublist.append hsublist', fun hfree => ?_⟩
  · rw [hreceived', hreceived, List.append_assoc]
  · rw [hall hfree.of_concat, hall' (hfree ls l [] e o rfl hls ho)]

end Engine

open Engine

/-! ### A whole run -/

/-- What there is to hear of a history, as nobody hears it. -/
def Plan.tidings (p : Plan) (now : Instant) (cancelled : Bool) (ls : List Label) : List Event :=
  .statusChange .running :: (Engine.start p now cancelled (.start none)).tale ls

/-- What is known of all who listen to the runs of a plan. -/
structure OnlyListened (p : Plan) : Prop where
  /-- Exchange the observer for another one, or for none, and leave out what it does: the other
  steps are enabled all the same, and the run is the same. -/
  same_run : ∀ now cancelled journal ls e,
    (Engine.start p now cancelled journal).follow ls = some e →
      ∀ journal', ∃ e', (Engine.start p now cancelled journal').follow (unobserved ls) = some e' ∧
        e'.run = e.run ∧ e'.closed = e.closed
  /-- What is heard comes, in order, out of a sequence that is there without the observer; and an
  observer with room for every event hears all of it. -/
  heard : ∀ now cancelled journal ls e o₀,
    (Engine.start p now cancelled journal).follow ls = some e → journal.observer = some o₀ →
      ∃ o heard, e.journal.observer = some o ∧ o.received = o₀.received ++ heard ∧
        heard.Sublist (p.tidings now cancelled (unobserved ls)) ∧
        (o₀.isOpen = true → Unhindered (Engine.start p now cancelled journal) ls →
          heard = p.tidings now cancelled (unobserved ls))
  /-- In this sequence the run starts, it has made so much progress, and then more, and it ends. -/
  tidings : ∀ now cancelled journal ls e,
    (Engine.start p now cancelled journal).follow ls = some e → e.closed = true →
      ∃ counts events, TellsProgress p.count e.run.completedCount counts events ∧
        (counts.map fun (succeeded, failed) => succeeded + failed).Pairwise (· < ·) ∧
        p.tidings now cancelled (unobserved ls) =
          .statusChange .running :: events ++ [.statusChange e.run.status]
  /-- On a clock, too, the journal makes no difference but to itself. -/
  on_clock : ∀ trial cancelOnCall scene journal', ∃ journal'',
    p.execute trial cancelOnCall { scene with journal := journal' } =
      (p.execute trial cancelOnCall scene).map (·.withJournal journal'')

theorem start_withJournal (p : Plan) (now : Instant) (cancelled : Bool) (journal journal' : Journal) :
    ∃ j, Engine.start p now cancelled journal' =
      (Engine.start p now cancelled journal).withJournal j := ⟨_, rfl⟩

/-- The tidings are the start of the run and the tale of the history, whoever listens. -/
theorem tidings_eq {p : Plan} {now : Instant} {cancelled : Bool} {journal : Journal}
    {ls : List Label} {e : Engine}
    (h : (Engine.start p now cancelled journal).follow ls = some e) :
    p.tidings now cancelled (unobserved ls) =
      .statusChange .running :: (Engine.start p now cancelled journal).tale ls := by
  obtain ⟨j, hj⟩ := start_withJournal p now cancelled journal (.start none)
  obtain ⟨-, -, htale⟩ := follow_withJournal h j
  rw [Plan.tidings, hj, htale]

/-- A run starts to be told of as the first event is offered. -/
theorem observer_start {p : Plan} {journal : Journal} {o₀ : Observer}
    (ho₀ : journal.observer = some o₀) (now : Instant) (cancelled : Bool) :
    (Engine.start p now cancelled journal).journal.observer =
      some (o₀.offered (.statusChange .running)) := by
  have hnoted : (journal.note .info (startMessage p) []).observer = some o₀ := ho₀
  refine (Journal.observer_offer _ _).trans ?_
  rw [hnoted]
  rfl

theorem execute_withJournal (p : Plan) (trial : Nat → Trial) (cancelOnCall : Option Nat)
    (scene : Scene) (journal' : Journal) :
    ∃ journal'', p.execute trial cancelOnCall { scene with journal := journal' } =
      (p.execute trial cancelOnCall scene).map (·.withJournal journal'') := by
  unfold Plan.execute
  split_ifs with hwide
  · exact ⟨journal', rfl⟩
  · obtain ⟨j, hj⟩ := start_withJournal p .epoch scene.cancelled scene.journal journal'
    obtain ⟨j', hcomplete⟩ := Timeline.deaf_complete (p.script trial cancelOnCall) .epoch
      (Timeline.start (Engine.start p .epoch scene.cancelled scene.journal) scene.now
        scene.cancelAt) j
    refine ⟨j', congrArg Except.ok (Eq.trans ?_ hcomplete)⟩
    exact congrArg (fun e => (Timeline.start e scene.now scene.cancelAt).complete
      (p.script trial cancelOnCall) .epoch) hj

/-- Nobody who listens has an influence on a run. -/
theorem Plan.observers_only_listen (p : Plan) : OnlyListened p where
  same_run := by
    intro now cancelled journal ls e h journal'
    obtain ⟨j, hj⟩ := start_withJournal p now cancelled journal journal'
    obtain ⟨j', hfollow, -⟩ := follow_withJournal h j
    exact ⟨e.withJournal j', hj ▸ hfollow, rfl, rfl⟩
  heard := by
    intro now cancelled journal ls e o₀ h ho₀
    rw [tidings_eq h]
    obtain ⟨o, heard, ho, hreceived, hsublist, hall⟩ :=
      hears_of_follow (observer_start ho₀ now cancelled) h
    -- The first event is offered before there are any steps.
    cases hopen : o₀.isOpen with
    | true =>
        rw [o₀.received_offered_of_open _ hopen, List.append_assoc] at hreceived
        refine ⟨o, _ :: heard, ho, hreceived, hsublist.cons_cons _, fun _ hfree => ?_⟩
        rw [hall hfree]
    | false =>
        rw [o₀.offered_of_closed _ hopen] at hreceived
        exact ⟨o, heard, ho, hreceived, hsublist.cons _, nofun⟩
  tidings := by
    intro now cancelled journal ls e h closed
    obtain ⟨counts, events, hprogress, htale⟩ := tale_eq h
    refine ⟨counts, events, hprogress, hprogress.increasing, ?_⟩
    rw [tidings_eq h, htale, ending, if_pos closed, List.cons_append]
  on_clock := execute_withJournal p

/-- An observer with room for one event takes the first one out in time, and misses the end. -/
theorem observers_only_listen_through_a_small_box :
    let p : Plan := ⟨.nil, "t", "c", "u", .sequential 1 .zero, 1⟩
    let journal : Journal := .start (some (.ofCapacity 1))
    let o : Observer := ⟨1, [.progress 1 1 0 1], [.statusChange .running], true⟩
    let ls : List Label := [.look, .grant, .call 0,
      .complete 0 (.ok { Timings.zero with success := true }), .observe, .handIn 0, .deliver, .stop,
      .retire 0, .reap, .close .epoch]
    ∃ e, (Engine.start p .epoch false journal).follow ls = some e ∧
      e.journal.observer = some o ∧ o.received.Sublist (p.tidings .epoch false (unobserved ls)) ∧
      ∃ e', (Engine.start p .epoch false (.start none)).follow (unobserved ls) = some e' ∧
        e'.run = e.run ∧ e'.closed = true := by
  intro p journal o ls
  have hend : ((Engine.start p .epoch false journal).follow ls).map
      (fun e => (e.journal.observer, e.closed)) = some (some o, true) := by
    subst p journal o ls
    rfl
  obtain ⟨e, hfollow, heq⟩ := Option.map_eq_some_iff.mp hend
  obtain ⟨ho, hclosed⟩ := Prod.mk.inj heq
  have honly := Plan.observers_only_listen p
  obtain ⟨o', heard, ho', hreceived, hsublist, -⟩ := honly.heard _ _ _ _ _ _ hfollow rfl
  obtain rfl : o = o' := Option.some.inj (ho.symm.trans ho')
  obtain rfl : o.received = heard := hreceived
  obtain ⟨e', hfollow', hrun, hclosed'⟩ := honly.same_run _ _ _ _ _ hfollow (.start none)
  exact ⟨e, hfollow, ho, hsublist, e', hfollow', hrun, hclosed'.trans hclosed⟩

end ProxyTiming.Run
