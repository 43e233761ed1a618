import ProxyTiming.Proofs.Run.Telling
import ProxyTiming.Run.Timeline

/-!
# Nobody listens

A run writes into its journal and never reads in it.  So a run does not know whether somebody
listens, how large the box of the observer is, or whether it is full: exchange the journal,
and every step that was enabled is enabled, and comes to the same.

The two states differ in their journals only, before the step and after it.  What they have
in their journals is of no concern here, so it is left open: there is *some* journal with
which the one is the other.
-/

namespace ProxyTiming.Run

open ProxyTiming.Time

/-! ### Aggregation -/

namespace Aggregator

variable (a : Aggregator) (o : Outcome)

theorem failuresSeen_noteFailure (index : Nat) (f : TrialFailure) :
    (a.noteFailure index f).failuresSeen = a.failuresSeen + 1 := by
  rw [noteFailure]
  dsimp only
  split <;> rfl

/-- Failures are counted as they come in, and nothing else is. -/
theorem failuresSeen_record :
    (a.record o).failuresSeen =
      a.failuresSeen + match o.result with
        | .ok _ => 0
        | .error _ => 1 := by
  have hnote : (a.record o).failuresSeen = (a.noteOutcome o).failuresSeen := by
    rw [record]
    dsimp only
    split
    · rfl
    · split <;> rfl
  rw [hnote, noteOutcome]
  cases o.result with
  | ok t => rfl
  | error f => exact failuresSeen_noteFailure a o.index f

theorem eq_with_journal {a b : Aggregator} (hrun : a.run = b.run)
    (hseen : a.failuresSeen = b.failuresSeen) : a = { b with journal := a.journal } := by
  cases a
  cases b
  cases hrun
  cases hseen
  rfl

theorem record_withJournal (j : Journal) :
    ∃ j', Aggregator.record { a with journal := j } o = { a.record o with journal := j' } := by
  refine ⟨(Aggregator.record { a with journal := j } o).journal, ?_⟩
  apply eq_with_journal
  · rw [run_record, run_record]
  · rw [failuresSeen_record, failuresSeen_record]

end Aggregator

/-! ### Steps -/

def Label.isObservers : Label → Bool
  | .observe => true
  | .leave => true
  | _ => false

def unobserved (ls : List Label) : List Label := ls.filter fun l => !l.isObservers

theorem unobserved_concat_of_observers (ls : List Label) {l : Label} (hl : l.isObservers = true) :
    unobserved (ls ++ [l]) = unobserved ls := by
  simp [unobserved, hl]

theorem unobserved_concat (ls : List Label) {l : Label} (hl : l.isObservers = false) :
    unobserved (ls ++ [l]) = unobserved ls ++ [l] := by
  simp [unobserved, hl]

namespace Engine

variable {e e' : Engine} {l : Label} {ls : List Label}

/-- With another journal the same rules apply, and come to the same. -/
theorem Fires.withJournal (r : e.Fires l e') (hl : l.isObservers = false) (j : Journal) :
    ∃ j', (e.withJournal j).Fires l (e'.withJournal j') := by
  cases r with
  | look may uncancelled left => exact ⟨j, .look may uncancelled left⟩
  | grant reaching free => exact ⟨j, .grant reaching free⟩
  | park reaching none_free => exact ⟨j, .park reaching none_free⟩
  | stop idle reason => exact ⟨j, .stop idle reason⟩
  | call at_stage => exact ⟨j, .call (e := e.withJournal j) at_stage⟩
  | complete at_stage => exact ⟨j, .complete (e := e.withJournal j) at_stage⟩
  | panic at_stage => exact ⟨j, .panic (e := e.withJournal j) at_stage⟩
  | handIn at_stage room => exact ⟨j, .handIn (e := e.withJournal j) at_stage room⟩
  | wake at_stage => exact ⟨j, .wake (e := e.withJournal j) at_stage⟩
  | retire at_stage => exact ⟨j, .retire (e := e.withJournal j) at_stage⟩
  | @deliver o rest queued =>
      obtain ⟨j', hrecord⟩ := e.aggregator.record_withJournal o j
      have hfires := Fires.deliver (e := e.withJournal j) queued
      refine ⟨j', ?_⟩
      -- What is recorded does not depend on the journal, so the two states differ in it only.
      have hsame : ({ e.withJournal j with
          queue := rest
          aggregator := (e.withJournal j).aggregator.record o } : Engine) =
            ({ e with
              queue := rest
              aggregator := e.aggregator.record o } : Engine).withJournal j' := by
        simp only [Engine.withJournal, hrecord]
      rwa [hsame] at hfires
  | reapRegular through ended => exact ⟨j, .reapRegular through ended⟩
  | reapPanicked through ended =>
      exact ⟨j.note .error panicMessage [], .reapPanicked (e := e.withJournal j) through ended⟩
  | cancel uncancelled => exact ⟨j, .cancel uncancelled⟩
  | observe | leave => cases hl
  | close settled running => exact ⟨_, .close (e := e.withJournal j) settled running⟩

/-- The observer touches nothing but the journal. -/
theorem withJournal_of_observers (r : e.Fires l e') (hl : l.isObservers = true) (j : Journal) :
    e'.withJournal j = e.withJournal j := by
  cases r with
  | observe | leave => rfl
  | _ => cases hl

theorem tells_of_observers (hl : l.isObservers = true) : e.tells l = [] := by
  cases l <;> first | rfl | cases hl

theorem tells_withJournal (e : Engine) (j : Journal) (l : Label) :
    (e.withJournal j).tells l = e.tells l := by
  cases l <;> rfl

/-! ### Histories -/

/-- A history goes the same way with another journal, and without the steps of the observer. -/
theorem follow_withJournal {e₀ : Engine} (h : e₀.follow ls = some e) (j : Journal) :
    ∃ j', (e₀.withJournal j).follow (unobserved ls) = some (e.withJournal j') ∧
      (e₀.withJournal j).tale (unobserved ls) = e₀.tale ls := by
  refine follow_induction (P := fun ls e => ∃ j',
    (e₀.withJournal j).follow (unobserved ls) = some (e.withJournal j') ∧
      (e₀.withJournal j).tale (unobserved ls) = e₀.tale ls) ⟨j, rfl, rfl⟩ ?_ h
  intro ls e l e' hls ⟨j', hfollow, htale⟩ r
  rw [tale_concat hls]
  cases hl : l.isObservers with
  | true =>
      rw [unobserved_concat_of_observers ls hl, tells_of_observers hl, List.append_nil]
      exact ⟨j', by rw [withJournal_of_observers r hl]; exact hfollow, htale⟩
  | false =>
      obtain ⟨j'', hfires⟩ := r.withJournal hl j'
      rw [unobserved_concat ls hl]
      refine ⟨j'', follow_concat hfollow hfires, ?_⟩
      rw [tale_concat hfollow, htale, tells_withJournal]

end Engine

/-! ### On a clock -/

/-- What a function makes of a state does not depend on the journal, which can be exchanged. -/
def Deaf {σ : Type} (exchange : σ → Journal → σ) (f : σ → σ) : Prop :=
  ∀ s j, ∃ j', f (exchange s j) = exchange (f s) j'

theorem Deaf.id {σ : Type} {exchange : σ → Journal → σ} : Deaf exchange fun s => s :=
  fun _ j => ⟨j, rfl⟩

theorem Deaf.comp {σ : Type} {exchange : σ → Journal → σ} {f g : σ → σ} (hg : Deaf exchange g)
    (hf : Deaf exchange f) : Deaf exchange fun s => g (f s) := by
  intro s j
  obtain ⟨j', hj'⟩ := hf s j
  obtain ⟨j'', hj''⟩ := hg (f s) j'
  exact ⟨j'', (congrArg g hj').trans hj''⟩

namespace Engine

variable {e e' : Engine} {l : Label}

theorem step_withJournal_of_some (hl : l.isObservers = false) (h : e.step l = some e')
    (j : Journal) : ∃ j', (e.withJournal j).step l = some (e'.withJournal j') := by
  obtain ⟨j', hfires⟩ := (fires_of_step h).withJournal hl j
  exact ⟨j', hfires.step⟩

theorem step_withJournal_of_none (hl : l.isObservers = false) (h : e.step l = none)
    (j : Journal) : (e.withJournal j).step l = none := by
  -- A step that is enabled with the other journal is enabled with this one as well.
  apply step_eq_none
  intro e' r
  obtain ⟨j', hfires⟩ := r.withJournal hl e.journal
  have hstep : e.step l = some (e'.withJournal j') := hfires.step
  rw [h] at hstep
  cases hstep

theorem deaf_advance (hl : l.isObservers = false) : Deaf withJournal fun e => e.advance l := by
  intro e j
  dsimp only [advance]
  cases h : e.step l with
  | none => exact ⟨j, by rw [step_withJournal_of_none hl h]; rfl⟩
  | some e' =>
      obtain ⟨j', hstep⟩ := step_withJournal_of_some hl h j
      exact ⟨j', by rw [hstep]; rfl⟩

theorem deaf_advanceUpTo (hl : l.isObservers = false) (n : Nat) :
    Deaf withJournal (advanceUpTo l n) := by
  induction n with
  | zero => exact Deaf.id
  | succ n ih =>
      intro e j
      rw [advanceUpTo, advanceUpTo]
      cases h : e.step l with
      | none => exact ⟨j, by rw [step_withJournal_of_none hl h]⟩
      | some e' =>
          obtain ⟨j', hstep⟩ := step_withJournal_of_some hl h j
          rw [hstep]
          exact ih e' j'

end Engine

namespace Timeline

open Engine

def withJournal (t : Timeline) (j : Journal) : Timeline :=
  { t with engine := t.engine.withJournal j }

variable {s : Script} {index : Nat} {f : Timeline → Timeline}

/-- A step if it is enabled, and what the clock makes of it. -/
theorem deaf_onStep {l : Label} (hl : l.isObservers = false) {k : Timeline → Engine → Timeline}
    (hk : ∀ t e j j', ∃ j'', k (t.withJournal j) (e.withJournal j') = (k t e).withJournal j'') :
    Deaf withJournal fun t => match t.engine.step l with
      | none => t
      | some e => k t e := by
  intro t j
  dsimp only
  cases h : t.engine.step l with
  | none =>
      have hnone : (t.withJournal j).engine.step l = none := step_withJournal_of_none hl h j
      exact ⟨j, by rw [hnone]⟩
  | some e =>
      obtain ⟨j', hstep⟩ := step_withJournal_of_some hl h j
      have hsome : (t.withJournal j).engine.step l = some (e.withJournal j') := hstep
      rw [hsome]
      exact hk t e j j'

theorem deaf_onAdvance {l : Label} (hl : l.isObservers = false) :
    Deaf withJournal fun t => { t with engine := t.engine.advance l } := by
  intro t j
  obtain ⟨j', hadvance⟩ := deaf_advance hl t.engine j
  exact ⟨j', congrArg (fun e => { t with engine := e }) hadvance⟩

/-- What a worker does only if it is due. -/
theorem deaf_ifDue (index : Nat) (hf : Deaf withJournal f) :
    Deaf withJournal fun t => if t.isDue index then f t else t := by
  intro t j
  dsimp only
  rw [show (t.withJournal j).isDue index = t.isDue index from rfl]
  split_ifs
  · exact hf t j
  · exact ⟨j, rfl⟩

theorem deaf_admitUpTo (n : Nat) : Deaf Engine.withJournal (admitUpTo n) := by
  induction n with
  | zero => exact Deaf.id
  | succ n ih =>
      intro e j
      rw [admitUpTo, admitUpTo]
      cases hlook : e.step .look with
      | none => exact ⟨j, by rw [step_withJournal_of_none rfl hlook]⟩
      | some e₁ =>
          obtain ⟨j₁, hlook'⟩ := step_withJournal_of_some rfl hlook j
          rw [hlook']
          dsimp only
          cases hgrant : e₁.step .grant with
          | none =>
              rw [step_withJournal_of_none rfl hgrant]
              exact deaf_advance rfl e₁ j₁
          | some e₂ =>
              obtain ⟨j₂, hgrant'⟩ := step_withJournal_of_some rfl hgrant j₁
              rw [hgrant']
              exact ih e₂ j₂

theorem deaf_dispatch : Deaf Engine.withJournal dispatch := by
  intro e j
  obtain ⟨j₁, hadmit⟩ := deaf_admitUpTo (e.count - e.dispatched) e j
  obtain ⟨j₂, hstop⟩ := deaf_advance (l := .stop) rfl (admitUpTo (e.count - e.dispatched) e) j₁
  obtain ⟨j₃, hreap⟩ := deaf_advanceUpTo (l := .reap) rfl
    ((admitUpTo (e.count - e.dispatched) e).advance .stop).ended.length
    ((admitUpTo (e.count - e.dispatched) e).advance .stop) j₂
  refine ⟨j₃, ?_⟩
  rw [dispatch, dispatch, ← hreap]
  dsimp only at hstop ⊢
  rw [show (e.withJournal j).count - (e.withJournal j).dispatched = e.count - e.dispatched from rfl,
    hadmit, hstop]
  rfl

theorem deaf_aggregate : Deaf Engine.withJournal aggregate := by
  intro e j
  exact deaf_advanceUpTo (l := .deliver) rfl e.queue.length e j

theorem deaf_turn : Deaf withJournal turn := by
  intro t j
  obtain ⟨j₁, hdispatch⟩ := (deaf_aggregate.comp deaf_dispatch) t.engine j
  obtain ⟨j₂, haggregate⟩ := (deaf_dispatch.comp deaf_aggregate) t.engine j
  unfold turn
  cases hfirst : t.aggregatorFirst with
  | true =>
      refine ⟨j₂, ?_⟩
      simp only [withJournal, hfirst, if_true, haggregate]
      rfl
  | false =>
      refine ⟨j₁, ?_⟩
      simp only [withJournal, hfirst, Bool.false_eq_true, if_false, hdispatch]
      rfl

theorem deaf_cancel : Deaf withJournal cancel := deaf_onStep rfl fun _ _ _ j' => ⟨j', rfl⟩

theorem deaf_beginTrial : Deaf withJournal (beginTrial s index) := by
  refine deaf_onStep rfl ?_
  intro t e j j'
  dsimp only
  split_ifs
  · exact deaf_cancel ({ t with
      engine := e
      calls := t.calls ++ [t.now]
      peak := max t.peak e.inFlight }.setDue index (t.now + (s.trial index).delay.toNanos)) j'
  · exact ⟨j', rfl⟩

theorem deaf_endTrial : Deaf withJournal (endTrial s index) := by
  refine deaf_ifDue index ?_
  cases (s.trial index).result with
  | some result => exact deaf_onAdvance rfl
  | none => exact deaf_onStep rfl fun _ _ _ j' => ⟨j', rfl⟩

theorem deaf_handIn : Deaf withJournal (handIn s index) := by
  refine deaf_onStep rfl ?_
  intro t e j j'
  refine ⟨j', ?_⟩
  dsimp only
  rw [show (e.withJournal j').paced = e.paced from rfl,
    show (e.withJournal j').cancelled = e.cancelled from rfl]
  split_ifs <;> rfl

theorem deaf_wake : Deaf withJournal (wake index) := deaf_ifDue index (deaf_onAdvance rfl)

theorem deaf_retire : Deaf withJournal (retire index) := deaf_onStep rfl fun _ _ _ j' => ⟨j', rfl⟩

theorem deaf_goOn (s : Script) (index : Nat) : Deaf withJournal fun t => t.goOn s index :=
  deaf_retire.comp (deaf_wake.comp (deaf_handIn.comp (deaf_endTrial.comp deaf_beginTrial)))

theorem deaf_work (s : Script) : Deaf withJournal (work s) := by
  intro t j
  unfold work
  rw [show (t.withJournal j).dues = t.dues from rfl, show (t.withJournal j).now = t.now from rfl]
  generalize ((t.dues.filter fun d => d.instant ≤ t.now).map Due.index) = indices
  induction indices generalizing t j with
  | nil => exact ⟨j, rfl⟩
  | cons index indices ih =>
      obtain ⟨j', hgo⟩ := deaf_goOn s index t j
      dsimp only at hgo
      rw [List.foldl_cons, List.foldl_cons, hgo]
      exact ih _ j'

theorem deaf_tick : Deaf withJournal tick := by
  intro t j
  unfold tick
  rw [show (t.withJournal j).next? = t.next? from rfl]
  cases t.next? with
  | none => exact ⟨j, rfl⟩
  | some instant =>
      dsimp only
      rw [show (t.withJournal j).cancelAt = t.cancelAt from rfl,
        show (t.withJournal j).now = t.now from rfl]
      cases t.cancelAt with
      | none => exact ⟨j, rfl⟩
      | some c =>
          dsimp only
          split_ifs
          · exact deaf_cancel { t with now := max t.now instant, cancelAt := none } j
          · exact ⟨j, rfl⟩

theorem deaf_round (s : Script) : Deaf withJournal (round s) := by
  intro t j
  obtain ⟨j', hwork⟩ := deaf_work s t j
  unfold round
  dsimp only
  rw [hwork, show ((work s t).withJournal j').woken = (work s t).woken from rfl]
  split_ifs
  · exact deaf_turn _ j'
  · exact deaf_tick _ j'

theorem deaf_rounds (s : Script) (n : Nat) : Deaf withJournal (rounds s n) := by
  induction n with
  | zero => exact Deaf.id
  | succ n ih =>
      intro t j
      rw [rounds, rounds, show (t.withJournal j).engine.isSettled = t.engine.isSettled from rfl]
      split_ifs
      · exact ⟨j, rfl⟩
      · obtain ⟨j', hround⟩ := deaf_round s t j
        rw [hround]
        exact ih _ j'

theorem deaf_complete (s : Script) (now : Instant) :
    Deaf withJournal fun t => t.complete s now := by
  intro t j
  obtain ⟨j₁, hrounds⟩ := deaf_rounds s t.roundsFor t j
  obtain ⟨j₂, hclose⟩ := deaf_advance (l := .close now) rfl (rounds s t.roundsFor t).engine j₁
  refine ⟨j₂, ?_⟩
  dsimp only at hclose ⊢
  unfold complete
  rw [show (t.withJournal j).roundsFor = t.roundsFor from rfl, hrounds]
  show ({ (rounds s t.roundsFor t).withJournal j₁ with
    engine := ((rounds s t.roundsFor t).engine.withJournal j₁).advance (.close now) } :
      Timeline) = _
  rw [hclose]
  rfl

end Timeline

end ProxyTiming.Run
