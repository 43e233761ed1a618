import Mathlib.Data.List.Infix
import ProxyTiming.Proofs.Run.Outcomes
import ProxyTiming.Run.Timeline

/-!
# A clock keeps to the rules

A timeline is made by functions that change the state of a run as they go along.  Here it is
shown that they change it by steps that are enabled, and by nothing else: whatever a
timeline comes to, its engine has come to by a history, in which each trial ends as the
script says.

Between any two steps a timeline keeps some order of its own.  There is a note of when each
living worker goes on, and of no other.  When nothing concerns dispatcher and aggregator,
they have nothing to do: the queue is empty, and the dispatcher waits for a permit or has
seen to everybody who has ended.
-/

namespace ProxyTiming.Run

open ProxyTiming.Time

def Script.fate (s : Script) (i : Nat) : Option (Except TrialFailure Timings) :=
  (s.trial i).result

namespace Engine

variable {e e' e'' : Engine} {l : Label} {kind : Label → Bool} {index : Nat}

/-! ### Steps of one kind -/

def Takes (kind : Label → Bool) (e e' : Engine) : Prop :=
  ∃ ls, e.follow ls = some e' ∧ ∀ l ∈ ls, kind l = true

theorem Takes.refl (kind : Label → Bool) (e : Engine) : e.Takes kind e := ⟨[], rfl, nofun⟩

theorem Takes.trans (h : e.Takes kind e') (h' : e'.Takes kind e'') : e.Takes kind e'' := by
  obtain ⟨ls, hls, hkind⟩ := h
  obtain ⟨ls', hls', hkind'⟩ := h'
  refine ⟨ls ++ ls', ?_, List.forall_mem_append.mpr ⟨hkind, hkind'⟩⟩
  rw [follow_append, hls]
  exact hls'

theorem Takes.of_step (hl : kind l = true) (h : e.step l = some e') : e.Takes kind e' :=
  ⟨[l], (follow_singleton e l).trans h, List.forall_mem_singleton.mpr hl⟩

theorem takes_advance (hl : kind l = true) (e : Engine) : e.Takes kind (e.advance l) := by
  rw [advance]
  cases h : e.step l with
  | none => exact .refl kind e
  | some e' => exact .of_step hl h

theorem takes_advanceUpTo (hl : kind l = true) (n : Nat) (e : Engine) :
    e.Takes kind (advanceUpTo l n e) := by
  induction n generalizing e with
  | zero => exact .refl kind e
  | succ n ih =>
      rw [advanceUpTo]
      cases h : e.step l with
      | none => exact .refl kind e
      | some e' => exact (Takes.of_step hl h).trans (ih e')

/-- What every step of a kind hands on, they hand on together. -/
theorem Takes.induction {P : Engine → Prop} (start : P e)
    (hand_on : ∀ {l e e'}, kind l = true → P e → e.Fires l e' → P e') (h : e.Takes kind e') :
    P e' := by
  obtain ⟨ls, hls, hkind⟩ := h
  refine follow_induction (P := fun ls e' => (∀ l ∈ ls, kind l = true) → P e')
    (fun _ => start) ?_ hls hkind
  intro ls e l e' _ ih r hkind
  obtain ⟨hbefore, hlast⟩ := List.forall_mem_append.mp hkind
  exact hand_on (hlast l (List.mem_singleton_self l)) (ih hbefore) r

end Engine

/-! ### Turns of the dispatcher -/

def Label.isDispatcher : Label → Bool
  | .look => true
  | .grant => true
  | .park => true
  | .stop => true
  | .reap => true
  | _ => false

def Label.isTurn : Label → Bool
  | .deliver => true
  | l => l.isDispatcher

theorem Label.obeys_of_isTurn {fate : Nat → Option (Except TrialFailure Timings)} {l : Label}
    (h : l.isTurn = true) : l.Obeys fate := by
  cases l with
  | complete | panic => cases h
  | _ => trivial

def Label.isCancel : Label → Bool
  | .cancel => true
  | _ => false

theorem Label.isCancel_of_isTurn {l : Label} (h : l.isTurn = true) : l.isCancel = false := by
  cases l <;> first | rfl | cases h

theorem Label.callee?_of_isTurn {l : Label} (h : l.isTurn = true) : l.callee? = none := by
  cases l <;> first | rfl | cases h

theorem Label.isTurn_of_isDispatcher {l : Label} (h : l.isDispatcher = true) :
    l.isTurn = true := by
  cases l <;> first | rfl | cases h

namespace Timeline

open Engine

variable {e e' : Engine} {l : Label}

theorem takes_admitUpTo (n : Nat) (e : Engine) : e.Takes Label.isDispatcher (admitUpTo n e) := by
  induction n generalizing e with
  | zero => exact .refl _ e
  | succ n ih =>
      rw [admitUpTo]
      cases hlook : e.step .look with
      | none => exact .refl _ e
      | some e₁ =>
          refine (Takes.of_step rfl hlook).trans ?_
          dsimp only
          cases hgrant : e₁.step .grant with
          | none => exact takes_advance rfl e₁
          | some e₂ => exact (Takes.of_step rfl hgrant).trans (ih e₂)

theorem takes_dispatch (e : Engine) : e.Takes Label.isDispatcher (dispatch e) :=
  ((takes_admitUpTo _ e).trans (takes_advance rfl _)).trans (takes_advanceUpTo rfl _ _)

/-- The dispatcher takes nothing out of the queue. -/
theorem queue_dispatch (e : Engine) : (dispatch e).queue = e.queue := by
  refine (takes_dispatch e).induction (P := fun e' => e'.queue = e.queue) rfl ?_
  intro l e₁ e₂ hl ih r
  cases r <;> first | exact ih | cases hl

/-- A dispatcher has admitted what it can when it would not even look any more. -/
theorem step_look_admitUpTo (n : Nat) (hn : e.count - e.dispatched ≤ n)
    (idle : e.dispatcher ≠ .reaching) :
    (admitUpTo n e).step .look = none ∧ (admitUpTo n e).dispatcher ≠ .reaching := by
  induction n generalizing e with
  | zero =>
      refine ⟨?_, idle⟩
      have hle : ¬e.dispatched < e.count := by omega
      simp [admitUpTo, step, hle]
  | succ n ih =>
      rw [admitUpTo]
      cases hlook : e.step .look with
      | none => exact ⟨hlook, idle⟩
      | some e₁ =>
          dsimp only
          cases fires_of_step hlook with
          | look may uncancelled left =>
              by_cases free : 0 < e.permits
              · have hgrant := (Fires.grant (e := { e with dispatcher := .reaching }) rfl free).step
                rw [hgrant]
                refine ih ?_ (by simp)
                show e.count - (e.dispatched + 1) ≤ n
                omega
              · have hnone : e.permits = 0 := Nat.eq_zero_of_not_pos free
                have hgrant : ({ e with dispatcher := .reaching } : Engine).step .grant = none := by
                  simp [step, hnone]
                have hpark := (Fires.park (e := { e with dispatcher := .reaching }) rfl hnone).step
                rw [hgrant]
                dsimp only
                rw [advance, hpark, Option.getD_some]
                exact ⟨by simp [step, mayLook, hnone], by simp⟩

/-- A dispatcher at rest: it waits for a permit, or it has seen to everybody who has ended. -/
def AtRest (e : Engine) : Prop :=
  (e.dispatcher = .waiting ∧ e.permits = 0 ∧ e.cancelled = false) ∨
    (e.dispatcher = .through ∧ e.ended = [])

/-- A dispatcher that would not look stops, unless it waits for a permit. -/
theorem advance_stop (hlook : e.step .look = none) (idle : e.dispatcher ≠ .reaching) :
    ((e.advance .stop).dispatcher = .waiting ∧ (e.advance .stop).permits = 0 ∧
      (e.advance .stop).cancelled = false) ∨ (e.advance .stop).dispatcher = .through := by
  by_cases hstop : (e.dispatcher = .looking ∨ e.dispatcher = .waiting) ∧
      (e.cancelled = true ∨ e.count ≤ e.dispatched)
  · rw [advance, (Fires.stop hstop.1 hstop.2).step]
    exact .inr rfl
  · have hsame : e.advance .stop = e := by simp [advance, step, hstop]
    rw [hsame]
    cases hd : e.dispatcher with
    | through => exact .inr rfl
    | reaching => exact absurd hd idle
    | looking =>
        simp only [hd, true_or, true_and, not_or, Bool.not_eq_true, Nat.not_le] at hstop
        simp [step, mayLook, hd, hstop] at hlook
    | waiting =>
        simp only [hd, or_true, true_and, not_or, Bool.not_eq_true, Nat.not_le] at hstop
        simp only [step, mayLook, hd, hstop] at hlook
        exact .inl ⟨rfl, by simpa using hlook, hstop.1⟩

/-- A dispatcher that admits nothing more sees to everybody who has ended. -/
theorem advanceUpTo_reap (n : Nat) (hn : e.ended.length ≤ n) (through : e.dispatcher = .through) :
    (advanceUpTo .reap n e).dispatcher = .through ∧ (advanceUpTo .reap n e).ended = [] := by
  induction n generalizing e with
  | zero => exact ⟨through, List.eq_nil_of_length_eq_zero (Nat.le_zero.mp hn)⟩
  | succ n ih =>
      rw [advanceUpTo]
      cases hreap : e.step .reap with
      | some e₁ =>
          cases fires_of_step hreap with
          | reapRegular _ ended | reapPanicked _ ended =>
              rw [ended, List.length_cons] at hn
              exact ih (Nat.le_of_succ_le_succ hn) through
      | none =>
          refine ⟨through, ?_⟩
          cases hended : e.ended with
          | nil => rfl
          | cons ending rest =>
              cases ending <;> simp [step, (isDispatching_eq_false e).mpr through, hended] at hreap

theorem atRest_dispatch (idle : e.dispatcher ≠ .reaching) : AtRest (dispatch e) := by
  obtain ⟨hlook, hidle⟩ := step_look_admitUpTo _ (Nat.le_refl (e.count - e.dispatched)) idle
  unfold dispatch
  dsimp only
  generalize hstop : (admitUpTo (e.count - e.dispatched) e).advance .stop = e₁
  have hrest := advance_stop hlook hidle
  rw [hstop] at hrest
  obtain ⟨waiting, none_free, uncancelled⟩ | through := hrest
  · have hreap : e₁.step .reap = none := by simp [step, isDispatching, waiting]
    have hsame : advanceUpTo .reap e₁.ended.length e₁ = e₁ := by
      cases e₁.ended.length with
      | zero => rfl
      | succ n => simp [advanceUpTo, hreap]
    rw [hsame]
    exact .inl ⟨waiting, none_free, uncancelled⟩
  · exact .inr (advanceUpTo_reap _ (Nat.le_refl _) through)

/-! ### Turns of the aggregator -/

theorem aggregate_eq (e : Engine) :
    aggregate e = { e with queue := [], aggregator := e.queue.foldl Aggregator.record e.aggregator } := by
  rw [aggregate]
  generalize hq : e.queue = q
  induction q generalizing e with
  | nil => cases e; cases hq; rfl
  | cons o rest ih =>
      rw [List.length_cons, advanceUpTo, (Fires.deliver hq).step]
      exact ih { e with queue := rest, aggregator := e.aggregator.record o } rfl

/-! ### Order between the steps -/

/-- Nobody cancels while the dispatcher is between a look and an admission. -/
def Calm (e : Engine) (l : Label) : Prop := l.isCancel = false ∨ e.dispatcher ≠ .reaching

/-- Some history leads to a state, and so many trials are called in it. -/
def Follows (s : Script) (e₀ : Engine) (n : Nat) (e : Engine) : Prop :=
  ∃ ls, e₀.follow ls = some e ∧ (∀ l ∈ ls, l.Obeys s.fate) ∧ (called ls).length = n ∧
    Steps.Always step Calm e₀ ls

/-- What is true of a timeline between any two steps. -/
structure Orderly (p : Plan) (s : Script) (e₀ : Engine) (t : Timeline) : Prop where
  /-- The engine has a history, in which as many trials are called as have been noted. -/
  history : Follows s e₀ t.calls.length t.engine
  sound : t.engine.Sound p
  running : t.engine.closed = false
  /-- It is known when each worker goes on. -/
  dues : t.dues.map Due.index = t.engine.workers.map Worker.index
  idle : t.engine.dispatcher ≠ .reaching
  /-- When nothing concerns dispatcher and aggregator, they have nothing to do. -/
  asleep : t.woken = false → t.engine.queue = [] ∧ AtRest t.engine
  peak : t.peak ≤ p.strategy.width

variable {p : Plan} {s : Script} {e₀ : Engine} {t : Timeline} {index n : Nat}

theorem Follows.fires (h : Follows s e₀ n e) (r : e.Fires l e') (obeys : l.Obeys s.fate)
    (calm : Calm e l) : Follows s e₀ (n + l.callee?.toList.length) e' := by
  obtain ⟨ls, hls, hobeys, rfl, hcalm⟩ := h
  refine ⟨ls ++ [l], follow_concat hls r, ?_, ?_, hcalm.append fun e₁ he₁ => ?_⟩
  · exact List.forall_mem_append.mpr ⟨hobeys, List.forall_mem_singleton.mpr obeys⟩
  · rw [called_concat, List.length_append]
  · obtain rfl := Option.some.inj (he₁.symm.trans hls)
    exact .singleton calm

theorem Follows.takes_turn (h : Follows s e₀ n e) (r : e.Takes Label.isTurn e') :
    Follows s e₀ n e' := by
  refine r.induction h fun hl ih r => ?_
  have hfires := ih.fires r (Label.obeys_of_isTurn hl) (.inl (Label.isCancel_of_isTurn hl))
  rwa [Label.callee?_of_isTurn hl] at hfires

theorem map_index_setDue (t : Timeline) (index instant : Nat) :
    (t.setDue index instant).dues.map Due.index = t.dues.map Due.index := by
  simp only [setDue, List.map_map]
  refine List.map_congr_left fun d _ => ?_
  by_cases h : d.index = index <;> simp [h]

theorem map_index_dropDue (t : Timeline) (index : Nat) :
    (t.dropDue index).dues.map Due.index = (t.dues.map Due.index).filter (· ≠ index) := by
  rw [List.filter_map]
  rfl

theorem Orderly.start (hs : e₀.Sound p) (running : e₀.closed = false) (workers : e₀.workers = [])
    (idle : e₀.dispatcher ≠ .reaching) (now : Nat) (cancelAt : Option Nat) :
    (Timeline.start e₀ now cancelAt).Orderly p s e₀ where
  history := ⟨[], rfl, nofun, rfl, trivial⟩
  sound := hs
  running := running
  dues := by simp [Timeline.start, workers]
  idle := idle
  asleep := nofun
  peak := Nat.zero_le _

/-- Somebody cancels.  Only a dispatcher that still waits need take notice. -/
theorem Orderly.cancel (h : t.Orderly p s e₀) : t.cancel.Orderly p s e₀ := by
  rw [Timeline.cancel]
  cases hstep : t.engine.step .cancel with
  | none => exact h
  | some e =>
      have r := fires_of_step hstep
      have hhistory := h.history.fires r trivial (.inr h.idle)
      have hsound := h.sound.fires r
      cases r with
      | cancel uncancelled =>
          refine
            { history := hhistory
              sound := hsound
              running := h.running
              dues := ?_
              idle := h.idle
              asleep := fun hwoken => ?_
              peak := h.peak }
          · rw [← h.dues, List.map_map]
            refine List.map_congr_left fun d _ => ?_
            dsimp only [Function.comp_apply]
            split <;> rfl
          · -- A dispatcher that waits is woken, so this one has seen to everybody.
            obtain ⟨hwoken, hthrough⟩ := Bool.or_eq_false_iff.mp hwoken
            obtain ⟨hqueue, ⟨waiting, -⟩ | hrest⟩ := h.asleep hwoken
            · simp [isDispatching, waiting] at hthrough
            · exact ⟨hqueue, .inr hrest⟩

theorem Orderly.beginTrial (h : t.Orderly p s e₀) : (t.beginTrial s index).Orderly p s e₀ := by
  rw [Timeline.beginTrial]
  cases hstep : t.engine.step (.call index) with
  | none => exact h
  | some e =>
      have r := fires_of_step hstep
      have hhistory := h.history.fires r trivial (.inl rfl)
      have hsound := h.sound.fires r
      cases r with
      | call at_stage =>
          have hbegun : ({ t with
              engine := t.engine.setStage index .executing
              calls := t.calls ++ [t.now]
              peak := max t.peak (t.engine.setStage index .executing).inFlight }.setDue index
                (t.now + (s.trial index).delay.toNanos)).Orderly p s e₀ := by
            refine
              { history := ?_
                sound := hsound
                running := h.running
                dues := ?_
                idle := h.idle
                asleep := h.asleep
                peak := max_le h.peak hsound.inFlight_le_width }
            · show Follows s e₀ (t.calls ++ [t.now]).length _
              rw [List.length_append]
              exact hhistory
            · rw [map_index_setDue]
              exact h.dues.trans indices_setStage.symm
          dsimp only
          split
          · exact hbegun.cancel
          · exact hbegun

theorem Orderly.endTrial (h : t.Orderly p s e₀) : (t.endTrial s index).Orderly p s e₀ := by
  rw [Timeline.endTrial]
  split
  · cases hfate : (s.trial index).result with
    | some result =>
        dsimp only
        rw [advance]
        cases hstep : t.engine.step (.complete index result) with
        | none => exact h
        | some e =>
            have r := fires_of_step hstep
            have hhistory := h.history.fires r hfate (.inl rfl)
            have hsound := h.sound.fires r
            cases r with
            | complete at_stage =>
                exact
                  { history := hhistory
                    sound := hsound
                    running := h.running
                    dues := h.dues.trans indices_setStage.symm
                    idle := h.idle
                    asleep := h.asleep
                    peak := h.peak }
    | none =>
        dsimp only
        cases hstep : t.engine.step (.panic index) with
        | none => exact h
        | some e =>
            have r := fires_of_step hstep
            have hhistory := h.history.fires r hfate (.inl rfl)
            have hsound := h.sound.fires r
            cases r with
            | panic at_stage =>
                exact
                  { history := hhistory
                    sound := hsound
                    running := h.running
                    dues := by
                      show (t.dropDue index).dues.map Due.index = _
                      rw [map_index_dropDue, h.dues, indices_endWorker]
                    idle := h.idle
                    asleep := nofun
                    peak := h.peak }
  · exact h

theorem Orderly.handIn (h : t.Orderly p s e₀) : (t.handIn s index).Orderly p s e₀ := by
  rw [Timeline.handIn]
  cases hstep : t.engine.step (.handIn index) with
  | none => exact h
  | some e =>
      have r := fires_of_step hstep
      have hhistory := h.history.fires r trivial (.inl rfl)
      have hsound := h.sound.fires r
      cases r with
      | @handIn _ result at_stage =>
          have hhanded : ({ t with
              engine := t.engine.afterHandIn index result
              woken := true } : Timeline).Orderly p s e₀ :=
            { history := hhistory
              sound := hsound
              running := h.running
              dues := by
                rw [afterHandIn, indices_setStage]
                exact h.dues
              idle := h.idle
              asleep := nofun
              peak := h.peak }
          dsimp only
          split
          · exact { hhanded with dues := (map_index_setDue _ _ _).trans hhanded.dues }
          · exact hhanded

theorem Orderly.wake (h : t.Orderly p s e₀) : (t.wake index).Orderly p s e₀ := by
  rw [Timeline.wake]
  split
  · rw [advance]
    cases hstep : t.engine.step (.wake index) with
    | none => exact h
    | some e =>
        have r := fires_of_step hstep
        have hhistory := h.history.fires r trivial (.inl rfl)
        have hsound := h.sound.fires r
        cases r with
        | wake at_stage =>
            exact
              { history := hhistory
                sound := hsound
                running := h.running
                dues := h.dues.trans indices_setStage.symm
                idle := h.idle
                asleep := h.asleep
                peak := h.peak }
  · exact h

theorem Orderly.retire (h : t.Orderly p s e₀) : (t.retire index).Orderly p s e₀ := by
  rw [Timeline.retire]
  cases hstep : t.engine.step (.retire index) with
  | none => exact h
  | some e =>
      have r := fires_of_step hstep
      have hhistory := h.history.fires r trivial (.inl rfl)
      have hsound := h.sound.fires r
      cases r with
      | retire at_stage =>
          exact
            { history := hhistory
              sound := hsound
              running := h.running
              dues := by
                show (t.dropDue index).dues.map Due.index = _
                rw [map_index_dropDue, h.dues, indices_endWorker]
              idle := h.idle
              asleep := nofun
              peak := h.peak }

theorem Orderly.goOn (h : t.Orderly p s e₀) (index : Nat) :
    (t.goOn s index).Orderly p s e₀ :=
  h.beginTrial.endTrial.handIn.wake.retire

theorem Orderly.work (h : t.Orderly p s e₀) : (t.work s).Orderly p s e₀ := by
  rw [Timeline.work]
  generalize ((t.dues.filter fun d => d.instant ≤ t.now).map Due.index) = indices
  induction indices generalizing t with
  | nil => exact h
  | cons index indices ih => exact ih (h.goOn index)

/-! ### Turns -/

theorem takes_turn_dispatch (e : Engine) : e.Takes Label.isTurn (dispatch e) := by
  obtain ⟨ls, hls, hkind⟩ := takes_dispatch e
  exact ⟨ls, hls, fun l hl => Label.isTurn_of_isDispatcher (hkind l hl)⟩

theorem takes_turn_aggregate (e : Engine) : e.Takes Label.isTurn (aggregate e) :=
  takes_advanceUpTo rfl _ _

/-- What dispatcher and aggregator make of the state of a run, whoever of them is the first. -/
theorem takes_turn (t : Timeline) : t.engine.Takes Label.isTurn t.turn.engine := by
  rw [turn]
  dsimp only
  split
  · exact (takes_turn_aggregate _).trans (takes_turn_dispatch _)
  · exact (takes_turn_dispatch _).trans (takes_turn_aggregate _)

/-- After a turn neither of the two has anything left to do. -/
theorem atRest_turn (idle : t.engine.dispatcher ≠ .reaching) :
    t.turn.engine.queue = [] ∧ AtRest t.turn.engine := by
  rw [turn]
  dsimp only
  split
  · rw [aggregate_eq]
    exact ⟨queue_dispatch _, atRest_dispatch idle⟩
  · rw [aggregate_eq]
    exact ⟨rfl, atRest_dispatch idle⟩

/-- In a turn no worker goes on; new ones, who have just been admitted, come after those who live. -/
theorem workers_of_takes_turn (h : e.Takes Label.isTurn e') :
    e.dispatched ≤ e'.dispatched ∧ e'.workers = e.workers ++
      (List.range' e.dispatched (e'.dispatched - e.dispatched)).map (Worker.mk · .admitted) := by
  refine h.induction (P := fun e' => e.dispatched ≤ e'.dispatched ∧ e'.workers = e.workers ++
    (List.range' e.dispatched (e'.dispatched - e.dispatched)).map (Worker.mk · .admitted)) ?_ ?_
  · exact ⟨Nat.le_refl _, by simp⟩
  · intro l e₁ e₂ hl ih r
    obtain ⟨hle, hworkers⟩ := ih
    -- Of the steps in a turn only an admission changes who lives.
    cases r with
    | grant =>
        refine ⟨Nat.le_succ_of_le hle, ?_⟩
        rw [hworkers, List.append_assoc, Nat.succ_sub hle, List.range'_concat]
        simp [Nat.add_sub_cancel' hle]
    | call | complete | panic | handIn | wake | retire | cancel | observe | leave | close => cases hl
    | _ => exact ⟨hle, hworkers⟩

theorem indices_of_takes_turn (h : e.Takes Label.isTurn e') : e.dispatched ≤ e'.dispatched ∧
    e'.workers.map Worker.index =
      e.workers.map Worker.index ++ List.range' e.dispatched (e'.dispatched - e.dispatched) := by
  obtain ⟨hle, hworkers⟩ := workers_of_takes_turn h
  refine ⟨hle, ?_⟩
  rw [hworkers, List.map_append, List.map_map]
  exact congrArg _ (List.map_id _)

theorem closed_of_takes_turn (h : e.Takes Label.isTurn e') : e'.closed = e.closed := by
  refine h.induction (P := fun e' => e'.closed = e.closed) rfl ?_
  intro l e₁ e₂ hl ih r
  cases r <;> first | exact ih | cases hl

/-- The dues that a turn adds are those of the workers it has admitted. -/
theorem map_index_newDues (hs : e.Sound p) (h : e.Takes Label.isTurn t.engine) :
    (newDues e.dispatched t).map Due.index =
      List.range' e.dispatched (t.engine.dispatched - e.dispatched) := by
  have hold : (e.workers.map Worker.index).filter (fun i => e.dispatched ≤ i) = [] := by
    rw [List.filter_eq_nil_iff]
    intro i hi
    have hlt : i < e.dispatched := List.mem_range.mp (hs.indices.subset hi)
    simp [hlt]
  have hnew : (List.range' e.dispatched (t.engine.dispatched - e.dispatched)).filter
      (fun i => e.dispatched ≤ i) =
        List.range' e.dispatched (t.engine.dispatched - e.dispatched) := by
    rw [List.filter_eq_self]
    intro i hi
    simpa using (List.mem_range'_1.mp hi).1
  calc (newDues e.dispatched t).map Due.index
    _ = (t.engine.workers.map Worker.index).filter (fun i => e.dispatched ≤ i) := by
        rw [newDues, List.map_map, List.filter_map]
        rfl
    _ = List.range' e.dispatched (t.engine.dispatched - e.dispatched) := by
        rw [(indices_of_takes_turn h).2, List.filter_append, hold, hnew, List.nil_append]

theorem Orderly.turn (h : t.Orderly p s e₀) : t.turn.Orderly p s e₀ := by
  have htakes := takes_turn t
  have hrest := atRest_turn h.idle
  refine
    { history := h.history.takes_turn htakes
      sound := ?_
      running := (closed_of_takes_turn htakes).trans h.running
      dues := ?_
      idle := ?_
      asleep := fun _ => hrest
      peak := h.peak }
  · exact htakes.induction (P := fun e => e.Sound p) h.sound fun _ hs r => hs.fires r
  · rw [(indices_of_takes_turn htakes).2, ← h.dues,
      ← map_index_newDues (t := t.turn) h.sound htakes, ← List.map_append]
    rfl
  · obtain ⟨-, ⟨waiting, -⟩ | ⟨through, -⟩⟩ := hrest
    · rw [waiting]
      nofun
    · rw [through]
      nofun

theorem Orderly.tick (h : t.Orderly p s e₀) : t.tick.Orderly p s e₀ := by
  rw [Timeline.tick]
  split
  · exact h
  · dsimp only
    split
    · split
      · exact Orderly.cancel (t := { t with now := _, cancelAt := none }) { h with }
      · exact { h with }
    · exact { h with }

theorem Orderly.round (h : t.Orderly p s e₀) : (t.round s).Orderly p s e₀ := by
  unfold Timeline.round
  dsimp only
  split
  · exact h.work.turn
  · exact h.work.tick

end Timeline

end ProxyTiming.Run
