import Mathlib.Data.List.Nodup
import ProxyTiming.Proofs.Run.History
import ProxyTiming.Proofs.Run.Recording

/-!
# Sound states

What is true in every state that a run can come to, whatever its history: the permits add
up, the workers that live are among those that have been admitted and no two of them carry
out the same trial, no more trials are admitted than were asked for, and a run that is over
has nothing left to do.

These facts are about the state alone.  What a state owes to its history is told in the
modules that follow.
-/

namespace ProxyTiming.Run

open ProxyTiming.Time

/-! ### Numbered things -/

section

variable {α : Type} (key : α → Nat) (l : List α) (i j : Nat)

theorem find?_of_mem {a : α} (unique : (l.map key).Nodup) (ha : a ∈ l) :
    l.find? (fun b => key b == key a) = some a := by
  obtain ⟨b, hb⟩ := Option.isSome_iff_exists.mp
    (List.find?_isSome (p := fun b => key b == key a).mpr ⟨a, ha, by simp⟩)
  have heq : key b = key a := by simpa using List.find?_some hb
  rwa [List.inj_on_of_nodup_map unique (List.mem_of_find?_eq_some hb) ha heq] at hb

/-- One of some numbered things is exchanged for another one with its number. -/
theorem find?_exchange (a : α) (ha : key a = i) :
    (l.map fun b => if key b = i then a else b).find? (fun b => key b == j) =
      if j = i then (l.find? fun b => key b == j).map fun _ => a
      else l.find? fun b => key b == j := by
  have hsame : ((fun b => key b == j) ∘ fun b => if key b = i then a else b) =
      fun b => key b == j := by
    funext b
    by_cases h : key b = i <;> simp [h, ha]
  rw [List.find?_map, hsame]
  cases hb : l.find? fun b => key b == j with
  | none => simp
  | some b =>
      have hkey : key b = j := by simpa using List.find?_some hb
      by_cases h : j = i <;> simp [hkey, h]

/-- One of some numbered things is taken out. -/
theorem find?_remove :
    (l.filter fun b => key b ≠ i).find? (fun b => key b == j) =
      if j = i then none else l.find? fun b => key b == j := by
  rw [List.find?_filter]
  by_cases h : j = i
  · rw [if_pos h, List.find?_eq_none]
    intro b _
    simp [h]
  · rw [if_neg h]
    congr 1
    funext b
    by_cases hb : key b = j <;> simp [hb, h]

end

/-! ### One worker and the others -/

theorem workers_perm_of_find? {index : Nat} {w : Worker} {ws : List Worker}
    (unique : (ws.map Worker.index).Nodup) (found : ws.find? (fun w => w.index == index) = some w) :
    ws.Perm (w :: ws.filter fun w => w.index ≠ index) := by
  induction ws with
  | nil => cases found
  | cons v ws ih =>
      rw [List.map_cons, List.nodup_cons] at unique
      by_cases hv : v.index = index
      · obtain rfl : v = w := by simpa [hv] using found
        have hothers : (ws.filter fun w => w.index ≠ index) = ws := by
          rw [List.filter_eq_self]
          intro u hu
          have hne : u.index ≠ v.index := fun heq => unique.1 (heq ▸ List.mem_map_of_mem hu)
          simpa [hv] using hne
        rw [List.filter_cons_of_neg (by simp [hv]), hothers]
      · rw [List.find?_cons_of_neg (by simp [hv])] at found
        rw [List.filter_cons_of_pos (by simp [hv])]
        exact ((ih unique.2 found).cons v).trans (List.Perm.swap _ _ _)

namespace Engine

variable {e e' : Engine} {l : Label} {index : Nat} {s s' : Stage} {ending : Ending}

def others (e : Engine) (index : Nat) : List Worker := e.workers.filter fun w => w.index ≠ index

/-- A worker at a stage, and the others. -/
theorem workers_perm (unique : (e.workers.map Worker.index).Nodup)
    (at_stage : e.stage? index = some s) : e.workers.Perm (⟨index, s⟩ :: e.others index) := by
  obtain ⟨w, hfind, hs⟩ := Option.map_eq_some_iff.mp at_stage
  have hw : w.index = index := by simpa using List.find?_some hfind
  have hperm := workers_perm_of_find? unique hfind
  rwa [show w = ⟨index, s⟩ by cases w; simp_all] at hperm

/-- The worker at its next stage, and the same others. -/
theorem workers_setStage_perm (unique : (e.workers.map Worker.index).Nodup)
    (at_stage : e.stage? index = some s) :
    (e.setStage index s').workers.Perm (⟨index, s'⟩ :: e.others index) := by
  have hothers : (e.others index).map (fun w => if w.index = index then Worker.mk index s' else w) =
      e.others index := by
    refine (List.map_congr_left fun w hw => ?_).trans (List.map_id _)
    have hne : w.index ≠ index := by simpa using (List.mem_filter.mp hw).2
    exact if_neg hne
  have hperm := (workers_perm unique at_stage).map
    fun w => if w.index = index then Worker.mk index s' else w
  rwa [List.map_cons, hothers, if_pos rfl] at hperm

theorem workers_afterHandIn_perm (unique : (e.workers.map Worker.index).Nodup)
    (at_stage : e.stage? index = some s) (result : Except TrialFailure Timings) :
    (e.afterHandIn index result).workers.Perm
      (⟨index, if e.paced then .pacing else .leaving⟩ :: e.others index) :=
  workers_setStage_perm (e := { e with queue := e.queue ++ [Outcome.mk index result] })
    unique at_stage

@[simp] theorem workers_endWorker : (e.endWorker index ending).workers = e.others index := rfl

@[simp] theorem indices_setStage :
    (e.setStage index s).workers.map Worker.index = e.workers.map Worker.index := by
  simp only [setStage, List.map_map]
  refine List.map_congr_left fun w _ => ?_
  by_cases h : w.index = index <;> simp [h]

theorem indices_endWorker (e : Engine) (index : Nat) (ending : Ending) :
    (e.endWorker index ending).workers.map Worker.index =
      (e.workers.map Worker.index).filter (· ≠ index) := by
  rw [List.filter_map]
  rfl

theorem length_others (unique : (e.workers.map Worker.index).Nodup)
    (at_stage : e.stage? index = some s) : (e.others index).length + 1 = e.workers.length := by
  simpa using (workers_perm unique at_stage).length_eq.symm

end Engine

def Plan.heading (p : Plan) : Heading := ⟨p.testName, p.clientName, p.targetUrl, p.count⟩

/-! ### Sound states -/

/-- What is true of every state of a run. -/
structure Engine.Sound (p : Plan) (e : Engine) : Prop where
  count : e.count = p.count
  /-- A permit is free or held by a worker that lives. -/
  permits : e.permits + e.workers.length = p.strategy.width
  /-- The workers live in the order of their admission, and have different numbers. -/
  indices : (e.workers.map Worker.index).Sublist (List.range e.dispatched)
  dispatched_le : e.dispatched ≤ e.count
  /-- A dispatcher that wants a permit has a trial left. -/
  left : e.dispatcher = .reaching ∨ e.dispatcher = .waiting → e.dispatched < e.count
  /-- A dispatcher that admits nothing more has a reason. -/
  through : e.dispatcher = .through → e.cancelled = true ∨ e.dispatched = e.count
  slots : e.run.trials.length = e.count
  counted : Counted e.run
  finished : e.closed = true → e.isSettled = true ∧ e.run.status = e.finalStatus

namespace Engine

variable {e e' : Engine} {l : Label} {index : Nat}

theorem Sound.unique {p : Plan} (h : e.Sound p) : (e.workers.map Worker.index).Nodup :=
  h.indices.nodup List.nodup_range

theorem Sound.start (p : Plan) (now : Instant) (cancelled : Bool) (journal : Journal) :
    (Engine.start p now cancelled journal).Sound p where
  count := rfl
  permits := rfl
  indices := List.Sublist.refl _
  dispatched_le := Nat.zero_le _
  left := by rintro (h | h) <;> cases h
  through := nofun
  slots := List.length_replicate
  counted := counted_of_empty rfl rfl rfl
  finished := nofun

theorem Sound.inFlight_le_width {p : Plan} (h : e.Sound p) : e.inFlight ≤ p.strategy.width := by
  have hcount : e.inFlight ≤ e.workers.length := List.countP_le_length
  have hsum := h.permits
  omega

theorem isSettled_iff (e : Engine) : e.isSettled = true ↔
    e.dispatcher = .through ∧ e.workers = [] ∧ e.ended = [] ∧ e.queue = [] := by
  simp [isSettled, isDispatching_eq_false, and_assoc]

@[simp] theorem stage?_eq_none_of_nil (h : e.workers = []) : e.stage? index = none := by
  simp [stage?, h]

/-- Permits are neither lost nor made: one is taken as a worker is admitted, and one is given back
as a worker ends, in whichever way it does. -/
theorem permits_add_length_of_fires (unique : (e.workers.map Worker.index).Nodup)
    (r : e.Fires l e') :
    e'.permits + e'.workers.length = e.permits + e.workers.length := by
  cases r with
  | grant _ free =>
      simp only [List.length_append, List.length_singleton]
      omega
  | panic at_stage | retire at_stage =>
      have hlen := length_others unique at_stage
      rw [workers_endWorker]
      simp only [endWorker]
      omega
  | call | complete | wake | handIn => simp [afterHandIn, setStage]
  | _ => rfl

theorem indices_of_fires (h : (e.workers.map Worker.index).Sublist (List.range e.dispatched))
    (r : e.Fires l e') :
    (e'.workers.map Worker.index).Sublist (List.range e'.dispatched) := by
  cases r with
  | grant =>
      rw [List.map_append, List.range_succ]
      exact h.append (List.Sublist.refl _)
  | panic | retire => exact (List.filter_sublist.map _).trans h
  | call | complete | wake =>
      rw [indices_setStage]
      exact h
  | handIn =>
      rw [afterHandIn, indices_setStage]
      exact h
  | _ => exact h

theorem slots_of_fires (r : e.Fires l e') : e'.run.trials.length = e.run.trials.length := by
  cases r with
  | @deliver o rest _ =>
      rw [run, Aggregator.run_record]
      cases h : e.aggregator.run.record? o.index o.timings with
      | none => rfl
      | some run => exact length_trials_record? h
  | _ => rfl

theorem counted_of_fires (h : Counted e.run) (r : e.Fires l e') : Counted e'.run := by
  cases r with
  | @deliver o rest _ =>
      rw [run, Aggregator.run_record]
      cases hrec : e.aggregator.run.record? o.index o.timings with
      | none => exact h
      | some run => exact h.record? hrec
  | _ => exact ⟨h.success, h.failed⟩

theorem heading_of_fires (r : e.Fires l e') : e'.run.heading = e.run.heading := by
  cases r with
  | @deliver o rest _ =>
      rw [run, Aggregator.run_record]
      cases h : e.aggregator.run.record? o.index o.timings with
      | none => rfl
      | some run => exact heading_record? h
  | _ => rfl

/-- A run that is over changes no more in anything that counts. -/
theorem finished_of_fires
    (h : e.closed = true → e.isSettled = true ∧ e.run.status = e.finalStatus)
    (r : e.Fires l e') :
    e'.closed = true → e'.isSettled = true ∧ e'.run.status = e'.finalStatus := by
  intro hclosed
  -- Every rule but the last few needs something that is not there in a settled state.
  cases r with
  | close settled => exact ⟨settled, rfl⟩
  | look may =>
      obtain ⟨hthrough, -⟩ := (isSettled_iff e).mp (h hclosed).1
      simp [mayLook, hthrough] at may
  | grant reaching | park reaching =>
      obtain ⟨hthrough, -⟩ := (isSettled_iff e).mp (h hclosed).1
      simp [hthrough] at reaching
  | stop idle =>
      obtain ⟨hthrough, -⟩ := (isSettled_iff e).mp (h hclosed).1
      simp [hthrough] at idle
  | call at_stage | complete at_stage | panic at_stage | handIn at_stage | wake at_stage
  | retire at_stage =>
      obtain ⟨-, hworkers, -⟩ := (isSettled_iff e).mp (h hclosed).1
      simp [hworkers] at at_stage
  | deliver queued =>
      obtain ⟨-, -, -, hqueue⟩ := (isSettled_iff e).mp (h hclosed).1
      simp [hqueue] at queued
  | reapRegular _ ended | reapPanicked _ ended =>
      obtain ⟨-, -, hended, -⟩ := (isSettled_iff e).mp (h hclosed).1
      simp [hended] at ended
  | cancel | observe | leave => exact h hclosed

/-- The rules lead from sound states to sound states. -/
theorem Sound.fires {p : Plan} (h : e.Sound p) (r : e.Fires l e') : e'.Sound p where
  count := by cases r <;> exact h.count
  permits := (permits_add_length_of_fires h.unique r).trans h.permits
  indices := indices_of_fires h.indices r
  dispatched_le := by
    cases r with
    | grant reaching => exact h.left (.inl reaching)
    | _ => exact h.dispatched_le
  left := by
    cases r with
    | look _ _ left => exact fun _ => left
    | grant => rintro (h | h) <;> cases h
    | park reaching => exact fun _ => h.left (.inl reaching)
    | stop => rintro (h | h) <;> cases h
    | _ => exact h.left
  through := by
    cases r with
    | look => nofun
    | grant => nofun
    | park => nofun
    | stop _ reason => exact fun _ => reason.imp_right fun hle => Nat.le_antisymm h.dispatched_le hle
    | cancel => exact fun _ => .inl rfl
    | _ => exact h.through
  slots := by
    rw [slots_of_fires r, h.slots]
    cases r <;> rfl
  counted := counted_of_fires h.counted r
  finished := finished_of_fires h.finished r

theorem Sound.follow {p : Plan} {e₀ : Engine} {ls : List Label} (h₀ : e₀.Sound p)
    (h : e₀.follow ls = some e) : e.Sound p :=
  follow_induction (P := fun _ e => e.Sound p) h₀ (fun _ hs r => hs.fires r) h

theorem sound_of_follow {p : Plan} {now : Instant} {cancelled : Bool} {journal : Journal}
    {ls : List Label} (h : (Engine.start p now cancelled journal).follow ls = some e) :
    e.Sound p :=
  (Sound.start p now cancelled journal).follow h

/-- A run is of what was planned, whatever happens in it. -/
theorem heading_of_follow {p : Plan} {now : Instant} {cancelled : Bool} {journal : Journal}
    {ls : List Label} (h : (Engine.start p now cancelled journal).follow ls = some e) :
    e.run.heading = p.heading :=
  follow_induction (P := fun _ e => e.run.heading = p.heading) rfl
    (fun _ hheading r => (heading_of_fires r).trans hheading) h

end Engine

end ProxyTiming.Run
