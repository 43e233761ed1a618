import ProxyTiming.Proofs.Suite.Agenda
import ProxyTiming.Proofs.Suite.Moves

/-!
# Whole courses

A suite begins with a promise: the runs on its agenda.  No move breaks it.  The runs that have
been made, the one that is under way and those that are still on the agenda are always the
runs that have been promised, in their order; so what a suite returns is the first part of
it, and all of it if nothing is left.

When somebody has cancelled, the suite makes one more run at most, in which no trial is
admitted that has not already been waved through.  And whatever happens, a suite can be
worked through to its end.
-/

namespace ProxyTiming.Suite

open ProxyTiming.Run ProxyTiming.Config ProxyTiming.Time

def Move.isConclude : Move → Bool
  | .conclude => true
  | _ => false

def Move.isGrant : Move → Bool
  | .inside l => l.isGrant
  | _ => false

def Move.isLook : Move → Bool
  | .inside .look => true
  | _ => false

def Activity.heading? : Activity → Option Heading
  | .running _ e => some e.run.heading
  | _ => none

namespace Course

variable {plan : Client → Scenario → Plan} {c c' c₀ : Course} {m : Move} {ms : List Move}
  {client : Client} {e e' : Engine}

/-! ### The promise -/

/-- What the runs are of that have been made, are under way, and are still to be made. -/
def promised (plan : Client → Scenario → Plan) (c : Course) : List Heading :=
  c.entries.map (·.run.heading) ++ c.activity.heading?.toList ++ headings plan c.agenda

theorem promised_of_fires (r : c.Fires plan m c') : promised plan c' = promised plan c := by
  cases r with
  | finish choosing => simp [promised, choosing, Activity.heading?, note]
  | skip choosing item | pause choosing item =>
      simp only [promised, choosing, item, Activity.heading?, note]
      rfl
  | @begin now client sc rest choosing item =>
      have hstart : (Engine.start (plan client sc) now c.cancelled c.journal).run.heading =
          (plan client sc).heading := rfl
      simp [promised, choosing, item, headings, Item.heading?, Activity.heading?, within, hstart]
  | inside running r =>
      simp [promised, running, Activity.heading?, within, Engine.heading_of_fires r]
  | conclude running => simp [promised, running, Activity.heading?]
  | stop checking => simp [promised, checking, Activity.heading?, note]
  | goOn checking => simp [promised, checking, Activity.heading?]
  | resume pausing => simp [promised, pausing, Activity.heading?]
  | cancel => rfl

theorem promised_of_follow (h : c₀.follow plan ms = some c) :
    promised plan c = promised plan c₀ :=
  follow_induction (P := fun _ c => promised plan c = promised plan c₀) rfl
    (fun _ ih r => (promised_of_fires r).trans ih) h

/-! ### After a cancellation -/

theorem cancelled_iff (h₀ : c₀.Sound) (h : c₀.follow plan ms = some c) :
    c.cancelled = true ↔ c₀.cancelled = true ∨ ∃ m ∈ ms, m.isCancel = true := by
  refine follow_induction (P := fun ms c =>
    c.cancelled = true ↔ c₀.cancelled = true ∨ ∃ m ∈ ms, m.isCancel = true) (by simp) ?_ h
  intro ms c m c' hms ih r
  rw [cancelled_iff_of_fires (h₀.follow hms) r, ih]
  simp [or_and_right, exists_or, or_assoc]

/-- How many runs a suite still adds when somebody has cancelled. -/
def toCome (c : Course) : Nat :=
  match c.activity with
  | .choosing | .running _ _ | .pausing => 1
  | .checking _ | .finished => 0

def inHand (c : Course) : Nat :=
  match c.activity with
  | .running _ e => e.inHand
  | _ => 0

theorem toCome_of_fires (hcancelled : c.cancelled = true) (r : c.Fires plan m c') :
    m.isConclude.toNat + c'.toCome ≤ c.toCome := by
  cases r with
  | finish => exact Nat.zero_le _
  | skip choosing => exact Nat.le_of_eq (Nat.zero_add _)
  | pause choosing | begin _ choosing =>
      rw [toCome, toCome, choosing]
      exact Nat.le_refl 1
  | inside running | conclude running =>
      rw [toCome, toCome, running]
      exact Nat.le_refl 1
  | stop => exact Nat.zero_le _
  | goOn _ uncancelled =>
      rw [hcancelled] at uncancelled
      cases uncancelled
  | resume pausing =>
      rw [toCome, toCome, pausing]
      exact Nat.le_refl 1
  | cancel => exact Nat.le_of_eq (Nat.zero_add _)

theorem inHand_of_fires (h : c.Sound) (hcancelled : c.cancelled = true)
    (r : c.Fires plan m c') : m.isGrant.toNat + c'.inHand ≤ c.inHand ∧ m.isLook = false := by
  cases r with
  | @inside client e e' l running r =>
      obtain ⟨hsame, -⟩ := h.running _ _ running
      rw [← hsame] at hcancelled
      have hgrant := Engine.isGrant_add_inHand_le hcancelled r
      refine ⟨?_, ?_⟩
      · simp only [inHand, running]
        exact hgrant
      · cases r with
        | look _ uncancelled =>
            change e.cancelled = true at hcancelled
            rw [hcancelled] at uncancelled
            cases uncancelled
        | _ => rfl
  | skip | cancel => exact ⟨Nat.le_of_eq (Nat.zero_add _), rfl⟩
  | _ => exact ⟨Nat.zero_le _, rfl⟩

/-- When somebody has cancelled, one run more is added at most, no dispatcher looks with success,
and no trial is admitted but one that was about to be. -/
theorem late_of_follow (h₀ : c₀.Sound) (hcancelled : c₀.cancelled = true)
    (h : c₀.follow plan ms = some c) :
    ms.countP Move.isConclude ≤ c₀.toCome ∧ ms.countP Move.isGrant ≤ c₀.inHand ∧
      ms.countP Move.isLook = 0 := by
  have hinvariant : ms.countP Move.isConclude + c.toCome ≤ c₀.toCome ∧
      ms.countP Move.isGrant + c.inHand ≤ c₀.inHand ∧ ms.countP Move.isLook = 0 := by
    refine follow_induction (P := fun ms c =>
      ms.countP Move.isConclude + c.toCome ≤ c₀.toCome ∧
        ms.countP Move.isGrant + c.inHand ≤ c₀.inHand ∧ ms.countP Move.isLook = 0) (by simp) ?_ h
    intro ms c m c' hms ⟨hconclude, hgrant, hlook⟩ r
    have hs := h₀.follow hms
    -- A cancellation is not taken back, so every move is one of a suite that is cancelled.
    have hstill := (cancelled_iff h₀ hms).mpr (.inl hcancelled)
    have hconclude' := toCome_of_fires hstill r
    obtain ⟨hgrant', hlook'⟩ := inHand_of_fires hs hstill r
    simp only [List.countP_append, List.countP_singleton, hlook, hlook']
    cases hm : m.isConclude <;> cases hm' : m.isGrant <;>
      simp [hm, hm'] at hconclude' hgrant' ⊢ <;> omega
  omega

/-! ### The end -/

theorem follow_inside {ls : List Label} (h : e.follow ls = some e') :
    (c.within client e).follow plan (ls.map .inside) = some (c.within client e') := by
  refine Engine.follow_induction (P := fun ls e' =>
    (c.within client e).follow plan (ls.map .inside) = some (c.within client e')) rfl ?_ h
  -- The suite takes token and journal over from the run after every step.
  intro ls e₁ l e₂ _ ih r
  rw [List.map_append]
  have hmove : (c.within client e₁).Fires plan (.inside l) (c.within client e₂) :=
    Fires.inside (c := c.within client e₁) rfl r
  exact Steps.foldlM_append ih ((Steps.foldlM_singleton _ _).trans hmove.step)

def Narrow (plan : Client → Scenario → Plan) (items : List Item) : Prop :=
  ∀ client sc, .run client sc ∈ items → (plan client sc).strategy.width ≤ maxWidth

/-- Items are taken off the agenda at its front. -/
theorem agenda_of_fires (r : c.Fires plan m c') : c'.agenda <:+ c.agenda := by
  cases r with
  | skip _ item | pause _ item | begin _ _ item =>
      rw [item]
      exact List.suffix_cons _ _
  | _ => exact List.suffix_refl _

theorem Narrow.follow (narrow : Narrow plan c₀.agenda) (h : c₀.follow plan ms = some c) :
    Narrow plan c.agenda := by
  have hsuffix : c.agenda <:+ c₀.agenda :=
    follow_induction (P := fun _ c => c.agenda <:+ c₀.agenda) (List.suffix_refl _)
      (fun _ ih r => (agenda_of_fires r).trans ih) h
  exact fun client sc hmem => narrow client sc (hsuffix.subset hmem)

def Ends (plan : Client → Scenario → Plan) (c : Course) : Prop :=
  ∃ ms c', c.follow plan ms = some c' ∧ c'.activity = .finished

theorem Ends.of_fires (r : c.Fires plan m c') (h : c'.Ends plan) : c.Ends plan := by
  obtain ⟨ms, c'', hms, hfinished⟩ := h
  exact ⟨[m] ++ ms, c'',
    Steps.foldlM_append ((Steps.foldlM_singleton _ _).trans r.step) hms, hfinished⟩

theorem Ends.of_checking {runCancelled : Bool} (checking : c.activity = .checking runCancelled)
    (h : Ends plan { c with activity := .choosing }) : c.Ends plan := by
  by_cases reason : runCancelled = true ∨ c.cancelled = true
  · exact .of_fires (.stop checking reason) ⟨[], _, rfl, rfl⟩
  · obtain ⟨hrun, hcancelled⟩ := not_or.mp reason
    obtain rfl : runCancelled = false := by simpa using hrun
    exact .of_fires (.goOn checking (by simpa using hcancelled)) h

/-- A run that is under way comes to its end, and then the suite goes on or stops. -/
theorem Ends.of_running {p : Plan} (hs : e.Sound p)
    (h : ∀ c' : Course, c'.activity = .choosing → c'.agenda = c.agenda → c'.Ends plan) :
    (c.within client e).Ends plan := by
  obtain ⟨ls, e', hls, -, hclosed⟩ := hs.exists_closed fun _ => none
  have hconclude : (c.within client e').Ends plan :=
    .of_fires (.conclude (c := c.within client e') rfl hclosed)
      (.of_checking (c := { c.within client e' with
        entries := c.entries ++ [⟨client, e'.run, e'.dispatched⟩]
        activity := .checking e'.run.isCancelled }) rfl (h _ rfl rfl))
  obtain ⟨ms, c', hms, hfinished⟩ := hconclude
  have hinside : (c.within client e).follow plan (ls.map Move.inside) =
      some (c.within client e') := follow_inside hls
  exact ⟨_, c', Steps.foldlM_append hinside hms, hfinished⟩

theorem Ends.of_choosing (agenda : List Item) (narrow : Narrow plan agenda)
    (choosing : c.activity = .choosing) (hagenda : c.agenda = agenda) : c.Ends plan := by
  -- One item after the other: a run takes its own steps to its end, all else a move or two.
  induction agenda generalizing c with
  | nil => exact .of_fires (.finish choosing hagenda) ⟨[], _, rfl, rfl⟩
  | cons item rest ih =>
      have hrest {c : Course} := @ih c fun client sc h =>
        narrow client sc (List.mem_cons_of_mem item h)
      cases item with
      | skip key reason => exact .of_fires (.skip choosing hagenda) (hrest choosing rfl)
      | pause d =>
          exact .of_fires (.pause choosing hagenda)
            (.of_fires (.resume rfl) (hrest rfl rfl))
      | run client sc =>
          exact .of_fires (.begin .epoch choosing hagenda
            (narrow client sc List.mem_cons_self))
            (.of_running (Engine.Sound.start _ _ _ _) fun c' hc' hrest' => hrest hc' hrest')

/-- Whatever has happened, a suite can be worked through to its end. -/
theorem Sound.ends (h : c.Sound) (narrow : Narrow plan c.agenda) : c.Ends plan := by
  have hon (c' : Course) (choosing : c'.activity = .choosing) (hagenda : c'.agenda = c.agenda) :
      c'.Ends plan := .of_choosing c.agenda narrow choosing hagenda
  cases hactivity : c.activity with
  | choosing => exact hon c hactivity rfl
  | running client e =>
      obtain ⟨hsame, p, hs⟩ := h.running _ _ hactivity
      rw [← hsame]
      exact .of_running hs hon
  | checking runCancelled => exact .of_checking hactivity (hon _ rfl rfl)
  | pausing => exact .of_fires (.resume hactivity) (hon _ rfl rfl)
  | finished => exact ⟨[], c, rfl, hactivity⟩

end Course

end ProxyTiming.Suite
