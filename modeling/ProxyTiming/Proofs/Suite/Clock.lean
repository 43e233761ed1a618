import ProxyTiming.Proofs.Run.Undisturbed
import ProxyTiming.Proofs.Suite.Courses

/-!
# A suite on a clock

A suite that is worked through on a clock takes one of the courses that a suite can take: the
runs are histories of their parties, and a pause that is cut short is one during which
somebody has cancelled.  It is a calm course.  Whenever somebody cancels, no trial is about to
be admitted.
-/

namespace ProxyTiming.Suite

open ProxyTiming.Run ProxyTiming.Config ProxyTiming.Time

namespace Course

variable {plan : Client → Scenario → Plan} {c c' c'' : Course} {m : Move} {client : Client}
  {e e' : Engine}

/-! ### Calm courses -/

def Calm (c : Course) (m : Move) : Prop := m.isCancel = true → c.inHand = 0

def Leads (plan : Client → Scenario → Plan) (c c' : Course) : Prop :=
  ∃ ms, c.follow plan ms = some c' ∧ Steps.Always (step plan) Calm c ms

theorem Leads.trans (h : c.Leads plan c') (h' : c'.Leads plan c'') : c.Leads plan c'' := by
  obtain ⟨ms, hms, hcalm⟩ := h
  obtain ⟨ms', hms', hcalm'⟩ := h'
  refine ⟨ms ++ ms', Steps.foldlM_append hms hms', hcalm.append fun c₁ hc₁ => ?_⟩
  obtain rfl := Option.some.inj (hc₁.symm.trans hms)
  exact hcalm'

theorem Leads.of_fires (r : c.Fires plan m c') (calm : Calm c m) : c.Leads plan c' :=
  ⟨[m], (Steps.foldlM_singleton c m).trans r.step, .singleton calm⟩

theorem Leads.next (r : c.Fires plan m c') (hm : m.isCancel = false) (h : c'.Leads plan c'') :
    c.Leads plan c'' := by
  refine (Leads.of_fires r fun hcancel => ?_).trans h
  rw [hm] at hcancel
  cases hcancel

theorem inHand_of_calm {l : Label} (calm : Timeline.Calm e l) :
    Calm (c.within client e) (.inside l) := by
  intro hcancel
  obtain hl | hidle := calm
  · change l.isCancel = true at hcancel
    rw [hl] at hcancel
    cases hcancel
  · exact if_neg hidle

/-- The steps of a run are moves of the suite. -/
theorem Leads.inside {ls : List Label} (h : e.follow ls = some e')
    (calm : Steps.Always Engine.step Timeline.Calm e ls) :
    (c.within client e).Leads plan (c.within client e') := by
  refine ⟨ls.map .inside, follow_inside h, ?_⟩
  clear h
  induction ls generalizing e with
  | nil => trivial
  | cons l ls ih =>
      refine ⟨inHand_of_calm calm.1, fun c' hc' => ?_⟩
      obtain ⟨e₁, he₁, rfl⟩ := Option.map_eq_some_iff.mp hc'
      exact ih (calm.2 e₁ he₁)

end Course

open Course

/-! ### Working through the agenda -/

def Report.course (report : Report) (agenda : List Item) (activity : Activity) : Course :=
  ⟨agenda, report.entries, activity, report.scene.cancelled, report.scene.journal⟩

variable {plan : Client → Scenario → Plan} {rest : List Item} {client : Client} {sc : Scenario}

/-- A pause changes nothing but the time, unless somebody cancels in it. -/
theorem pause_cases (d : Duration) (s : Scene) : (pause d s).journal = s.journal ∧
    ((pause d s).cancelled = s.cancelled ∨ s.cancelled = false ∧ (pause d s).cancelled = true) := by
  rw [pause]
  dsimp only
  split_ifs with hnow
  · exact ⟨rfl, .inl rfl⟩
  · have hfalse : s.cancelled = false := by simpa using (not_or.mp hnow).2
    split
    · split_ifs
      · exact ⟨rfl, .inr ⟨hfalse, rfl⟩⟩
      · exact ⟨rfl, .inl rfl⟩
    · exact ⟨rfl, .inl rfl⟩

theorem leads_pause (d : Duration) (report : Report) (rest : List Item) :
    (report.course (.pause d :: rest) .choosing).Leads plan
      (Report.course { report with scene := pause d report.scene } rest .choosing) := by
  refine Leads.next (.pause rfl rfl) rfl ?_
  obtain ⟨hjournal, hsame | ⟨hfalse, htrue⟩⟩ := pause_cases d report.scene
  · refine Leads.next (.resume rfl) rfl ⟨[], ?_, trivial⟩
    simp only [Report.course, hjournal, hsame]
    rfl
  · -- Whoever cuts the pause short cancels while no run is under way.
    have houtside : ∀ client e, Activity.pausing ≠ .running client e := fun _ _ h => by cases h
    refine Leads.trans (.of_fires (.cancel houtside hfalse) fun _ => rfl)
      (Leads.next (.resume rfl) rfl ⟨[], ?_, trivial⟩)
    simp only [Report.course, hjournal, htrue]
    rfl

/-- A run on the agenda is made, and added to the others. -/
theorem leads_run (narrow : (plan client sc).strategy.width ≤ maxWidth) (trial : Nat → Trial)
    (report : Report) (rest : List Item) :
    ∃ t, (plan client sc).execute trial none report.scene = .ok t ∧
      (report.course (.run client sc :: rest) .choosing).Leads plan
        ((report.add client t).course rest (.checking t.engine.run.isCancelled)) := by
  obtain ⟨t, ls, hok, hfollow, -, hclosed, hcalls, -, hcalm⟩ :=
    Plan.execute_calmly narrow trial none report.scene
  have settled := ((Engine.sound_of_follow hfollow).finished hclosed).1
  -- The clock counts calls and the suite admissions; at the end of a run there are as many.
  have hdispatched : t.calls.length = t.engine.dispatched := by
    rw [hcalls, (Engine.called_perm_of_isSettled hfollow settled).length_eq, List.length_range]
  refine ⟨t, hok, ?_⟩
  refine Leads.next (.begin .epoch rfl rfl narrow) rfl ?_
  refine (Leads.inside hfollow hcalm).trans (Leads.next (.conclude rfl hclosed) rfl ⟨[], ?_, trivial⟩)
  simp only [Report.course, Report.add, hdispatched]
  rfl

/-- Whatever is on the agenda, a suite on a clock gets to its end, and on a course that a suite can
take. -/
theorem work_leads (attempt : Client → Attempt) (narrow : Narrow plan rest) (report : Report) :
    ∃ report' rest', work plan attempt rest report = .ok report' ∧
      (report.course rest .choosing).Leads plan (report'.course rest' .finished) := by
  induction rest generalizing report with
  | nil =>
      exact ⟨_, [], rfl, .of_fires (.finish rfl rfl) nofun⟩
  | cons item rest ih =>
      have hrest := ih fun client sc h => narrow client sc (List.mem_cons_of_mem item h)
      cases item with
      | skip key reason =>
          obtain ⟨report', rest', hwork, hleads⟩ := hrest (report.note .warn (skipMessage key reason))
          exact ⟨report', rest', hwork, .next (.skip rfl rfl) rfl hleads⟩
      | pause d =>
          obtain ⟨report', rest', hwork, hleads⟩ :=
            hrest { report with scene := pause d report.scene }
          exact ⟨report', rest', hwork, (leads_pause d report rest).trans hleads⟩
      | run client sc =>
          obtain ⟨t, hok, hrun⟩ := leads_run (narrow client sc List.mem_cons_self)
            (fun _ => trialOf (attempt client)) report rest
          rw [work, hok]
          dsimp only
          split_ifs with reason
          · exact ⟨_, rest, rfl, hrun.trans (.of_fires (.stop rfl reason) nofun)⟩
          · obtain ⟨hrunCancelled, hcancelled⟩ := not_or.mp reason
            obtain ⟨report', rest', hwork, hleads⟩ := hrest (report.add client t)
            have hrunFalse : t.engine.run.isCancelled = false := by simpa using hrunCancelled
            have hfalse : t.engine.cancelled = false := by simpa using hcancelled
            rw [hrunFalse] at hrun
            exact ⟨report', rest', hwork, hrun.trans (.next (.goOn rfl hfalse) rfl hleads)⟩

end ProxyTiming.Suite
