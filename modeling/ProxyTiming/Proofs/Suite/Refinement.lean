import ProxyTiming.Proofs.Suite.Clock

/-!
# What a suite returns

A suite that cannot be prepared returns the reason, and nothing has been run.  Any other suite
returns the first of the runs that are expected of it.  If nobody has cancelled these are all
of them; and if somebody has, one more run is added at most, in which no trial is admitted
any more.
-/

namespace ProxyTiming.Suite

open ProxyTiming.Run ProxyTiming.Config ProxyTiming.Time

variable {c : Config} {r : Request} {url : String} {clients : List Candidate} {scene : Scene}

/-! ### Preparations -/

theorem execute_eq_error_of_prepare {e : SetupError} (h : prepare c r = .error e) (w : Watch)
    (n : Network) (scene : Scene) : execute w n c r scene = .error (.setup e) := by
  rw [execute, h]

theorem narrow_agenda
    (narrow : ∀ sc ∈ r.scenarios c, (r.strategyOf c.settings sc).width ≤ maxWidth) :
    Course.Narrow (planOf r c.settings url) (agenda r (r.scenarios c) clients) :=
  fun _ sc h => narrow sc (mem_of_run_mem_agenda h)

/-- On a clock a suite that has been prepared gets to its end, by a calm course. -/
theorem execute_leads (narrow : ∀ sc ∈ r.scenarios c, (r.strategyOf c.settings sc).width ≤ maxWidth)
    (h : prepare c r = .ok (url, clients)) (w : Watch) (n : Network) (scene : Scene) :
    ∃ report rest c₀, execute w n c r scene = .ok report ∧
      course c r scene.cancelled scene.journal = .ok c₀ ∧
      c₀.Leads (planOf r c.settings url) (report.course rest .finished) := by
  have hnarrow : Course.Narrow (planOf r c.settings url) (agenda r (r.scenarios c) clients) :=
    narrow_agenda narrow
  obtain ⟨report, rest, hwork, hleads⟩ :=
    work_leads (fun client => client.attempt w n url) hnarrow
      (Report.note ⟨[], scene⟩ .info (startMessage url clients.length (r.scenarios c).length))
  refine ⟨report, rest, _, ?_, ?_, hleads⟩
  · rw [execute, h]
    dsimp only
    rw [hwork]
    rfl
  · rw [course, h]
    rfl

theorem undisturbed_of_pause (d : Duration) (uncancelled : scene.cancelled = false)
    (never : scene.cancelAt = none) :
    (pause d scene).cancelled = false ∧ (pause d scene).cancelAt = none := by
  simp only [pause, never]
  split_ifs
  · exact ⟨uncancelled, never⟩
  · exact ⟨uncancelled, rfl⟩

/-- Nobody cancels a suite if nobody has cancelled before and nobody is going to. -/
theorem uncancelled_of_work {plan : Client → Scenario → Plan} {attempt : Client → Attempt}
    {items : List Item} {report report' : Report}
    (h : work plan attempt items report = .ok report')
    (uncancelled : report.scene.cancelled = false) (never : report.scene.cancelAt = none) :
    report'.scene.cancelled = false := by
  induction items generalizing report with
  | nil =>
      rw [work] at h
      rw [← Except.ok.inj h]
      exact uncancelled
  | cons item items ih =>
      cases item with
      | skip key reason =>
          rw [work] at h
          exact ih h uncancelled never
      | pause d =>
          rw [work] at h
          obtain ⟨huncancelled, hnever⟩ := undisturbed_of_pause d uncancelled never
          exact ih h huncancelled hnever
      | run client sc =>
          rw [work] at h
          split at h
          · cases h
          · rename_i t ht
            obtain ⟨huncancelled, hnever⟩ := Plan.undisturbed_of_execute ht uncancelled never
            dsimp only at h
            split_ifs at h
            · rw [← Except.ok.inj h]
              exact huncancelled
            · exact ih h huncancelled hnever

/-! ### The runs -/

/-- What a suite of which some runs are expected keeps to in all of its moves. -/
structure KeepsTo (expected : List Heading) (plan : Client → Scenario → Plan) (c₀ : Course)
    (ms : List Move) (c : Course) : Prop where
  /-- The runs are the first of those that are expected. -/
  runs : c.entries.map (·.run.heading) <+: expected
  /-- Every run but the last one has been completed. -/
  completed : ∀ entry ∈ c.entries.dropLast, entry.run.status = .completed
  /-- The last one has been completed as well, unless somebody has cancelled. -/
  status : ∀ entry ∈ c.entries, entry.run.status = .completed ∨
    entry.run.status = .cancelled ∧ c.cancelled = true
  /-- A suite that is through has made all of its runs, unless somebody has cancelled. -/
  all : c.activity = .finished → c.cancelled = false →
    c.entries.map (·.run.heading) = expected ∧ ∀ entry ∈ c.entries, entry.run.status = .completed
  cancelled : c.cancelled = true ↔ c₀.cancelled = true ∨ ∃ m ∈ ms, m.isCancel = true
  /-- When somebody has cancelled, one run more is added at most.  Nobody looks with success
  any more, and no trial is admitted but one for which the dispatcher had looked. -/
  late : ∀ before m after c₁, ms = before ++ m :: after → m.isCancel = true →
    c₀.follow plan before = some c₁ → after.countP Move.isConclude ≤ 1 ∧
      after.countP Move.isLook = 0 ∧ after.countP Move.isGrant ≤ c₁.inHand
  /-- In a suite that has been cancelled before its first move no trial is admitted at all. -/
  never : c₀.cancelled = true → ms.countP Move.isConclude ≤ 1 ∧ ms.countP Move.isGrant = 0

/-- Nobody has cancelled if nobody ever did. -/
theorem KeepsTo.uncancelled_of_quiet {expected : List Heading} {plan : Client → Scenario → Plan}
    {c₀ c : Course} {ms : List Move} (h : KeepsTo expected plan c₀ ms c)
    (start : c₀.cancelled = false) (quiet : ∀ m ∈ ms, m.isCancel = false) :
    c.cancelled = false := by
  rw [Bool.eq_false_iff]
  intro hcancelled
  obtain hbefore | ⟨m, hm, hcancel⟩ := h.cancelled.mp hcancelled
  · rw [start] at hbefore
    cases hbefore
  · rw [quiet m hm] at hcancel
    cases hcancel

namespace Course

variable {plan : Client → Scenario → Plan} {c₀ c c' : Course} {ms : List Move}

theorem toCome_le_one (c : Course) : c.toCome ≤ 1 := by
  rw [toCome]
  split <;> simp

theorem inHand_of_cancel {m : Move} (hm : m.isCancel = true) (r : c.Fires plan m c') :
    c'.inHand = c.inHand := by
  cases r with
  | inside running r =>
      cases r with
      | cancel => rw [inHand, inHand, running]; rfl
      | _ => cases hm
  | cancel => rfl
  | _ => cases hm

theorem dropLast_subset_firm (c : Course) {entry : Entry} (h : entry ∈ c.entries.dropLast) :
    entry ∈ c.firm := by
  rw [firm]
  split
  · exact List.mem_of_mem_dropLast h
  · exact List.mem_of_mem_dropLast h
  · exact List.mem_of_mem_dropLast h
  · exact h
  · exact h

theorem keepsTo (agenda : List Item) (cancelled : Bool) (journal : Journal)
    (h : (Course.start agenda cancelled journal).follow plan ms = some c) :
    KeepsTo (headings plan agenda) plan (Course.start agenda cancelled journal) ms c := by
  have hstart := Sound.start agenda cancelled journal
  have hs := hstart.follow h
  have hpromised : promised plan c = headings plan agenda := promised_of_follow h
  refine
    { runs := ?_
      completed := fun entry hentry => hs.firm entry (c.dropLast_subset_firm hentry)
      status := hs.entries
      all := fun finished uncancelled => ?_
      cancelled := cancelled_iff hstart h
      late := ?_
      never := fun hcancelled => ?_ }
  · rw [← hpromised, promised, List.append_assoc]
    exact List.prefix_append _ _
  · obtain ⟨hagenda, hcompleted⟩ | hcancelled := hs.finished finished
    · refine ⟨?_, hcompleted⟩
      rw [← hpromised, promised, finished, hagenda]
      simp [Activity.heading?, headings]
    · rw [uncancelled] at hcancelled
      cases hcancelled
  · -- The moves after the cancellation are those of a suite that starts out cancelled.
    rintro before m after c₁ rfl hm hbefore
    obtain ⟨c₁', c₂, hbefore', r, hafter⟩ := follow_split h
    obtain rfl : c₁' = c₁ := Option.some.inj (hbefore'.symm.trans hbefore)
    have hs₁ := hstart.follow hbefore
    have hcancelled := (cancelled_iff_of_fires hs₁ r).mpr (.inr hm)
    obtain ⟨hconclude, hgrant, hlook⟩ := late_of_follow (hs₁.fires r) hcancelled hafter
    exact ⟨hconclude.trans c₂.toCome_le_one, hlook, inHand_of_cancel hm r ▸ hgrant⟩
  · obtain ⟨hconclude, hgrant, -⟩ := late_of_follow hstart hcancelled h
    exact ⟨hconclude, Nat.le_zero.mp hgrant⟩

end Course

/-! ### The suite -/

theorem start_of_course {cancelled : Bool} {journal : Journal} {c₀ : Course}
    (hurl : c.resolveTarget r.target = .ok url) (h : course c r cancelled journal = .ok c₀) :
    ∃ clients journal', prepare c r = .ok (url, clients) ∧
      c₀ = .start (agenda r (r.scenarios c) clients) cancelled journal' := by
  rw [course] at h
  split at h
  · cases h
  · rename_i url' clients hprepare
    obtain rfl : url' = url :=
      Except.ok.inj ((resolveTarget_of_prepare hprepare).1.symm.trans hurl)
    exact ⟨clients, _, hprepare, (Except.ok.inj h).symm⟩

/-- What is known of all suites of a request. -/
structure Refines (c : Config) (r : Request) : Prop where
  fails_iff : ∀ w n scene, (∃ fault, execute w n c r scene = .error fault) ↔
    Unresolvable c r.target ∨ Unknown c r.selection
  /-- A suite that fails does so for the same reason whatever there is on the network and whenever
  somebody cancels, and it has not made a move. -/
  fails_early : ∀ w n scene fault, execute w n c r scene = .error fault →
    (∀ w n scene, execute w n c r scene = .error fault) ∧
      ∀ cancelled journal c₀, course c r cancelled journal ≠ .ok c₀
  /-- In whatever course, the runs are those that are expected; and the suite can come to its
  end. -/
  keeps : ∀ url cancelled journal c₀ ms c', c.resolveTarget r.target = .ok url →
    course c r cancelled journal = .ok c₀ →
    c₀.follow (planOf r c.settings url) ms = some c' →
      KeepsTo (expected c r url) (planOf r c.settings url) c₀ ms c' ∧
        c'.Ends (planOf r c.settings url)
  /-- On a clock a suite takes one of these courses to its end.  When somebody has cancelled, no
  trial is admitted any more. -/
  on_clock : ∀ url w n scene report, c.resolveTarget r.target = .ok url →
    execute w n c r scene = .ok report →
      ∃ c₀ ms rest, course c r scene.cancelled scene.journal = .ok c₀ ∧
        c₀.follow (planOf r c.settings url) ms = some (report.course rest .finished) ∧
        KeepsTo (expected c r url) (planOf r c.settings url) c₀ ms
          (report.course rest .finished) ∧
        ∀ before m after, ms = before ++ m :: after → m.isCancel = true →
          after.countP Move.isGrant = 0
  /-- Unless somebody cancels, all runs are made, and all of them are completed. -/
  undisturbed : ∀ url w n scene report, c.resolveTarget r.target = .ok url →
    execute w n c r scene = .ok report → scene.cancelled = false → scene.cancelAt = none →
      report.entries.map (·.run.heading) = expected c r url ∧
        ∀ entry ∈ report.entries, entry.run.status = .completed

theorem exists_fault_iff
    (narrow : ∀ sc ∈ r.scenarios c, (r.strategyOf c.settings sc).width ≤ maxWidth)
    (w : Watch) (n : Network) (scene : Scene) :
    (∃ fault, execute w n c r scene = .error fault) ↔ ∃ e, prepare c r = .error e := by
  cases hprepare : prepare c r with
  | error e => simp [execute_eq_error_of_prepare hprepare]
  | ok prepared =>
      obtain ⟨url, clients⟩ := prepared
      obtain ⟨report, -, -, hok, -⟩ := execute_leads narrow hprepare w n scene
      simp [hok]

theorem keepsTo_of_course {cancelled : Bool} {journal : Journal} {c₀ c' : Course}
    {ms : List Move} (hurl : c.resolveTarget r.target = .ok url)
    (hc₀ : course c r cancelled journal = .ok c₀)
    (hms : c₀.follow (planOf r c.settings url) ms = some c') :
    KeepsTo (expected c r url) (planOf r c.settings url) c₀ ms c' := by
  obtain ⟨clients, journal', hprepare, rfl⟩ := start_of_course hurl hc₀
  rw [← headings_eq_expected hprepare]
  exact Course.keepsTo _ _ _ hms

/-- In a calm course no trial is admitted when somebody has cancelled. -/
theorem countP_isGrant_eq_zero {plan : Client → Scenario → Plan} {expected : List Heading}
    {c₀ c' : Course} {ms before after : List Move} {m : Move}
    (hkeeps : KeepsTo expected plan c₀ ms c') (hms : c₀.follow plan ms = some c')
    (hcalm : Steps.Always (Course.step plan) Course.Calm c₀ ms)
    (hsplit : ms = before ++ m :: after) (hm : m.isCancel = true) :
    after.countP Move.isGrant = 0 := by
  subst hsplit
  obtain ⟨c₁, c₂, hbefore, -, -⟩ := Course.follow_split hms
  obtain ⟨-, -, hgrant⟩ := hkeeps.late before m after c₁ rfl hm hbefore
  rw [hcalm.fits hbefore hm] at hgrant
  exact Nat.le_zero.mp hgrant

theorem prepare_of_execute {w : Watch} {n : Network} {report : Report}
    (hurl : c.resolveTarget r.target = .ok url) (h : execute w n c r scene = .ok report) :
    ∃ clients, prepare c r = .ok (url, clients) ∧
      work (planOf r c.settings url) (fun client => client.attempt w n url)
        (agenda r (r.scenarios c) clients) (Report.note ⟨[], scene⟩ .info
          (startMessage url clients.length (r.scenarios c).length)) = .ok report := by
  rw [execute] at h
  split at h
  · cases h
  · rename_i url' clients hprepare
    obtain rfl : url' = url :=
      Except.ok.inj ((resolveTarget_of_prepare hprepare).1.symm.trans hurl)
    refine ⟨clients, hprepare, ?_⟩
    dsimp only at h
    cases hwork : work (planOf r c.settings url') (fun client => client.attempt w n url')
        (agenda r (r.scenarios c) clients) (Report.note ⟨[], scene⟩ .info
          (startMessage url' clients.length (r.scenarios c).length)) with
    | error refused =>
        rw [hwork] at h
        cases h
    | ok report' =>
        rw [hwork] at h
        exact congrArg Except.ok (Except.ok.inj h)

/-- A suite does what is expected of it. -/
theorem refines (c : Config) (r : Request)
    (narrow : ∀ sc ∈ r.scenarios c, (r.strategyOf c.settings sc).width ≤ maxWidth) :
    Refines c r := by
  have hclock {url w n scene report} (hurl : c.resolveTarget r.target = .ok url)
      (h : execute w n c r scene = .ok report) :
      ∃ c₀ ms rest, course c r scene.cancelled scene.journal = .ok c₀ ∧
        c₀.follow (planOf r c.settings url) ms = some (report.course rest .finished) ∧
        Steps.Always (Course.step (planOf r c.settings url)) Course.Calm c₀ ms := by
    obtain ⟨clients, hprepare, -⟩ := prepare_of_execute hurl h
    obtain ⟨report', rest, c₀, hok, hc₀, ms, hms, hcalm⟩ :=
      execute_leads narrow hprepare w n scene
    obtain rfl : report' = report := Except.ok.inj (hok.symm.trans h)
    exact ⟨c₀, ms, rest, hc₀, hms, hcalm⟩
  refine
    { fails_iff := fun w n scene => (exists_fault_iff narrow w n scene).trans
        (prepare_eq_error_iff c r)
      fails_early := fun w n scene fault hexecute => ?_
      keeps := fun url cancelled journal c₀ ms c' hurl hc₀ hms => ⟨keepsTo_of_course hurl hc₀ hms, ?_⟩
      on_clock := fun url w n scene report hurl hexecute => ?_
      undisturbed := fun url w n scene report hurl hexecute uncancelled never => ?_ }
  · obtain ⟨e, hprepare⟩ := (exists_fault_iff narrow w n scene).mp ⟨fault, hexecute⟩
    rw [execute_eq_error_of_prepare hprepare] at hexecute
    obtain rfl := Except.error.inj hexecute
    refine ⟨execute_eq_error_of_prepare hprepare, fun cancelled journal c₀ hc₀ => ?_⟩
    rw [course, hprepare] at hc₀
    cases hc₀
  · obtain ⟨clients, journal', hprepare, rfl⟩ := start_of_course hurl hc₀
    exact ((Course.Sound.start _ _ _).follow hms).ends ((narrow_agenda narrow).follow hms)
  · obtain ⟨c₀, ms, rest, hc₀, hms, hcalm⟩ := hclock hurl hexecute
    have hkeeps := keepsTo_of_course hurl hc₀ hms
    exact ⟨c₀, ms, rest, hc₀, hms, hkeeps, fun before m after =>
      countP_isGrant_eq_zero hkeeps hms hcalm⟩
  · obtain ⟨c₀, ms, rest, hc₀, hms, -⟩ := hclock hurl hexecute
    obtain ⟨clients, -, hwork⟩ := prepare_of_execute hurl hexecute
    exact (keepsTo_of_course hurl hc₀ hms).all rfl (uncancelled_of_work hwork uncancelled never)

/-- A suite without a proxy makes the one run that is enabled. -/
theorem refines_direct :
    let c : Config := ⟨[⟨"home", "http://h/"⟩], .empty,
      [⟨"few", .single, 2, 1, true⟩, ⟨"many", .concurrent, 9, 3, false⟩], .default⟩
    let r : Request := .usual .direct
    (∀ sc ∈ r.scenarios c, (r.strategyOf c.settings sc).width ≤ maxWidth) ∧
      ∃ report, execute .tick .unplugged c r (.start false none (.start none)) = .ok report ∧
        report.entries.map (·.run.heading) = [⟨"few", "Direct Connection", "http://h/", 2⟩] ∧
        ∀ entry ∈ report.entries, entry.run.status = .completed := by
  intro c r
  have hnarrow : ∀ sc ∈ r.scenarios c, (r.strategyOf c.settings sc).width ≤ maxWidth := by
    decide
  have hrefines := refines c r hnarrow
  cases hexecute : execute .tick .unplugged c r (.start false none (.start none)) with
  | error fault =>
      obtain hunresolvable | ⟨key, hnamed, -⟩ := (hrefines.fails_iff _ _ _).mp ⟨fault, hexecute⟩
      · cases hunresolvable
      · cases hnamed
  | ok report =>
      obtain ⟨hruns, hcompleted⟩ := hrefines.undisturbed _ _ _ _ _ rfl hexecute rfl rfl
      exact ⟨hnarrow, report, rfl, hruns, hcompleted⟩

end ProxyTiming.Suite
