import ProxyTiming.Attempt.Basic

/-!
# Reasoning about steps

What is to be known of a step is a triple: what holds of the session before, what holds of the
value and the session if the step yields one, and what holds of the session if it stops.  Each
way of making a step, and the one way of putting two together, has its rule; so a triple for
the whole of an attempt is put together just as the attempt is.

An attempt can stop anywhere, so what is to hold when it stops has to hold all the time.
-/

namespace ProxyTiming.Step

/-- From a session in which `before` holds the step yields a value with `after`, or it stops
with `stopped`. -/
def Ensures {α : Type} (before : Session → Prop) (x : Step α) (after : α → Session → Prop)
    (stopped : Session → Prop) : Prop :=
  ∀ s, before s →
    match x.run s with
    | (.ok a, s') => after a s'
    | (.error _, s') => stopped s'

section

variable {α β : Type} {x : Step α} {f : α → Step β} {before : Session → Prop}
  {after : α → Session → Prop} {stopped : Session → Prop}

theorem ensures_pure {a : α} (h : ∀ s, before s → after a s) :
    Ensures before (pure a) after stopped := h

theorem ensures_stop (reason : Stop) (h : ∀ s, before s → stopped s) :
    Ensures before (stop reason) after stopped := h

theorem ensures_fail (e : TrialError) (h : ∀ s, before s → stopped s) :
    Ensures before (fail e) after stopped := h

theorem ensures_ofExcept {r : Except TrialError α} (hok : ∀ a s, r = .ok a → before s → after a s)
    (herror : ∀ s, before s → stopped s) : Ensures before (ofExcept r) after stopped := by
  cases r with
  | ok a => exact ensures_pure fun s => hok a s rfl
  | error e => exact ensures_fail e herror

theorem ensures_modify {g : Session → Session} {after : Unit → Session → Prop}
    (h : ∀ s, before s → after () (g s)) : Ensures before (modify g) after stopped := h

theorem ensures_await {w : Watch} {after : Option Deadline → Session → Prop}
    (h : ∀ s, before s → after (w.cut s.waits) { s with waits := s.waits + 1 }) :
    Ensures before (await w) after stopped := h

theorem Ensures.bind {middle : α → Session → Prop} {after : β → Session → Prop}
    (hx : Ensures before x middle stopped) (hf : ∀ a, Ensures (middle a) (f a) after stopped) :
    Ensures before (x >>= f) after stopped := by
  intro s hs
  have hmiddle := hx s hs
  rw [run_bind]
  rcases hrun : x.run s with ⟨_ | a, s'⟩
  · rwa [hrun] at hmiddle
  · rw [hrun] at hmiddle
    exact hf a s' hmiddle

theorem Ensures.weaken {before' : Session → Prop} {after' : α → Session → Prop}
    {stopped' : Session → Prop} (h : Ensures before x after stopped)
    (hbefore : ∀ s, before' s → before s) (hafter : ∀ a s, after a s → after' a s)
    (hstopped : ∀ s, stopped s → stopped' s) : Ensures before' x after' stopped' := by
  intro s hs
  have hend := h s (hbefore s hs)
  split
  next a s' hrun =>
    rw [hrun] at hend
    exact hafter a s' hend
  next reason s' hrun =>
    rw [hrun] at hend
    exact hstopped s' hend

/-- A wait changes nothing but the number of waits. -/
theorem ensures_wait {w : Watch} {P : Session → Prop}
    (h : ∀ s, P s → P { s with waits := s.waits + 1 }) :
    Ensures P (wait w) (fun _ => P) P := by
  have hawait : Ensures P (await w) (fun _ => P) P := ensures_await h
  refine hawait.bind fun cut => ?_
  cases cut with
  | none => exact ensures_pure fun _ hs => hs
  | some d => exact ensures_stop .stalled fun _ hs => hs

end

/-! ### What a step does -/

/-- The step adds effects to the trace: `after` of them if it yields a value, `stopped` if it
stops. -/
def Performs {α : Type} (x : Step α) (after : α → List Effect → Prop)
    (stopped : List Effect → Prop) : Prop :=
  ∀ trace, x.Ensures (fun s => s.trace = trace)
    (fun a s => ∃ done, s.trace = trace ++ done ∧ after a done)
    fun s => ∃ done, s.trace = trace ++ done ∧ stopped done

section

variable {α β : Type} {x : Step α} {f : α → Step β} {after : α → List Effect → Prop}
  {stopped : List Effect → Prop}

theorem performs_pure {a : α} (h : after a []) : (pure a : Step α).Performs after stopped :=
  fun trace => ensures_pure fun s hs => ⟨[], by rw [List.append_nil]; exact hs, h⟩

theorem performs_stop (reason : Stop) (h : stopped []) :
    (stop reason : Step α).Performs after stopped :=
  fun trace => ensures_stop reason fun s hs => ⟨[], by rw [List.append_nil]; exact hs, h⟩

theorem performs_fail (e : TrialError) (h : stopped []) :
    (fail e : Step α).Performs after stopped :=
  performs_stop (.failed e) h

theorem performs_note {after : Unit → List Effect → Prop} (e : Effect) (h : after () [e]) :
    (note e).Performs after stopped :=
  fun _ => ensures_modify fun _ hs => ⟨[e], congrArg (· ++ [e]) hs, h⟩

/-- A change of the session that is no effect. -/
theorem performs_modify {after : Unit → List Effect → Prop} {g : Session → Session}
    (htrace : ∀ s, (g s).trace = s.trace) (h : after () []) :
    (modify g).Performs after stopped :=
  fun trace => ensures_modify fun s hs =>
    ⟨[], by rw [List.append_nil]; exact (htrace s).trans hs, h⟩

theorem performs_await (w : Watch) {after : Option Deadline → List Effect → Prop}
    (h : ∀ cut, after cut []) : (await w).Performs after stopped :=
  fun trace => ensures_await fun s hs => ⟨[], by rw [List.append_nil]; exact hs, h _⟩

theorem Performs.bind {middle : α → List Effect → Prop} {after : β → List Effect → Prop}
    (hx : x.Performs middle stopped)
    (hf : ∀ a first, middle a first → (f a).Performs (fun b rest => after b (first ++ rest))
      fun rest => stopped (first ++ rest)) :
    (x >>= f).Performs after stopped := by
  intro trace
  refine (hx trace).bind fun a s => ?_
  rintro ⟨first, hfirst, hmiddle⟩
  have hrest := hf a first hmiddle (trace ++ first) s hfirst
  split at hrest
  next b s' _ =>
    obtain ⟨rest, hrest, hafter⟩ := hrest
    exact ⟨first ++ rest, by rw [hrest, List.append_assoc], hafter⟩
  next reason s' _ =>
    obtain ⟨rest, hrest, hstopped⟩ := hrest
    exact ⟨first ++ rest, by rw [hrest, List.append_assoc], hstopped⟩

/-- A step without effects, before the rest. -/
theorem Performs.quietly {after : β → List Effect → Prop}
    (hx : x.Performs (fun _ done => done = []) stopped)
    (hf : ∀ a, (f a).Performs after stopped) : (x >>= f).Performs after stopped := by
  refine hx.bind fun a first hfirst => ?_
  rw [hfirst]
  exact hf a

theorem Performs.weaken {after' : α → List Effect → Prop} {stopped' : List Effect → Prop}
    (h : x.Performs after stopped) (hafter : ∀ a done, after a done → after' a done)
    (hstopped : ∀ done, stopped done → stopped' done) : x.Performs after' stopped' :=
  fun trace => (h trace).weaken (fun _ hs => hs)
    (fun a _ ⟨done, hdone, hs⟩ => ⟨done, hdone, hafter a done hs⟩)
    fun _ ⟨done, hdone, hs⟩ => ⟨done, hdone, hstopped done hs⟩

/-- Whether it stops or not, the step has no effects but those of a kind. -/
def Does (P : Effect → Prop) (x : Step α) : Prop :=
  x.Performs (fun _ done => ∀ e ∈ done, P e) fun done => ∀ e ∈ done, P e

variable {P : Effect → Prop}

theorem does_pure (a : α) : Does P (pure a) := performs_pure nofun

theorem does_stop (reason : Stop) : Does P (stop reason : Step α) := performs_stop reason nofun

theorem does_note {e : Effect} (h : P e) : Does P (note e) :=
  performs_note e fun _ he => List.mem_singleton.mp he ▸ h

theorem does_modify {g : Session → Session} (htrace : ∀ s, (g s).trace = s.trace) :
    Does P (modify g) :=
  performs_modify htrace nofun

theorem does_await (w : Watch) : Does P (await w) := performs_await w fun _ => nofun

theorem Does.bind (hx : Does P x) (hf : ∀ a, Does P (f a)) : Does P (x >>= f) := by
  refine Performs.bind hx fun a first hfirst => ?_
  have hboth {rest : List Effect} (h : ∀ e ∈ rest, P e) : ∀ e ∈ first ++ rest, P e := fun e he =>
    (List.mem_append.mp he).elim (hfirst e) (h e)
  exact (hf a).weaken (fun _ _ h => hboth h) fun _ h => hboth h

/-! ### Why a step stops -/

def Ends (x : Step α) (after : α → List Effect → Prop) (stopped : Stop → List Effect → Prop) :
    Prop :=
  ∀ s,
    match x.run s with
    | (.ok a, s') => ∃ done, s'.trace = s.trace ++ done ∧ after a done
    | (.error reason, s') => ∃ done, s'.trace = s.trace ++ done ∧ stopped reason done

variable {ended : Stop → List Effect → Prop}

/-- Whatever the reason is, the effects of a step that stops are known. -/
theorem Performs.ends (h : x.Performs after stopped)
    (hstopped : ∀ reason done, stopped done → ended reason done) : x.Ends after ended := by
  intro s
  have hend := h s.trace s rfl
  split
  next a s' hrun => rwa [hrun] at hend
  next reason s' hrun =>
    rw [hrun] at hend
    obtain ⟨done, hdone, hs⟩ := hend
    exact ⟨done, hdone, hstopped reason done hs⟩

theorem Ends.performs (h : x.Ends after ended)
    (hstopped : ∀ reason done, ended reason done → stopped done) : x.Performs after stopped := by
  rintro trace s rfl
  have hend := h s
  split
  next a s' hrun => rwa [hrun] at hend
  next reason s' hrun =>
    rw [hrun] at hend
    obtain ⟨done, hdone, hs⟩ := hend
    exact ⟨done, hdone, hstopped reason done hs⟩

theorem ends_pure {a : α} (h : after a []) : (pure a : Step α).Ends after ended :=
  fun _ => ⟨[], (List.append_nil _).symm, h⟩

theorem ends_stop {reason : Stop} (h : ended reason []) :
    (stop reason : Step α).Ends after ended :=
  fun _ => ⟨[], (List.append_nil _).symm, h⟩

theorem ends_note {after : Unit → List Effect → Prop} (e : Effect) (h : after () [e]) :
    (note e).Ends after ended :=
  fun _ => ⟨[e], rfl, h⟩

theorem ends_modify {after : Unit → List Effect → Prop} {g : Session → Session}
    (htrace : ∀ s, (g s).trace = s.trace) (h : after () []) : (modify g).Ends after ended :=
  fun s => ⟨[], (htrace s).trans (List.append_nil _).symm, h⟩

/-- A wait is cut short by a deadline only. -/
theorem ends_await (w : Watch) : (await w).Ends
    (fun cut done => done = [] ∧ (cut.isSome = true → w.deadline.isSome = true)) ended := by
  refine fun s => ⟨[], (List.append_nil _).symm, rfl, fun hcut => ?_⟩
  unfold Watch.cut at hcut
  split at hcut
  next deadline hdeadline => rw [hdeadline]; rfl
  next => cases hcut

theorem Ends.bind {middle : α → List Effect → Prop} {after : β → List Effect → Prop}
    (hx : x.Ends middle ended)
    (hf : ∀ a first, middle a first → (f a).Ends (fun b rest => after b (first ++ rest))
      fun reason rest => ended reason (first ++ rest)) :
    (x >>= f).Ends after ended := by
  intro s
  have hfirst := hx s
  rw [run_bind]
  rcases hrun : x.run s with ⟨reason | a, s'⟩
  · rwa [hrun] at hfirst
  · rw [hrun] at hfirst
    obtain ⟨first, htrace, hmiddle⟩ := hfirst
    have hrest := hf a first hmiddle s'
    dsimp only
    rcases hlast : (f a).run s' with ⟨reason | b, s''⟩
    · rw [hlast] at hrest
      obtain ⟨rest, hrest, hended⟩ := hrest
      exact ⟨first ++ rest, by rw [hrest, htrace, List.append_assoc], hended⟩
    · rw [hlast] at hrest
      obtain ⟨rest, hrest, hafter⟩ := hrest
      exact ⟨first ++ rest, by rw [hrest, htrace, List.append_assoc], hafter⟩

theorem Ends.quietly {after : β → List Effect → Prop} (hx : x.Ends (fun _ done => done = []) ended)
    (hf : ∀ a, (f a).Ends after ended) : (x >>= f).Ends after ended := by
  refine hx.bind fun a first hfirst => ?_
  rw [hfirst]
  exact hf a

theorem Ends.weaken {after' : α → List Effect → Prop} {ended' : Stop → List Effect → Prop}
    (h : x.Ends after ended) (hafter : ∀ a done, after a done → after' a done)
    (hended : ∀ reason done, ended reason done → ended' reason done) : x.Ends after' ended' := by
  intro s
  have hend := h s
  split
  next a s' hrun =>
    rw [hrun] at hend
    obtain ⟨done, hdone, hs⟩ := hend
    exact ⟨done, hdone, hafter a done hs⟩
  next reason s' hrun =>
    rw [hrun] at hend
    obtain ⟨done, hdone, hs⟩ := hend
    exact ⟨done, hdone, hended reason done hs⟩

theorem ends_wait (w : Watch) {after : Unit → List Effect → Prop} (h : after () [])
    (hended : w.deadline.isSome = true → ended .stalled []) : (wait w).Ends after ended := by
  refine (ends_await w).bind ?_
  rintro cut first ⟨rfl, hcut⟩
  cases cut with
  | none => exact ends_pure h
  | some d => exact ends_stop (hended (hcut rfl))

end

end ProxyTiming.Step

namespace ProxyTiming

/-! ### What an attempt leaves behind -/

/-- What a round trip ensures holds of the session that the attempt leaves behind. -/
theorem Client.session_attempt {w : Watch} {n : Network} {c : Client} {url : String}
    {before P : Session → Prop} (h : (roundTrip w n c url).Ensures before (fun _ => P) P)
    (hstart : before .start) : P (c.attempt w n url).session := by
  have hend := h .start hstart
  have hsession : (c.attempt w n url).session = ((roundTrip w n c url).run .start).2 := rfl
  rw [hsession]
  split at hend
  next hrun => rwa [hrun]
  next hrun => rwa [hrun]

/-- What is known of the end of a round trip is known of the attempt, and the error is what the
reason to stop amounts to. -/
theorem Client.attempt_ends {w : Watch} {n : Network} {c : Client} {url : String}
    {after : UInt16 → List Effect → Prop} {ended : Stop → List Effect → Prop}
    (h : (roundTrip w n c url).Ends after ended) :
    (∃ status, after status (c.attempt w n url).session.trace) ∨
      ∃ reason, ended reason (c.attempt w n url).session.trace ∧
        ∃ f, (c.attempt w n url).result = .error f ∧ f.error = c.errorOf reason := by
  have hend := h .start
  unfold Client.attempt
  split at hend
  next status s hrun =>
    obtain ⟨done, hdone, hafter⟩ := hend
    rw [hrun]
    exact .inl ⟨status, (hdone ▸ hafter : after status s.trace)⟩
  next reason s hrun =>
    obtain ⟨done, hdone, hended⟩ := hend
    rw [hrun]
    exact .inr ⟨reason, (hdone ▸ hended : ended reason s.trace), _, rfl, rfl⟩

/-- What a round trip does is what the attempt has done in the end; and an attempt whose round
trip stops has failed. -/
theorem Client.trace_attempt {w : Watch} {n : Network} {c : Client} {url : String}
    {after : UInt16 → List Effect → Prop} {stopped : List Effect → Prop}
    (h : (roundTrip w n c url).Performs after stopped) :
    (∃ status, after status (c.attempt w n url).session.trace) ∨
      stopped (c.attempt w n url).session.trace ∧
        ∃ failure, (c.attempt w n url).result = .error failure := by
  rcases Client.attempt_ends (h.ends fun _ _ hstopped => hstopped) with
    hafter | ⟨reason, hstopped, failure, hresult, -⟩
  · exact .inl hafter
  · exact .inr ⟨hstopped, failure, hresult⟩

/-- If the URL or the request is rejected, nothing is done at all. -/
theorem Client.session_of_rejected {c : Client} {url : String} {e : TrialError}
    (w : Watch) (n : Network) (h : c.prepare url = .error e) :
    (c.attempt w n url).session = .start := by
  unfold Client.attempt roundTrip
  rw [h]
  rfl

/-- … and the attempt fails for that reason. -/
theorem Client.result_of_rejected {c : Client} {url : String} {e : TrialError}
    (w : Watch) (n : Network) (h : c.prepare url = .error e) :
    ∃ f, (c.attempt w n url).result = .error f ∧ f.error = e := by
  unfold Client.attempt roundTrip
  rw [h]
  exact ⟨_, rfl, rfl⟩

end ProxyTiming
