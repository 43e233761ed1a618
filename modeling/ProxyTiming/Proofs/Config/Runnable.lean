import ProxyTiming.Config.Validation
import ProxyTiming.Proofs.Socks.Causes
import ProxyTiming.Proofs.Suite.Refinement

/-!
# A configuration without problems can be run

The limits that a configuration is checked against are those that matter when it is used, each
of which is stated again by the part that has it: the parser of endpoints, the login message
with its lengths of one byte, the gate that is never narrower than one, and the suite that
leaves out the clients that it cannot build.  A configuration in which no problem is found meets
all of them.
-/

namespace ProxyTiming.Config

open ProxyTiming.Net ProxyTiming.Run ProxyTiming.Socks ProxyTiming.Suite ProxyTiming.Text

variable {c : Config} {p : Proxy} {s : Settings} {key : String}

/-! ### What is known when there is no problem -/

@[simp] theorem when_eq_nil {condition : Bool} {problem : Problem} :
    when condition problem = [] ↔ condition = false := by
  cases condition <;> simp [when]

/-- No part of the configuration has a problem, and neither targets nor proxies are missing. -/
theorem problems_eq_nil : c.problems = [] ↔
    c.targets ≠ [] ∧ (∀ t ∈ c.targets, t.problems = []) ∧ c.proxies.entries ≠ [] ∧
      (∀ e ∈ c.proxies.entries, e.2.problems e.1 = []) ∧
      (∀ sc ∈ c.scenarios, sc.problems = []) ∧ c.settings.problems = [] := by
  simp only [problems, List.append_eq_nil_iff, when_eq_nil, List.isEmpty_eq_false_iff,
    List.flatMap_eq_nil_iff, Table.isEmpty, and_assoc]

structure Proxy.Checked (p : Proxy) : Prop where
  address : ∃ e, p.endpoint = .ok e
  username : p.password.getD "" ≠ "" → p.username.getD "" ≠ ""
  fits : Credentials.Fit ⟨p.username.getD "", p.password.getD ""⟩

theorem Proxy.checked_of_problems_eq_nil (h : p.problems key = []) : p.Checked := by
  simp only [Proxy.problems, List.append_eq_nil_iff, when_eq_nil, Bool.or_eq_false_iff] at h
  obtain ⟨⟨⟨-, haddress⟩, halone⟩, huser, hpass⟩ := h
  refine ⟨?_, fun hpassword husername => ?_, Nat.le_of_not_lt (of_decide_eq_false huser),
    Nat.le_of_not_lt (of_decide_eq_false hpass)⟩
  · cases hendpoint : p.endpoint with
    | ok e => exact ⟨e, rfl⟩
    | error cause =>
        rw [hendpoint] at haddress
        cases haddress
  · rw [husername] at halone
    have hempty : (p.password.getD "").isEmpty = false := by simpa using hpassword
    rw [hempty] at halone
    cases halone

/-! ### Clients -/

/-- What a proxy with this endpoint is driven by. -/
theorem Proxy.client_of_endpoint {e : Endpoint} (h : p.endpoint = .ok e) (s : Settings) :
    p.client s = .ok
      { name := p.name
        route := .proxy e (if p.hasCredentials then
          some ⟨p.username.getD "", p.password.getD ""⟩ else none)
        timeout := s.requestTimeout
        userAgent := Client.defaultUserAgent
        resolveLocally := s.resolveTargetLocally } := by
  rw [Proxy.client, h]
  cases p.hasCredentials <;> rfl

theorem Proxy.Checked.username_ne_empty (h : p.Checked) (credentials : p.hasCredentials = true) :
    ∃ username, p.username = some username ∧ username ≠ "" := by
  have hset (s : Option String) : isSet s = true ↔ s.getD "" ≠ "" := by
    cases s <;> simp [isSet]
  have husername : p.username.getD "" ≠ "" := by
    rw [Proxy.hasCredentials, Bool.or_eq_true, hset, hset] at credentials
    exact credentials.elim id h.username
  cases hp : p.username with
  | none => simp [hp] at husername
  | some username => exact ⟨username, rfl, by simpa [hp] using husername⟩

structure Proxy.Drivable (p : Proxy) (s : Settings) : Prop where
  endpoint : ∃ e, p.endpoint = .ok e
  client : ∃ client, p.client s = .ok client
  username : p.hasCredentials = true → ∃ username, p.username = some username ∧ username ≠ ""
  /-- The client has the credentials, and its login can be sent. -/
  login : p.hasCredentials = true → ∀ client, p.client s = .ok client →
    ∃ e credentials request, client.route = .proxy e (some credentials) ∧
      credentials = ⟨p.username.getD "", p.password.getD ""⟩ ∧
      loginRequest credentials = .ok request
  /-- Wherever the proxy is to connect to and whatever it says, the client never finds its own
  credentials too long; only the name of a host may be. -/
  negotiation : ∀ client e credentials, p.client s = .ok client →
    client.route = .proxy e credentials →
      ∀ (d : Socks.Destination) (σ : Type) (channel : Channel σ) (state : σ) (f : Failure),
        ((Socks.negotiation d credentials).over channel state).1 = some (.error f) →
          f ≠ .usernameTooLong ∧ f ≠ .passwordTooLong ∧
            ∀ host, f = .hostTooLong host →
              ∃ port, d = .domain host port ∧ 255 < (utf8 host).length

theorem Proxy.Checked.drivable (h : p.Checked) (s : Settings) : p.Drivable s := by
  obtain ⟨e, hendpoint⟩ := h.address
  have hclient := Proxy.client_of_endpoint hendpoint s
  refine
    { endpoint := h.address
      client := ⟨_, hclient⟩
      username := h.username_ne_empty
      login := fun hcredentials client hbuilt => ?_
      negotiation := fun client e' credentials hbuilt hroute d σ channel state f hfail => ?_ }
  · obtain ⟨request, hrequest⟩ := (exists_loginRequest_iff _).mpr h.fits
    obtain rfl := Except.ok.inj (hclient.symm.trans hbuilt)
    exact ⟨e, _, request, by rw [if_pos hcredentials], rfl, hrequest⟩
  · obtain rfl := Except.ok.inj (hclient.symm.trans hbuilt)
    refine (cause_of_negotiation hfail).fits fun given hgiven => ?_
    obtain ⟨-, rfl⟩ := Route.proxy.inj hroute
    split at hgiven
    · obtain rfl := Option.some.inj hgiven
      exact h.fits
    · cases hgiven

/-! ### Targets and gates -/

theorem exists_resolveTarget {target : Option String} (h : ¬Unresolvable c target) :
    ∃ url, c.resolveTarget target = .ok url := by
  rw [← resolveTarget_eq_error_iff] at h
  cases hurl : c.resolveTarget target with
  | ok url => exact ⟨url, rfl⟩
  | error e => exact absurd ⟨e, hurl⟩ h

def Scenario.wanted (sc : Scenario) (s : Settings) : Nat :=
  match sc.kind with
  | .single => s.sequentialWorkers
  | .concurrent => sc.concurrency

theorem Scenario.width_eq_wanted {sc : Scenario} (hscenario : sc.problems = [])
    (hsettings : s.problems = []) : (sc.strategy s).width = sc.wanted s := by
  simp only [Scenario.problems, Settings.problems, List.append_eq_nil_iff, when_eq_nil] at *
  rw [Scenario.strategy, Scenario.strategyWith, Scenario.wanted]
  cases hkind : sc.kind with
  | single =>
      have hworkers : s.sequentialWorkers ≠ 0 := by simpa using hsettings.2
      exact Nat.max_eq_left (Nat.one_le_iff_ne_zero.mpr hworkers)
  | concurrent =>
      have hconcurrency : sc.concurrency ≠ 0 := by simpa [hkind] using hscenario.2
      exact Nat.max_eq_left (Nat.one_le_iff_ne_zero.mpr hconcurrency)

theorem Scenario.one_le_count {sc : Scenario} (h : sc.problems = []) : 1 ≤ sc.count := by
  simp only [Scenario.problems, List.append_eq_nil_iff, when_eq_nil] at h
  have hcount : sc.count ≠ 0 := by simpa using h.1.2
  exact Nat.one_le_iff_ne_zero.mpr hcount

/-! ### Suites over all proxies -/

/-- Every enabled scenario against a target, through every proxy. -/
def grid (c : Config) (url : String) : List Heading :=
  c.proxies.entries.flatMap fun e =>
    c.enabledScenarios.map fun sc => ⟨sc.name, e.2.name, url, sc.count⟩

/-- A request for all proxies that changes nothing about the scenarios. -/
structure Plain (r : Suite.Request) : Prop where
  selection : r.selection = .all
  kind : r.kind = none
  count : r.count = none
  concurrency : r.concurrency = none

variable {r : Suite.Request} {url : String}

theorem Plain.scenarios (plain : Plain r) : r.scenarios c = c.enabledScenarios := by
  rw [Suite.Request.scenarios, plain.kind]
  exact List.filter_true _

theorem Plain.strategyOf (plain : Plain r) (sc : Scenario) : r.strategyOf s sc = sc.strategy s := by
  rw [Suite.Request.strategyOf, plain.concurrency]
  rfl

/-- A client is called after its proxy. -/
theorem names_of_clients {entries : List (String × Proxy)} (h : ∀ e ∈ entries, e.2.Checked) :
    (entries.filterMap fun e => (e.2.client s).toOption).map (·.name) =
      entries.map fun e => e.2.name := by
  induction entries with
  | nil => rfl
  | cons e entries ih =>
      obtain ⟨he, hentries⟩ := List.forall_mem_cons.mp h
      obtain ⟨endpoint, hendpoint⟩ := he.address
      rw [List.filterMap_cons, Proxy.client_of_endpoint hendpoint]
      exact congrArg _ (ih hentries)

/-- Nothing is expected less than the whole grid. -/
theorem expected_eq_grid (plain : Plain r) (h : ∀ e ∈ c.proxies.entries, e.2.Checked) :
    expected c r url = grid c url := by
  have hscenarios : (c.scenarios.filter fun sc => sc.enabled && r.kind.all (sc.kind == ·)) =
      c.enabledScenarios := by
    rw [plain.kind]
    exact List.filter_congr fun sc _ => Bool.and_true _
  have hheadings : expected c r url =
      ((clientsOf c .all).map (·.name)).flatMap fun name =>
        c.enabledScenarios.map fun sc => ⟨sc.name, name, url, sc.count⟩ := by
    rw [expected, plain.selection, hscenarios, plain.count, List.flatMap_map]
    rfl
  have hnames : (clientsOf c .all).map (·.name) = c.proxies.entries.map fun e => e.2.name :=
    names_of_clients h
  rw [hheadings, hnames, List.flatMap_map]
  rfl

theorem length_grid (c : Config) (url : String) :
    (grid c url).length = c.proxies.entries.length * c.enabledScenarios.length := by
  simp [grid, List.length_flatMap]

/-- These entries are all runs of the grid, each of them completed and with at least one trial. -/
structure Makes (c : Config) (url : String) (entries : List Entry) : Prop where
  headings : entries.map (·.run.heading) = grid c url
  length : entries.length = c.proxies.entries.length * c.enabledScenarios.length
  completed : ∀ entry ∈ entries, entry.run.status = .completed
  trials : ∀ entry ∈ entries, 1 ≤ entry.run.totalCount

theorem Makes.of_headings {entries : List Entry} (hscenarios : ∀ sc ∈ c.scenarios, sc.problems = [])
    (headings : entries.map (·.run.heading) = grid c url)
    (completed : ∀ entry ∈ entries, entry.run.status = .completed) : Makes c url entries where
  headings := headings
  length := by rw [← length_grid c url, ← headings, List.length_map]
  completed := completed
  trials entry hentry := by
    have hmem : entry.run.heading ∈ grid c url :=
      headings ▸ List.mem_map_of_mem (f := fun entry => entry.run.heading) hentry
    obtain ⟨e, -, hmem⟩ := List.mem_flatMap.mp hmem
    obtain ⟨sc, hsc, hheading⟩ := List.mem_map.mp hmem
    have hcount : sc.count = entry.run.totalCount := congrArg Heading.count hheading
    exact hcount ▸ Scenario.one_le_count (hscenarios sc (List.mem_of_mem_filter hsc))

/-- A suite that is through has made all runs if nobody has cancelled. -/
theorem Makes.of_keepsTo {plan : Client → Scenario → Plan} {c₀ c' : Course} {ms : List Move}
    (h : c.problems = []) (plain : Plain r) (keeps : KeepsTo (expected c r url) plan c₀ ms c')
    (finished : c'.activity = .finished) (uncancelled : c'.cancelled = false) :
    Makes c url c'.entries := by
  obtain ⟨-, -, -, hproxies, hscenarios, -⟩ := problems_eq_nil.mp h
  obtain ⟨hheadings, hcompleted⟩ := keeps.all finished uncancelled
  have hexpected : expected c r url = grid c url := expected_eq_grid plain fun e he =>
    Proxy.checked_of_problems_eq_nil (hproxies e he)
  exact .of_headings hscenarios (hheadings.trans hexpected) hcompleted

def candidates (c : Config) : List Candidate :=
  c.proxies.entries.map fun (key, p) => (key, p.client c.settings)

theorem candidates_keys (c : Config) :
    (candidates c).map Prod.fst = c.proxies.entries.map Prod.fst :=
  List.map_map

theorem candidates_built (h : c.problems = []) :
    ∀ candidate ∈ candidates c, ∃ client, candidate.2 = .ok client := by
  obtain ⟨-, -, -, hproxies, -, -⟩ := problems_eq_nil.mp h
  intro candidate hcandidate
  obtain ⟨e, he, rfl⟩ := List.mem_map.mp hcandidate
  exact ((Proxy.checked_of_problems_eq_nil (hproxies e he)).drivable c.settings).client

theorem Plain.prepare (plain : Plain r) (hurl : c.resolveTarget r.target = .ok url) :
    Suite.prepare c r = .ok (url, candidates c) := by
  rw [Suite.prepare, hurl, plain.selection]
  rfl

/-- What a suite over all proxies does that nobody cancels. -/
structure RunsAll (c : Config) (r : Suite.Request) (url : String) : Prop where
  /-- Nobody is left out. -/
  candidates : ∃ clients, prepare c r = .ok (url, clients) ∧
    clients.map Prod.fst = c.proxies.entries.map Prod.fst ∧
    (∀ candidate ∈ clients, ∃ client, candidate.2 = .ok client) ∧
    ∀ key reason, .skip key reason ∉ agenda r (r.scenarios c) clients
  on_clock : ∀ w n scene, scene.cancelled = false → scene.cancelAt = none →
    ∃ report, execute w n c r scene = .ok report ∧ Makes c url report.entries
  /-- In whatever order the parties take their steps, the suite can be worked through to its end,
  and has then made all runs. -/
  in_any_course : ∀ journal c₀ ms c', course c r false journal = .ok c₀ →
    c₀.follow (planOf r c.settings url) ms = some c' → (∀ m ∈ ms, m.isCancel = false) →
      c'.Ends (planOf r c.settings url) ∧ (c'.activity = .finished → Makes c url c'.entries)

theorem skip_not_mem_agenda {scenarios : List Scenario} {clients : List Candidate}
    (built : ∀ candidate ∈ clients, ∃ client, candidate.2 = .ok client) (key : String)
    (reason : SetupError) : .skip key reason ∉ agenda r scenarios clients := by
  induction clients with
  | nil => exact nofun
  | cons candidate clients ih =>
      obtain ⟨⟨client, hclient⟩, hclients⟩ := List.forall_mem_cons.mp built
      obtain ⟨name, result⟩ := candidate
      obtain rfl : result = .ok client := hclient
      rw [agenda, itemsOf, List.mem_append, List.mem_append]
      rintro ((hruns | hlast) | hrest)
      · simp at hruns
      · split at hlast <;> simp at hlast
      · exact ih hclients hrest

theorem runsAll (h : c.problems = []) (plain : Plain r) (hurl : c.resolveTarget r.target = .ok url)
    (narrow : ∀ sc ∈ c.enabledScenarios, (sc.strategy c.settings).width ≤ maxWidth) :
    RunsAll c r url := by
  have hprepare := plain.prepare hurl
  have hbuilt := candidates_built h
  have hnarrow : ∀ sc ∈ r.scenarios c, (r.strategyOf c.settings sc).width ≤ maxWidth := by
    intro sc hsc
    rw [plain.strategyOf]
    exact narrow sc (plain.scenarios ▸ hsc)
  refine
    { candidates := ⟨_, hprepare, candidates_keys c, hbuilt, skip_not_mem_agenda hbuilt⟩
      on_clock := fun w n scene uncancelled never => ?_
      in_any_course := fun journal c₀ ms c' hc₀ hms quiet => ?_ }
  · obtain ⟨report, rest, c₀, hok, hc₀, ms, hms, -⟩ := execute_leads hnarrow hprepare w n scene
    obtain ⟨clients, -, hwork⟩ := prepare_of_execute hurl hok
    exact ⟨report, hok, .of_keepsTo h plain (keepsTo_of_course hurl hc₀ hms) rfl
      (uncancelled_of_work hwork uncancelled never)⟩
  · have hkeeps := keepsTo_of_course hurl hc₀ hms
    obtain ⟨clients, journal', -, rfl⟩ := start_of_course hurl hc₀
    exact ⟨((Course.Sound.start _ _ _).follow hms).ends ((narrow_agenda hnarrow).follow hms),
      fun finished => .of_keepsTo h plain hkeeps finished (hkeeps.uncancelled_of_quiet rfl quiet)⟩

/-! ### The configuration -/

/-- Everything in a configuration can be used. -/
structure Runnable (c : Config) : Prop where
  proxies : ∀ e ∈ c.proxies.entries, e.2.Drivable c.settings
  first_target : ∃ url, c.resolveTarget none = .ok url
  named_target : ∀ t ∈ c.targets, ∃ url, c.resolveTarget (some t.name) = .ok url
  /-- No gate is widened. -/
  width : ∀ sc ∈ c.scenarios, (sc.strategy c.settings).width = sc.wanted c.settings
  suite : ∀ r url, Plain r → c.resolveTarget r.target = .ok url →
    (∀ sc ∈ c.enabledScenarios, (sc.strategy c.settings).width ≤ maxWidth) → RunsAll c r url

theorem runnable_of_problems_eq_nil (h : c.problems = []) : Runnable c := by
  obtain ⟨htargets, -, -, hproxies, hscenarios, hsettings⟩ := problems_eq_nil.mp h
  refine
    { proxies := fun e he => (Proxy.checked_of_problems_eq_nil (hproxies e he)).drivable c.settings
      first_target := exists_resolveTarget htargets
      named_target := fun t ht => exists_resolveTarget fun hnone => hnone.1 t ht rfl
      width := fun sc hsc => Scenario.width_eq_wanted (hscenarios sc hsc) hsettings
      suite := fun r url plain hurl narrow => runsAll h plain hurl narrow }

/-- Two proxies, one of them with a user name of 255 bytes that has only 128 characters, and two
scenarios. -/
theorem runnable_of_long_username :
    let c : Config :=
      { targets := [⟨"home", "http://h/"⟩]
        proxies := (Table.empty.insert "a" ⟨"10.0.0.1:1080", "first", none, none⟩).insert "b"
          ⟨" [::1]:1080", "second", some (String.ofList ('x' :: List.replicate 127 'é')), some ""⟩
        scenarios := [⟨"few", .single, 2, 0, true⟩, ⟨"many", .concurrent, 3, 2, true⟩]
        settings := .default }
    c.problems = [] ∧ Runnable c ∧
      ∃ report, execute .tick .unplugged c (.usual .all) (.start false none (.start none)) =
          .ok report ∧
        report.entries.map (·.run.heading) =
          [⟨"few", "first", "http://h/", 2⟩, ⟨"many", "first", "http://h/", 3⟩,
            ⟨"few", "second", "http://h/", 2⟩, ⟨"many", "second", "http://h/", 3⟩] := by
  intro c
  have hproblems : c.problems = [] := by decide +kernel
  have hrunnable := runnable_of_problems_eq_nil hproblems
  have hsuite := hrunnable.suite (.usual .all) "http://h/" ⟨rfl, rfl, rfl, rfl⟩ rfl (by decide)
  obtain ⟨report, hok, hmakes⟩ :=
    hsuite.on_clock .tick .unplugged (.start false none (.start none)) rfl rfl
  exact ⟨hproblems, hrunnable, report, hok, hmakes.headings⟩

end ProxyTiming.Config
