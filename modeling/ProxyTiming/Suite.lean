import ProxyTiming.Attempt.Basic
import ProxyTiming.Config.Basic
import ProxyTiming.Run.Timeline

/-!
# Suites

A suite runs every enabled scenario with every selected client against one target.
What it is going to do can be written down before anything is done: the *agenda* is
the list of runs and pauses in their order, with a remark in place of each client
that cannot be built.  Working through the agenda is then a matter of doing one item
after the other, and of stopping after the run in which, or before whose end,
somebody has cancelled.
-/

namespace ProxyTiming.Suite

open ProxyTiming.Run ProxyTiming.Config

inductive Selection where
  /-- The one with this key. -/
  | named (key : String)
  /-- All that are configured, by their keys. -/
  | all
  /-- None of them: the target itself, without a proxy. -/
  | direct
deriving DecidableEq

structure Request where
  /-- Name or URL of the target; otherwise it is the first one. -/
  target : Option String
  selection : Selection
  /-- Only scenarios of this kind. -/
  kind : Option ScenarioKind
  /-- Trials of each run, in place of what the scenarios say. -/
  count : Option Nat
  concurrency : Option Nat
  pauseBetweenRuns : Duration
  pauseBetweenProxies : Duration
deriving DecidableEq

namespace Request

/-- The usual request: a second between runs and two between proxies. -/
def usual (selection : Selection) : Request where
  target := none
  selection := selection
  kind := none
  count := none
  concurrency := none
  pauseBetweenRuns := Duration.ofMillis 1000
  pauseBetweenProxies := Duration.ofMillis 2000

def withoutPauses (r : Request) : Request :=
  { r with pauseBetweenRuns := .zero, pauseBetweenProxies := .zero }

def countOf (r : Request) (sc : Scenario) : Nat := r.count.getD sc.count

/-- How the trials of a scenario are admitted. -/
def strategyOf (r : Request) (s : Settings) (sc : Scenario) : Strategy :=
  sc.strategyWith s (r.concurrency.getD sc.concurrency)

def scenarios (r : Request) (c : Config) : List Scenario :=
  c.enabledScenarios.filter fun sc =>
    match r.kind with
    | some kind => decide (sc.kind = kind)
    | none => true

end Request

/-! ### The agenda -/

/-- A client that has been selected, under its key; or why it cannot be built. -/
abbrev Candidate := String × Except SetupError Client

def candidates (c : Config) : Selection → Except SetupError (List Candidate)
  | .named key =>
    match c.proxy key with
    | .ok p => .ok [(key, p.client c.settings)]
    | .error e => .error e
  | .all => .ok (c.proxies.entries.map fun (key, p) => (key, p.client c.settings))
  | .direct => .ok [("direct", .ok c.settings.directClient)]

inductive Item where
  /-- A client has to be left out. -/
  | skip (key : String) (reason : SetupError)
  | run (client : Client) (scenario : Scenario)
  | pause (length : Duration)

def itemsOf (r : Request) (scenarios : List Scenario) (isLast : Bool) : Candidate → List Item
  | (key, .error reason) => [.skip key reason]
  | (_, .ok client) =>
    (scenarios.flatMap fun sc => [.run client sc, .pause r.pauseBetweenRuns]) ++
      (if isLast then [] else [.pause r.pauseBetweenProxies])

def agenda (r : Request) (scenarios : List Scenario) : List Candidate → List Item
  | [] => []
  | first :: rest => itemsOf r scenarios rest.isEmpty first ++ agenda r scenarios rest

/-! ### Working through it -/

/-- Waits for a while, or until somebody cancels. -/
def pause (d : Duration) (s : Scene) : Scene :=
  if d.isZero ∨ s.cancelled then s
  else
    let limit := s.now + waitOf d
    match s.cancelAt with
    | some instant =>
      if instant ≤ limit then
        { s with now := max s.now instant, cancelled := true, cancelAt := none }
      else { s with now := limit }
    | none => { s with now := limit }

structure Entry where
  client : Client
  run : Run
  /-- How many trials have been started. -/
  calls : Nat

structure Report where
  entries : List Entry
  scene : Scene

namespace Report

def note (r : Report) (level : Level) (message : String) : Report :=
  { r with scene := { r.scene with journal := r.scene.journal.note level message [] } }

def add (r : Report) (c : Client) (t : Timeline) : Report where
  entries := r.entries ++ [⟨c, t.engine.run, t.calls.length⟩]
  scene := t.scene

end Report

def planOf (r : Request) (s : Settings) (url : String) (c : Client) (sc : Scenario) : Plan where
  id := default
  testName := sc.name
  clientName := c.name
  targetUrl := url
  strategy := r.strategyOf s sc
  count := r.countOf sc

/-- A trial that is an attempt, on a clock for which attempts take no time. -/
def trialOf (a : Attempt) : Trial := ⟨.zero, some a.result⟩

/-- The remark about a client that has to be left out. -/
def skipMessage (key : String) (reason : SetupError) : String :=
  "Skipping proxy '" ++ key ++ "': failed to build client: " ++ reason.message

def finishMessage (runs : Nat) : String := "Suite finished with " ++ toString runs ++ " run(s)"

def cancelMessage (runs : Nat) : String :=
  "Suite cancelled; returning " ++ toString runs ++ " run(s)"

def work (plan : Client → Scenario → Plan) (attempt : Client → Attempt) :
    List Item → Report → Except Refused Report
  | [], report => .ok (report.note .info (finishMessage report.entries.length))
  | .skip key reason :: rest, report =>
    work plan attempt rest (report.note .warn (skipMessage key reason))
  | .pause d :: rest, report =>
    work plan attempt rest { report with scene := pause d report.scene }
  | .run c sc :: rest, report =>
    match (plan c sc).execute (fun _ => trialOf (attempt c)) none report.scene with
    | .error refused => .error refused
    | .ok t =>
      let report := report.add c t
      if t.engine.run.isCancelled ∨ t.engine.cancelled then
        .ok (report.note .warn (cancelMessage report.entries.length))
      else work plan attempt rest report

/-- Why a suite has no report. -/
inductive Fault where
  | setup (reason : SetupError)
  | refused (reason : Refused)

def startMessage (url : String) (clients scenarios : Nat) : String :=
  "Starting suite against " ++ url ++ ": " ++ toString clients ++ " client(s), " ++
    toString scenarios ++ " scenario(s)"

/-- What is found out before anything is run: the URL of the target, and the clients. -/
def prepare (c : Config) (r : Request) : Except SetupError (String × List Candidate) :=
  match c.resolveTarget r.target with
  | .error e => .error e
  | .ok url =>
    match candidates c r.selection with
    | .error e => .error e
    | .ok clients => .ok (url, clients)

def execute (w : Watch) (n : Network) (c : Config) (r : Request) (scene : Scene) :
    Except Fault Report :=
  match prepare c r with
  | .error e => .error (.setup e)
  | .ok (url, clients) =>
    let scenarios := r.scenarios c
    let report := Report.note ⟨[], scene⟩ .info
      (startMessage url clients.length scenarios.length)
    (work (planOf r c.settings url) (fun client => client.attempt w n url)
      (agenda r scenarios clients) report).mapError .refused

def Report.attempts (w : Watch) (n : Network) (r : Report) : List Attempt :=
  r.entries.flatMap fun e => List.replicate e.calls (e.client.attempt w n e.run.targetUrl)

end ProxyTiming.Suite
