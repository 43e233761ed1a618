import ProxyTiming.Client
import ProxyTiming.Run.Strategy
import ProxyTiming.Error
import ProxyTiming.Table

/-!
# Configurations

A configuration says what to request, through which proxies, in which scenarios,
and with which settings.
-/

namespace ProxyTiming.Config

open ProxyTiming.Net ProxyTiming.Run

structure Target where
  name : String
  url : String
deriving DecidableEq

structure Proxy where
  /-- Host and port. -/
  socks5 : String
  /-- The name under which its runs are recorded. -/
  name : String
  username : Option String
  password : Option String
deriving DecidableEq

inductive ScenarioKind where
  | single
  | concurrent
deriving DecidableEq

structure Scenario where
  name : String
  kind : ScenarioKind
  count : Nat
  /-- Only concurrent scenarios look at it. -/
  concurrency : Nat
  enabled : Bool
deriving DecidableEq

structure Settings where
  requestTimeoutMs : Nat
  requestIntervalMs : Nat
  outputDir : String
  sequentialWorkers : Nat
  resolveTargetLocally : Bool
deriving DecidableEq

end ProxyTiming.Config

namespace ProxyTiming

structure Config where
  targets : List Config.Target
  proxies : Table Config.Proxy
  scenarios : List Config.Scenario
  settings : Config.Settings
deriving DecidableEq

end ProxyTiming

namespace ProxyTiming.Config

open ProxyTiming.Net ProxyTiming.Run

/-! ### Settings -/

namespace Settings

def default : Settings where
  requestTimeoutMs := 10000
  requestIntervalMs := 0
  outputDir := "reports"
  sequentialWorkers := Strategy.defaultWorkers
  resolveTargetLocally := false

def requestTimeout (s : Settings) : Duration := Duration.ofMillis s.requestTimeoutMs

def requestInterval (s : Settings) : Duration := Duration.ofMillis s.requestIntervalMs

def directClient (s : Settings) : Client := Client.direct s.requestTimeout

end Settings

/-! ### Proxies -/

namespace Proxy

def endpoint (p : Proxy) : Except SetupError Endpoint :=
  match Endpoint.parse p.socks5 with
  | .ok e => .ok e
  | .error m => .error (.invalid m.message)

def isSet (s : Option String) : Bool :=
  match s with
  | some s => !s.isEmpty
  | none => false

def hasCredentials (p : Proxy) : Bool := isSet p.username || isSet p.password

def client (p : Proxy) (s : Settings) : Except SetupError Client := do
  let endpoint ← p.endpoint
  let calls : List Client.Call :=
    [.socks5 endpoint, .name p.name, .timeout s.requestTimeout,
      .resolveLocally s.resolveTargetLocally]
  let login : List Client.Call :=
    if p.hasCredentials then [.credentials (p.username.getD "") (p.password.getD "")] else []
  pure (Client.ofCalls (calls ++ login))

end Proxy

/-! ### Scenarios -/

def ScenarioKind.name : ScenarioKind → String
  | single => "single"
  | concurrent => "concurrent"

namespace Scenario

/-- How the trials of a scenario are admitted, with another concurrency in place of its own. -/
def strategyWith (sc : Scenario) (s : Settings) (concurrency : Nat) : Strategy :=
  match sc.kind with
  | .single => .sequential s.sequentialWorkers s.requestInterval
  | .concurrent => .concurrent concurrency

def strategy (sc : Scenario) (s : Settings) : Strategy := sc.strategyWith s sc.concurrency

end Scenario

/-! ### Configurations -/

def enabledScenarios (c : Config) : List Scenario := c.scenarios.filter fun s => s.enabled

def proxy (c : Config) (key : String) : Except SetupError Proxy :=
  match c.proxies.find? key with
  | some p => .ok p
  | none => .error (.unknownProxy key)

/-- Whether a text starts like a URL that can be requested. -/
def looksLikeUrl (s : String) : Bool :=
  "http://".toList.isPrefixOf s.toList || "https://".toList.isPrefixOf s.toList

/-- The URL of a target, which is given by its name or by the URL itself.  Without either it
is the first one. -/
def resolveTarget (c : Config) : Option String → Except SetupError String
  | none =>
    match c.targets with
    | t :: _ => .ok t.url
    | [] => .error (.invalid "No targets defined")
  | some wanted =>
    match c.targets.find? fun t => t.name == wanted with
    | some t => .ok t.url
    | none =>
      if looksLikeUrl wanted then .ok wanted
      else
        .error (.invalid ("Target '" ++ wanted ++
          "' is neither a configured target name nor an http(s) URL"))

end ProxyTiming.Config
