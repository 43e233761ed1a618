import ProxyTiming.Config.Basic
import ProxyTiming.Text.Printable
import ProxyTiming.Text.Hex

/-!
# What is wrong with a configuration

A document can be read without fault and still describe nothing that could be
run.  Every problem is found, not only the first, in the order of the
configuration's parts.
-/

namespace ProxyTiming.Config

open ProxyTiming.Net

inductive Problem where
  | noTargets
  | targetUnnamed (url : String)
  | targetUrl (name url : String)
  | noProxies
  | proxyUnnamed (key : String)
  | proxyAddress (key : String) (cause : SetupError)
  | proxyPasswordAlone (key : String)
  | proxyCredentialsTooLong (key : String)
  | scenarioUnnamed
  | scenarioCount (name : String)
  | scenarioConcurrency (name : String)
  | requestTimeout
  | sequentialWorkers
deriving DecidableEq

def maxCredentialLength : Nat := 255

def Problem.message : Problem → String
  | noTargets => "No targets defined"
  | targetUnnamed url => "Target '" ++ url ++ "': name must not be empty"
  | targetUrl name url =>
    "Target '" ++ name ++ "': URL must start with http:// or https:// (got: " ++ url ++ ")"
  | noProxies => "No proxies defined"
  | proxyUnnamed key => "Proxy '" ++ key ++ "': name must not be empty"
  | proxyAddress key cause =>
    "Proxy '" ++ key ++ "': socks5 address is not host:port (" ++ cause.message ++ ")"
  | proxyPasswordAlone key => "Proxy '" ++ key ++ "': password given without a username"
  | proxyCredentialsTooLong key =>
    "Proxy '" ++ key ++ "': username and password must be at most " ++
      toString maxCredentialLength ++ " bytes"
  | scenarioUnnamed => "Scenario name must not be empty"
  | scenarioCount name => "Scenario '" ++ name ++ "': count must be at least 1"
  | scenarioConcurrency name => "Scenario '" ++ name ++ "': concurrency must be at least 1"
  | requestTimeout => "request_timeout_ms must be greater than 0"
  | sequentialWorkers => "sequential_workers must be at least 1"

def when (condition : Bool) (problem : Problem) : List Problem :=
  if condition then [problem] else []

def Target.problems (t : Target) : List Problem :=
  when (Text.isAllBlank t.name) (.targetUnnamed t.url) ++
    when (!looksLikeUrl (Text.trim t.url)) (.targetUrl t.name t.url)

def Proxy.problems (key : String) (p : Proxy) : List Problem :=
  let username := p.username.getD ""
  let password := p.password.getD ""
  when (Text.isAllBlank p.name) (.proxyUnnamed key) ++
    (match p.endpoint with
      | .ok _ => []
      | .error cause => [.proxyAddress key cause]) ++
    when (username.isEmpty && !password.isEmpty) (.proxyPasswordAlone key) ++
    when (decide (maxCredentialLength < (Text.utf8 username).length) ||
      decide (maxCredentialLength < (Text.utf8 password).length)) (.proxyCredentialsTooLong key)

def Scenario.problems (s : Scenario) : List Problem :=
  when (Text.isAllBlank s.name) .scenarioUnnamed ++
    when (s.count == 0) (.scenarioCount s.name) ++
    when (decide (s.kind = .concurrent) && s.concurrency == 0) (.scenarioConcurrency s.name)

def Settings.problems (s : Settings) : List Problem :=
  when (s.requestTimeoutMs == 0) .requestTimeout ++
    when (s.sequentialWorkers == 0) .sequentialWorkers

def problems (c : Config) : List Problem :=
  when c.targets.isEmpty .noTargets ++
    c.targets.flatMap Target.problems ++
    when c.proxies.isEmpty .noProxies ++
    c.proxies.entries.flatMap (fun (key, p) => p.problems key) ++
    c.scenarios.flatMap Scenario.problems ++
    c.settings.problems

def Problem.error (p : Problem) : SetupError := .invalid p.message

end ProxyTiming.Config
