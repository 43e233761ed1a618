import ProxyTiming.Config.Basic
import ProxyTiming.Json.Codec

/-!
# Configurations in documents

Settings, and the parts of a configuration, may be left out; a scenario may leave
out its concurrency and whether it is enabled.  Credentials that a proxy does not
have are not written.
-/

namespace ProxyTiming.Config

open ProxyTiming.Json

def Target.fields :=
  Fields.cons (Codec.field "name" Codec.string) <|
  Fields.cons (Codec.field "url" Codec.string) Fields.nil

def Target.codec : Codec Target :=
  (Codec.record "struct TargetDefinition" Target.fields).map
    (fun (name, url, ()) => ⟨name, url⟩)
    (fun t => (t.name, t.url, ()))

def Proxy.fields :=
  Fields.cons (Codec.field "socks5" Codec.string) <|
  Fields.cons (Codec.field "name" Codec.string) <|
  Fields.cons (Codec.optionalField "username" Codec.string) <|
  Fields.cons (Codec.optionalField "password" Codec.string) Fields.nil

def Proxy.codec : Codec Proxy :=
  (Codec.record "struct ProxyDefinition" Proxy.fields).map
    (fun (socks5, name, username, password, ()) => ⟨socks5, name, username, password⟩)
    (fun p => (p.socks5, p.name, p.username, p.password, ()))

def ScenarioKind.ofName? (s : String) : Option ScenarioKind :=
  [ScenarioKind.single, .concurrent].find? fun k => k.name == s

def ScenarioKind.codec : Codec ScenarioKind :=
  Codec.variant ["single", "concurrent"] ScenarioKind.ofName? ScenarioKind.name

def Scenario.fields :=
  Fields.cons (Codec.field "name" Codec.string) <|
  Fields.cons (Codec.field "type" ScenarioKind.codec) <|
  Fields.cons (Codec.field "count" Codec.count) <|
  Fields.cons (Codec.fieldWithDefault "concurrency" Codec.count 1) <|
  Fields.cons (Codec.fieldWithDefault "enabled" Codec.bool true) Fields.nil

def Scenario.codec : Codec Scenario :=
  (Codec.record "struct Scenario" Scenario.fields).map
    (fun (name, kind, count, concurrency, enabled, ()) =>
      ⟨name, kind, count, concurrency, enabled⟩)
    (fun s => (s.name, s.kind, s.count, s.concurrency, s.enabled, ()))

def pathCodec : Codec String := ⟨Reader.stringExpecting "path string", .string⟩

def Settings.fields :=
  Fields.cons (Codec.fieldWithDefault "request_timeout_ms" Codec.unsigned
    Settings.default.requestTimeoutMs) <|
  Fields.cons (Codec.fieldWithDefault "request_interval_ms" Codec.unsigned
    Settings.default.requestIntervalMs) <|
  Fields.cons (Codec.fieldWithDefault "output_dir" pathCodec Settings.default.outputDir) <|
  Fields.cons (Codec.fieldWithDefault "sequential_workers" Codec.count
    Settings.default.sequentialWorkers) <|
  Fields.cons (Codec.fieldWithDefault "resolve_target_locally" Codec.bool
    Settings.default.resolveTargetLocally) Fields.nil

def Settings.codec : Codec Settings :=
  (Codec.record "struct Settings" Settings.fields).map
    (fun (timeout, interval, dir, workers, locally, ()) =>
      ⟨timeout, interval, dir, workers, locally⟩)
    (fun s => (s.requestTimeoutMs, s.requestIntervalMs, s.outputDir, s.sequentialWorkers,
      s.resolveTargetLocally, ()))

/-- Tables of proxies in documents; of two members of one name the later one counts. -/
def proxiesCodec : Codec (Table Proxy) where
  read := Reader.table Reader.name Proxy.codec.read Table.insert Table.empty
  write t := .object (t.entries.map fun (key, p) => (key, Proxy.codec.write p))

def fields :=
  Fields.cons (Codec.fieldWithDefault "targets" (Codec.list Target.codec) []) <|
  Fields.cons (Codec.fieldWithDefault "proxies" proxiesCodec Table.empty) <|
  Fields.cons (Codec.fieldWithDefault "scenarios" (Codec.list Scenario.codec) []) <|
  Fields.cons (Codec.fieldWithDefault "settings" Settings.codec Settings.default) Fields.nil

def codec : Codec Config :=
  (Codec.record "struct BenchConfig" fields).map
    (fun (targets, proxies, scenarios, settings, ()) => ⟨targets, proxies, scenarios, settings⟩)
    (fun c => (c.targets, c.proxies, c.scenarios, c.settings, ()))

end ProxyTiming.Config
