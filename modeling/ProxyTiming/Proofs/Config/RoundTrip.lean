import ProxyTiming.Config.File
import ProxyTiming.Proofs.Json.Members
import ProxyTiming.Proofs.Json.Yields

/-!
# Configurations are read back

The numbers of a configuration that was read have 64 bits, whether they were written out or
left to their defaults (`Fits`).  A configuration with such numbers is read back from whatever
layout of its document, since each of its codecs reads back what it writes.  So a configuration
that was accepted once is accepted from its own file, and the file is then written again without
a change.
-/

namespace ProxyTiming.Config

open ProxyTiming.Json ProxyTiming.Text

/-! ### Numbers that were read -/

structure Scenario.Fits (s : Scenario) : Prop where
  count : s.count ≤ maxUnsigned
  concurrency : s.concurrency ≤ maxUnsigned

structure Settings.Fits (s : Settings) : Prop where
  requestTimeoutMs : s.requestTimeoutMs ≤ maxUnsigned
  requestIntervalMs : s.requestIntervalMs ≤ maxUnsigned
  sequentialWorkers : s.sequentialWorkers ≤ maxUnsigned

/-- All numbers have 64 bits. -/
structure Fits (c : Config) : Prop where
  scenarios : ∀ s ∈ c.scenarios, s.Fits
  settings : c.settings.Fits

theorem Settings.fits_default : Settings.default.Fits := ⟨by decide, by decide, by decide⟩

/-- A number that was left out is the default. -/
theorem le_of_yields_default {c : Codec Nat} {key : String} {absent n : Nat}
    (hc : ∀ n, c.read.Yields n → n ≤ maxUnsigned) (habsent : absent ≤ maxUnsigned)
    (h : (Codec.fieldWithDefault key c absent).Yields n) : n ≤ maxUnsigned := by
  rcases Codec.yields_fieldWithDefault h with h | rfl
  · exact hc n h
  · exact habsent

theorem Scenario.fits_of_yields {s : Scenario} (h : Scenario.codec.read.Yields s) : s.Fits := by
  obtain ⟨r, ⟨-, -, hcount, hconcurrency, -, -⟩, rfl⟩ := Codec.yields_record h
  exact ⟨Codec.le_of_yields_count (Codec.yields_field hcount),
    le_of_yields_default (fun _ => Codec.le_of_yields_count) (by decide) hconcurrency⟩

theorem Settings.fits_of_yields {s : Settings} (h : Settings.codec.read.Yields s) : s.Fits := by
  obtain ⟨r, ⟨htimeout, hinterval, -, hworkers, -, -⟩, rfl⟩ := Codec.yields_record h
  have hdefault := Settings.fits_default
  exact ⟨le_of_yields_default (fun _ => Codec.le_of_yields_unsigned) hdefault.1 htimeout,
    le_of_yields_default (fun _ => Codec.le_of_yields_unsigned) hdefault.2 hinterval,
    le_of_yields_default (fun _ => Codec.le_of_yields_count) hdefault.3 hworkers⟩

theorem fits_of_yields {c : Config} (h : codec.read.Yields c) : c.Fits := by
  obtain ⟨⟨targets, proxies, scenarios, settings, ⟨⟩⟩, ⟨-, -, hscenarios, hsettings, -⟩, rfl⟩ :=
    Codec.yields_record h
  constructor
  · rcases Codec.yields_fieldWithDefault hscenarios with h | rfl
    · exact fun s hs => Scenario.fits_of_yields (Reader.yields_list h s hs)
    · exact nofun
  · rcases Codec.yields_fieldWithDefault hsettings with h | rfl
    · exact Settings.fits_of_yields h
    · exact Settings.fits_default

/-! ### What is written is read -/

theorem Target.readsBack (t : Target) : Target.codec.ReadsBack 1 t := by
  refine .map (Codec.readsBack_record _ (by decide) ?_) rfl
  exact ⟨(Codec.readsBack_string _).field _, (Codec.readsBack_string _).field _, trivial⟩

theorem Proxy.readsBack (p : Proxy) : Proxy.codec.ReadsBack 1 p := by
  refine .map (Codec.readsBack_record _ (by decide) ?_) rfl
  exact ⟨(Codec.readsBack_string _).field _, (Codec.readsBack_string _).field _,
    Codec.readsBack_optionalString _ _, Codec.readsBack_optionalString _ _, trivial⟩

theorem ScenarioKind.readsBack (k : ScenarioKind) : ScenarioKind.codec.ReadsBack 0 k := by
  refine Codec.readsBack_variant ?_
  cases k <;> decide

theorem Scenario.readsBack {s : Scenario} (h : s.Fits) : Scenario.codec.ReadsBack 1 s := by
  refine .map (Codec.readsBack_record _ (by decide) ?_) rfl
  exact ⟨(Codec.readsBack_string _).field _, (ScenarioKind.readsBack _).field _,
    (Codec.readsBack_count h.count).field _,
    (Codec.readsBack_count h.concurrency).fieldWithDefault _ _,
    (Codec.readsBack_bool _).fieldWithDefault _ _, trivial⟩

theorem readsBack_path (s : String) : pathCodec.ReadsBack 0 s :=
  Reader.reads_stringExpecting "path string" s

theorem Settings.readsBack {s : Settings} (h : s.Fits) : Settings.codec.ReadsBack 1 s := by
  refine .map (Codec.readsBack_record _ (by decide) ?_) rfl
  exact ⟨(Codec.readsBack_unsigned h.requestTimeoutMs).fieldWithDefault _ _,
    (Codec.readsBack_unsigned h.requestIntervalMs).fieldWithDefault _ _,
    (readsBack_path _).fieldWithDefault _ _,
    (Codec.readsBack_count h.sequentialWorkers).fieldWithDefault _ _,
    (Codec.readsBack_bool _).fieldWithDefault _ _, trivial⟩

/-- The proxies are written in the order of their keys, and added in it. -/
theorem readsBack_proxies (t : Table Proxy) : proxiesCodec.ReadsBack 2 t := by
  have each : Reader.Handled 1 (Reader.entryStep Proxy.codec.read Table.insert) _ Table.empty _ :=
    Reader.handled_entries (fun e (_ : e ∈ t.entries) => Proxy.readsBack e.2) Table.empty
  rw [Table.foldl_insert] at each
  exact Reader.reads_table each

theorem readsBack {c : Config} (h : c.Fits) : codec.ReadsBack 3 c := by
  have htargets := Codec.readsBack_list fun t (_ : t ∈ c.targets) => t.readsBack
  have hscenarios := Codec.readsBack_list fun s (hs : s ∈ c.scenarios) =>
    Scenario.readsBack (h.scenarios s hs)
  refine .map (Codec.readsBack_record _ (by decide) ?_) rfl
  exact ⟨htargets.fieldWithDefault _ _, (readsBack_proxies c.proxies).fieldWithDefault _ _,
    hscenarios.fieldWithDefault _ _,
    ((Settings.readsBack h.settings).mono (by decide)).fieldWithDefault _ _, trivial⟩

/-! ### Files -/

theorem parse_eq_ok {source : String} {c : Config} :
    parse source = .ok c ↔ codec.decode source = .ok c ∧ c.problems = [] := by
  rw [parse]
  constructor
  · intro h
    split at h
    · cases h
    · rename_i c' hdecode
      split at h
      · rename_i hproblems
        obtain rfl : c' = c := Except.ok.inj h
        exact ⟨hdecode, hproblems⟩
      · cases h
  · rintro ⟨hdecode, hproblems⟩
    rw [hdecode]
    dsimp only
    rw [hproblems]

/-- A configuration without problems comes out of its own text, and out of every layout of its
document. -/
theorem parse_layout {c : Config} (fits : c.Fits) (h : c.problems = []) :
    parse (text c) = .ok c ∧
      ∀ layout : String, Written (codec.write c) layout.toList → parse layout = .ok c := by
  have hkeeps := (readsBack fits).keeps (by decide)
  exact ⟨parse_eq_ok.mpr ⟨hkeeps.pretty, h⟩, fun layout hwritten =>
    parse_eq_ok.mpr ⟨hkeeps.layout layout hwritten, h⟩⟩

/-- The configurations that come out of texts are those with numbers of 64 bits and without
problems; their strings may be any. -/
theorem exists_parse_eq_ok {c : Config} :
    (∃ source, parse source = .ok c) ↔ c.Fits ∧ c.problems = [] := by
  constructor
  · rintro ⟨source, h⟩
    obtain ⟨hdecode, hproblems⟩ := parse_eq_ok.mp h
    exact ⟨fits_of_yields (Codec.yields_of_decode hdecode), hproblems⟩
  · rintro ⟨fits, hproblems⟩
    exact ⟨text c, (parse_layout fits hproblems).1⟩

/-- What a text was read as is read again from the file that is written of it, and that file
would be written again in the same way.  The layout of the file does not matter. -/
theorem written_parses {source : String} {c : Config} (h : parse source = .ok c) :
    parse (text c) = .ok c ∧ (parse (text c)).map text = .ok (text c) ∧
      (∀ file, Destination.fresh.write (text c) = .ok file → ofContents file = .ok c) ∧
      ∀ layout : String, Written (codec.write c) layout.toList → parse layout = .ok c := by
  obtain ⟨fits, hproblems⟩ := exists_parse_eq_ok.mp ⟨source, h⟩
  obtain ⟨htext, hlayout⟩ := parse_layout fits hproblems
  refine ⟨htext, by rw [htext]; rfl, ?_, hlayout⟩
  rintro file hwrite
  obtain rfl : Contents.file (utf8 (text c)) = file := Except.ok.inj hwrite
  rw [ofContents, Contents.read, ofUtf8?_utf8]
  exact htext

/-- Members in another order than the one in which they are written, a scenario that is a list, a
concurrency and settings that are left out, and strings with escapes. -/
def burstSource : String :=
  "\x7b\"scenarios\": [[\"burst\", \"concurrent\", 3]], \"proxies\": \x7b\"eu\": " ++
  "\x7b\"password\": \"p\\u00e4\\\"\\\\\", \"username\": \"\\n\", \"name\": \"Zürich\", " ++
  "\"socks5\": \"10.0.0.1:1080\"\x7d\x7d, " ++
  "\"targets\": [\x7b\"url\": \"https://example.org/\", \"name\": \"t\"\x7d]\x7d"

def burst : Config where
  targets := [⟨"t", "https://example.org/"⟩]
  proxies := Table.empty.insert "eu" ⟨"10.0.0.1:1080", "Zürich", some "\n", some "pä\"\\"⟩
  scenarios := [⟨"burst", .concurrent, 3, 1, true⟩]
  settings := .default

theorem parse_burstSource : parse burstSource = .ok burst := by
  have hread : (parse burstSource).toOption = some burst := by decide +kernel
  cases hparse : parse burstSource with
  | error e =>
      rw [hparse] at hread
      cases hread
  | ok c =>
      rw [hparse] at hread
      rw [Option.some.inj hread]

theorem written_parses_burst :
    parse burstSource = .ok burst ∧ parse (text burst) = .ok burst :=
  ⟨parse_burstSource, (written_parses parse_burstSource).1⟩

end ProxyTiming.Config
