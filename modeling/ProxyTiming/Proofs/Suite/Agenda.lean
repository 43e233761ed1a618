import ProxyTiming.Proofs.Run.Sound
import ProxyTiming.Suite

/-!
# What a suite is expected to do

Which runs a suite is to make can be said without an agenda: each client that is selected and
can be built runs each scenario that is enabled and of the kind that was asked for.  The
agenda has these runs in this order, with pauses and remarks between them.
-/

namespace ProxyTiming.Suite

open ProxyTiming.Run ProxyTiming.Config

/-! ### Expectations -/

/-- The clients that are selected and can be built, in the order of their keys. -/
def clientsOf (c : Config) : Selection → List Client
  | .named key => (c.proxies.find? key).toList.filterMap fun p => (p.client c.settings).toOption
  | .all => c.proxies.entries.filterMap fun (_, p) => (p.client c.settings).toOption
  | .direct => [c.settings.directClient]

/-- The runs that are expected of a suite, in their order. -/
def expected (c : Config) (r : Request) (url : String) : List Heading :=
  (clientsOf c r.selection).flatMap fun client =>
    (c.scenarios.filter fun sc => sc.enabled && r.kind.all (sc.kind == ·)).map fun sc =>
      ⟨sc.name, client.name, url, r.count.getD sc.count⟩

def Unresolvable (c : Config) : Option String → Prop
  | none => c.targets = []
  | some wanted => (∀ t ∈ c.targets, t.name ≠ wanted) ∧ looksLikeUrl wanted = false

def Unknown (c : Config) (selection : Selection) : Prop :=
  ∃ key, selection = .named key ∧ c.proxies.find? key = none

variable {c : Config} {r : Request} {url : String} {clients : List Candidate}

/-! ### Before anything is run -/

theorem resolveTarget_eq_error_iff (c : Config) (target : Option String) :
    (∃ e, c.resolveTarget target = .error e) ↔ Unresolvable c target := by
  cases target with
  | none =>
      rw [resolveTarget, Unresolvable]
      cases c.targets <;> simp
  | some wanted =>
      rw [resolveTarget, Unresolvable]
      cases hfind : c.targets.find? fun t => t.name == wanted with
      | some t =>
          have ht : t.name = wanted := by simpa using List.find?_some hfind
          have hmem := List.mem_of_find?_eq_some hfind
          simp only [reduceCtorEq, exists_false, false_iff, not_and]
          exact fun hnone => absurd ht (hnone t hmem)
      | none =>
          have hnone : ∀ t ∈ c.targets, t.name ≠ wanted := by
            simpa using List.find?_eq_none.mp hfind
          cases looksLikeUrl wanted with
          | true => simp
          | false => simpa using hnone

theorem candidates_eq_error_iff (c : Config) (selection : Selection) :
    (∃ e, candidates c selection = .error e) ↔ Unknown c selection := by
  cases selection with
  | named key =>
      rw [candidates, Config.proxy]
      cases hfind : c.proxies.find? key <;> simp [Unknown, hfind]
  | all | direct => simp [candidates, Unknown]

/-- A suite cannot be prepared if its target cannot be made out, or if it is to drive a proxy that
nobody has configured. -/
theorem prepare_eq_error_iff (c : Config) (r : Request) :
    (∃ e, prepare c r = .error e) ↔ Unresolvable c r.target ∨ Unknown c r.selection := by
  rw [← resolveTarget_eq_error_iff, ← candidates_eq_error_iff, prepare]
  cases c.resolveTarget r.target with
  | error e => simp
  | ok url => cases candidates c r.selection <;> simp

theorem resolveTarget_of_prepare (h : prepare c r = .ok (url, clients)) :
    c.resolveTarget r.target = .ok url ∧ candidates c r.selection = .ok clients := by
  rw [prepare] at h
  split at h
  · cases h
  · rename_i hurl
    split at h
    · cases h
    · rename_i hclients
      cases h
      exact ⟨hurl, hclients⟩

theorem clientsOf_eq (h : candidates c r.selection = .ok clients) :
    clients.filterMap (fun candidate => candidate.2.toOption) = clientsOf c r.selection := by
  cases hselection : r.selection with
  | named key =>
      rw [hselection, candidates, Config.proxy] at h
      rw [clientsOf]
      cases hfind : c.proxies.find? key with
      | none =>
          rw [hfind] at h
          cases h
      | some p =>
          rw [hfind] at h
          cases h
          rfl
  | all =>
      rw [hselection] at h
      cases h
      rw [List.filterMap_map]
      rfl
  | direct =>
      rw [hselection] at h
      cases h
      rfl

/-! ### The agenda -/

variable (plan : Client → Scenario → Plan)

def Item.heading? : Item → Option Heading
  | .run client sc => some (plan client sc).heading
  | .skip _ _ | .pause _ => none

def headings (items : List Item) : List Heading := items.filterMap (Item.heading? plan)

theorem headings_append (items items' : List Item) :
    headings plan (items ++ items') = headings plan items ++ headings plan items' :=
  List.filterMap_append

theorem headings_itemsOf (scenarios : List Scenario) (isLast : Bool) (key : String)
    (client : Client) :
    headings plan (itemsOf r scenarios isLast (key, .ok client)) =
      scenarios.map fun sc => (plan client sc).heading := by
  have hruns : headings plan (scenarios.flatMap fun sc =>
      [.run client sc, .pause r.pauseBetweenRuns]) =
        scenarios.map fun sc => (plan client sc).heading := by
    induction scenarios with
    | nil => rfl
    | cons sc scenarios ih =>
        rw [List.flatMap_cons, headings_append, ih]
        rfl
  have hlast : headings plan (if isLast then [] else [.pause r.pauseBetweenProxies]) = [] := by
    cases isLast <;> rfl
  rw [itemsOf, headings_append, hruns, hlast, List.append_nil]

theorem headings_agenda (scenarios : List Scenario) (clients : List Candidate) :
    headings plan (agenda r scenarios clients) =
      (clients.filterMap fun candidate => candidate.2.toOption).flatMap fun client =>
        scenarios.map fun sc => (plan client sc).heading := by
  induction clients with
  | nil => rfl
  | cons candidate clients ih =>
      obtain ⟨key, built⟩ := candidate
      rw [agenda, headings_append, ih]
      cases built with
      | error reason => rfl
      | ok client =>
          rw [headings_itemsOf]
          rfl

/-- The agenda has the runs that are expected. -/
theorem headings_eq_expected (h : prepare c r = .ok (url, clients)) :
    headings (planOf r c.settings url) (agenda r (r.scenarios c) clients) = expected c r url := by
  have hscenarios : r.scenarios c =
      c.scenarios.filter fun sc => sc.enabled && r.kind.all (sc.kind == ·) := by
    rw [Request.scenarios, enabledScenarios, List.filter_filter]
    refine List.filter_congr fun sc _ => ?_
    rw [Bool.and_comm]
    cases r.kind <;> rfl
  rw [headings_agenda, clientsOf_eq (resolveTarget_of_prepare h).2, expected, hscenarios]
  rfl

theorem mem_of_run_mem_agenda {scenarios : List Scenario} {client : Client} {sc : Scenario}
    (h : .run client sc ∈ agenda r scenarios clients) : sc ∈ scenarios := by
  induction clients with
  | nil => cases h
  | cons candidate clients ih =>
      obtain ⟨key, built⟩ := candidate
      obtain h | h := List.mem_append.mp h
      · cases built with
        | error reason => simp [itemsOf] at h
        | ok built =>
            rw [itemsOf, List.mem_append, List.mem_flatMap] at h
            obtain ⟨sc', hsc', hitem⟩ | hlast := h
            · obtain ⟨-, rfl⟩ : client = built ∧ sc = sc' := by simpa using hitem
              exact hsc'
            · split at hlast <;> simp at hlast
      · exact ih h

end ProxyTiming.Suite
