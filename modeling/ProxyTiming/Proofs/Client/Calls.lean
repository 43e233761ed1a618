import Mathlib.Data.Option.Basic
import ProxyTiming.Client

/-!
# What becomes of the calls

A client is put together by calls in any order and any number.  Most of them say one thing each, and
what has been said last counts.  The address of a proxy and the credentials for it are two parts of
the route, and there the order matters: credentials that come before any address are lost, while
those that come after one outlive every change of the address.
-/

namespace ProxyTiming.Client

open ProxyTiming.Net ProxyTiming.Socks

variable {α : Type} {calls : List Call} {b : Builder}

namespace Call

/-! ### What a call says -/

def proxy? : Call → Option Endpoint
  | .socks5 proxy => some proxy
  | _ => none

def credentials? : Call → Option Credentials
  | .credentials username password => some ⟨username, password⟩
  | _ => none

def name? : Call → Option String
  | .name text => some text
  | _ => none

def timeout? : Call → Option Duration
  | .timeout limit => some limit
  | _ => none

def userAgent? : Call → Option String
  | .userAgent text => some text
  | _ => none

def resolveLocally? : Call → Option Bool
  | .resolveLocally enabled => some enabled
  | _ => none

end Call

def lastSaid (say : Call → Option α) (calls : List Call) : Option α :=
  (calls.filterMap say).getLast?

theorem lastSaid_cons (say : Call → Option α) (call : Call) (calls : List Call) :
    lastSaid say (call :: calls) = (lastSaid say calls).or (say call) := by
  rw [← List.singleton_append, lastSaid, List.filterMap_append, List.getLast?_append]
  cases h : say call <;> simp [h, lastSaid]

theorem lastSaid_eq_none_iff {say : Call → Option α} :
    lastSaid say calls = none ↔ ∀ call ∈ calls, say call = none := by
  rw [lastSaid, List.getLast?_eq_none_iff, List.filterMap_eq_nil_iff]

namespace Builder

theorem applyAll_append (calls more : List Call) (b : Builder) :
    b.applyAll (calls ++ more) = (b.applyAll calls).applyAll more :=
  List.foldl_append

/-! ### One call -/

def proxy? (b : Builder) : Option Endpoint :=
  match b.route with
  | .direct => none
  | .proxy proxy _ => some proxy

def credentials? (b : Builder) : Option Credentials :=
  match b.route with
  | .direct => none
  | .proxy _ credentials => credentials

theorem proxy?_apply (b : Builder) (call : Call) :
    (b.apply call).proxy? = call.proxy?.or b.proxy? := by
  cases call with
  | credentials username password =>
      cases hroute : b.route <;> simp [apply, proxy?, Call.proxy?, hroute]
  | _ => rfl

theorem proxy?_apply_ne_none (b : Builder) (call : Call) (h : b.proxy? ≠ none) :
    (b.apply call).proxy? ≠ none := by
  rw [proxy?_apply, ne_eq, Option.or_eq_none_iff]
  exact fun hnone => h hnone.2

/-- Once there is a proxy, credentials are as good as anything else. -/
theorem credentials?_apply (b : Builder) (call : Call) (h : b.proxy? ≠ none) :
    (b.apply call).credentials? = call.credentials?.or b.credentials? := by
  cases hroute : b.route with
  | direct => exact absurd (by rw [proxy?, hroute]) h
  | proxy proxy credentials =>
      cases call <;> simp [apply, credentials?, Call.credentials?, hroute]

theorem route_eq (b : Builder) :
    b.route = match b.proxy? with
      | none => .direct
      | some proxy => .proxy proxy b.credentials? := by
  rw [proxy?, credentials?]
  cases b.route <;> rfl

/-! ### Any number of calls -/

/-- Of a part that every call overrides, if it says anything about it, the last word counts.  Calls
may do so only as long as the builder has a property that none of them takes away. -/
theorem applyAll_eq_or_of (part : Builder → Option α) (say : Call → Option α)
    {P : Builder → Prop} (keeps : ∀ b call, P b → P (b.apply call))
    (step : ∀ b call, P b → part (b.apply call) = (say call).or (part b)) (calls : List Call)
    (h : P b) : part (b.applyAll calls) = (lastSaid say calls).or (part b) := by
  induction calls generalizing b with
  | nil => rfl
  | cons call calls ih =>
      rw [lastSaid_cons, Option.or_assoc, ← step b call h]
      exact ih (keeps b call h)

theorem applyAll_eq_or (part : Builder → Option α) (say : Call → Option α)
    (step : ∀ b call, part (b.apply call) = (say call).or (part b)) (calls : List Call)
    (b : Builder) : part (b.applyAll calls) = (lastSaid say calls).or (part b) :=
  applyAll_eq_or_of part say (P := fun _ => True) (fun _ _ _ => trivial)
    (fun b call _ => step b call) calls trivial

/-- A part that always has a value keeps the one it starts with until a call says otherwise. -/
theorem applyAll_eq_getD (part : Builder → α) (say : Call → Option α)
    (step : ∀ b call, part (b.apply call) = (say call).getD (part b)) (calls : List Call)
    (b : Builder) : part (b.applyAll calls) = (lastSaid say calls).getD (part b) := by
  have hsome := applyAll_eq_or (fun b => some (part b)) say
    (fun b call => by rw [step, Option.or_some]) calls b
  rw [Option.or_some] at hsome
  exact Option.some.inj hsome

theorem proxy?_applyAll (calls : List Call) (b : Builder) :
    (b.applyAll calls).proxy? = (lastSaid Call.proxy? calls).or b.proxy? :=
  applyAll_eq_or proxy? Call.proxy? proxy?_apply calls b

theorem credentials?_applyAll (calls : List Call) (h : b.proxy? ≠ none) :
    (b.applyAll calls).credentials? = (lastSaid Call.credentials? calls).or b.credentials? :=
  applyAll_eq_or_of credentials? Call.credentials? proxy?_apply_ne_none credentials?_apply calls h

theorem name_applyAll (calls : List Call) (b : Builder) :
    (b.applyAll calls).name = (lastSaid Call.name? calls).or b.name :=
  applyAll_eq_or name Call.name? (fun _ call => by cases call <;> rfl) calls b

theorem timeout_applyAll (calls : List Call) (b : Builder) :
    (b.applyAll calls).timeout = (lastSaid Call.timeout? calls).getD b.timeout :=
  applyAll_eq_getD timeout Call.timeout? (fun _ call => by cases call <;> rfl) calls b

theorem userAgent_applyAll (calls : List Call) (b : Builder) :
    (b.applyAll calls).userAgent = (lastSaid Call.userAgent? calls).getD b.userAgent :=
  applyAll_eq_getD userAgent Call.userAgent? (fun _ call => by cases call <;> rfl) calls b

theorem resolveLocally_applyAll (calls : List Call) (b : Builder) :
    (b.applyAll calls).resolveLocally =
      (lastSaid Call.resolveLocally? calls).getD b.resolveLocally :=
  applyAll_eq_getD resolveLocally Call.resolveLocally? (fun _ call => by cases call <;> rfl) calls b

/-! ### From the first address on -/

/-- Nothing that comes before the first address has any influence on the credentials. -/
theorem credentials?_start_applyAll {before later : List Call} {first : Endpoint}
    (h : ∀ call ∈ before, call.proxy? = none) :
    (start.applyAll (before ++ .socks5 first :: later)).credentials? =
      lastSaid Call.credentials? later := by
  have hnone : (start.applyAll before).proxy? = none := by
    rw [proxy?_applyAll, lastSaid_eq_none_iff.mpr h]
    rfl
  have hroute : (start.applyAll before).route = .direct := by rw [route_eq, hnone]
  -- With the first address the route begins, and without credentials.
  have hfirst : ((start.applyAll before).apply (.socks5 first)).route = .proxy first none := by
    rw [apply, hroute]
  have hproxy : ((start.applyAll before).apply (.socks5 first)).proxy? ≠ none := by
    rw [proxy?, hfirst]
    exact Option.some_ne_none first
  rw [applyAll_append]
  refine (credentials?_applyAll later hproxy).trans ?_
  rw [credentials?, hfirst, Option.or_none]

end Builder

/-- What a client is like that has been put together by some calls. -/
structure AsCalled (calls : List Call) (c : Client) : Prop where
  direct_iff : c.isDirect = true ↔ ∀ call ∈ calls, call.proxy? = none
  /-- The address is the last one, the credentials are the last ones behind the first address. -/
  proxied {before later : List Call} {first : Endpoint} :
    calls = before ++ .socks5 first :: later → (∀ call ∈ before, call.proxy? = none) →
    ∃ proxy, lastSaid Call.proxy? calls = some proxy ∧
      c.route = .proxy proxy (lastSaid Call.credentials? later)
  timeout : c.timeout = (lastSaid Call.timeout? calls).getD (.ofMillis 10000)
  userAgent : c.userAgent = (lastSaid Call.userAgent? calls).getD defaultUserAgent
  resolveLocally : c.resolveLocally = (lastSaid Call.resolveLocally? calls).getD false
  name : c.name = (lastSaid Call.name? calls).getD
    (match lastSaid Call.proxy? calls with
      | none => directName
      | some proxy => "socks5://" ++ proxy.text)

theorem isDirect_build (b : Builder) : b.build.isDirect = true ↔ b.proxy? = none := by
  rw [isDirect, Builder.build, Builder.proxy?]
  cases b.route <;> simp

theorem name_build (b : Builder) :
    b.build.name = b.name.getD (match b.proxy? with
      | none => directName
      | some proxy => "socks5://" ++ proxy.text) := by
  rw [Builder.build, Builder.proxy?]
  cases b.route <;> rfl

/-- A client is as its calls say, whatever they are and in whatever order they come. -/
theorem ofCalls_asCalled (calls : List Call) : AsCalled calls (ofCalls calls) := by
  have hproxy : (Builder.start.applyAll calls).proxy? = lastSaid Call.proxy? calls :=
    (Builder.proxy?_applyAll calls .start).trans Option.or_none
  exact
    { direct_iff := by rw [ofCalls, isDirect_build, hproxy, lastSaid_eq_none_iff]
      proxied := by
        intro before later first hcalls hbefore
        subst hcalls
        have hsaid : lastSaid Call.proxy? (before ++ .socks5 first :: later) ≠ none := by
          rw [ne_eq, lastSaid_eq_none_iff]
          exact fun hnone => Option.some_ne_none first (hnone (.socks5 first) (by simp))
        obtain ⟨proxy, hlast⟩ := Option.ne_none_iff_exists'.mp hsaid
        refine ⟨proxy, hlast, ?_⟩
        change (Builder.start.applyAll _).route = _
        rw [Builder.route_eq, hproxy, hlast, Builder.credentials?_start_applyAll hbefore]
      timeout := Builder.timeout_applyAll calls .start
      userAgent := Builder.userAgent_applyAll calls .start
      resolveLocally := Builder.resolveLocally_applyAll calls .start
      name := by
        rw [ofCalls, name_build, hproxy, Builder.name_applyAll]
        exact congrArg (Option.getD · _) Option.or_none }

-- The first credentials have no proxy to belong to, the others stay when the proxy is another one.
example (p q : Endpoint) :
    (ofCalls [.credentials "a" "b", .socks5 p, .credentials "c" "d", .socks5 q]).route =
      .proxy q (some ⟨"c", "d"⟩) := rfl

end ProxyTiming.Client
