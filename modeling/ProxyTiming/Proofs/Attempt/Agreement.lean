import Mathlib.Tactic.SplitIfs
import ProxyTiming.Proofs.Attempt.Leads
import ProxyTiming.Proofs.Attempt.Reasons
import ProxyTiming.Proofs.Http.Splitting
import ProxyTiming.Proofs.Run.Rounds

/-!
# Outcome, record and stage agree

How an attempt ends is told three times: by its outcome, by the flags of its record, and by what
it has done.  The three never contradict each other.  An attempt succeeds just if it is answered
with a status from 200 to 399, and is refused just if it is answered with another one; the record
says the same as the outcome; and every error fits the stage that the attempt had come to.

A run counts by the flag in the record.  So it counts the trials that were answered.
-/

namespace ProxyTiming

open ProxyTiming.Net ProxyTiming.Socks ProxyTiming.Http ProxyTiming.Text

def TrialError.status : TrialError → UInt16
  | .httpStatus status => status
  | _ => 0

/-- An error fits what the attempt has measured and done. -/
inductive Befits (w : Watch) (c : Client) (url : String) (a : Attempt) : TrialError → Prop where
  | connection (text : String) : Befits w c url a (.connection text)
  | timeout : Befits w c url a (.timeout c.timeout)
  /-- There has been an answer. -/
  | httpStatus (status : UInt16) (answered : a.session.answer? w = some status) :
      Befits w c url a (.httpStatus status)
  /-- The proxy has been reached, and the target has not. -/
  | handshake (text : String) (proxied : c.isDirect = false)
      (reached : a.timings.proxyTcpConnect ≠ .zero)
      (untunnelled : a.timings.targetTcpConnect = .zero) : Befits w c url a (.handshake text)
  /-- The target has been reached, and has not been asked for anything. -/
  | tls (text : String) (https : ∃ u, Uri.parse url = .ok u ∧ u.scheme = some "https")
      (connected : a.timings.targetTcpConnect ≠ .zero) (tried : a.timings.tlsHandshake ≠ .zero)
      (unasked : ∀ bytes, .request bytes ∉ a.session.trace) : Befits w c url a (.tls text)
  /-- Nothing has been done at all. -/
  | rejected (text : String) (idle : a.session.trace = []) : Befits w c url a (.invalidTarget text)
  /-- The proxy was to look the target up, and there is no way to ask it. -/
  | hostTooLong (text : String) (proxied : c.isDirect = false) (t : Target)
      (parsed : Target.parse url = .ok t) (remotely : c.resolveLocally = false)
      (named : IpAddr.ofText? t.host = none) (long : 255 < (utf8 t.host).length) :
      Befits w c url a (.invalidTarget text)

/-- Outcome, record and stage of an attempt agree. -/
structure Agrees (w : Watch) (c : Client) (url : String) (a : Attempt) : Prop where
  success : (∃ t, a.result = .ok t) ↔
    ∃ status, a.session.answer? w = some status ∧ 200 ≤ status.toNat ∧ status.toNat < 400
  refusal (status : UInt16) : (∃ f, a.result = .error f ∧ f.error = .httpStatus status) ↔
    a.session.answer? w = some status ∧ ¬(200 ≤ status.toNat ∧ status.toNat < 400)
  successful (t : Timings) : a.result = .ok t →
    t.success = true ∧ a.session.answer? w = some t.statusCode ∧ t.errorMessage = none
  failed (f : TrialFailure) : a.result = .error f →
    f.timings.success = false ∧ f.timings.statusCode = f.error.status ∧
      f.timings.errorMessage = some f.error.message ∧ Befits w c url a f.error
  firstByte : a.timings.timeToFirstByte ≤ a.timings.total

section

variable {w : Watch} {n : Network} {c : Client} {url : String} {a : Attempt} {s : Session}
  {t : Target}

theorem isSuccessStatus_iff {status : UInt16} :
    isSuccessStatus status = true ↔ 200 ≤ status.toNat ∧ status.toNat < 400 := by
  simp [isSuccessStatus]

/-! ### Errors and stages -/

theorem not_mem_of_unasked (h : s.hasAsked = false) (bytes : List UInt8) :
    .request bytes ∉ s.trace := by
  intro hmem
  have hall := List.any_eq_false.mp h _ hmem
  exact hall rfl

theorem befits_of_explains {reason : Stop} (parsed : Target.parse url = .ok t)
    (h : Explains c t reason a.session)
    (htimings : ∀ p, a.timings.get p = (a.session.collector.record (w.time .total)).get p) :
    Befits w c url a (c.errorOf reason) := by
  cases h with
  | plain plain =>
      cases plain with
      | stalled => exact .timeout
      | connection text => exact .connection text
  | handshake text _ proxied reached untunnelled =>
      exact .handshake text proxied ((htimings .proxyTcpConnect).trans_ne reached)
        ((htimings .targetTcpConnect).trans untunnelled)
  | tls text _ secure connected tried unasked =>
      obtain ⟨u, huri, hscheme, -⟩ := Target.parse_eq_ok_iff.mp parsed
      rw [secure] at hscheme
      exact .tls text ⟨u, huri, hscheme⟩ ((htimings .targetTcpConnect).trans_ne connected)
        ((htimings .tlsHandshake).trans_ne tried) (not_mem_of_unasked unasked)
  | hostTooLong text _ proxied remotely named long =>
      exact .hostTooLong text proxied t parsed remotely named long

/-- A URL or a request is rejected for one reason. -/
theorem invalidTarget_of_prepare {e : TrialError} (h : c.prepare url = .error e) :
    ∃ text, e = .invalidTarget text := by
  have htarget {fault : TrialError} (h : targetOf url = .error fault) :
      ∃ text, fault = .invalidTarget text := by
    unfold targetOf at h
    split at h
    · cases h
    · exact ⟨_, (Except.error.inj h).symm⟩
  have hrequest {t : Target} {fault : TrialError} (h : requestFor c t = .error fault) :
      ∃ text, fault = .invalidTarget text := by
    unfold requestFor at h
    split at h
    · cases h
    · exact ⟨_, (Except.error.inj h).symm⟩
  have h : (targetOf url >>= fun t => requestFor c t >>= fun request => pure (t, request)) =
      .error e := h
  cases hparse : targetOf url with
  | error fault =>
      rw [hparse] at h
      exact Except.error.inj h ▸ htarget hparse
  | ok t =>
      rw [hparse] at h
      have h : (requestFor c t >>= fun request => pure (t, request)) = .error e := h
      cases hrequested : requestFor c t with
      | error fault =>
          rw [hrequested] at h
          exact Except.error.inj h ▸ hrequest hrequested
      | ok request =>
          rw [hrequested] at h
          cases h

/-- Whatever stops an attempt, the error fits. -/
theorem befits_of_run {reason : Stop}
    (hrun : (roundTrip w n c url).run .start = (.error reason, s)) :
    Befits w c url (c.attempt w n url) (c.errorOf reason) := by
  have hsession : (c.attempt w n url).session = s := by
    rw [Client.attempt, hrun]
  cases hprepare : c.prepare url with
  | error e =>
      obtain ⟨text, rfl⟩ := invalidTarget_of_prepare hprepare
      have hidle := Client.session_of_rejected w n hprepare
      obtain rfl : Stop.failed (.invalidTarget text) = reason := by
        rw [roundTrip, hprepare] at hrun
        exact Except.error.inj (Prod.mk.inj hrun).1
      exact .rejected text (by rw [hidle]; rfl)
  | ok prepared =>
      obtain ⟨t, request⟩ := prepared
      have hexplains := stopsBy_roundTrip (w := w) (n := n) hprepare .start
        ⟨.start w, early_start w⟩ reason s hrun
      exact befits_of_explains (prepare_eq_ok hprepare).1 (hsession ▸ hexplains)
        (Client.get_timings_attempt w n c url)

/-! ### Outcomes and records -/

theorem timeToFirstByte_le (collector : Collector) (total : Duration) :
    (collector.record total).timeToFirstByte ≤ (collector.record total).total := by
  rw [Duration.le_iff]
  exact (Duration.toNanos_min _ _).trans_le (Nat.min_le_right _ _)

/-- The status of an answer decides between success and refusal. -/
theorem agrees_of_answer {status : UInt16} (hanswer : s.answer? w = some status) :
    Agrees w c url ⟨s.collector.finish (w.time .total) (.ok status), s⟩ := by
  unfold Collector.finish
  by_cases hstatus : isSuccessStatus status = true
  · have hrange := isSuccessStatus_iff.mp hstatus
    simp only [hstatus, if_true]
    refine ⟨⟨fun _ => ⟨status, hanswer, hrange⟩, fun _ => ⟨_, rfl⟩⟩, fun other => ⟨?_, ?_⟩, ?_,
      nofun, timeToFirstByte_le _ _⟩
    · rintro ⟨f, hf, -⟩
      cases hf
    · rintro ⟨hother, hnot⟩
      obtain rfl := Option.some.inj (hanswer.symm.trans hother)
      exact absurd hrange hnot
    · rintro t ht
      obtain rfl := Except.ok.inj ht
      exact ⟨rfl, hanswer, rfl⟩
  · have hrange := fun h => hstatus (isSuccessStatus_iff.mpr h)
    simp only [hstatus]
    refine ⟨⟨?_, ?_⟩, fun other => ⟨?_, ?_⟩, nofun, ?_, timeToFirstByte_le _ _⟩
    · rintro ⟨t, ht⟩
      cases ht
    · rintro ⟨other, hother, hin⟩
      obtain rfl := Option.some.inj (hanswer.symm.trans hother)
      exact absurd hin hrange
    · rintro ⟨f, hf, herror⟩
      obtain rfl := Except.error.inj hf
      obtain rfl := TrialError.httpStatus.inj herror
      exact ⟨hanswer, hrange⟩
    · rintro ⟨hother, -⟩
      obtain rfl := Option.some.inj (hanswer.symm.trans hother)
      exact ⟨_, rfl, rfl⟩
    · rintro f hf
      obtain rfl := Except.error.inj hf
      exact ⟨rfl, rfl, rfl, .httpStatus status hanswer⟩

/-- Without an answer there is an error that tells of none. -/
theorem agrees_of_unanswered {e : TrialError} (hanswer : s.answer? w = none)
    (hbefits : Befits w c url ⟨s.collector.finish (w.time .total) (.error e), s⟩ e) :
    Agrees w c url ⟨s.collector.finish (w.time .total) (.error e), s⟩ := by
  have hnone (status : UInt16) : s.answer? w ≠ some status := by
    rw [hanswer]
    nofun
  have hstatus (status : UInt16) : e ≠ .httpStatus status := by
    rintro rfl
    cases hbefits with
    | httpStatus _ answered => exact hnone status answered
  refine ⟨⟨nofun, ?_⟩, fun other => ⟨?_, ?_⟩, nofun, ?_, timeToFirstByte_le _ _⟩
  · rintro ⟨status, hsome, -⟩
    exact absurd hsome (hnone status)
  · rintro ⟨f, hf, herror⟩
    obtain rfl := Except.error.inj hf
    exact absurd herror (hstatus other)
  · rintro ⟨hsome, -⟩
    exact absurd hsome (hnone other)
  · rintro f hf
    obtain rfl := Except.error.inj hf
    refine ⟨rfl, ?_, rfl, hbefits⟩
    cases e with
    | httpStatus status => exact absurd rfl (hstatus status)
    | _ => rfl

end

theorem agrees_attempt (w : Watch) (n : Network) (c : Client) (url : String) :
    Agrees w c url (c.attempt w n url) := by
  have hanswer := ensures_roundTrip_answer w n c url .start (early_start w)
  have hbefits {reason : Stop} {s : Session}
      (hrun : (roundTrip w n c url).run .start = (.error reason, s)) :
      Befits w c url (c.attempt w n url) (c.errorOf reason) := befits_of_run hrun
  unfold Client.attempt at hbefits ⊢
  rcases hrun : (roundTrip w n c url).run .start with ⟨reason | status, s⟩
  · rw [hrun] at hanswer hbefits
    exact agrees_of_unanswered hanswer (hbefits rfl)
  · rw [hrun] at hanswer
    exact agrees_of_answer hanswer

/-! ### In a run -/

/-- Whether an attempt has been answered with a status that counts as a success. -/
def Attempt.isAnswered (w : Watch) (a : Attempt) : Bool :=
  (a.session.answer? w).any fun status =>
    decide (200 ≤ status.toNat) && decide (status.toNat < 400)

theorem isAnswered_iff {w : Watch} {a : Attempt} : a.isAnswered w = true ↔
    ∃ status, a.session.answer? w = some status ∧ 200 ≤ status.toNat ∧ status.toNat < 400 := by
  simp [Attempt.isAnswered, Option.any_eq_true]

/-- The record of an attempt is flagged as a success just if the attempt has been answered so. -/
theorem Agrees.isSuccess {w : Watch} {c : Client} {url : String} {a : Attempt}
    (h : Agrees w c url a) : Run.isSuccess (some (Run.recordOf a.result)) = a.isAnswered w := by
  rw [Bool.eq_iff_iff, isAnswered_iff, ← h.success]
  cases hresult : a.result with
  | ok t => simp [Run.isSuccess, Run.recordOf, (h.successful t hresult).1]
  | error f => simp [Run.isSuccess, Run.recordOf, (h.failed f hresult).1]

namespace Run

/-- A run that is over has as many successes as there are records of such among the trials that
have been executed. -/
theorem Intact.successCount_eq {count k : Nat}
    {fate : Nat → Option (Except TrialFailure Timings)} {r : Run} (h : Intact count fate k r) :
    r.successCount = (List.range k).countP fun i => isSuccess ((fate i).map recordOf) := by
  have htrials : r.trials = (List.range k).map (fun i => (fate i).map recordOf) ++
      List.replicate (count - k) none := by
    apply List.ext_getElem?
    intro i
    have hle := h.le_count
    rcases Nat.lt_or_ge i k with hlt | hge
    · rw [h.executed i hlt, List.getElem?_append_left (by simpa using hlt)]
      simp [hlt]
    · rw [List.getElem?_append_right (by simpa using hge)]
      rcases Nat.lt_or_ge i count with hin | hout
      · rw [h.unexecuted i hge hin]
        simp [show i - k < count - k by omega]
      · rw [List.getElem?_eq_none (h.length ▸ hout)]
        simp [show ¬i - k < count - k by omega]
  have hempty : isSuccess none = false := rfl
  rw [h.success, htrials, List.countP_append, List.countP_map, List.countP_replicate, hempty]
  rfl

end Run

open ProxyTiming.Run ProxyTiming.Run.Engine ProxyTiming.Time

/-- Outcome, record and stage of every attempt agree, and a run of attempts counts as successes
those that were answered with a status from 200 to 399. -/
theorem Client.attempts_agree (c : Client) (url : String) :
    (∀ w n, Agrees w c url (c.attempt w n url)) ∧
    (∀ (w : Nat → Watch) (n : Nat → Network) (p : Plan) now cancelled journal ls e,
      (Engine.start p now cancelled journal).follow ls = some e →
      (∀ l ∈ ls, l.Obeys fun i => some (c.attempt (w i) (n i) url).result) → e.closed = true →
        e.run.successCount =
          (called ls).countP fun i => (c.attempt (w i) (n i) url).isAnswered (w i)) ∧
    (∀ (w : Nat → Watch) (n : Nat → Network) (p : Plan), p.strategy.width ≤ maxWidth →
      ∀ (delay : Nat → Duration) cancelOnCall scene, ∃ t,
        p.execute (fun i => ⟨delay i, some (c.attempt (w i) (n i) url).result⟩) cancelOnCall
          scene = .ok t ∧
        t.engine.run.successCount = (List.range t.calls.length).countP fun i =>
          (c.attempt (w i) (n i) url).isAnswered (w i)) := by
  have hrun {w : Nat → Watch} {n : Nat → Network} {p : Plan} {now : Instant} {cancelled : Bool}
      {journal : Journal} {ls : List Label} {e : Engine}
      (h : (Engine.start p now cancelled journal).follow ls = some e)
      (obeys : ∀ l ∈ ls, l.Obeys fun i => some (c.attempt (w i) (n i) url).result)
      (closed : e.closed = true) :
      e.run.successCount = (List.range e.dispatched).countP fun i =>
        (c.attempt (w i) (n i) url).isAnswered (w i) := by
    rw [(intact_of_closed h obeys closed).successCount_eq]
    simp only [Option.map_some, (agrees_attempt _ _ c url).isSuccess]
  have hcalled {p : Plan} {now : Instant} {cancelled : Bool} {journal : Journal}
      {ls : List Label} {e : Engine}
      (h : (Engine.start p now cancelled journal).follow ls = some e) (closed : e.closed = true) :
      (called ls).Perm (List.range e.dispatched) :=
    called_perm_of_isSettled h ((sound_of_follow h).finished closed).1
  refine ⟨fun w n => agrees_attempt w n c url, ?_, ?_⟩
  · intro w n p now cancelled journal ls e h obeys closed
    rw [hrun h obeys closed, (hcalled h closed).countP_eq]
  · intro w n p hwidth delay cancelOnCall scene
    obtain ⟨t, ls, hok, h, obeys, closed, hcalls, -⟩ := Plan.execute_eq_ok hwidth
      (fun i => ⟨delay i, some (c.attempt (w i) (n i) url).result⟩) cancelOnCall scene
    refine ⟨t, hok, ?_⟩
    rw [hrun h obeys closed, hcalls, (hcalled h closed).length_eq, List.length_range]

/-- A run of two trials, of which the second one cannot get through. -/
theorem Client.attempts_agree_of_one_answer :
    let reply : Cue → Option Reply := fun _ => some (.bytes (utf8 "HTTP/1.1 204 \r\n\r\n"))
    let n : Nat → Network := fun
      | 0 => ⟨[], .some [], ⟨false, reply, none, false, false⟩⟩
      | _ => .unplugged
    let c := Client.direct .zero
    let url := "http://127.0.0.1"
    let p : Plan := ⟨.nil, "t", "c", url, .concurrent 2, 2⟩
    let result := fun i => (c.attempt .tick (n i) url).result
    let ls : List Label := [.look, .grant, .look, .grant, .stop, .call 0, .call 1,
      .complete 0 (result 0), .complete 1 (result 1), .handIn 1, .handIn 0, .retire 0, .retire 1,
      .deliver, .deliver, .reap, .reap, .close .epoch]
    (∃ e, (Engine.start p .epoch false (.start none)).follow ls = some e ∧
      (∀ l ∈ ls, l.Obeys fun i => some (result i)) ∧ e.closed = true ∧ e.run.successCount = 1) ∧
    p.strategy.width ≤ maxWidth ∧
      ∃ t, p.execute (fun i => ⟨.zero, some (result i)⟩) none (.start false none (.start none)) =
          .ok t ∧
        t.engine.run.successCount = (List.range t.calls.length).countP fun i =>
          (c.attempt .tick (n i) url).isAnswered .tick := by
  intro reply n c url p result ls
  obtain ⟨-, hfollow, hexecute⟩ := Client.attempts_agree c url
  have hwidth : p.strategy.width ≤ maxWidth := by decide
  have obeys : ∀ l ∈ ls, l.Obeys fun i => some (result i) := by simp [ls, Label.Obeys]
  have hone : (called ls).countP (fun i => (c.attempt .tick (n i) url).isAnswered .tick) = 1 := by
    decide +kernel
  refine ⟨⟨_, rfl, obeys, rfl, ?_⟩, hwidth, hexecute (fun _ => .tick) n p hwidth _ none _⟩
  exact (hfollow (fun _ => .tick) n p .epoch false (.start none) ls _ rfl obeys rfl).trans hone

end ProxyTiming
