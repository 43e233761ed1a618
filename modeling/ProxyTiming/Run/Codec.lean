import ProxyTiming.Run.Basic
import ProxyTiming.Timings.Codec
import ProxyTiming.Stats.Codec
import ProxyTiming.Time.Stamp

/-!
# Recorded runs
-/

namespace ProxyTiming.Run

open ProxyTiming.Json

def Status.codec : Codec Status := Codec.variant Status.names Status.ofName? Status.name

def idCodec : Codec Uuid :=
  Codec.formatted "a formatted UUID string"
    (fun s => (Uuid.parse s).mapError fun e => "UUID parsing failed: " ++ e.message) Uuid.text

def instantCodec : Codec Time.Instant :=
  Codec.formatted "an RFC 3339 formatted date and time string"
    (fun s => (Time.Instant.parse s).mapError Time.StampFault.message) (Time.Instant.text .letter)

def fields :=
  Fields.cons (Codec.field "run_id" idCodec) <|
  Fields.cons (Codec.field "test_name" Codec.string) <|
  Fields.cons (Codec.field "proxy_name" Codec.string) <|
  Fields.cons (Codec.field "target_url" Codec.string) <|
  Fields.cons (Codec.field "status" Status.codec) <|
  Fields.cons (Codec.field "total_count" Codec.count) <|
  Fields.cons (Codec.field "success_count" Codec.count) <|
  Fields.cons (Codec.field "failed_count" Codec.count) <|
  Fields.cons (Codec.field "trials" (Codec.list (Codec.option Timings.codec))) <|
  Fields.cons (Codec.field "started_at" instantCodec) <|
  Fields.cons (Codec.field "finished_at" instantCodec) Fields.nil

def codec : Codec Run :=
  (Codec.record "struct TrialRun" fields).map
    (fun (id, test, proxy, url, status, total, success, failed, trials, started, finished, ()) =>
      ⟨id, test, proxy, url, status, total, success, failed, trials, started, finished⟩)
    (fun r => (r.id, r.testName, r.proxyName, r.targetUrl, r.status, r.totalCount, r.successCount,
      r.failedCount, r.trials, r.startedAt, r.finishedAt, ()))

end ProxyTiming.Run

namespace ProxyTiming.Comparison

open ProxyTiming.Json

def fields :=
  Fields.cons (Codec.field "baseline_name" Codec.string) <|
  Fields.cons (Codec.field "candidate_name" Codec.string) <|
  Fields.cons (Codec.field "baseline_stats" (PhaseTable.codec Stats.codec)) <|
  Fields.cons (Codec.field "candidate_stats" (PhaseTable.codec Stats.codec)) <|
  Fields.cons (Codec.field "differences" (PhaseTable.codec Difference.codec)) <|
  Fields.cons (Codec.field "success_rate_delta" Binary64.codec) Fields.nil

def codec : Codec Comparison :=
  (Codec.record "struct Comparison" fields).map
    (fun (baseline, candidate, baselineStats, candidateStats, differences, delta, ()) =>
      ⟨baseline, candidate, baselineStats, candidateStats, differences, delta⟩)
    (fun c => (c.baselineName, c.candidateName, c.baselineStats, c.candidateStats, c.differences,
      c.successRateDelta, ()))

end ProxyTiming.Comparison
