import ProxyTiming.Stats
import ProxyTiming.Duration.Codec

/-!
# Summaries in documents
-/

namespace ProxyTiming

open ProxyTiming.Json

def Stats.fields :=
  Fields.cons (Codec.field "mean" Duration.codec) <|
  Fields.cons (Codec.field "p50" Duration.codec) <|
  Fields.cons (Codec.field "p95" Duration.codec) <|
  Fields.cons (Codec.field "p99" Duration.codec) <|
  Fields.cons (Codec.field "min" Duration.codec) <|
  Fields.cons (Codec.field "max" Duration.codec) Fields.nil

def Stats.codec : Codec Stats :=
  (Codec.record "struct Stats" Stats.fields).map
    (fun (mean, p50, p95, p99, min, max, ()) => ⟨mean, p50, p95, p99, min, max⟩)
    (fun s => (s.mean, s.p50, s.p95, s.p99, s.min, s.max, ()))

def Binary64.codec : Codec Binary64 := ⟨Reader.float, fun x => .number (.float x)⟩

def signedCodec : Codec Int := ⟨Reader.signed, fun n => .number (.integer n)⟩

def Difference.fields :=
  Fields.cons (Codec.field "absolute_nanos" signedCodec) <|
  Fields.cons (Codec.field "percentage" Binary64.codec) Fields.nil

def Difference.codec : Codec Difference :=
  (Codec.record "struct Difference" Difference.fields).map
    (fun (absolute, percentage, ()) => ⟨absolute, percentage⟩)
    (fun d => (d.absoluteNanos, d.percentage, ()))

end ProxyTiming
