import ProxyTiming.Timings
import ProxyTiming.Duration.Codec
import ProxyTiming.Json.Codec

/-!
# Phases and trial records in documents

A phase is written by its name.  A table of phases is an object whose members
are named after phases, in causal order; of two members of one name the later
one counts.  A trial record has a member for each phase, and the outcome.
-/

namespace ProxyTiming

open ProxyTiming.Json

def Phase.names : List String := Phase.all.map Phase.name

def Phase.codec : Codec Phase := Codec.variant Phase.names Phase.ofName? Phase.name

def PhaseTable.codec {α : Type} (c : Codec α) : Codec (PhaseTable α) where
  read := Reader.table Phase.codec.read c.read PhaseTable.insert PhaseTable.empty
  write t := .object (t.toList.map fun (p, a) => (p.name, c.write a))

namespace Timings

def phaseField (p : Phase) : RecordField Duration := Codec.field p.name Duration.codec

def fields :=
  Fields.cons (phaseField .proxyDns) <|
  Fields.cons (phaseField .proxyTcpConnect) <|
  Fields.cons (phaseField .socks5Handshake) <|
  Fields.cons (phaseField .targetDnsLookup) <|
  Fields.cons (phaseField .targetTcpConnect) <|
  Fields.cons (phaseField .tlsHandshake) <|
  Fields.cons (phaseField .timeToFirstByte) <|
  Fields.cons (phaseField .total) <|
  Fields.cons (Codec.field "success" Codec.bool) <|
  Fields.cons (Codec.field "status_code" Codec.word) <|
  Fields.cons (Codec.optionalField "error_message" Codec.string) Fields.nil

def codec : Codec Timings :=
  (Codec.record "struct PhaseTimings" fields).map
    (fun (a, b, c, d, e, f, g, h, success, status, message, ()) =>
      ⟨a, b, c, d, e, f, g, h, success, status, message⟩)
    (fun t => (t.proxyDns, t.proxyTcpConnect, t.socks5Handshake, t.targetDnsLookup,
      t.targetTcpConnect, t.tlsHandshake, t.timeToFirstByte, t.total, t.success, t.statusCode,
      t.errorMessage, ()))

end Timings

end ProxyTiming
