import ProxyTiming.Error
import ProxyTiming.Text.Hex

/-!
# Why a negotiation fails

The causes of a failed negotiation with a proxy, and to which of the causes of a
failed trial each belongs.  When the proxy itself could not get through to the
target, the trial has failed to connect; everything else is the negotiation's own
failure.
-/

namespace ProxyTiming.Socks

open ProxyTiming.Text

/-- The two answers of a proxy that start with a version. -/
inductive Answer where
  | methodSelection
  | connectReply
deriving DecidableEq

inductive Failure where
  /-- The connection was lost, for a reason of its own. -/
  | lost (reason : String)
  | wrongVersion (found : UInt8) (answer : Answer)
  | loginRequired
  | noMethodAccepted
  | unknownMethod (found : UInt8)
  | usernameTooLong
  | passwordTooLong
  | loginRejected (status : UInt8)
  | hostTooLong (host : String)
  | refused (code : UInt8)
  | unknownAddressKind (found : UInt8)
deriving DecidableEq

def Answer.name : Answer → String
  | methodSelection => "method selection"
  | connectReply => "CONNECT reply"

def replyReason (code : UInt8) : String :=
  match code.toNat with
  | 1 => "general SOCKS server failure"
  | 2 => "connection not allowed by ruleset"
  | 3 => "network unreachable"
  | 4 => "host unreachable"
  | 5 => "connection refused"
  | 6 => "TTL expired"
  | 7 => "command not supported"
  | 8 => "address type not supported"
  | _ => "unassigned reply code"

def isUnreachable (code : UInt8) : Bool := decide (3 ≤ code.toNat) && decide (code.toNat ≤ 5)

def Failure.error : Failure → TrialError
  | lost reason => .handshake reason
  | wrongVersion found answer =>
    .handshake ("unexpected SOCKS version " ++ hexLiteral found ++ " in " ++ answer.name)
  | loginRequired => .handshake "proxy requires username/password authentication"
  | noMethodAccepted => .handshake "proxy accepted none of the offered authentication methods"
  | unknownMethod found => .handshake ("proxy selected unsupported method " ++ hexLiteral found)
  | usernameTooLong => .handshake "username longer than 255 bytes"
  | passwordTooLong => .handshake "password longer than 255 bytes"
  | loginRejected status =>
    .handshake ("authentication rejected (status " ++ hexLiteral status ++ ")")
  | hostTooLong host => .invalidTarget ("host name longer than 255 bytes: " ++ host)
  | refused code =>
    let reason := "proxy replied " ++ hexLiteral code ++ ": " ++ replyReason code
    if isUnreachable code then .connection reason else .handshake reason
  | unknownAddressKind found =>
    .handshake ("unknown address type " ++ hexLiteral found ++ " in CONNECT reply")

end ProxyTiming.Socks
