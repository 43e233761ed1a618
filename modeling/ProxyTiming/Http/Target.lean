import ProxyTiming.Http.Uri
import ProxyTiming.Text.Decimal
import ProxyTiming.Text.Printable

/-!
# Targets

What a request needs to know of a URL: where to connect to, whether to set up a
secure channel, and what to ask for.
-/

namespace ProxyTiming.Http

open ProxyTiming.Text

structure Target where
  /-- The host, without brackets. -/
  host : String
  port : UInt16
  /-- Whether the channel is to be secured. -/
  secure : Bool
  /-- The value of the header that names the host. -/
  authority : String
  pathAndQuery : String
deriving DecidableEq

inductive TargetFault where
  | uri (fault : UriFault)
  | unsupportedScheme (scheme : Option String)
  | missingHost
deriving DecidableEq

def TargetFault.message : TargetFault → String
  | uri fault => fault.message
  | unsupportedScheme none => "unsupported scheme None"
  | unsupportedScheme (some scheme) => "unsupported scheme Some(" ++ quoted scheme ++ ")"
  | missingHost => "missing host"

/-- The port that an authority shows, if what follows its last colon is one. -/
def portOf? (authority : List Char) : Option UInt16 := (afterLast? ':' authority).bind port?

def withoutBrackets (host : List Char) : List Char :=
  (((host.dropWhile (· = '[')).reverse.dropWhile (· = ']'))).reverse

namespace Target

def ofUri (u : Uri) (secure : Bool) : Except TargetFault Target :=
  let host := hostOf u.authority
  if host.isEmpty then .error .missingHost
  else
    let port := portOf? u.authority
    .ok
      { host := String.ofList (withoutBrackets host)
        port := port.getD (if secure then 443 else 80)
        secure := secure
        authority := match port with
          | some port => String.ofList host ++ ":" ++ toString port.toNat
          | none => String.ofList host
        pathAndQuery := if u.pathAndQuery.isEmpty then "/" else String.ofList u.pathAndQuery }

def parse (url : String) : Except TargetFault Target :=
  match Uri.parse url with
  | .error fault => .error (.uri fault)
  | .ok u =>
    match u.scheme with
    | some "https" => ofUri u true
    | some "http" => ofUri u false
    | other => .error (.unsupportedScheme other)

end Target

end ProxyTiming.Http
