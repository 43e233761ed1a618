import ProxyTiming.Duration.Text
import ProxyTiming.Json.Fault

/-!
# Why a trial failed, and why there was none

A trial that yields no successful response is not an accident of the program
but a result: it is counted and kept.  The causes are these six, and each has
one wording.

Trouble before the first trial is another matter: a file that cannot be read or
written, a document that cannot be understood, a configuration that makes no
sense, and a proxy that nobody has configured.
-/

namespace ProxyTiming

inductive TrialError where
  /-- Proxy or target could not be reached, or the connection was lost. -/
  | connection (reason : String)
  /-- The negotiation with the proxy failed. -/
  | handshake (reason : String)
  /-- The secure channel could not be set up. -/
  | tls (reason : String)
  /-- A response arrived, with a status outside of 200 … 399. -/
  | httpStatus (status : UInt16)
  /-- The deadline passed. -/
  | timeout (limit : Duration)
  /-- The target cannot be requested at all. -/
  | invalidTarget (reason : String)
deriving DecidableEq

def TrialError.message : TrialError → String
  | .connection reason => "connection error: " ++ reason
  | .handshake reason => "SOCKS5 handshake error: " ++ reason
  | .tls reason => "TLS error: " ++ reason
  | .httpStatus status => "HTTP " ++ toString status.toNat
  | .timeout limit => "request timed out after " ++ limit.text
  | .invalidTarget reason => "invalid target: " ++ reason

inductive SetupError where
  /-- The system refused to read or write. -/
  | io (reason : String)
  | document (fault : Json.Fault)
  | invalid (reason : String)
  | unknownProxy (key : String)
deriving DecidableEq

def SetupError.message : SetupError → String
  | .io reason => "IO error: " ++ reason
  | .document fault => "Serialization error: " ++ fault.message
  | .invalid reason => "Validation error: " ++ reason
  | .unknownProxy key => "Proxy not found: " ++ key

end ProxyTiming
