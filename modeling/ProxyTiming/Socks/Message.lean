import ProxyTiming.Net.IpText
import ProxyTiming.Socks.Credentials
import ProxyTiming.Text.Hex

/-!
# Messages to a proxy

The client's three messages of RFC 1928 and RFC 1929: a greeting that offers the
ways to log in, user name and password, and the request to connect to a
destination.  Lengths are one byte, so names and texts of more than 255 bytes
cannot be sent.
-/

namespace ProxyTiming.Socks

open ProxyTiming.Net ProxyTiming.Text

inductive Destination where
  /-- An address; nothing is left to look up. -/
  | address (target : SocketAddr)
  /-- A name that the proxy looks up. -/
  | domain (host : String) (port : UInt16)
deriving DecidableEq

/-- A host that is an address as it stands is sent as one; any other host is a name. -/
def Destination.ofHost (host : String) (port : UInt16) : Destination :=
  match IpAddr.ofText? host with
  | some ip => .address ⟨ip, port⟩
  | none => .domain host port

/-! ### Codes -/

def version : UInt8 := 5

def loginVersion : UInt8 := 1

def methodNone : UInt8 := 0

def methodPassword : UInt8 := 2

def methodRefused : UInt8 := 0xff

def commandConnect : UInt8 := 1

def kindIpv4 : UInt8 := 1

def kindDomain : UInt8 := 3

def kindIpv6 : UInt8 := 4

/-- The longest text that a length of one byte can announce. -/
def maxLength : Nat := 255

/-! ### Messages -/

def greeting : Option Credentials → List UInt8
  | some _ => [version, 2, methodNone, methodPassword]
  | none => [version, 1, methodNone]

/-- A text behind its length, if that fits into a byte. -/
def counted? (s : String) : Option (List UInt8) :=
  let bytes := utf8 s
  if bytes.length ≤ maxLength then some (UInt8.ofNat bytes.length :: bytes) else none

/-- Which of two texts is too long. -/
inductive TooLong where
  | username
  | password
deriving DecidableEq

def loginRequest (c : Credentials) : Except TooLong (List UInt8) :=
  match counted? c.username, counted? c.password with
  | some user, some pass => .ok (loginVersion :: (user ++ pass))
  | none, _ => .error .username
  | _, none => .error .password

/-- The request to connect to a destination, or the host if its name is too long. -/
def connectRequest : Destination → Except String (List UInt8)
  | .address ⟨.v4 a, port⟩ =>
    .ok ([version, commandConnect, 0, kindIpv4] ++ a.octets ++ bigEndian port)
  | .address ⟨.v6 a, port⟩ =>
    .ok ([version, commandConnect, 0, kindIpv6] ++ a.octets ++ bigEndian port)
  | .domain host port =>
    match counted? host with
    | some name => .ok ([version, commandConnect, 0, kindDomain] ++ name ++ bigEndian port)
    | none => .error host

end ProxyTiming.Socks
