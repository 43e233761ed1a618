import ProxyTiming.Duration
import ProxyTiming.Net.Endpoint
import ProxyTiming.Socks.Credentials

/-!
# Clients

A client knows how to reach a target: straight, or through a proxy with or
without credentials.  It is put together by a sequence of calls, each of which
overrides what it says.  Credentials belong to the proxy: before there is one they
are ignored, and a change of the proxy's address keeps them.
-/

namespace ProxyTiming

open ProxyTiming.Net ProxyTiming.Socks

inductive Route where
  | direct
  | proxy (endpoint : Endpoint) (credentials : Option Credentials)
deriving DecidableEq

structure Client where
  name : String
  route : Route
  /-- The deadline of one whole request. -/
  timeout : Duration
  userAgent : String
  /-- Whether the target's name is looked up here even if a proxy is to connect to it. -/
  resolveLocally : Bool
deriving DecidableEq

namespace Client

def directName : String := "Direct Connection"

/-- What a client calls itself in requests, unless told otherwise. -/
def defaultUserAgent : String := "proxybench/0.1.0"

def isDirect (c : Client) : Bool :=
  match c.route with
  | .direct => true
  | .proxy _ _ => false

/-- One step of putting a client together. -/
inductive Call where
  | socks5 (proxy : Endpoint)
  | credentials (username password : String)
  | name (name : String)
  | timeout (limit : Duration)
  | userAgent (text : String)
  | resolveLocally (enabled : Bool)
deriving DecidableEq

/-- A client that is being put together. -/
structure Builder where
  name : Option String
  route : Route
  timeout : Duration
  userAgent : String
  resolveLocally : Bool
deriving DecidableEq

namespace Builder

def start : Builder where
  name := none
  route := .direct
  timeout := Duration.ofMillis 10000
  userAgent := defaultUserAgent
  resolveLocally := false

def apply (b : Builder) : Call → Builder
  | .socks5 proxy =>
    { b with
      route := .proxy proxy (match b.route with
        | .direct => none
        | .proxy _ credentials => credentials) }
  | .credentials username password =>
    { b with
      route := match b.route with
        | .direct => .direct
        | .proxy proxy _ => .proxy proxy (some ⟨username, password⟩) }
  | .name name => { b with name := some name }
  | .timeout limit => { b with timeout := limit }
  | .userAgent text => { b with userAgent := text }
  | .resolveLocally enabled => { b with resolveLocally := enabled }

def applyAll (b : Builder) (calls : List Call) : Builder := calls.foldl apply b

/-- The client.  Unless it has been given a name it is called after its route. -/
def build (b : Builder) : Client where
  name := b.name.getD (match b.route with
    | .direct => directName
    | .proxy proxy _ => "socks5://" ++ proxy.text)
  route := b.route
  timeout := b.timeout
  userAgent := b.userAgent
  resolveLocally := b.resolveLocally

end Builder

def ofCalls (calls : List Call) : Client := (Builder.start.applyAll calls).build

def direct (timeout : Duration) : Client := ofCalls [.timeout timeout]

end Client

end ProxyTiming
