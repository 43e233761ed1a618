import ProxyTiming.Attempt.Step
import ProxyTiming.Client
import ProxyTiming.Http.Target
import ProxyTiming.Socks.Negotiation

/-!
# Dialling

The first half of an attempt ends with a connection through which the target can
be talked to.  Straight to the target this takes a lookup and a connection; through
a proxy, lookup and connection concern the proxy, and a negotiation follows.

Every step measures the phase that belongs to it.  Lookup and connection are
measured whether they succeed or not; a negotiation is measured when it ends, but
the whole way to the target only if the negotiation succeeds.
-/

namespace ProxyTiming

open ProxyTiming.Net ProxyTiming.Socks ProxyTiming.Http

/-- One of the two hosts that an attempt may have to reach: which phase a lookup of its name is,
and which phase connecting to it. -/
inductive Side where
  | proxy
  | target
deriving DecidableEq

namespace Side

def noteLookup (side : Side) (d : Duration) (c : Collector) : Collector :=
  match side with
  | proxy => { c with proxyDns := d }
  | target => { c with targetDnsLookup := d }

def lookupPhase : Side → Phase
  | proxy => .proxyDns
  | target => .targetDnsLookup

def noteConnect (side : Side) (d : Duration) (c : Collector) : Collector :=
  match side with
  | proxy => { c with proxyTcpConnect := d }
  | target => { c with targetTcpConnect := d }

def connectPhase : Side → Phase
  | proxy => .proxyTcpConnect
  | target => .targetTcpConnect

end Side

/-! ### Looking up -/

/-- What a lookup of a host has found: at least one address, or an error. -/
def found (host : String) (port : UInt16) :
    Except LookupFault (List IpAddr) → Except TrialError (List SocketAddr)
  | .error fault =>
    .error (.connection ("DNS lookup for " ++ host ++ " failed: " ++ fault.message))
  | .ok [] => .error (.connection ("DNS lookup for " ++ host ++ " returned no addresses"))
  | .ok ips => .ok (ips.map fun ip => ⟨ip, port⟩)

/-- Asks for a name, if it can be asked for. -/
def askFor (name : String) : Step Unit :=
  if Network.canAsk name then Step.note (.lookup name) else pure ()

/-- The addresses of a host.  A host that is an address as it stands is not looked up. -/
def resolve (w : Watch) (n : Network) (side : Side) (host : String) (port : UInt16) :
    Step (List SocketAddr) :=
  match IpAddr.ofText? host with
  | some ip => pure [⟨ip, port⟩]
  | none => do
    askFor host
    Step.wait w
    Step.measure (side.noteLookup (w.time side.lookupPhase))
    Step.ofExcept (found host port (n.lookup host))

/-! ### Connecting -/

def connectComplaint (a : SocketAddr) (reason : Refusal) : String :=
  "connect to " ++ a.text ++ " failed: " ++ reason.message

/-- Connects to the first address that accepts.  If none does, there is the complaint about the
last one. -/
def connectFirst (w : Watch) (n : Network) (complaint : String) :
    List SocketAddr → Step (Except String Link)
  | [] => pure (.error complaint)
  | a :: rest => do
    Step.note (.dial a)
    Step.wait w
    match n.connect a with
    | .ok link => pure (.ok link)
    | .error reason => connectFirst w n (connectComplaint a reason) rest

def connectAny (w : Watch) (n : Network) (side : Side) (addresses : List SocketAddr) :
    Step Link := do
  let result ← connectFirst w n "no address to connect to" addresses
  Step.measure (side.noteConnect (w.time side.connectPhase))
  match result with
  | .error complaint => Step.fail (.connection complaint)
  | .ok link => do
    Step.keep link
    pure link

def dial (w : Watch) (n : Network) (side : Side) (host : String) (port : UInt16) : Step Link := do
  let addresses ← resolve w n side host port
  connectAny w n side addresses

/-! ### Through a proxy -/

def destinationOf (w : Watch) (n : Network) (c : Client) (t : Target) : Step Destination :=
  if c.resolveLocally then do
    let addresses ← resolve w n .target t.host t.port
    match addresses with
    | a :: _ => pure (.address a)
    | [] => Step.fail (.connection ("no address for " ++ t.host))
  else pure (.ofHost t.host t.port)

def noteHandshake (w : Watch) (c : Collector) : Collector :=
  { c with socks5Handshake := deriveHandshake (w.dial c.proxyDns) c.proxyTcpConnect c.proxyDns }

def noteTunnel (w : Watch) (c : Collector) : Collector :=
  { c with targetTcpConnect := w.dial c.proxyDns }

/-- A connection on which the client waits until a deadline passes. -/
structure Line where
  link : Link
  waits : Nat

namespace Line

def send (w : Watch) (bytes : List UInt8) (l : Line) : Fate Unit × Line :=
  match w.cut l.waits with
  | some d => (.stalled, ⟨l.link.send (bytes.take d.sent), l.waits + 1⟩)
  | none => (.value (), ⟨l.link.send bytes, l.waits + 1⟩)

def receive (w : Watch) (n : Nat) (l : Line) : Fate (List UInt8) × Line :=
  match w.cut l.waits with
  | some _ => (.stalled, ⟨l.link, l.waits + 1⟩)
  | none =>
    match l.link.receive n with
    | (fate, link) => (fate, ⟨link, l.waits + 1⟩)

def channel (w : Watch) : Channel Line := ⟨send w, receive w⟩

end Line

/-- Holds a negotiation.  Yields the connection, and the end of the negotiation if it has one. -/
def negotiate (w : Watch) (d : Destination) (c : Option Credentials) (link : Link) :
    Step (Option (Except Failure Unit) × Link) where
  run := fun s =>
    match (negotiation d c).over (Line.channel w) ⟨link, s.waits⟩ with
    | (result, line) =>
      (.ok (result, line.link),
        { s with
          link := some line.link
          waits := line.waits
          trace := s.trace ++ [.negotiation line.link.sent line.link.heard] })

def tunnel (w : Watch) (d : Destination) (c : Option Credentials) (link : Link) : Step Link := do
  match ← negotiate w d c link with
  | (none, _) => Step.stop .stalled
  | (some (.error f), _) => do
    Step.measure (noteHandshake w)
    Step.fail f.error
  | (some (.ok ()), link) => do
    Step.measure (noteHandshake w)
    Step.measure (noteTunnel w)
    pure link

def dialVia (w : Watch) (n : Network) (proxy : Endpoint) (credentials : Option Credentials)
    (d : Destination) : Step Link := do
  let link ← dial w n .proxy proxy.host proxy.port
  tunnel w d credentials link

def dialProxy (w : Watch) (n : Network) (c : Client) (proxy : Endpoint)
    (credentials : Option Credentials) (t : Target) : Step Link := do
  let d ← destinationOf w n c t
  dialVia w n proxy credentials d

def dialRoute (w : Watch) (n : Network) (c : Client) (t : Target) : Step Link :=
  match c.route with
  | .direct => dial w n .target t.host t.port
  | .proxy endpoint credentials => dialProxy w n c endpoint credentials t

end ProxyTiming
