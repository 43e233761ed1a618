import ProxyTiming.Socks.Decoding
import ProxyTiming.Socks.Negotiation

/-!
# Peers

Whoever accepts a connection of the client is a *peer*: a proxy with the target
behind it, or the target itself.  A peer follows a script.  At each of four cues
it has a reply, or falls silent, or hangs up.

A peer has no memory of its own.  What it has said, and whether it will say more,
is a function of all the bytes that have reached it; feeding it more bytes never
takes a word back.  So a connection needs no more state than the bytes the client
has sent and how far it has listened.
-/

namespace ProxyTiming

open ProxyTiming.Socks

/-- What a peer does when it is its turn. -/
inductive Reply where
  | bytes (bytes : List UInt8)
  /-- It says nothing any more and keeps the connection open. -/
  | silence
deriving DecidableEq

/-- The occasions on which a peer speaks. -/
inductive Cue where
  /-- After the greeting. -/
  | greeting
  /-- After user name and password. -/
  | login
  /-- After the request to connect. -/
  | connect
  /-- After the head of the request. -/
  | request
deriving DecidableEq

structure Peer where
  /-- Whether it expects a negotiation first. -/
  isProxy : Bool
  /-- Without a reply it hangs up. -/
  reply : Cue → Option Reply
  /-- The cue after whose reply it hangs up. -/
  closesAfter : Option Cue
  /-- Whether the request is to come over a secure channel. -/
  secure : Bool
  /-- Whether it takes the first bytes it sees for the whole request. -/
  hasty : Bool

/-- What can be expected of a peer. -/
inductive Standing where
  /-- It waits for the client. -/
  | listening
  | silent
  | closed
deriving DecidableEq

/-- All that a peer has made of what it was sent. -/
structure Reaction where
  sent : List UInt8
  standing : Standing
  /-- The messages of the negotiation. -/
  socks : List UInt8
  /-- The head of the request. -/
  head : List UInt8
deriving DecidableEq

namespace Reaction

def start : Reaction := ⟨[], .listening, [], []⟩

def hangUp (r : Reaction) : Reaction := { r with standing := .closed }

def fallSilent (r : Reaction) : Reaction := { r with standing := .silent }

/-- The peer has taken a message of the negotiation off `bs` and left `rest`. -/
def hear (r : Reaction) (bs rest : List UInt8) : Reaction :=
  { r with socks := r.socks ++ bs.take (bs.length - rest.length) }

end Reaction

/-- The blank line that ends the head of a request, with the end of the line before it. -/
def blankLine : List UInt8 := [13, 10, 13, 10]

def headOf? : List UInt8 → Option (List UInt8)
  | [] => none
  | b :: bs =>
    if blankLine.isPrefixOf (b :: bs) then some blankLine else (headOf? bs).map (b :: ·)

namespace Peer

/-- The peer speaks, and goes on to `next` if it can. -/
def speak (p : Peer) (cue : Cue) (next : Reaction → Reaction) (r : Reaction) : Reaction :=
  match p.reply cue with
  | none => r.hangUp
  | some .silence => r.fallSilent
  | some (.bytes bs) =>
    let r := { r with sent := r.sent ++ bs }
    if p.closesAfter = some cue then r.hangUp else next r

/-- The peer listens for a request.  Over the wrong kind of channel it hangs up. -/
def serve (p : Peer) (secured : Bool) (bs : List UInt8) (r : Reaction) : Reaction :=
  if bs.isEmpty then r
  else if p.hasty then p.speak .request .hangUp r
  else if p.secure ∧ !secured then r.hangUp
  else
    match headOf? bs with
    | none => r
    | some head => p.speak .request .hangUp { r with head := head }

/-- The peer listens for a message.  Having heard it, it speaks, and goes on to `next` with the
bytes behind the message. -/
def listen {α : Type} (p : Peer) (take : Taking α) (cue : Cue)
    (next : List UInt8 → Reaction → Reaction) (bs : List UInt8) (r : Reaction) : Reaction :=
  match take bs with
  | none => r
  | some (_, rest) => p.speak cue (next rest) (r.hear bs rest)

def awaitConnect (p : Peer) (secured : Bool) : List UInt8 → Reaction → Reaction :=
  p.listen takeConnect .connect (p.serve secured)

def awaitLogin (p : Peer) (secured : Bool) : List UInt8 → Reaction → Reaction :=
  p.listen takeLogin .login (p.awaitConnect secured)

/-- Whether the peer's reply to the greeting asks for user name and password. -/
def asksForLogin (p : Peer) : Bool :=
  p.reply .greeting == some (.bytes [version, methodPassword])

def awaitGreeting (p : Peer) (secured : Bool) : List UInt8 → Reaction → Reaction :=
  p.listen takeGreeting .greeting
    (if p.asksForLogin then p.awaitLogin secured else p.awaitConnect secured)

/-- What the peer makes of everything it has been sent. -/
def reaction (p : Peer) (secured : Bool) (bs : List UInt8) : Reaction :=
  if p.isProxy then p.awaitGreeting secured bs .start else p.serve secured bs .start

end Peer

/-! ### Connections -/

structure Link where
  peer : Peer
  /-- Whether a secure channel has been set up. -/
  secured : Bool
  /-- What the client has sent. -/
  sent : List UInt8
  /-- How many of the peer's bytes the client has read. -/
  consumed : Nat

namespace Link

def toPeer (p : Peer) : Link := ⟨p, false, [], 0⟩

def reaction (l : Link) : Reaction := l.peer.reaction l.secured l.sent

def unread (l : Link) : List UInt8 := l.reaction.sent.drop l.consumed

def heard (l : Link) : List UInt8 := l.reaction.sent.take l.consumed

def isClosed (l : Link) : Bool := l.reaction.standing == .closed

def isQuiet (l : Link) : Bool := l.unread.isEmpty && !l.isClosed

def send (bytes : List UInt8) (l : Link) : Link := { l with sent := l.sent ++ bytes }

def receive (n : Nat) (l : Link) : Fate (List UInt8) × Link :=
  if n ≤ l.unread.length then (.value (l.unread.take n), { l with consumed := l.consumed + n })
  else if l.isClosed then (.lost earlyEndMessage, l)
  else (.stalled, l)

end Link

end ProxyTiming
