import ProxyTiming.Socks.Message
import ProxyTiming.Socks.Failure

/-!
# The negotiation with a proxy

A negotiation is written down as a *dialogue*: what is sent, how many bytes are
then waited for, and how it goes on when they have come.  The dialogue knows
nothing of connections.  It can be held over any *channel* that sends bytes and
delivers a number of them, and everything that the client says, and the exact
point up to which it listens, can be read off the dialogue alone.
-/

namespace ProxyTiming.Socks

/-! ### Dialogues -/

inductive Dialogue (α : Type) where
  | done (result : α)
  | send (bytes : List UInt8) (next : Dialogue α)
  /-- Waits for exactly `count` bytes. -/
  | receive (count : Nat) (next : List UInt8 → Dialogue α)

/-- The fate of a step on a channel. -/
inductive Fate (α : Type) where
  | value (a : α)
  /-- The connection was lost. -/
  | lost (reason : String)
  /-- Nothing more comes, ever. -/
  | stalled
deriving DecidableEq

def earlyEndMessage : String := "early eof"

structure Channel (σ : Type) where
  send : List UInt8 → σ → Fate Unit × σ
  receive : Nat → σ → Fate (List UInt8) × σ

def Dialogue.over {σ α : Type} (c : Channel σ) :
    Dialogue (Except Failure α) → σ → Option (Except Failure α) × σ
  | .done result, s => (some result, s)
  | .send bytes next, s =>
    match c.send bytes s with
    | (.value _, s) => next.over c s
    | (.lost reason, s) => (some (.error (.lost reason)), s)
    | (.stalled, s) => (none, s)
  | .receive count next, s =>
    match c.receive count s with
    | (.value bytes, s) => (next bytes).over c s
    | (.lost reason, s) => (some (.error (.lost reason)), s)
    | (.stalled, s) => (none, s)

/-! ### The negotiation -/

def Dialogue.fail (f : Failure) : Dialogue (Except Failure Unit) := .done (.error f)

def byteAt (bytes : List UInt8) (i : Nat) : UInt8 := bytes[i]?.getD 0

/-- Listens to the address at the end of the reply, which nobody needs.  The tunnel starts
right behind it. -/
def readBound (count : Nat) : Dialogue (Except Failure Unit) :=
  .receive count fun _ => .done (.ok ())

def readAddress (kind : UInt8) : Dialogue (Except Failure Unit) :=
  if kind = kindIpv4 then readBound 6
  else if kind = kindIpv6 then readBound 18
  else if kind = kindDomain then
    .receive 1 fun length => readBound ((byteAt length 0).toNat + 2)
  else .fail (.unknownAddressKind kind)

def readReply : Dialogue (Except Failure Unit) :=
  .receive 4 fun header =>
    if byteAt header 0 ≠ version then .fail (.wrongVersion (byteAt header 0) .connectReply)
    else if byteAt header 1 ≠ 0 then .fail (.refused (byteAt header 1))
    else readAddress (byteAt header 3)

def askToConnect (d : Destination) : Dialogue (Except Failure Unit) :=
  match connectRequest d with
  | .ok request => .send request readReply
  | .error host => .fail (.hostTooLong host)

def logIn (c : Credentials) (next : Dialogue (Except Failure Unit)) :
    Dialogue (Except Failure Unit) :=
  match loginRequest c with
  | .error .username => .fail .usernameTooLong
  | .error .password => .fail .passwordTooLong
  | .ok request =>
    .send request (.receive 2 fun status =>
      if byteAt status 1 ≠ 0 then .fail (.loginRejected (byteAt status 1)) else next)

/-- Goes on in the way that the proxy has selected. -/
def afterSelection (c : Option Credentials) (method : UInt8)
    (next : Dialogue (Except Failure Unit)) : Dialogue (Except Failure Unit) :=
  if method = methodNone then next
  else if method = methodPassword then
    match c with
    | some c => logIn c next
    | none => .fail .loginRequired
  else if method = methodRefused then .fail .noMethodAccepted
  else .fail (.unknownMethod method)

def negotiation (d : Destination) (c : Option Credentials) : Dialogue (Except Failure Unit) :=
  .send (greeting c) (.receive 2 fun choice =>
    if byteAt choice 0 ≠ version then .fail (.wrongVersion (byteAt choice 0) .methodSelection)
    else afterSelection c (byteAt choice 1) (askToConnect d))

end ProxyTiming.Socks
