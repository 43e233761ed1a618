import ProxyTiming.Phase
import ProxyTiming.Duration

/-!
# The time of an attempt

How long things take, and when the deadline passes, is not in the client's hands.
So an attempt is given both from outside, as a *watch*, and what is true of it for
every watch is true of every way in which it can go.

An attempt waits for one thing after the other, and the deadline, if it passes
before the attempt is over, passes during one of these waits.  What the attempt was
waiting for may then have come in part: some bytes of a message may have been sent
already, and some bytes of an answer received.
-/

namespace ProxyTiming

structure Deadline where
  /-- How many waits are over by then. -/
  waits : Nat
  /-- How many bytes of the message under way have been sent by then. -/
  sent : Nat
  /-- How many bytes of the answer under way have been received by then. -/
  received : Nat
deriving DecidableEq

/-- How long things take, and when the deadline passes.  All that is known of the times is that
nothing takes no time at all, and that the time of a dial, which is measured as a whole, is a
duration. -/
structure Watch where
  time : Phase → Duration
  time_pos : ∀ p, 0 < (time p).toNanos
  dial_lt : (time .proxyDns).toNanos + (time .proxyTcpConnect).toNanos +
    (time .socks5Handshake).toNanos < Duration.nanosBound
  /-- None, if the attempt is over before. -/
  deadline : Option Deadline

namespace Watch

/-- The watch on which everything takes a nanosecond, and no deadline passes but for want of
something to wait for. -/
def tick : Watch where
  time := fun _ => Duration.ofNanos 1
  time_pos := fun _ => Nat.le_of_ble_eq_true rfl
  dial_lt := Nat.le_of_ble_eq_true rfl
  deadline := none

/-- How long a dial takes as a whole, of which the lookup took `dns`. -/
def dial (w : Watch) (dns : Duration) : Duration :=
  Duration.ofNanos
    (dns.toNanos + (w.time .proxyTcpConnect).toNanos + (w.time .socks5Handshake).toNanos)

def cut (w : Watch) (waits : Nat) : Option Deadline :=
  match w.deadline with
  | some d => if d.waits = waits then some d else none
  | none => none

end Watch

end ProxyTiming
