import ProxyTiming.Proofs.Stats.Ascending
import ProxyTiming.Timings

/-!
# The time of a negotiation

The time of a negotiation is what a dial leaves after two of its parts have been taken away, one
after the other, on seconds and nanoseconds.  Nothing is lost by this: it is the one difference of
exact nanoseconds, cut off at zero, even if the parts are too long together for a duration.
-/

namespace ProxyTiming

variable {dial dial' connect connect' dns dns' : Duration}

/-- Two parts are taken away as one. -/
theorem toNanos_deriveHandshake (dial connect dns : Duration) :
    (deriveHandshake dial connect dns).toNanos =
      dial.toNanos - (connect.toNanos + dns.toNanos) := by
  rw [deriveHandshake, Duration.toNanos_monus, Duration.toNanos_monus, Nat.sub_sub]

theorem deriveHandshake_comm (dial connect dns : Duration) :
    deriveHandshake dial connect dns = deriveHandshake dial dns connect := by
  apply Duration.toNanos_inj
  rw [toNanos_deriveHandshake, toNanos_deriveHandshake, Nat.add_comm]

/-- A longer dial leaves more, and so do shorter parts. -/
theorem deriveHandshake_le_deriveHandshake (hdial : dial ≤ dial') (hconnect : connect' ≤ connect)
    (hdns : dns' ≤ dns) :
    deriveHandshake dial connect dns ≤ deriveHandshake dial' connect' dns' := by
  rw [Duration.le_iff] at *
  rw [toNanos_deriveHandshake, toNanos_deriveHandshake]
  omega

/-- What is left of a dial, as a function of the dial and two parts of it. -/
structure ExactRemainder (rest : Duration → Duration → Duration → Duration) : Prop where
  /-- On nanoseconds, where the sum of the parts may be longer than any duration. -/
  exact (dial connect dns : Duration) :
    ((rest dial connect dns).toNanos : ℤ) = max 0 (dial.toNanos - connect.toNanos - dns.toNanos)
  /-- In seconds and nanoseconds, as a duration is written. -/
  parts (dial connect dns : Duration) :
    (rest dial connect dns).secs =
        (dial.toNanos - (connect.toNanos + dns.toNanos)) / nanosPerSec ∧
      (rest dial connect dns).nanos =
        (dial.toNanos - (connect.toNanos + dns.toNanos)) % nanosPerSec
  overlong (dial connect dns : Duration) :
    Duration.nanosBound ≤ connect.toNanos + dns.toNanos → rest dial connect dns = .zero
  comm (dial connect dns : Duration) : rest dial connect dns = rest dial dns connect
  mono_dial (connect dns : Duration) {dial dial' : Duration} :
    dial ≤ dial' → rest dial connect dns ≤ rest dial' connect dns
  anti_connect (dial dns : Duration) {connect connect' : Duration} :
    connect ≤ connect' → rest dial connect' dns ≤ rest dial connect dns
  anti_dns (dial connect : Duration) {dns dns' : Duration} :
    dns ≤ dns' → rest dial connect dns' ≤ rest dial connect dns
  le_dial (dial connect dns : Duration) : rest dial connect dns ≤ dial
  /-- The parts and what is left make up the dial, if the parts are not longer. -/
  adds_up (dial connect dns : Duration) : connect.toNanos + dns.toNanos ≤ dial.toNanos →
    connect.toNanos + dns.toNanos + (rest dial connect dns).toNanos = dial.toNanos

/-- The time of a negotiation is the exact difference, cut off at zero, for all durations. -/
theorem deriveHandshake_exact : ExactRemainder deriveHandshake where
  exact dial connect dns := by
    rw [toNanos_deriveHandshake]
    omega
  parts dial connect dns := by
    rw [← toNanos_deriveHandshake, Duration.toNanos_div, Duration.toNanos_mod]
    exact ⟨rfl, rfl⟩
  overlong dial connect dns hlong := by
    apply Duration.toNanos_inj
    have hdial := dial.toNanos_lt
    rw [toNanos_deriveHandshake, Duration.toNanos_zero]
    omega
  comm := deriveHandshake_comm
  mono_dial connect dns _ _ h :=
    deriveHandshake_le_deriveHandshake h (Duration.le_refl connect) (Duration.le_refl dns)
  anti_connect dial dns _ _ h :=
    deriveHandshake_le_deriveHandshake (Duration.le_refl dial) h (Duration.le_refl dns)
  anti_dns dial connect _ _ h :=
    deriveHandshake_le_deriveHandshake (Duration.le_refl dial) (Duration.le_refl connect) h
  le_dial dial connect dns := by
    rw [Duration.le_iff, toNanos_deriveHandshake]
    exact Nat.sub_le _ _
  adds_up dial connect dns h := by
    rw [toNanos_deriveHandshake]
    omega

-- A second is borrowed for the first part and another one for the second.
example : deriveHandshake ⟨3, 100, by decide, by decide⟩ ⟨0, 200, by decide, by decide⟩
    ⟨1, 999999901, by decide, by decide⟩ = ⟨0, 999999999, by decide, by decide⟩ := by decide

end ProxyTiming
