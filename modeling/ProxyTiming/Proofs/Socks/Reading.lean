import Mathlib.Tactic.SplitIfs
import ProxyTiming.Socks.Decoding

/-!
# What a proxy reads

A proxy reads the client's messages without a look at how they were composed.  Read that way,
each message says what it was composed to say, and ends where it was composed to end.

The readers are *steady*: what they have read off the front of some bytes they read again when
more bytes have arrived.
-/

namespace ProxyTiming.Socks

open ProxyTiming.Net ProxyTiming.Text

/-! ### All messages of a negotiation -/

structure Spoken where
  /-- The methods that were offered. -/
  methods : List UInt8
  login : Option Login
  goal : Goal
deriving DecidableEq

def takeLoginFor (method : UInt8) : Taking (Option Login) := fun bs =>
  if method = methodPassword then (takeLogin bs).map fun (login, rest) => (some login, rest)
  else some (none, bs)

def takeSpoken (method : UInt8) : Taking Spoken := fun bs =>
  match takeGreeting bs with
  | none => none
  | some (methods, rest) =>
    match takeLoginFor method rest with
    | none => none
    | some (login, rest) =>
      match takeConnect rest with
      | none => none
      | some (goal, rest) => some (⟨methods, login, goal⟩, rest)

/-! ### Composed and read -/

def offered : Option Credentials → List UInt8
  | some _ => [methodNone, methodPassword]
  | none => [methodNone]

def Credentials.login (c : Credentials) : Login := ⟨utf8 c.username, utf8 c.password⟩

def Destination.goal : Destination → Goal
  | .address ⟨.v4 a, port⟩ => .ipv4 a.octets port
  | .address ⟨.v6 a, port⟩ => .ipv6 a.octets port
  | .domain host port => .name (utf8 host) port

section

variable {message rest : List UInt8}

theorem takeCounted_of_counted? {s : String} (h : counted? s = some message) :
    takeCounted (message ++ rest) = some (utf8 s, rest) := by
  rw [counted?] at h
  split_ifs at h with hlength
  obtain rfl := Option.some.inj h
  have hcount : (UInt8.ofNat (utf8 s).length).toNat = (utf8 s).length :=
    UInt8.toNat_ofNat_of_lt' (Nat.lt_succ_of_le hlength)
  rw [List.cons_append, takeCounted, hcount, takeBytes_append]

theorem takeGreeting_greeting (c : Option Credentials) :
    takeGreeting (greeting c ++ rest) = some (offered c, rest) := by
  cases c <;> simp [greeting, takeGreeting, takeCounted, takeBytes, offered]

theorem takeLogin_of_loginRequest {c : Credentials} (h : loginRequest c = .ok message) :
    takeLogin (message ++ rest) = some (c.login, rest) := by
  rw [loginRequest] at h
  split at h
  next user pass huser hpass =>
    obtain rfl := Except.ok.inj h
    simp [takeLogin, takeCounted_of_counted? huser, takeCounted_of_counted? hpass,
      Credentials.login]
  all_goals cases h

/-- Whatever follows the greeting, the greeting is read off. -/
theorem takeSpoken_greeting (c : Option Credentials) (method : UInt8) :
    takeSpoken method (greeting c ++ rest) =
      (takeLoginFor method rest).bind fun (login, rest) =>
        (takeConnect rest).map fun (goal, rest) => (⟨offered c, login, goal⟩, rest) := by
  rw [takeSpoken, takeGreeting_greeting]
  dsimp only
  cases takeLoginFor method rest with
  | none => rfl
  | some read =>
      obtain ⟨login, rest⟩ := read
      dsimp only [Option.bind_some]
      cases takeConnect rest <;> rfl

/-- An address and the port behind it. -/
theorem takeGoal_of_take {address : Taking (List UInt8)} {make : List UInt8 → UInt16 → Goal}
    {bytes read : List UInt8} {port : UInt16}
    (h : address (bytes ++ (bigEndian port ++ rest)) = some (read, bigEndian port ++ rest)) :
    takeGoal address make (bytes ++ bigEndian port ++ rest) = some (make read port, rest) := by
  rw [List.append_assoc, takeGoal, h]
  simp only [takePort_bigEndian]

theorem takeConnect_of_connectRequest {d : Destination} (h : connectRequest d = .ok message)
    (rest : List UInt8) : takeConnect (message ++ rest) = some (d.goal, rest) := by
  match d with
  | .address ⟨.v4 a, port⟩ =>
      obtain rfl := Except.ok.inj h
      show takeGoal (takeBytes 4) .ipv4 (a.octets ++ bigEndian port ++ rest) = _
      apply takeGoal_of_take
      rw [← a.length_octets, takeBytes_append]
  | .address ⟨.v6 a, port⟩ =>
      obtain rfl := Except.ok.inj h
      show takeGoal (takeBytes 16) .ipv6 (a.octets ++ bigEndian port ++ rest) = _
      apply takeGoal_of_take
      rw [← a.length_octets, takeBytes_append]
  | .domain host port =>
      rw [connectRequest] at h
      split at h
      next name hname =>
        obtain rfl := Except.ok.inj h
        exact takeGoal_of_take (takeCounted_of_counted? hname)
      next => cases h

end

/-! ### Steady readers -/

/-- What has been read is read again when more has arrived. -/
def Taking.Steady {α : Type} (take : Taking α) : Prop :=
  ∀ ⦃bs a rest⦄, take bs = some (a, rest) → ∀ more, take (bs ++ more) = some (a, rest ++ more)

theorem takeBytes_steady (n : Nat) : (takeBytes n).Steady := by
  intro bs bytes rest h more
  unfold takeBytes at h ⊢
  split_ifs at h with hle
  obtain ⟨rfl, rfl⟩ : bs.take n = bytes ∧ bs.drop n = rest := by simpa using h
  rw [if_pos (by rw [List.length_append]; omega), List.take_append_of_le_length hle,
    List.drop_append_of_le_length hle]

theorem takeCounted_steady : Taking.Steady takeCounted := by
  intro bs bytes rest h more
  cases bs with
  | nil => cases h
  | cons n bs => exact takeBytes_steady n.toNat h more

theorem takePort_steady : Taking.Steady takePort := by
  intro bs port rest h more
  match bs with
  | high :: low :: bs =>
      obtain ⟨rfl, rfl⟩ : ofBigEndian high low = port ∧ bs = rest := by simpa [takePort] using h
      rfl

theorem takeGreeting_steady : Taking.Steady takeGreeting := by
  intro bs methods rest h more
  cases bs with
  | nil => cases h
  | cons v bs =>
      rw [takeGreeting] at h
      split_ifs at h with hversion
      rw [List.cons_append, takeGreeting, if_pos hversion]
      exact takeCounted_steady h more

theorem takeLogin_steady : Taking.Steady takeLogin := by
  intro bs login rest h more
  cases bs with
  | nil => cases h
  | cons v bs =>
      rw [takeLogin] at h
      split_ifs at h with hversion
      split at h
      next => cases h
      next username rest' husername =>
        split at h
        next => cases h
        next password rest'' hpassword =>
          obtain ⟨rfl, rfl⟩ : Login.mk username password = login ∧ rest'' = rest := by simpa using h
          rw [List.cons_append, takeLogin, if_pos hversion, takeCounted_steady husername more]
          simp only [takeCounted_steady hpassword more]

theorem takeGoal_steady {address : Taking (List UInt8)} (steady : address.Steady)
    (make : List UInt8 → UInt16 → Goal) : (takeGoal address make).Steady := by
  intro bs goal rest h more
  unfold takeGoal at h ⊢
  split at h
  next => cases h
  next a rest' ha =>
    split at h
    next => cases h
    next port rest'' hport =>
      obtain ⟨rfl, rfl⟩ : make a port = goal ∧ rest'' = rest := by simpa using h
      rw [steady ha more]
      simp only [takePort_steady hport more]

theorem takeConnect_steady : Taking.Steady takeConnect := by
  intro bs goal rest h more
  match bs with
  | v :: command :: reserved :: kind :: bs =>
      simp only [List.cons_append, takeConnect] at h ⊢
      split_ifs at h ⊢
      · exact takeGoal_steady (takeBytes_steady 4) _ h more
      · exact takeGoal_steady (takeBytes_steady 16) _ h more
      · exact takeGoal_steady takeCounted_steady _ h more

theorem takeLoginFor_steady (method : UInt8) : (takeLoginFor method).Steady := by
  intro bs login rest h more
  unfold takeLoginFor at h ⊢
  split_ifs at h ⊢
  · obtain ⟨⟨read, rest'⟩, hread, hsome⟩ := Option.map_eq_some_iff.mp h
    obtain ⟨rfl, rfl⟩ : some read = login ∧ rest' = rest := by simpa using hsome
    rw [takeLogin_steady hread more, Option.map_some]
  · obtain ⟨rfl, rfl⟩ : none = login ∧ bs = rest := by simpa using h
    rfl

theorem takeSpoken_steady (method : UInt8) : (takeSpoken method).Steady := by
  intro bs spoken rest h more
  unfold takeSpoken at h ⊢
  split at h
  next => cases h
  next methods bs' hmethods =>
    split at h
    next => cases h
    next login bs'' hlogin =>
      split at h
      next => cases h
      next goal rest' hgoal =>
        obtain ⟨rfl, rfl⟩ : Spoken.mk methods login goal = spoken ∧ rest' = rest := by
          simpa using h
        rw [takeGreeting_steady hmethods more]
        simp only [takeLoginFor_steady method hlogin more, takeConnect_steady hgoal more]

end ProxyTiming.Socks
