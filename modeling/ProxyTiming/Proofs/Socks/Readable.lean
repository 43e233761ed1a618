import ProxyTiming.Proofs.Socks.Conversation
import ProxyTiming.Proofs.Socks.Reading

/-!
# Messages that can be read in one way only

RFC 1928 and RFC 1929 lay the client's messages out byte by byte.  The layouts are told here as a
grammar, without a look at the client or at a reader of its messages.  A reader that takes exactly
the messages of the grammar off the front of some bytes finds in each of the client's messages
what the client was given, and stops where the message stops.

So no two destinations have the same request and no two pairs of credentials the same login, and
no message is the front part of another one.  What cannot be read back is never sent: the client
gives up on a text of more than 255 bytes.
-/

namespace ProxyTiming.Socks

open ProxyTiming.Net ProxyTiming.Text

/-! ### Layouts -/

/-- The layouts of a request to connect: an address of four bytes, of sixteen, or a name behind
its length; then the port, most significant byte first. -/
inductive RequestLayout : Goal → List UInt8 → Prop where
  | ipv4 (reserved : UInt8) (octets : List UInt8) (high low : UInt8) (h : octets.length = 4) :
      RequestLayout (.ipv4 octets (ofBigEndian high low))
        ([5, 1, reserved, 1] ++ octets ++ [high, low])
  | ipv6 (reserved : UInt8) (octets : List UInt8) (high low : UInt8) (h : octets.length = 16) :
      RequestLayout (.ipv6 octets (ofBigEndian high low))
        ([5, 1, reserved, 4] ++ octets ++ [high, low])
  | name (reserved length : UInt8) (name : List UInt8) (high low : UInt8)
      (h : name.length = length.toNat) :
      RequestLayout (.name name (ofBigEndian high low))
        ([5, 1, reserved, 3, length] ++ name ++ [high, low])

inductive LoginLayout : Login → List UInt8 → Prop where
  | intro (userLength passLength : UInt8) (username password : List UInt8)
      (huser : username.length = userLength.toNat) (hpass : password.length = passLength.toNat) :
      LoginLayout ⟨username, password⟩ ([1, userLength] ++ username ++ [passLength] ++ password)

/-! ### Readers take what is laid out -/

section

variable {bs xs rest : List UInt8} {port : UInt16} {goal : Goal} {login : Login}

theorem takeBytes_eq_some_iff {n : Nat} :
    takeBytes n bs = some (xs, rest) ↔ bs = xs ++ rest ∧ xs.length = n := by
  constructor
  · intro h
    rw [takeBytes] at h
    split_ifs at h with hle
    obtain ⟨rfl, rfl⟩ : bs.take n = xs ∧ bs.drop n = rest := by simpa using h
    exact ⟨(List.take_append_drop n bs).symm, List.length_take_of_le hle⟩
  · rintro ⟨rfl, rfl⟩
    exact takeBytes_append xs rest

theorem takeCounted_eq_some_iff : takeCounted bs = some (xs, rest) ↔
    ∃ length : UInt8, bs = length :: (xs ++ rest) ∧ xs.length = length.toNat := by
  cases bs with
  | nil => simp [takeCounted]
  | cons length bs =>
      rw [takeCounted, takeBytes_eq_some_iff]
      constructor
      · rintro ⟨rfl, hlength⟩
        exact ⟨length, rfl, hlength⟩
      · rintro ⟨length', hbs, hlength⟩
        obtain ⟨rfl, rfl⟩ := List.cons.inj hbs
        exact ⟨rfl, hlength⟩

theorem takePort_eq_some_iff : takePort bs = some (port, rest) ↔
    ∃ high low, bs = high :: low :: rest ∧ port = ofBigEndian high low := by
  match bs with
  | [] => simp [takePort]
  | [_] => simp [takePort]
  | high :: low :: bs =>
      constructor
      · intro h
        obtain ⟨rfl, rfl⟩ : ofBigEndian high low = port ∧ bs = rest := by simpa [takePort] using h
        exact ⟨high, low, rfl, rfl⟩
      · rintro ⟨high', low', hbs, rfl⟩
        obtain ⟨rfl, rfl, rfl⟩ : high = high' ∧ low = low' ∧ bs = rest := by simpa using hbs
        rfl

theorem takeGoal_eq_some_iff {address : Taking (List UInt8)} {make : List UInt8 → UInt16 → Goal} :
    takeGoal address make bs = some (goal, rest) ↔
      ∃ a high low, address bs = some (a, high :: low :: rest) ∧
        goal = make a (ofBigEndian high low) := by
  rw [takeGoal]
  cases haddress : address bs with
  | none => simp
  | some read =>
      obtain ⟨a, rest'⟩ := read
      dsimp only
      constructor
      · intro h
        split at h
        next => cases h
        next port rest'' hport =>
          obtain ⟨rfl, rfl⟩ : make a port = goal ∧ rest'' = rest := by simpa using h
          obtain ⟨high, low, rfl, rfl⟩ := takePort_eq_some_iff.mp hport
          exact ⟨a, high, low, rfl, rfl⟩
      · rintro ⟨a', high, low, hread, rfl⟩
        obtain ⟨rfl, rfl⟩ : a = a' ∧ rest' = high :: low :: rest := by simpa using hread
        rfl

/-- A request is read if and only if one is laid out at the front of the bytes, and then what is
behind it is left. -/
theorem takeConnect_eq_some_iff : takeConnect bs = some (goal, rest) ↔
    ∃ message, bs = message ++ rest ∧ RequestLayout goal message := by
  constructor
  · intro h
    match bs with
    | v :: command :: reserved :: kind :: bs =>
        rw [takeConnect] at h
        split_ifs at h with hhead hv4 hv6 hdomain
        all_goals
          obtain ⟨rfl, rfl⟩ := hhead
          obtain ⟨a, high, low, haddress, rfl⟩ := takeGoal_eq_some_iff.mp h
        · obtain ⟨rfl, hlength⟩ := takeBytes_eq_some_iff.mp haddress
          subst hv4
          exact ⟨_, by simp [version, commandConnect, kindIpv4], .ipv4 reserved a high low hlength⟩
        · obtain ⟨rfl, hlength⟩ := takeBytes_eq_some_iff.mp haddress
          subst hv6
          exact ⟨_, by simp [version, commandConnect, kindIpv6], .ipv6 reserved a high low hlength⟩
        · obtain ⟨length, rfl, hlength⟩ := takeCounted_eq_some_iff.mp haddress
          subst hdomain
          exact ⟨_, by simp [version, commandConnect, kindDomain],
            .name reserved length a high low hlength⟩
  · rintro ⟨message, rfl, hlayout⟩
    cases hlayout with
    | ipv4 reserved octets high low h =>
        have hread : takeBytes 4 (octets ++ high :: low :: rest) =
            some (octets, high :: low :: rest) := takeBytes_eq_some_iff.mpr ⟨rfl, h⟩
        simpa [takeConnect, version, commandConnect, kindIpv4] using
          takeGoal_eq_some_iff.mpr ⟨octets, high, low, hread, rfl⟩
    | ipv6 reserved octets high low h =>
        have hread : takeBytes 16 (octets ++ high :: low :: rest) =
            some (octets, high :: low :: rest) := takeBytes_eq_some_iff.mpr ⟨rfl, h⟩
        simpa [takeConnect, version, commandConnect, kindIpv4, kindIpv6] using
          takeGoal_eq_some_iff.mpr ⟨octets, high, low, hread, rfl⟩
    | name reserved length name high low h =>
        have hread : takeCounted (length :: (name ++ high :: low :: rest)) =
            some (name, high :: low :: rest) := takeCounted_eq_some_iff.mpr ⟨length, rfl, h⟩
        simpa [takeConnect, version, commandConnect, kindIpv4, kindIpv6, kindDomain] using
          takeGoal_eq_some_iff.mpr ⟨name, high, low, hread, rfl⟩

/-- A login is read if and only if one is laid out at the front of the bytes. -/
theorem takeLogin_eq_some_iff : takeLogin bs = some (login, rest) ↔
    ∃ message, bs = message ++ rest ∧ LoginLayout login message := by
  constructor
  · intro h
    match bs with
    | v :: bs =>
        rw [takeLogin] at h
        split_ifs at h with hversion
        split at h
        next => cases h
        next username bs' hreadUser =>
          split at h
          next => cases h
          next password bs'' hreadPass =>
            obtain ⟨rfl, rfl⟩ : Login.mk username password = login ∧ bs'' = rest := by
              simpa using h
            obtain ⟨passLength, rfl, hpass⟩ := takeCounted_eq_some_iff.mp hreadPass
            obtain ⟨userLength, rfl, huser⟩ := takeCounted_eq_some_iff.mp hreadUser
            subst hversion
            exact ⟨_, by simp [loginVersion],
              .intro userLength passLength username password huser hpass⟩
  · rintro ⟨message, rfl, hlayout⟩
    cases hlayout with
    | intro userLength passLength username password huser hpass =>
        have hread : takeCounted (userLength :: (username ++ passLength :: (password ++ rest))) =
            some (username, passLength :: (password ++ rest)) :=
          takeCounted_eq_some_iff.mpr ⟨userLength, rfl, huser⟩
        have hread' : takeCounted (passLength :: (password ++ rest)) = some (password, rest) :=
          takeCounted_eq_some_iff.mpr ⟨passLength, rfl, hpass⟩
        simp [takeLogin, loginVersion, hread, hread']

end

/-! ### What is read is what was meant -/

theorem utf8_injective : Function.Injective utf8 := by
  intro s t h
  have hread := congrArg ofUtf8? h
  rw [ofUtf8?_utf8, ofUtf8?_utf8] at hread
  exact Option.some.inj hread

theorem Destination.goal_injective : Function.Injective Destination.goal := by
  intro d d' h
  match d, d' with
  | .address ⟨.v4 a, port⟩, .address ⟨.v4 a', port'⟩ =>
      obtain ⟨hoctets, rfl⟩ := Goal.ipv4.inj h
      rw [Ipv4.ext hoctets]
  | .address ⟨.v6 a, port⟩, .address ⟨.v6 a', port'⟩ =>
      obtain ⟨hoctets, rfl⟩ := Goal.ipv6.inj h
      rw [Ipv6.ext hoctets]
  | .domain host port, .domain host' port' =>
      obtain ⟨hname, rfl⟩ := Goal.name.inj h
      rw [utf8_injective hname]

theorem Credentials.login_injective : Function.Injective Credentials.login := by
  rintro ⟨username, password⟩ ⟨username', password'⟩ h
  obtain ⟨huser, hpass⟩ := Login.mk.inj h
  obtain rfl : username = username' := utf8_injective huser
  obtain rfl : password = password' := utf8_injective hpass
  rfl

/-- Of two messages at the front of the same bytes each is the other, and both mean the same. -/
def SelfDelimiting {α ε : Type} (encode : α → Except ε (List UInt8)) : Prop :=
  ∀ a b message message' rest rest', encode a = .ok message → encode b = .ok message' →
    message ++ rest = message' ++ rest' → a = b ∧ message = message' ∧ rest = rest'

/-- An encoder whose messages are read back, whatever follows, is self-delimiting. -/
theorem selfDelimiting_of_read {α β ε : Type} {encode : α → Except ε (List UInt8)}
    {take : Taking β} {content : α → β} (distinct : Function.Injective content)
    (read : ∀ a message, encode a = .ok message →
      ∀ rest, take (message ++ rest) = some (content a, rest)) : SelfDelimiting encode := by
  intro a b message message' rest rest' ha hb heq
  have hread := read a message ha rest
  rw [heq, read b message' hb rest'] at hread
  obtain ⟨hcontent, rfl⟩ := Prod.mk.inj (Option.some.inj hread)
  exact ⟨(distinct hcontent).symm, List.append_cancel_right heq, rfl⟩

/-! ### What is not sent -/

section

variable {d : Destination} {c : Credentials} {request : List UInt8} {f : Failure}
  {next : Dialogue (Except Failure Unit)}

theorem connectRequest_eq_error_iff {host : String} : connectRequest d = .error host ↔
    ∃ port, d = .domain host port ∧ 255 < (utf8 host).length := by
  constructor
  · intro h
    match d with
    | .address ⟨.v4 a, port⟩ => cases h
    | .address ⟨.v6 a, port⟩ => cases h
    | .domain host' port =>
        rw [connectRequest] at h
        split at h
        next => cases h
        next hcounted =>
          obtain rfl := Except.error.inj h
          exact ⟨port, rfl, (counted?_eq_none_iff _).mp hcounted⟩
  · rintro ⟨port, rfl, hlong⟩
    rw [connectRequest, (counted?_eq_none_iff host).mpr hlong]

theorem reserved_of_connectRequest (h : connectRequest d = .ok request) :
    request[2]? = some 0 := by
  match d with
  | .address ⟨.v4 a, port⟩ => exact Except.ok.inj h ▸ rfl
  | .address ⟨.v6 a, port⟩ => exact Except.ok.inj h ▸ rfl
  | .domain host port =>
      rw [connectRequest] at h
      split at h
      next => exact Except.ok.inj h ▸ rfl
      next => cases h

theorem askToConnect_eq_fail_iff : askToConnect d = .fail f ↔
    ∃ host, connectRequest d = .error host ∧ f = .hostTooLong host := by
  rw [askToConnect]
  cases connectRequest d with
  | ok request => simp [Dialogue.fail]
  | error host => simp [Dialogue.fail, eq_comm]

theorem loginRequest_eq_error_iff {tooLong : TooLong} : loginRequest c = .error tooLong ↔
    (255 < (utf8 c.username).length ∧ tooLong = .username) ∨
      ((utf8 c.username).length ≤ 255 ∧ 255 < (utf8 c.password).length ∧ tooLong = .password) := by
  have huser := counted?_eq_none_iff c.username
  have hpass := counted?_eq_none_iff c.password
  rw [← Nat.not_lt, ← huser, ← hpass, loginRequest]
  cases counted? c.username with
  | none => simp [eq_comm]
  | some user =>
      cases counted? c.password with
      | none => simp [eq_comm]
      | some pass => simp

theorem logIn_eq_fail_iff : logIn c next = .fail f ↔
    (loginRequest c = .error .username ∧ f = .usernameTooLong) ∨
      (loginRequest c = .error .password ∧ f = .passwordTooLong) := by
  rw [logIn]
  cases loginRequest c with
  | ok request => simp [Dialogue.fail]
  | error tooLong => cases tooLong <;> simp [Dialogue.fail, eq_comm]

structure RequestReadable (d : Destination) : Prop where
  /-- The trial fails, for want of a valid target, if a name is too long, and in no other case. -/
  fails_iff (f : Failure) : askToConnect d = .fail f ↔
    ∃ host port, d = .domain host port ∧ 255 < (utf8 host).length ∧ f = .hostTooLong host ∧
      f.error = .invalidTarget ("host name longer than 255 bytes: " ++ host)
  /-- In all other cases a request is sent … -/
  sent : (∃ host port, d = .domain host port ∧ 255 < (utf8 host).length) ∨
    ∃ request, connectRequest d = .ok request ∧ askToConnect d = .send request readReply
  /-- … which is laid out for the destination, with nothing in the reserved byte … -/
  layout (request : List UInt8) : connectRequest d = .ok request →
    RequestLayout d.goal request ∧ request[2]? = some 0
  /-- … and read back, whatever follows it. -/
  read (request : List UInt8) : connectRequest d = .ok request →
    ∀ rest, takeConnect (request ++ rest) = some (d.goal, rest)

structure LoginReadable (c : Credentials) : Prop where
  /-- The negotiation fails if one of the texts is too long, and in no other case. -/
  fails_iff (next : Dialogue (Except Failure Unit)) (f : Failure) : logIn c next = .fail f ↔
    (255 < (utf8 c.username).length ∧ f = .usernameTooLong ∧
      f.error = .handshake "username longer than 255 bytes") ∨
    ((utf8 c.username).length ≤ 255 ∧ 255 < (utf8 c.password).length ∧ f = .passwordTooLong ∧
      f.error = .handshake "password longer than 255 bytes")
  sent : ¬c.Fit ∨ ∃ login, loginRequest c = .ok login ∧
    ∀ next, ∃ accepted, logIn c next = .send login (.receive 2 accepted)
  layout (login : List UInt8) : loginRequest c = .ok login → LoginLayout c.login login
  read (login : List UInt8) : loginRequest c = .ok login →
    ∀ rest, takeLogin (login ++ rest) = some (c.login, rest)

theorem Destination.requestReadable (d : Destination) : RequestReadable d where
  fails_iff f := by
    rw [askToConnect_eq_fail_iff]
    simp only [connectRequest_eq_error_iff]
    constructor
    · rintro ⟨host, ⟨port, hd, hlong⟩, rfl⟩
      exact ⟨host, port, hd, hlong, rfl, rfl⟩
    · rintro ⟨host, port, hd, hlong, rfl, -⟩
      exact ⟨host, ⟨port, hd, hlong⟩, rfl⟩
  sent := by
    cases hrequest : connectRequest d with
    | ok request => exact .inr ⟨request, rfl, by rw [askToConnect, hrequest]⟩
    | error host =>
        obtain ⟨port, hd, hlong⟩ := connectRequest_eq_error_iff.mp hrequest
        exact .inl ⟨host, port, hd, hlong⟩
  layout request hrequest := by
    have hread := takeConnect_of_connectRequest hrequest []
    obtain ⟨message, hmessage, hlayout⟩ := takeConnect_eq_some_iff.mp hread
    rw [List.append_nil, List.append_nil] at hmessage
    exact ⟨hmessage ▸ hlayout, reserved_of_connectRequest hrequest⟩
  read request hrequest := takeConnect_of_connectRequest hrequest

theorem Credentials.loginReadable (c : Credentials) : LoginReadable c where
  fails_iff next f := by
    rw [logIn_eq_fail_iff, loginRequest_eq_error_iff, loginRequest_eq_error_iff]
    constructor
    · rintro (⟨⟨hlong, -⟩ | ⟨-, -, hwhich⟩, rfl⟩ | ⟨⟨-, hwhich⟩ | ⟨hfits, hlong, -⟩, rfl⟩)
      · exact .inl ⟨hlong, rfl, rfl⟩
      · cases hwhich
      · cases hwhich
      · exact .inr ⟨hfits, hlong, rfl, rfl⟩
    · rintro (⟨hlong, rfl, -⟩ | ⟨hfits, hlong, rfl, -⟩)
      · exact .inl ⟨.inl ⟨hlong, rfl⟩, rfl⟩
      · exact .inr ⟨.inr ⟨hfits, hlong, rfl⟩, rfl⟩
  sent := by
    by_cases hfit : c.Fit
    · obtain ⟨login, hlogin⟩ := (exists_loginRequest_iff c).mpr hfit
      exact .inr ⟨login, hlogin, fun next => ⟨_, by rw [logIn, hlogin]⟩⟩
    · exact .inl hfit
  layout login hlogin := by
    have hread : takeLogin (login ++ []) = some (c.login, []) := takeLogin_of_loginRequest hlogin
    obtain ⟨message, hmessage, hlayout⟩ := takeLogin_eq_some_iff.mp hread
    rw [List.append_nil, List.append_nil] at hmessage
    exact hmessage ▸ hlayout
  read login hlogin _ := takeLogin_of_loginRequest hlogin

end

/-- A request to connect and a login are sent whenever they can be laid out, they are read back as
they were meant, and each of them ends where it can be seen to end. -/
theorem messages_readable :
    (∀ d : Destination, RequestReadable d) ∧ (∀ c : Credentials, LoginReadable c) ∧
      Function.Injective Destination.goal ∧ Function.Injective Credentials.login ∧
      SelfDelimiting connectRequest ∧ SelfDelimiting loginRequest := by
  refine ⟨Destination.requestReadable, Credentials.loginReadable, Destination.goal_injective,
    Credentials.login_injective, ?_, ?_⟩
  · exact selfDelimiting_of_read Destination.goal_injective fun d => d.requestReadable.read
  · exact selfDelimiting_of_read Credentials.login_injective fun c => c.loginReadable.read

end ProxyTiming.Socks
