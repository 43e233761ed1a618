import Mathlib.Data.List.Basic
import ProxyTiming.Proofs.Stream.Serving

/-!
# The conversation that opens a tunnel

RFC 1928 and RFC 1929 tell what a proxy may say before a tunnel is open.  It selects one of
the ways to log in, accepts the login if there is one, and replies to the request; the reply
ends with an address whose length depends on its kind.  Here these answers are told as a
grammar, without a look at the client.

The client takes exactly the conversations of this grammar for success.  It listens neither
too far nor too short: the byte behind the conversation is the first one of the tunnel.
-/

namespace ProxyTiming.Socks

open ProxyTiming.Stream ProxyTiming.Text

/-! ### What a proxy may say -/

inductive BoundAddress : UInt8 → List UInt8 → Prop where
  | ipv4 (bytes : List UInt8) (h : bytes.length = 6) : BoundAddress 1 bytes
  | ipv6 (bytes : List UInt8) (h : bytes.length = 18) : BoundAddress 4 bytes
  | domain (length : UInt8) (bytes : List UInt8) (h : bytes.length = length.toNat + 2) :
      BoundAddress 3 (length :: bytes)

def Credentials.Fit (c : Credentials) : Prop :=
  (utf8 c.username).length ≤ 255 ∧ (utf8 c.password).length ≤ 255

instance (c : Credentials) : Decidable c.Fit := inferInstanceAs (Decidable (_ ∧ _))

/-- A way to log in that the proxy may select, and what it then says to the login. -/
inductive Selection (c : Option Credentials) : UInt8 → List UInt8 → Prop where
  | noLogin : Selection c 0 []
  | password (credentials : Credentials) (given : c = some credentials) (fit : credentials.Fit)
      (version : UInt8) : Selection c 2 [version, 0]

/-- Everything that a proxy says until the tunnel is open. -/
inductive Conversation (c : Option Credentials) : List UInt8 → Prop where
  | intro (method : UInt8) (login : List UInt8) (reserved kind : UInt8) (bound : List UInt8)
      (selection : Selection c method login) (address : BoundAddress kind bound) :
      Conversation c ([5, method] ++ login ++ [5, 0, reserved, kind] ++ bound)

/-! ### What the client makes of it

Each part of the negotiation is described by what it takes off the front of the bytes that
come, if a tunnel is to be open in the end. -/

namespace Dialogue

variable {bytes rest : List UInt8} {f : Failure} {d next : Dialogue (Except Failure Unit)}

/-- A dialogue that ends with a tunnel, in which the rest of the bytes is still to come. -/
def Opens (d : Dialogue (Except Failure Unit)) (bytes rest : List UInt8) : Prop :=
  d.over (Scripted.plain none) bytes = (some (.ok ()), rest)

theorem opens_ok : (Dialogue.done (.ok ())).Opens bytes rest ↔ bytes = rest := by
  simp [Opens, Dialogue.over]

theorem not_opens_fail : ¬(Dialogue.fail f).Opens bytes rest := by
  simp [Opens, Dialogue.over, fail]

theorem opens_send {message : List UInt8} :
    (Dialogue.send message next).Opens bytes rest ↔ next.Opens bytes rest := Iff.rfl

theorem opens_receive {count : Nat} {next : List UInt8 → Dialogue (Except Failure Unit)} :
    (Dialogue.receive count next).Opens bytes rest ↔
      ∃ heard more, bytes = heard ++ more ∧ heard.length = count ∧
        (next heard).Opens more rest := by
  constructor
  · intro h
    by_cases hcount : count ≤ bytes.length
    · refine ⟨bytes.take count, bytes.drop count, (List.take_append_drop _ _).symm,
        List.length_take_of_le hcount, ?_⟩
      simpa [Opens, Dialogue.over, Scripted.plain, hcount] using h
    · simp [Opens, Dialogue.over, Scripted.plain, hcount] at h
  · rintro ⟨heard, more, rfl, rfl, h⟩
    simpa [Opens, Dialogue.over, Scripted.plain] using h

/-- A dialogue that goes on only under a condition. -/
theorem opens_unless {p : Prop} [Decidable p] :
    (if p then Dialogue.fail f else d).Opens bytes rest ↔ ¬p ∧ d.Opens bytes rest := by
  split
  · simp [not_opens_fail, *]
  · simp [*]

end Dialogue

open Dialogue

variable {bytes rest : List UInt8} {kind : UInt8} {d : Destination}
  {next : Dialogue (Except Failure Unit)}

theorem readBound_opens {count : Nat} : (readBound count).Opens bytes rest ↔
    ∃ bound, bytes = bound ++ rest ∧ bound.length = count := by
  rw [readBound, opens_receive]
  constructor
  · rintro ⟨heard, more, hbytes, hlength, h⟩
    rw [opens_ok] at h
    exact ⟨heard, h ▸ hbytes, hlength⟩
  · rintro ⟨bound, hbytes, hlength⟩
    exact ⟨bound, rest, hbytes, hlength, opens_ok.mpr rfl⟩

theorem boundAddress_ipv4 (bound : List UInt8) : BoundAddress 1 bound ↔ bound.length = 6 := by
  constructor
  · rintro (_ | _ | _)
    assumption
  · exact .ipv4 bound

theorem boundAddress_ipv6 (bound : List UInt8) : BoundAddress 4 bound ↔ bound.length = 18 := by
  constructor
  · rintro (_ | _ | _)
    assumption
  · exact .ipv6 bound

theorem readAddress_opens : (readAddress kind).Opens bytes rest ↔
    ∃ bound, bytes = bound ++ rest ∧ BoundAddress kind bound := by
  rw [readAddress]
  split_ifs with hv4 hv6 hdomain
  · subst hv4
    show _ ↔ ∃ bound, _ ∧ BoundAddress 1 bound
    simp only [readBound_opens, boundAddress_ipv4]
  · subst hv6
    show _ ↔ ∃ bound, _ ∧ BoundAddress 4 bound
    simp only [readBound_opens, boundAddress_ipv6]
  · subst hdomain
    rw [opens_receive]
    constructor
    · rintro ⟨heard, more, rfl, hlength, h⟩
      obtain ⟨length, rfl⟩ := List.length_eq_one_iff.mp hlength
      obtain ⟨bound, rfl, hbound⟩ := readBound_opens.mp h
      exact ⟨length :: bound, rfl, .domain length bound hbound⟩
    · rintro ⟨bound, rfl, haddress⟩
      cases haddress with
      | domain length name hname =>
          exact ⟨[length], name ++ rest, rfl, rfl, readBound_opens.mpr ⟨name, rfl, hname⟩⟩
  · constructor
    · intro h
      exact absurd h not_opens_fail
    · rintro ⟨bound, -, haddress⟩
      cases haddress with
      | ipv4 => exact absurd rfl hv4
      | ipv6 => exact absurd rfl hv6
      | domain => exact absurd rfl hdomain

theorem readReply_opens : readReply.Opens bytes rest ↔
    ∃ reserved kind bound, bytes = [5, 0, reserved, kind] ++ bound ++ rest ∧
      BoundAddress kind bound := by
  rw [readReply, opens_receive]
  constructor
  · rintro ⟨heard, more, rfl, hlength, h⟩
    obtain ⟨v, code, reserved, kind, rfl⟩ := List.length_eq_four.mp hlength
    obtain ⟨hversion, h⟩ := opens_unless.mp h
    obtain ⟨hcode, h⟩ := opens_unless.mp h
    obtain ⟨bound, rfl, haddress⟩ := readAddress_opens.mp h
    obtain rfl : v = 5 := not_ne_iff.mp hversion
    obtain rfl : code = 0 := not_ne_iff.mp hcode
    exact ⟨reserved, kind, bound, rfl, haddress⟩
  · rintro ⟨reserved, kind, bound, rfl, haddress⟩
    refine ⟨[5, 0, reserved, kind], bound ++ rest, rfl, rfl, ?_⟩
    apply opens_unless.mpr
    refine ⟨not_ne_iff.mpr rfl, opens_unless.mpr ⟨not_ne_iff.mpr rfl, ?_⟩⟩
    exact readAddress_opens.mpr ⟨bound, rfl, haddress⟩

theorem askToConnect_opens {request : List UInt8} (encodable : connectRequest d = .ok request) :
    (askToConnect d).Opens bytes rest ↔ readReply.Opens bytes rest := by
  rw [askToConnect, encodable]
  exact opens_send

theorem counted?_eq_none_iff (s : String) : counted? s = none ↔ 255 < (utf8 s).length := by
  unfold counted? maxLength
  dsimp only
  split_ifs with hle <;> simp <;> omega

/-- A login can be sent if both of its texts fit. -/
theorem exists_loginRequest_iff (c : Credentials) :
    (∃ request, loginRequest c = .ok request) ↔ c.Fit := by
  have huser := counted?_eq_none_iff c.username
  have hpass := counted?_eq_none_iff c.password
  rw [loginRequest, Credentials.Fit]
  cases hu : counted? c.username with
  | none =>
      have hlong := huser.mp hu
      simp only [reduceCtorEq, exists_false, false_iff, not_and]
      omega
  | some user =>
      have hfits := mt huser.mpr (by simp [hu])
      cases hp : counted? c.password with
      | none =>
          have hlong := hpass.mp hp
          simp only [reduceCtorEq, exists_false, false_iff, not_and]
          omega
      | some pass =>
          have hfits' := mt hpass.mpr (by simp [hp])
          simp only [Except.ok.injEq, exists_eq', true_iff]
          omega

theorem logIn_opens {c : Credentials} : (logIn c next).Opens bytes rest ↔
    c.Fit ∧ ∃ version more, bytes = [version, 0] ++ more ∧ next.Opens more rest := by
  rw [← exists_loginRequest_iff, logIn]
  cases loginRequest c with
  | error tooLong =>
      cases tooLong <;> simp [not_opens_fail]
  | ok request =>
      show (Dialogue.send request _).Opens bytes rest ↔ _
      rw [opens_send, opens_receive]
      constructor
      · rintro ⟨heard, more, rfl, hlength, h⟩
        obtain ⟨version, status, rfl⟩ := List.length_eq_two.mp hlength
        obtain ⟨hstatus, h⟩ := opens_unless.mp h
        obtain rfl : status = 0 := not_ne_iff.mp hstatus
        exact ⟨⟨request, rfl⟩, version, more, rfl, h⟩
      · rintro ⟨-, version, more, rfl, h⟩
        exact ⟨[version, 0], more, rfl, rfl, opens_unless.mpr ⟨not_ne_iff.mpr rfl, h⟩⟩

theorem afterSelection_opens {c : Option Credentials} {method : UInt8} :
    (afterSelection c method next).Opens bytes rest ↔
      ∃ login more, bytes = login ++ more ∧ Selection c method login ∧ next.Opens more rest := by
  unfold afterSelection
  split_ifs with hnone hpassword hrefused
  · subst hnone
    constructor
    · intro h
      exact ⟨[], bytes, rfl, .noLogin, h⟩
    · rintro ⟨login, more, rfl, hselection, h⟩
      cases hselection with
      | noLogin => exact h
  · subst hpassword
    cases c with
    | none =>
        constructor
        · intro h
          exact absurd h not_opens_fail
        · rintro ⟨login, more, -, hselection, -⟩
          cases hselection with
          | password credentials given => cases given
    | some credentials =>
        show (logIn credentials next).Opens bytes rest ↔ _
        rw [logIn_opens]
        constructor
        · rintro ⟨hfit, version, more, rfl, h⟩
          exact ⟨[version, 0], more, rfl, .password credentials rfl hfit version, h⟩
        · rintro ⟨login, more, rfl, hselection, h⟩
          cases hselection with
          | password credentials' given hfit version =>
              obtain rfl := Option.some.inj given
              exact ⟨hfit, version, more, rfl, h⟩
  all_goals
    constructor
    · intro h
      exact absurd h not_opens_fail
    · rintro ⟨login, more, -, hselection, -⟩
      cases hselection with
      | noLogin => exact absurd rfl hnone
      | password => exact absurd rfl hpassword

/-- The client takes exactly the conversations of the grammar off the front of what it hears. -/
theorem negotiation_opens {c : Option Credentials} {request : List UInt8}
    (encodable : connectRequest d = .ok request) : (negotiation d c).Opens bytes rest ↔
      ∃ conversation, bytes = conversation ++ rest ∧ Conversation c conversation := by
  rw [negotiation, opens_send, opens_receive]
  constructor
  · rintro ⟨heard, more, rfl, hlength, h⟩
    obtain ⟨v, method, rfl⟩ := List.length_eq_two.mp hlength
    obtain ⟨hversion, h⟩ := opens_unless.mp h
    obtain rfl : v = 5 := not_ne_iff.mp hversion
    obtain ⟨login, reply, rfl, hselection, h⟩ := afterSelection_opens.mp h
    rw [askToConnect_opens encodable, readReply_opens] at h
    obtain ⟨reserved, kind, bound, rfl, haddress⟩ := h
    refine ⟨_, ?_, .intro method login reserved kind bound hselection haddress⟩
    simp only [List.append_assoc]
  · rintro ⟨conversation, rfl, hconversation⟩
    cases hconversation with
    | intro method login reserved kind bound hselection haddress =>
        refine ⟨[5, method], login ++ ([5, 0, reserved, kind] ++ bound ++ rest),
          by simp only [List.append_assoc], rfl, ?_⟩
        apply opens_unless.mpr
        refine ⟨not_ne_iff.mpr rfl, afterSelection_opens.mpr ⟨login, _, rfl, hselection, ?_⟩⟩
        rw [askToConnect_opens encodable, readReply_opens]
        exact ⟨reserved, kind, bound, rfl, haddress⟩

/-! ### Over a script -/

/-- A negotiation ends as its dialogue does, and where its dialogue does. -/
theorem negotiate_eq_ok_iff (c : Option Credentials) (s : Scripted) :
    ((s.negotiate d c).1 = .ok () ↔ ((negotiation d c).over Scripted.channel s).1 = some (.ok ())) ∧
      (s.negotiate d c).2 = ((negotiation d c).over Scripted.channel s).2 := by
  rw [Scripted.negotiate]
  rcases (negotiation d c).over Scripted.channel s with ⟨_ | ⟨_ | ⟨⟩⟩, s'⟩ <;> simp

/-- However the proxy's bytes are cut into chunks, the negotiation succeeds if and only if they
begin with a conversation; and then all that comes behind it is left for the tunnel. -/
theorem negotiate_ok_iff_conversation {request : List UInt8}
    (encodable : connectRequest d = .ok request) (c : Option Credentials) {s : Scripted}
    {chunks : List (List UInt8)} (reads : s.reads = chunks.map .data)
    (nonempty : ∀ chunk ∈ chunks, chunk ≠ []) (unlimited : s.limit = none) :
    ((s.negotiate d c).1 = .ok () ↔
      ∃ conversation rest, chunks.flatten = conversation ++ rest ∧ Conversation c conversation) ∧
    ∀ conversation rest, chunks.flatten = conversation ++ rest → Conversation c conversation →
      (s.negotiate d c).2.unread = rest := by
  have hserves : Serves s.reads chunks.flatten none := reads ▸ serves_map_data nonempty
  obtain ⟨hresult, hunread⟩ := Scripted.over_channel (negotiation d c) hserves unlimited
  obtain ⟨hok, hstream⟩ := negotiate_eq_ok_iff (d := d) c s
  rw [hok, hstream, hresult, hunread]
  have hopens {rest : List UInt8} : (negotiation d c).Opens chunks.flatten rest ↔
      ∃ conversation, chunks.flatten = conversation ++ rest ∧ Conversation c conversation :=
    negotiation_opens encodable
  constructor
  · constructor
    · intro h
      obtain ⟨conversation, hbytes, hconversation⟩ := hopens.mp (Prod.ext h rfl)
      exact ⟨conversation, _, hbytes, hconversation⟩
    · rintro ⟨conversation, rest, hbytes, hconversation⟩
      have hheld := hopens.mpr ⟨conversation, hbytes, hconversation⟩
      exact congrArg Prod.fst hheld
  · intro conversation rest hbytes hconversation
    have hheld := hopens.mpr ⟨conversation, hbytes, hconversation⟩
    exact congrArg Prod.snd hheld

/-- A proxy that wants a login, and replies with a name of one byte; the tunnel starts in the
middle of a chunk. -/
theorem negotiate_ok_of_login :
    let d : Destination := .domain "a" 80
    let c : Option Credentials := some ⟨"u", "p"⟩
    let s : Scripted := .ofReads [.data [5], .data [2, 1, 0, 5], .data [0, 0, 3, 1, 97, 0, 80, 72]]
    (∃ request, connectRequest d = .ok request) ∧ (s.negotiate d c).1 = .ok () ∧
      (s.negotiate d c).2.unread = [72] := by
  intro d c s
  have encodable : ∃ request, connectRequest d = .ok request := ⟨_, rfl⟩
  have hconversation : Conversation c ([5, 2] ++ [1, 0] ++ [5, 0, 0, 3] ++ [1, 97, 0, 80]) :=
    .intro 2 [1, 0] 0 3 [1, 97, 0, 80] (.password _ rfl (by decide) 1) (.domain 1 [97, 0, 80] rfl)
  have hreads : s.reads = [[5], [2, 1, 0, 5], [0, 0, 3, 1, 97, 0, 80, 72]].map .data := rfl
  obtain ⟨hok, hrest⟩ :=
    negotiate_ok_iff_conversation encodable.choose_spec c hreads (by decide) rfl
  exact ⟨encodable, hok.mpr ⟨_, [72], rfl, hconversation⟩, hrest _ [72] rfl hconversation⟩

end ProxyTiming.Socks
