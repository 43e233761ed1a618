import ProxyTiming.Proofs.Attempt.Route
import ProxyTiming.Proofs.Http.HostHeader

/-!
# The tunnel leads to the target

A request is sent through a tunnel only if the tunnel leads where the URL says.  Whoever reads
along with the proxy finds the client's messages complete, the credentials in them those of the
client, and as destination the host and the port of the URL: the address if the host is one, else
the name, or the first of its addresses if the client looks it up itself.  The request that
follows names the same host and the same port.
-/

namespace ProxyTiming

open ProxyTiming.Net ProxyTiming.Socks ProxyTiming.Http ProxyTiming.Text

/-! ### The destination -/

inductive IsGoal (n : Network) (c : Client) (t : Target) : Goal → Prop where
  /-- The host is an address. -/
  | literal (ip : IpAddr) (h : IpAddr.ofText? t.host = some ip) :
      IsGoal n c t (Destination.address ⟨ip, t.port⟩).goal
  /-- The proxy looks the host up. -/
  | named (h : IpAddr.ofText? t.host = none) (remote : c.resolveLocally = false) :
      IsGoal n c t (.name (utf8 t.host) t.port)
  /-- The client looks the host up. -/
  | resolved (ip : IpAddr) (others : List IpAddr) (h : IpAddr.ofText? t.host = none)
      (locally : c.resolveLocally = true) (found : n.lookup t.host = .ok (ip :: others)) :
      IsGoal n c t (Destination.address ⟨ip, t.port⟩).goal

theorem isGoal_of_destination {n : Network} {c : Client} {t : Target} {d : Destination}
    (h : c.destination? n t = some d) : IsGoal n c t d.goal := by
  unfold Client.destination? Network.addressesOf Destination.ofHost at h
  cases hhost : IpAddr.ofText? t.host with
  | some ip =>
      obtain rfl : Destination.address ⟨ip, t.port⟩ = d := by
        cases hlocal : c.resolveLocally <;> simpa [hhost, hlocal] using h
      exact .literal ip hhost
  | none =>
      cases hlocal : c.resolveLocally with
      | false =>
          obtain rfl : Destination.domain t.host t.port = d := by simpa [hhost, hlocal] using h
          exact .named hhost hlocal
      | true =>
          simp only [hhost, hlocal, if_true] at h
          split at h
          next ips hlookup =>
            cases ips with
            | nil => cases h
            | cons ip others =>
                obtain rfl := Option.some.inj h
                exact .resolved ip others hhost hlocal hlookup
          next => cases h

/-! ### The request -/

structure AsksFor (request : Request) (t : Target) : Prop where
  header (value : String) : ("host", value) ∈ request.headers ↔ value = t.authority
  /-- The header is the first line of the head after the one that asks for the path. -/
  line : ∃ rest, request.head =
    "GET " ++ t.pathAndQuery ++ " HTTP/1.1" ++ Request.lineEnd ++
      ("host" ++ ": " ++ t.authority ++ Request.lineEnd ++ rest)
  /-- Nothing in the header ends its line. -/
  intact : ∀ c ∈ t.authority.toList, isHeaderValueChar c = true
  names : Names t.authority t

theorem asksFor_of_forTarget {url userAgent : String} {t : Target} {request : Request}
    (htarget : Target.parse url = .ok t) (h : Request.forTarget t userAgent = .ok request) :
    AsksFor request t := by
  unfold Request.forTarget at h
  split at h
  next => cases h
  next =>
    dsimp only at h
    split_ifs at h with hclean
    obtain rfl := Except.ok.inj h
    refine ⟨?_, ?_, ?_, names_of_parse htarget⟩
    · simp [Request.headersFor]
    · refine ⟨Request.headerLines (Request.headersFor t userAgent).tail ++ Request.lineEnd, ?_⟩
      simp only [Request.head, Request.headersFor, Request.headerLines, List.tail_cons,
        String.append_assoc]
    · exact List.all_eq_true.mp (List.all_eq_true.mp hclean _ List.mem_cons_self)

theorem targetOf_eq_ok {url : String} {t : Target} (h : targetOf url = .ok t) :
    Target.parse url = .ok t := by
  unfold targetOf at h
  split at h
  next t' htarget => rwa [← Except.ok.inj h]
  next => cases h

theorem requestFor_eq_ok {c : Client} {t : Target} {request : Request}
    (h : requestFor c t = .ok request) : Request.forTarget t c.userAgent = .ok request := by
  unfold requestFor at h
  split at h
  next request' hrequest => rwa [← Except.ok.inj h]
  next => cases h

theorem prepare_eq_ok {c : Client} {url : String} {t : Target} {request : Request}
    (h : c.prepare url = .ok (t, request)) :
    Target.parse url = .ok t ∧ Request.forTarget t c.userAgent = .ok request := by
  obtain ⟨t', htarget, h⟩ := exists_of_bind h
  obtain ⟨request', hrequest, h⟩ := exists_of_bind h
  obtain ⟨rfl, rfl⟩ := Prod.mk.inj (Except.ok.inj h)
  exact ⟨targetOf_eq_ok htarget, requestFor_eq_ok hrequest⟩

/-! ### The tunnel -/

/-- The traces of an attempt that talks to its target through a tunnel.  There is one negotiation,
and what the client says in it a proxy reads to the last byte. -/
inductive LeadsTo (n : Network) (c : Client) (credentials : Option Credentials) (t : Target)
    (request : Request) : List Effect → Prop where
  | intro (front talk : List Effect) (said heard : List UInt8) (method : UInt8) (goal : Goal)
      (reaches : ∀ e ∈ front, ∃ host port, Reaches n host port e)
      (selected : heard[1]? = some method)
      (read : takeSpoken method said =
        some (⟨offered credentials, loginFor credentials method, goal⟩, []))
      (isGoal : IsGoal n c t goal)
      (talks : ∀ e ∈ talk, Talks (utf8 request.head) e) :
      LeadsTo n c credentials t request (front ++ [.negotiation said heard] ++ talk)

theorem Client.reaches_of_lookupTrace {n : Network} {c : Client} {t : Target} {e : Effect}
    (he : e ∈ c.lookupTrace t) : Reaches n t.host t.port e := by
  unfold Client.lookupTrace at he
  split_ifs at he
  · exact ProxyTiming.reaches_of_lookupTrace he
  · cases he

theorem not_reaches_request {n : Network} {host : String} {port : UInt16} {bytes : List UInt8} :
    ¬Reaches n host port (.request bytes) := nofun

/-- A trace with a request has come to the end of the grammar. -/
theorem leadsTo_of_via {n : Network} {c : Client} {proxy : Endpoint}
    {credentials : Option Credentials} {t : Target} {request : Request} {d : Destination}
    {rest : List Effect} {bytes : List UInt8} (hd : c.destination? n t = some d)
    (h : Via n proxy credentials d (utf8 request.head) rest) (hsent : .request bytes ∈ rest) :
    LeadsTo n c credentials t request (c.lookupTrace t ++ rest) := by
  cases h with
  | reaching _ reaches => exact absurd (reaches _ hsent) not_reaches_request
  | asking way said heard reaches asks =>
      rcases List.mem_append.mp hsent with hsent | hsent
      · exact absurd (reaches _ hsent) not_reaches_request
      · simp at hsent
  | talking way said heard talk opens talks =>
      obtain ⟨method, selected, hread⟩ := takeSpoken_of_opened opens.opened
      have hfront : ∀ e ∈ c.lookupTrace t ++ way, ∃ host port, Reaches n host port e := by
        intro e he
        rcases List.mem_append.mp he with he | he
        · exact ⟨t.host, t.port, Client.reaches_of_lookupTrace he⟩
        · exact ⟨proxy.host, proxy.port, opens.reaches e he⟩
      have htrace := LeadsTo.intro _ talk said heard method d.goal hfront selected hread
        (isGoal_of_destination hd) talks
      simpa [List.append_assoc] using htrace

/-- Whenever a request is sent through a proxy, it is sent to where the URL leads, and names it. -/
theorem Client.attempt_leads_to_target (w : Watch) (n : Network) {c : Client} {proxy : Endpoint}
    {credentials : Option Credentials} (hroute : c.route = .proxy proxy credentials) {url : String}
    {bytes : List UInt8} (hsent : .request bytes ∈ (c.attempt w n url).session.trace) :
    ∃ t request, Target.parse url = .ok t ∧ Request.forTarget t c.userAgent = .ok request ∧
      AsksFor request t ∧
      LeadsTo n c credentials t request (c.attempt w n url).session.trace := by
  cases hprepare : c.prepare url with
  | error e =>
      rw [Client.session_of_rejected w n hprepare] at hsent
      cases hsent
  | ok prepared =>
      obtain ⟨t, request⟩ := prepared
      obtain ⟨htarget, hrequest⟩ := prepare_eq_ok hprepare
      refine ⟨t, request, htarget, hrequest, asksFor_of_forTarget htarget hrequest, ?_⟩
      obtain ⟨rest, htrace, hrest⟩ := Client.trace_throughProxy (n := n) w hprepare hroute
      have hlookup : .request bytes ∉ c.lookupTrace t := fun hmem =>
        not_reaches_request (n := n) (Client.reaches_of_lookupTrace hmem)
      rw [htrace] at hsent ⊢
      have hsent := (List.mem_append.mp hsent).resolve_left hlookup
      rcases hrest with ⟨d, hd, hvia⟩ | ⟨rfl, -⟩
      · exact leadsTo_of_via hd hvia hsent
      · cases hsent

/-- A proxy that asks for a login and is asked for a name. -/
theorem Client.attempt_leads_to_target_of_login :
    let credentials : Option Credentials := some ⟨"u", "p"⟩
    let replies : Cue → Option Reply := fun
      | .greeting => some (.bytes [5, 2])
      | .login => some (.bytes [1, 0])
      | .connect => some (.bytes [5, 0, 0, 1, 0, 0, 0, 0, 0, 0])
      | .request => some .silence
    let n : Network :=
      ⟨[("proxy", [Network.ownAddress])], .some [], ⟨true, replies, none, false, false⟩⟩
    let c : Client := ⟨"", .proxy ⟨"proxy", 1080⟩ credentials, .zero, "", false⟩
    let trace := (c.attempt .tick n "http://a:81").session.trace
    let t : Target := ⟨"a", 81, false, "a:81", "/"⟩
    let request : Request := ⟨"/", Request.headersFor t ""⟩
    .request (utf8 request.head) ∈ trace ∧ AsksFor request t ∧
      LeadsTo n c credentials t request trace := by
  intro credentials replies n c trace t request
  have hsent : .request (utf8 request.head) ∈ trace := by decide +kernel
  have htarget : Target.parse "http://a:81" = .ok t := by decide +kernel
  have hrequest : Request.forTarget t "" = .ok request := by decide +kernel
  obtain ⟨t', request', htarget', hrequest', hasks, hleads⟩ :=
    @Client.attempt_leads_to_target .tick n c _ _ rfl "http://a:81" _ hsent
  obtain rfl := Except.ok.inj (htarget.symm.trans htarget')
  obtain rfl := Except.ok.inj (hrequest.symm.trans hrequest')
  exact ⟨hsent, hasks, hleads⟩

end ProxyTiming
