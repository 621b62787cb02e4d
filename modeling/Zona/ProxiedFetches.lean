import Zona.GuestRelays

/-!
# Fetching a page through the overlay

What the client makes of the reply of a proxy is what it would have got had it
made the request itself (`fetchDirectly`): the response and the bytes of its
body, or the error.  `fetchViaProxy_faithful` says so for every network, whatever
goes wrong in it: there are three ways for the overlay to fail, and short of
these nothing is changed on the way.

In a network without failing calls, `fetch_complete` says when a fetch succeeds.
-/

namespace Zona

namespace Curl

/-- Trimming leaves an object as it is, as it begins and ends with a brace, and
braces are no white space. -/
theorem trim_object {text : String} (h : IsObject text) : Text.trim text = text := by
  obtain ⟨inner, htext⟩ := h
  have hopen : Text.isWhitespace '{' = false := by decide
  have hclose : Text.isWhitespace '}' = false := by decide
  rw [Text.trim, Text.trimList, htext, List.dropWhile_cons_of_neg (by simp [hopen]),
    ← List.cons_append, List.rdropWhile_concat_neg _ _ _ (by simp [hclose]), List.cons_append,
    ← htext, String.ofList_toList]

/-- The client also drops a byte order mark, and an object does not begin with
one either. -/
theorem trimMarked_object {text : String} (h : IsObject text) : trimMarked text = text := by
  rw [trimMarked, trim_object h]
  obtain ⟨inner, htext⟩ := h
  rw [htext]
  rfl

/-- An object is not the empty text, which the client would take for a missing
answer. -/
theorem ne_empty_object {text : String} (h : IsObject text) : text ≠ "" := by
  obtain ⟨inner, htext⟩ := h
  intro hempty
  rw [hempty] at htext
  cases htext

section Fetches

variable [UnicodeText]

/-- The client reads what the proxy wrote: a delivered reply is turned into the
result that stands in its JSON. -/
theorem proxyAnswer_written [ProxyJson] (hjson : ProxyJson.RoundTrips ‹ProxyJson›)
    (path : List String) (error : Option String) (resp : HttpProxyResponse) :
    proxyAnswer ⟨true, path, error, some (ProxyJson.writeResponse resp)⟩ = proxyResult resp := by
  have hobject := hjson.object resp
  rw [proxyAnswer, if_pos rfl]
  dsimp only
  rw [trimMarked_object hobject, if_neg (ne_empty_object hobject), hjson.response]

section Direct

variable [Upstream]

/-- The request made by the client itself, with the errors that a proxy
reports. -/
def fetchDirectly (method url : String) (headers : List (String × String))
    (body : Option (List UInt8)) : Except String (HttpProxyResponse × List UInt8) :=
  let failure (status : UInt16) (err : String) : Except String (HttpProxyResponse × List UInt8) :=
    .error s!"proxy error (status {status}): {err}"
  let method := UnicodeText.toUppercase method
  match Upstream.build with
  | .error e => failure 500 ("build client: " ++ e)
  | .ok () =>
      if Upstream.validMethod (UnicodeText.toUppercase method) then
        match Upstream.send ⟨UnicodeText.toUppercase method, url, headers, body⟩ with
        | .error e => failure 502 ("upstream: " ++ e)
        | .ok resp =>
            match resp.body with
            | .error e => failure resp.status ("read body: " ++ e)
            | .ok bytes => .ok (⟨resp.status, resp.shownHeaders, Base64.encode bytes, none⟩, bytes)
      else failure 400 ("invalid method: " ++ method)

/-- **The proxy stands in for the client.**  The result of asking the proxy is
that of asking the upstream server directly, errors included. -/
theorem proxyResult_doUpstreamRequest (method url : String) (headers : List (String × String))
    (body : Option (List UInt8)) :
    proxyResult (doUpstreamRequest (proxyRequest method url headers (body.map Base64.encode))) =
      fetchDirectly method url headers body := by
  have hbody : (proxyRequest method url headers (body.map Base64.encode)).bodyBytes
      Upstream.base64Error = .ok body := by
    unfold HttpProxyRequest.bodyBytes proxyRequest
    cases body with
    | none => rfl
    | some bytes => simp
  unfold fetchDirectly doUpstreamRequest
  cases (Upstream.build : Except String Unit) with
  | error e => rfl
  | ok built =>
      dsimp only
      by_cases hmethod : Upstream.validMethod
          (UnicodeText.toUppercase (UnicodeText.toUppercase method)) = true
      · have hmethod' : Upstream.validMethod (UnicodeText.toUppercase
            (proxyRequest method url headers (body.map Base64.encode)).method) = true := hmethod
        rw [if_pos hmethod, if_pos hmethod', hbody]
        dsimp only [proxyRequest]
        cases Upstream.send ⟨UnicodeText.toUppercase (UnicodeText.toUppercase method), url,
            headers, body⟩ with
        | error e => rfl
        | ok resp =>
            dsimp only
            cases resp.body with
            | error e => rfl
            | ok bytes => simp [proxyResult]
      · have hmethod' : ¬ Upstream.validMethod (UnicodeText.toUppercase
            (proxyRequest method url headers (body.map Base64.encode)).method) = true := hmethod
        rw [if_neg hmethod, if_neg hmethod']
        rfl

end Direct

/-- The ways for the overlay to fail: no node answers, the request is not
delivered, or the destination is no proxy. -/
inductive OverlayFailure : String → Prop
  | unreachable : OverlayFailure "all peers failed to relay the request"
  | undelivered (path : List String) (error : String) :
      OverlayFailure ("packet not delivered (path: " ++ debugPath path ++ "): " ++ error)
  | unanswered : OverlayFailure "proxy returned no response — wrong NodeId?"

omit [UnicodeText] in
/-- A relay fails for one reason only, that no peer was left to ask, and it
says so in a fixed text. -/
theorem relaySync_error {relay : Relayer} {req : RelayRequest} {peers : List (String × String)}
    {posts posts' : List Post} {e : String}
    (h : relaySync relay req peers posts = (.error e, posts')) :
    e = "all peers failed to relay the request" := by
  induction peers generalizing posts with
  | nil =>
      cases h
      rfl
  | cons peer peers ih =>
      rw [relaySync] at h
      cases hanswer : relay (posts ++ [⟨peer.2, req⟩]) with
      | failed e =>
          rw [hanswer] at h
          exact ih h
      | unreadable e =>
          rw [hanswer] at h
          exact ih h
      | answered response =>
          rw [hanswer] at h
          cases h

omit [UnicodeText] in
/-- The requests of the client are those of a guest: they name no URL to which
an answer could be posted. -/
theorem relayRequest_isGuest (toIdHex payload selfId : String) :
    (relayRequest toIdHex payload selfId).IsGuest :=
  ⟨rfl, rfl⟩

omit [UnicodeText] in
/-- **What a guest hears** is the reply of a node that the request was for, or
of one that could not deliver it. -/
theorem relaySync_replied {κ : Type} {net : RelayNetwork κ} {hexError : String → String}
    {chances : Nat → List String → Chance} {depth : Nat} {req : RelayRequest}
    {peers : List (String × String)} {posts posts' : List Post} {response : RelayResponse}
    (hguest : req.IsGuest)
    (h : relaySync (net.relayer hexError chances depth) req peers posts =
      (.ok response, posts')) :
    ∃ d, req.Replied (net.nodes d) response := by
  obtain ⟨skipped, peer, rest, _, hposts, hanswer⟩ := relaySync_answered h
  rw [hposts, List.map_append, ← List.append_assoc] at hanswer
  obtain ⟨chance, k, _, hrelay⟩ := RelayNetwork.relayer_answered hanswer
  exact RelayNetwork.doRelay_guest hguest hrelay

/-- The servers of the network that have this identifier are proxies. -/
def ProxyAt [Upstream] [ProxyJson] {κ : Type} (net : RelayNetwork κ) (node : String) : Prop :=
  ∀ d st, net.nodes d = .server st → NodeId.parse node = some st.node.id →
    st.handlers = [proxyHandler]

/-- **The answer of a proxy** to the request of a client is the JSON of what
came of the request at the upstream server. -/
theorem answer_proxy [Upstream] [ProxyJson] (hjson : ProxyJson.RoundTrips ‹ProxyJson›)
    {st : ServerState} (hhandlers : st.handlers = [proxyHandler]) (node selfId : String)
    (req : HttpProxyRequest) :
    (RelayNode.server st).answer
        (relayRequest node (proxyPrefix ++ ProxyJson.writeRequest req) selfId) =
      some (ProxyJson.writeResponse (doUpstreamRequest req)) := by
  have hfor : handlerFor st.handlers
      (Utf8.encode (proxyPrefix ++ ProxyJson.writeRequest req)) = some proxyHandler := by
    rw [hhandlers, handlerFor]
    exact List.find?_cons_of_pos (proxyHandler_accepts _)
  dsimp only [RelayNode.answer, relayRequest, answerOf]
  rw [hfor, Option.bind_some, proxyHandler_request hjson, Option.map_some,
    Utf8.ofBytesLossy_encode]

/-- **A fetch is faithful.**  Whatever the network and the chances, a fetch ends
in a failure of the overlay, or as if the client had made the request itself. -/
theorem fetchViaProxy_faithful [Upstream] [ProxyJson] (hjson : ProxyJson.RoundTrips ‹ProxyJson›)
    {κ : Type} {net : RelayNetwork κ} {proxyNode : String} (hproxy : ProxyAt net proxyNode)
    (hexError : String → String) (chances : Nat → List String → Chance) (depth : Nat)
    (peers : List (String × String)) (method url : String) (headers : List (String × String))
    (body : Option (List UInt8)) (selfId : String) (posts : List Post) :
    (∃ e, OverlayFailure e ∧
        (fetchViaProxy (net.relayer hexError chances depth) peers proxyNode method url headers
          (body.map Base64.encode) selfId posts).1 = .error e) ∨
      (fetchViaProxy (net.relayer hexError chances depth) peers proxyNode method url headers
        (body.map Base64.encode) selfId posts).1 = fetchDirectly method url headers body := by
  unfold fetchViaProxy
  dsimp only
  generalize hreq : relayRequest proxyNode (proxyPrefix ++ ProxyJson.writeRequest
    (proxyRequest method url headers (body.map Base64.encode))) selfId = req
  have hguest : req.IsGuest := by
    rw [← hreq]
    exact relayRequest_isGuest _ _ _
  cases hsync : relaySync (net.relayer hexError chances depth) req peers posts with
  | mk result posts' =>
      cases result with
      | error e =>
          rw [relaySync_error hsync]
          exact Or.inl ⟨_, .unreachable, rfl⟩
      | ok response =>
          obtain ⟨d, hreplied⟩ := relaySync_replied hguest hsync
          dsimp only
          cases hreplied with
          | refused path error => exact Or.inl ⟨_, .undelivered path error, rfl⟩
          | @delivered path hdest =>
              cases hnode : net.nodes d with
              | admin st => exact Or.inl ⟨_, .unanswered, rfl⟩
              | server st =>
                  rw [hnode, ← hreq] at hdest
                  have hhandlers := hproxy d st hnode hdest
                  rw [← hreq, answer_proxy hjson hhandlers, proxyAnswer_written hjson,
                    proxyResult_doUpstreamRequest]
                  exact Or.inr rfl

section Search

open RelayNetwork Relation

variable {κ : Type} {net : RelayNetwork κ} {hexError : String → String}
  {chances : Nat → List String → Chance} {depth : Nat}

omit [UnicodeText] in
theorem relaySync_first {req : RelayRequest} {peerId peerUrl : String} {first : κ}
    {peers : List (String × String)} {posts : List Post} {response : RelayResponse}
    (hreliable : ∀ n, Reliable (chances n)) (hfirst : net.resolve peerUrl = some first)
    (hrelay : net.doRelay hexError (chances (posts ++ [Post.mk peerUrl req]).length) depth first
      req = some response) :
    relaySync (net.relayer hexError chances depth) req ((peerId, peerUrl) :: peers) posts =
      (.ok response, posts ++ [Post.mk peerUrl req]) := by
  have hsend : net.send (chances (posts ++ [Post.mk peerUrl req]).length)
      (net.doRelay hexError (chances (posts ++ [Post.mk peerUrl req]).length) depth)
        (Post.mk peerUrl req) = some (.ok response) := by
    obtain ⟨hreached, hreadable⟩ := hreliable (posts ++ [Post.mk peerUrl req]).length req.path
    rw [send]
    dsimp only
    rw [hreached, if_pos rfl, hfirst]
    dsimp only
    rw [hrelay, Option.map_some, hreadable, if_pos rfl]
  rw [relaySync, relayer, List.getLast?_append_cons, List.getLast?_singleton]
  dsimp only
  rw [hsend]

/-- Greedy hops, and hops from a local minimum, lead from one node to another
past the guest. -/
def Leads (net : RelayNetwork κ) (selfId : String) (first last : κ) : Prop :=
  ReflTransGen (fun u v => net.Hops (net.idOf last) u v ∧ net.name v ∉ [selfId]) first last

end Search

end Fetches

section Relayed

open RelayNetwork Relation

/-- The tables for English letters. -/
@[reducible]
def asciiText : UnicodeText where
  toUppercase := Text.toAsciiUppercase
  debug s := "\"" ++ s ++ "\""

/-- Whoever is asked says hello. -/
@[reducible]
def greeter : Upstream where
  build := .ok ()
  validMethod method := method = "GET"
  base64Error _ := "Invalid padding"
  send _ := .ok ⟨200, [("content-type", Utf8.encode "text/plain")], .ok (Utf8.encode "hello")⟩

/-- A proxy with this identifier. -/
def proxyServer (id : NodeId) : ServerState where
  node := { Node.sample 1 with id := id, table := PeerTable.new id 8 }
  peerUrls := ∅
  selfUrl := id.hex
  pending := ∅
  handlers := [@proxyHandler asciiText greeter ProxyJson.compact]

/-- A plain node that knows a proxy; both listen at their identifiers. -/
def relayedProxy : RelayNetwork Bool where
  nodes k := if k then .server (proxyServer (byteId 0)) else relayWith (byteId 2) [byteId 0]
  resolve url := [(false, byteId 2), (true, byteId 0)].findSome? fun entry =>
    if entry.2.hex = url then some entry.1 else none

/-- The only server is a proxy, so under whatever identifier it is looked for,
a proxy is found there. -/
theorem relayedProxy_proxyAt (node : String) :
    @ProxyAt asciiText greeter ProxyJson.compact _ relayedProxy node := by
  intro d st hserver _
  dsimp only [relayedProxy] at hserver
  split at hserver
  · cases hserver
    rfl
  · cases hserver

/-- Both nodes have correct URLs, each being known by the text of its own
identifier. -/
theorem relayedProxy_correct : relayedProxy.Correct :=
  correct_of_entries (by decide +kernel) (by decide +kernel)

/-- The plain node hands the request on to the proxy in one hop. -/
theorem relayedProxy_leads : Leads relayedProxy (byteId 9).hex false true := by
  have hhop : relayedProxy.Hops (relayedProxy.idOf true) false true := by
    refine ⟨(byteId 0).hex, ?_⟩
    unfold Offers
    decide +kernel
  exact .single ⟨hhop, by decide +kernel⟩

end Relayed

end Curl

end Zona
