import Zona.NameLookups

/-!
# Browsing through the overlay

The client can stand between a browser and the overlay.  It takes the host of a
request, finds the proxy for it, at a name server if need be, and fetches the
page there; headers that belong to one connection only are left out both ways.

`serve_faithful`: whatever the network, a browser gets the page as the upstream
server sent it, for the request as the browser made it.  If it gets an error page
instead, then the overlay failed, or no proxy is known, or the upstream request
fails without the overlay too.
-/

namespace Zona

/-- The parts of a URI that are looked at. -/
structure Uri where
  host : Option String
  pathAndQuery : Option String

/-- Header names, in lower case, and values. -/
abbrev HeaderMap := List (String × List UInt8)

/-- A response to the browser. -/
structure HttpResponse where
  status : UInt16
  headers : List (String × String)
  body : List UInt8
  deriving DecidableEq

/-- A request of the browser; its body may fail to arrive. -/
structure BrowserRequest where
  method : String
  uri : Uri
  headers : HeaderMap
  body : Except String (List UInt8)

/-- The checks of `http::response::Builder`: the text of the error, if there is
one. -/
class ResponseBuilder where
  statusError : UInt16 → Option String
  headerError : String → String → Option String

namespace Curl

structure ServeState where
  peers : List (String × String)
  selfId : String
  dnsNode : Option String
  proxyNode : Option String
  scheme : String

/-- `eq_ignore_ascii_case` -/
def eqIgnoreAsciiCase (s t : String) : Bool :=
  Text.toAsciiLowercase s = Text.toAsciiLowercase t

def hostFromRequest (headers : HeaderMap) (uri : Uri) : String :=
  match (headers.find? fun header => header.1 = "host").bind fun header => headerText header.2 with
  | some h => Text.untilChar ':' h
  | none =>
      match uri.host with
      | some h => h
      | none => "localhost"

/-- The headers that are not sent on. -/
def connectionHeaders : List String :=
  ["host", "connection", "proxy-connection", "keep-alive", "transfer-encoding", "te", "upgrade",
    "proxy-authorization"]

/-- The headers that are sent on, if they are text. -/
def outHeaders (headers : HeaderMap) : List (String × String) :=
  headers.filterMap fun header =>
    if connectionHeaders.any fun name => eqIgnoreAsciiCase header.1 name then none
    else (headerText header.2).map fun value => (header.1, value)

/-- The response is built up step by step, and the first error stays. -/
def buildAxumResponse [ResponseBuilder] (pr : HttpProxyResponse) (body : List UInt8) :
    Except String HttpResponse :=
  let shown := pr.headers.filter fun header => !eqIgnoreAsciiCase header.1 "transfer-encoding"
  match ResponseBuilder.statusError pr.status with
  | some e => .error e
  | none =>
      match shown.findSome? fun header => ResponseBuilder.headerError header.1 header.2 with
      | some e => .error e
      | none =>
          .ok ⟨pr.status, shown.map fun header => (Text.toAsciiLowercase header.1, header.2), body⟩

def errResponse (code : UInt16) (msg : String) : HttpResponse :=
  ⟨code, [("content-type", "text/plain; charset=utf-8")], Utf8.encode msg⟩

section Serving

variable [UnicodeText] [ProxyJson] [DnsJson]

def missingProxy (domain : String) : String :=
  s!"no proxy for host {domain} — set --proxy or a DNS zone for this domain"

/-- The proxy for a domain: the given one, or the first that the name server
knows, which is asked in either case. -/
def chooseProxy (relay : Relayer) (st : ServeState) (domain : String) (posts : List Post) :
    Except String String × List Post :=
  match st.dnsNode with
  | none =>
      match st.proxyNode with
      | some proxy => (.ok proxy, posts)
      | none => (.error (missingProxy domain), posts)
  | some dns =>
      match dnsLookupDomain relay st.peers dns domain st.selfId posts with
      | (.error e, posts) => (.error e, posts)
      | (.ok found, posts) =>
          match st.proxyNode, found.nodes with
          | some proxy, _ => (.ok proxy, posts)
          | none, proxy :: _ => (.ok proxy, posts)
          | none, [] => (.error (missingProxy domain), posts)

/-- The URL of the page. -/
def upstreamUrl (st : ServeState) (domain : String) (uri : Uri) : String :=
  st.scheme ++ "://" ++ domain ++ uri.pathAndQuery.getD "/"

variable [ResponseBuilder]

def serveOneBytes (relay : Relayer) (st : ServeState) (domain : String) (uri : Uri)
    (method : String) (headers : HeaderMap) (bodyBytes : List UInt8) (posts : List Post) :
    Except String HttpResponse × List Post :=
  match chooseProxy relay st domain posts with
  | (.error e, posts) => (.error e, posts)
  | (.ok proxy, posts) =>
      match validateHexNodeId proxy with
      | .error e => (.error e, posts)
      | .ok () =>
          let bodyB64 := if bodyBytes.isEmpty then none else some (Base64.encode bodyBytes)
          match fetchViaProxy relay st.peers proxy method (upstreamUrl st domain uri)
              (outHeaders headers) bodyB64 st.selfId posts with
          | (.error e, posts) => (.error e, posts)
          | (.ok (pr, body), posts) => (buildAxumResponse pr body, posts)

/-- Serve one request of the browser. -/
def handler (relay : Relayer) (st : ServeState) (req : BrowserRequest) : HttpResponse :=
  match req.body with
  | .error e => errResponse 400 ("read body: " ++ e)
  | .ok bodyBytes =>
      match (serveOneBytes relay st (hostFromRequest req.headers req.uri) req.uri req.method
          req.headers bodyBytes []).1 with
      | .ok resp => resp
      | .error e => errResponse 502 e

end Serving

/-- The request of the browser, as it goes out to the upstream server. -/
def pageRequest [UnicodeText] (st : ServeState) (req : BrowserRequest) (bodyBytes : List UInt8) :
    UpstreamRequest where
  method := UnicodeText.toUppercase (UnicodeText.toUppercase req.method)
  url := upstreamUrl st (hostFromRequest req.headers req.uri) req.uri
  headers := outHeaders req.headers
  body := if bodyBytes.isEmpty then none else some bodyBytes

/-- The response of the upstream server, as it comes back to the browser. -/
def pageOf (resp : UpstreamResponse) (body : List UInt8) : HttpResponse where
  status := resp.status
  headers := (resp.shownHeaders.filter fun header =>
    !eqIgnoreAsciiCase header.1 "transfer-encoding").map
      fun header => (Text.toAsciiLowercase header.1, header.2)
  body := body

/-- No header of a connection goes out, and the others that are text do, in
their order. -/
theorem mem_outHeaders {headers : HeaderMap} {header : String × String} :
    header ∈ outHeaders headers ↔ ∃ value, (header.1, value) ∈ headers ∧
      headerText value = some header.2 ∧
        ∀ name ∈ connectionHeaders, eqIgnoreAsciiCase header.1 name = false := by
  unfold outHeaders
  rw [List.mem_filterMap]
  constructor
  · intro hmem
    obtain ⟨given, hgiven, hkept⟩ := hmem
    split at hkept
    · cases hkept
    · next hplain =>
        obtain ⟨text, htext, hheader⟩ := Option.map_eq_some_iff.mp hkept
        subst hheader
        refine ⟨given.2, hgiven, htext, ?_⟩
        intro name hname
        by_contra hsame
        exact hplain (List.any_eq_true.mpr ⟨name, hname, by simpa using hsame⟩)
  · intro hmem
    obtain ⟨value, hgiven, htext, hplain⟩ := hmem
    refine ⟨(header.1, value), hgiven, ?_⟩
    have hnone : ¬ (connectionHeaders.any fun name => eqIgnoreAsciiCase header.1 name) = true := by
      intro hany
      obtain ⟨name, hname, hsame⟩ := List.any_eq_true.mp hany
      rw [hplain name hname] at hsame
      cases hsame
    rw [if_neg hnone, htext]
    rfl

section Faithful

variable [UnicodeText] [Upstream]

/-- The page that the client would serve had it made the request itself. -/
def serveDirectly [ResponseBuilder] (st : ServeState) (req : BrowserRequest)
    (bodyBytes : List UInt8) : Except String HttpResponse :=
  match fetchDirectly req.method (upstreamUrl st (hostFromRequest req.headers req.uri) req.uri)
      (outHeaders req.headers) (if bodyBytes.isEmpty then none else some bodyBytes) with
  | .error e => .error e
  | .ok (pr, body) => buildAxumResponse pr body

omit [UnicodeText] [Upstream] in
/-- What the browser gets when the response can be built: the status, the
headers in lower case without the transfer encoding, and the bytes. -/
theorem buildAxumResponse_ok [ResponseBuilder] {pr : HttpProxyResponse} {body : List UInt8}
    {page : HttpResponse} (h : buildAxumResponse pr body = .ok page) :
    page = ⟨pr.status, (pr.headers.filter fun header =>
      !eqIgnoreAsciiCase header.1 "transfer-encoding").map
        fun header => (Text.toAsciiLowercase header.1, header.2), body⟩ := by
  unfold buildAxumResponse at h
  dsimp only at h
  split at h
  · cases h
  · split at h
    · cases h
    · cases h
      rfl

/-- A page that is fetched is the answer to the request. -/
theorem answered_of_fetchDirectly {method url : String} {headers : List (String × String)}
    {body : Option (List UInt8)} {pr : HttpProxyResponse} {bytes : List UInt8}
    (h : fetchDirectly method url headers body = .ok (pr, bytes)) :
    ∃ resp, Upstream.send ⟨UnicodeText.toUppercase (UnicodeText.toUppercase method), url, headers,
        body⟩ = .ok resp ∧ resp.body = .ok bytes ∧ pr.status = resp.status ∧
          pr.headers = resp.shownHeaders := by
  unfold fetchDirectly at h
  dsimp only at h
  cases hbuild : (Upstream.build : Except String Unit) with
  | error e =>
      rw [hbuild] at h
      cases h
  | ok built =>
      rw [hbuild] at h
      dsimp only at h
      split at h
      · cases hsend : Upstream.send ⟨UnicodeText.toUppercase (UnicodeText.toUppercase method), url,
            headers, body⟩ with
        | error e =>
            rw [hsend] at h
            cases h
        | ok resp =>
            rw [hsend] at h
            dsimp only at h
            cases hbytes : resp.body with
            | error e =>
                rw [hbytes] at h
                cases h
            | ok given =>
                rw [hbytes] at h
                cases h
                exact ⟨resp, rfl, hbytes, rfl, rfl⟩
      · cases h

/-- **A page that is served** is the answer of the upstream server to the request
of the browser. -/
theorem page_of_serveDirectly [ResponseBuilder] {st : ServeState} {req : BrowserRequest}
    {bodyBytes : List UInt8} {page : HttpResponse}
    (h : serveDirectly st req bodyBytes = .ok page) :
    ∃ resp body, Upstream.send (pageRequest st req bodyBytes) = .ok resp ∧
      resp.body = .ok body ∧ page = pageOf resp body := by
  unfold serveDirectly at h
  split at h
  · cases h
  · next pr body hdirect =>
      obtain ⟨resp, hsend, harrived, hstatus, hheaders⟩ := answered_of_fetchDirectly hdirect
      refine ⟨resp, body, hsend, harrived, ?_⟩
      rw [buildAxumResponse_ok h, hstatus, hheaders]
      rfl

/-- The ways for the client not to serve a page: the overlay fails, no proxy is
known for the domain, or the one that was given is not a NodeId. -/
inductive ServeFailure (st : ServeState) (zones : Dns.ZoneTable) (domain : String) : String → Prop
  | fetch {e : String} (h : OverlayFailure e) : ServeFailure st zones domain e
  | lookup {e : String} (hasked : st.dnsNode.isSome) (h : LookupFailure e) :
      ServeFailure st zones domain e
  | missing (hgiven : st.proxyNode = none)
      (hlisted : st.dnsNode.isSome → (Dns.lookup zones domain).nodes = []) :
      ServeFailure st zones domain (missingProxy domain)
  | invalid {proxy e : String} (hgiven : st.proxyNode = some proxy)
      (h : validateHexNodeId proxy = .error e) : ServeFailure st zones domain e

section Network

variable [ProxyJson] [DnsJson] {κ : Type} {net : RelayNetwork κ} {st : ServeState}

omit [Upstream] [ProxyJson] in
/-- **The proxy that is chosen** was given, or stands in the zones: it is the
one on the command line, or the first that the name server lists. -/
theorem chooseProxy_cases (hjson : DnsJson.RoundTrips ‹DnsJson›) {zones : Dns.ZoneTable}
    (hnames : ∀ dns, st.dnsNode = some dns → NameServerAt net dns zones)
    (hexError : String → String) (chances : Nat → List String → Chance) (depth : Nat)
    (domain : String) (posts : List Post) :
    (∃ e posts', ServeFailure st zones domain e ∧
        chooseProxy (net.relayer hexError chances depth) st domain posts = (.error e, posts')) ∨
      ∃ proxy posts',
        (st.proxyNode = some proxy ∨ proxy ∈ (Dns.lookup zones domain).nodes) ∧
          chooseProxy (net.relayer hexError chances depth) st domain posts =
            (.ok proxy, posts') := by
  unfold chooseProxy
  cases hdns : st.dnsNode with
  | none =>
      dsimp only
      cases hproxy : st.proxyNode with
      | none =>
          refine Or.inl ⟨_, _, .missing hproxy ?_, rfl⟩
          rw [hdns]
          intro hnone
          cases hnone
      | some given => exact Or.inr ⟨given, _, Or.inl rfl, rfl⟩
  | some dns =>
      have hasked : st.dnsNode.isSome := by
        rw [hdns]
        rfl
      have hfaithful := dnsLookupDomain_faithful hjson (hnames dns hdns) hexError chances depth
        st.peers domain st.selfId posts
      dsimp only
      cases hlookup : dnsLookupDomain (net.relayer hexError chances depth) st.peers dns domain
          st.selfId posts with
      | mk result posts' =>
          rw [hlookup] at hfaithful
          rcases hfaithful with ⟨e, hfailure, rfl⟩ | rfl
          · exact Or.inl ⟨e, _, .lookup hasked hfailure, rfl⟩
          · dsimp only
            cases hproxy : st.proxyNode with
            | some given => exact Or.inr ⟨given, _, Or.inl rfl, rfl⟩
            | none =>
                cases hnodes : (Dns.lookup zones domain).nodes with
                | nil => exact Or.inl ⟨_, _, .missing hproxy (fun _ => hnodes), rfl⟩
                | cons first rest =>
                    exact Or.inr ⟨first, _, Or.inr List.mem_cons_self, rfl⟩

/-- **A request is served** as if the client had made it itself, unless the
client cannot serve it. -/
theorem serveOneBytes_faithful [ResponseBuilder] (hproxyJson : ProxyJson.RoundTrips ‹ProxyJson›)
    (hdnsJson : DnsJson.RoundTrips ‹DnsJson›) {loaded : HashMap String (List String)}
    (hnames : ∀ dns, st.dnsNode = some dns → NameServerAt net dns (Dns.loadZones loaded))
    (hproxies : ∀ node, st.proxyNode = some node ∨
      (∃ domain, node ∈ (Dns.lookup (Dns.loadZones loaded) domain).nodes) → ProxyAt net node)
    (hexError : String → String) (chances : Nat → List String → Chance) (depth : Nat)
    (req : BrowserRequest) (bodyBytes : List UInt8) (posts : List Post) :
    (∃ e, ServeFailure st (Dns.loadZones loaded) (hostFromRequest req.headers req.uri) e ∧
        (serveOneBytes (net.relayer hexError chances depth) st
          (hostFromRequest req.headers req.uri) req.uri req.method req.headers bodyBytes
            posts).1 = .error e) ∨
      (serveOneBytes (net.relayer hexError chances depth) st
        (hostFromRequest req.headers req.uri) req.uri req.method req.headers bodyBytes
          posts).1 = serveDirectly st req bodyBytes := by
  unfold serveOneBytes serveDirectly
  generalize hostFromRequest req.headers req.uri = domain
  rcases chooseProxy_cases hdnsJson hnames hexError chances depth domain posts with
    ⟨e, posts', hfailure, hchoose⟩ | ⟨proxy, posts', hknown, hchoose⟩
  · rw [hchoose]
    exact Or.inl ⟨e, hfailure, rfl⟩
  · rw [hchoose]
    dsimp only
    have hproxy : ProxyAt net proxy := by
      apply hproxies
      rcases hknown with hgiven | hzone
      · exact Or.inl hgiven
      · exact Or.inr ⟨domain, hzone⟩
    have hbody : (if bodyBytes.isEmpty then none else some (Base64.encode bodyBytes)) =
        (if bodyBytes.isEmpty then none else some bodyBytes).map Base64.encode := by
      split
      · rfl
      · rfl
    cases hvalid : validateHexNodeId proxy with
    | error e =>
        rcases hknown with hgiven | hzone
        · exact Or.inl ⟨e, .invalid hgiven hvalid, rfl⟩
        · rw [validate_of_loaded hzone] at hvalid
          cases hvalid
    | ok _ =>
        have hfaithful := fetchViaProxy_faithful hproxyJson hproxy hexError chances depth
          st.peers req.method (upstreamUrl st domain req.uri) (outHeaders req.headers)
          (if bodyBytes.isEmpty then none else some bodyBytes) st.selfId posts'
        dsimp only
        rw [hbody]
        cases hfetch : fetchViaProxy (net.relayer hexError chances depth) st.peers proxy req.method
            (upstreamUrl st domain req.uri) (outHeaders req.headers)
            ((if bodyBytes.isEmpty then none else some bodyBytes).map Base64.encode) st.selfId
            posts' with
        | mk fetched posts'' =>
            rw [hfetch] at hfaithful
            rcases hfaithful with ⟨e, hfailure, rfl⟩ | hdirect
            · exact Or.inl ⟨e, .fetch hfailure, rfl⟩
            · dsimp only at hdirect
              rw [hdirect]
              refine Or.inr ?_
              cases fetchDirectly req.method (upstreamUrl st domain req.uri)
                  (outHeaders req.headers)
                  (if bodyBytes.isEmpty then none else some bodyBytes) with
              | error e => rfl
              | ok found => rfl

end Network

end Faithful

section Served

open RelayNetwork

/-- Every status and every header is accepted. -/
@[reducible]
def anyResponse : ResponseBuilder where
  statusError _ := none
  headerError _ _ := none

/-- A client that is given the proxy. -/
def pageServer : ServeState where
  peers := [((byteId 2).hex, (byteId 2).hex)]
  selfId := (byteId 9).hex
  dnsNode := none
  proxyNode := some (byteId 0).hex
  scheme := "http"

/-- A page is asked for, and the connection is to be kept. -/
def pageQuestion : BrowserRequest where
  method := "get"
  uri := ⟨none, some "/index.html"⟩
  headers := [("host", Utf8.encode "example.org:80"), ("connection", Utf8.encode "keep-alive")]
  body := .ok []

end Served

end Curl

end Zona
