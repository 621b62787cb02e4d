import Zona.Introductions
import Zona.NameServers
import Zona.ProxyServers
import Zona.RelayAgreement
import Zona.TrimmedText

/-!
# The command-line client

The client joins the overlay as a guest: it asks the seeds for peers until one
answers, and posts its requests to these peers until one answers.  It waits for
the answer of a server in the reply itself, so its requests name no URL for it
and carry no correlation id.

A name is looked up at a name server, and a page is fetched at a proxy.  What is
done with the reply is `dnsAnswer` and `proxyAnswer`.

The client of HTTP answers the last of the posts so far.
-/

namespace Zona

namespace Curl

/-- The answer to the last of the introductions so far, if it is one. -/
abbrev Introducer := List (String × IntroduceRequest) → Option IntroduceResponse

/-- The answer to the last of the relay requests so far. -/
abbrev Relayer := List Post → HttpAnswer

/-- The introduction of a guest. -/
def introduceBody (selfId : String) : IntroduceRequest :=
  ⟨selfId, "http://zona-curl-ephemeral", false⟩

/-- The peers that a seed names: itself and its neighbours. -/
def peersOf (seedUrl : String) (intro : IntroduceResponse) : List (String × String) :=
  (intro.nodeId, seedUrl) :: intro.neighbors.map fun nb => (nb.nodeId, nb.adminUrl)

/-- Ask one seed after the other until one answers. -/
def bootstrapPeers (introduce : Introducer) (selfId : String) :
    List String → List (String × IntroduceRequest) →
      Except String (List (String × String)) × List (String × IntroduceRequest)
  | [], asked => (.error "failed to connect to any P2P bootstrap node", asked)
  | seedUrl :: seeds, asked =>
      let asked := asked ++ [(seedUrl ++ "/api/introduce", introduceBody selfId)]
      match introduce asked with
      | none => bootstrapPeers introduce selfId seeds asked
      | some intro => (.ok (peersOf seedUrl intro), asked)

/-- The relay request of a guest. -/
def relayRequest (toIdHex payload selfId : String) : RelayRequest where
  toId := toIdHex
  text := payload
  fromClient := selfId
  path := [selfId]
  allNodes := []
  returnNodeUrl := none
  correlationId := none

/-- Post a request to one peer after the other until one answers. -/
def relaySync (relay : Relayer) (req : RelayRequest) :
    List (String × String) → List Post → Except String RelayResponse × List Post
  | [], posts => (.error "all peers failed to relay the request", posts)
  | (_, peerUrl) :: peers, posts =>
      let posts := posts ++ [⟨peerUrl, req⟩]
      match relay posts with
      | .failed _ => relaySync relay req peers posts
      | .unreadable _ => relaySync relay req peers posts
      | .answered r => (.ok r, posts)

/-- Check a NodeId. -/
def validateHexNodeId (s : String) : Except String Unit :=
  match Hex.decode s with
  | none => .error "not valid hex"
  | some b => if b.length = 32 then .ok () else .error "NodeId must be 64 hex chars (32 bytes)"

section Answers

variable [UnicodeText]

/-- `{:?}` of a path. -/
def debugPath (path : List String) : String :=
  "[" ++ ", ".intercalate (path.map UnicodeText.debug) ++ "]"

/-- What the reply says about the name. -/
def dnsAnswer [DnsJson] (relay : RelayResponse) : Except String Dns.DnsLookupResponse :=
  if relay.delivered then
    match relay.response with
    | none => .error "DNS returned empty response"
    | some text =>
        match DnsJson.readResponse (Text.trim text) with
        | .error _ => .error "parse DnsLookupResponse"
        | .ok found => .ok found
  else
    .error ("DNS relay not delivered: " ++ debugPath relay.path ++ " " ++ relay.error.getD "")

/-- Look a domain up at a name server. -/
def dnsLookupDomain [DnsJson] (relay : Relayer) (peers : List (String × String))
    (dnsNode domain selfId : String) (posts : List Post) :
    Except String Dns.DnsLookupResponse × List Post :=
  let payload := Dns.dnsPrefix ++ DnsJson.writeQuery domain
  match relaySync relay (relayRequest dnsNode payload selfId) peers posts with
  | (.error e, posts) => (.error e, posts)
  | (.ok reply, posts) => (dnsAnswer reply, posts)

/-- A text without white space around it and without a byte order mark. -/
def trimMarked (text : String) : String :=
  match (Text.trim text).toList with
  | '\uFEFF' :: rest => Text.trim (String.ofList rest)
  | _ => Text.trim text

/-- The response and its body, unless the proxy reports an error. -/
def proxyResult (resp : HttpProxyResponse) : Except String (HttpProxyResponse × List UInt8) :=
  match resp.error with
  | some err => .error s!"proxy error (status {resp.status}): {err}"
  | none =>
      match Base64.decode resp.body with
      | none => .error "decode response body base64"
      | some bytes => .ok (resp, bytes)

/-- What the reply says about the page. -/
def proxyAnswer [ProxyJson] (relay : RelayResponse) :
    Except String (HttpProxyResponse × List UInt8) :=
  if relay.delivered then
    match relay.response with
    | none => .error "proxy returned no response — wrong NodeId?"
    | some text =>
        let trimmed := trimMarked text
        if trimmed = "" then .error "empty proxy response"
        else
          match ProxyJson.readResponse trimmed with
          | .error e =>
              let preview := UnicodeText.debug (String.ofList (trimmed.toList.take 160))
              .error s!"parse HttpProxyResponse: {e} (preview={preview})"
          | .ok resp => proxyResult resp
  else
    .error ("packet not delivered (path: " ++ debugPath relay.path ++ "): " ++
      relay.error.getD "")

/-- The request that is sent to the proxy. -/
def proxyRequest (method url : String) (headers : List (String × String))
    (bodyB64 : Option String) : HttpProxyRequest :=
  ⟨UnicodeText.toUppercase method, url, headers, bodyB64⟩

/-- Fetch a page at a proxy. -/
def fetchViaProxy [ProxyJson] (relay : Relayer) (peers : List (String × String))
    (proxyNode method url : String) (headers : List (String × String)) (bodyB64 : Option String)
    (selfId : String) (posts : List Post) :
    Except String (HttpProxyResponse × List UInt8) × List Post :=
  let payload := proxyPrefix ++ ProxyJson.writeRequest (proxyRequest method url headers bodyB64)
  match relaySync relay (relayRequest proxyNode payload selfId) peers posts with
  | (.error e, posts) => (.error e, posts)
  | (.ok reply, posts) => (proxyAnswer reply, posts)

end Answers

end Curl

end Zona
