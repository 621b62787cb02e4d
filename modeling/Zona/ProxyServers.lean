import Zona.Base64Text
import Zona.RelayServers
import Zona.TextFormats

/-!
# The proxy server

A proxy server is a server with one handler.  It reads an HTTP request out of a
packet, makes it, and answers with the response, or with what kept it from
making one.  Requests and responses are JSON, and bodies are base64 in it.

JSON, the HTTP client and the Unicode tables are left to libraries (`ProxyJson`,
`Upstream`, `UnicodeText`).  `proxyHandler_request` says what the handler makes
of a request that was written by such a library, and `doUpstreamRequest_cases`
what may come of it.
-/

namespace Zona

/-- HTTP proxy request. -/
structure HttpProxyRequest where
  method : String
  url : String
  headers : List (String × String)
  body : Option String
  deriving DecidableEq

/-- HTTP proxy response. -/
structure HttpProxyResponse where
  status : UInt16
  headers : List (String × String)
  body : String
  error : Option String
  deriving DecidableEq

/-- What the standard library takes from the Unicode tables:
`str::to_uppercase`, and `{:?}` for a text. -/
class UnicodeText where
  toUppercase : String → String
  debug : String → String

/-- `serde_json` for requests and responses, with the texts of its errors. -/
class ProxyJson where
  writeRequest : HttpProxyRequest → String
  readRequest : List UInt8 → Except String HttpProxyRequest
  writeResponse : HttpProxyResponse → String
  readResponse : String → Except String HttpProxyResponse

/-- What is written is an object, and is read back. -/
structure ProxyJson.RoundTrips (json : ProxyJson) : Prop where
  request : ∀ req, json.readRequest (Utf8.encode (json.writeRequest req)) = .ok req
  response : ∀ resp, json.readResponse (json.writeResponse resp) = .ok resp
  object : ∀ resp, IsObject (json.writeResponse resp)

/-- An HTTP request to the outside. -/
structure UpstreamRequest where
  method : String
  url : String
  headers : List (String × String)
  body : Option (List UInt8)
  deriving DecidableEq

/-- The response to it.  The values of its headers are bytes, and its body may
fail to arrive. -/
structure UpstreamResponse where
  status : UInt16
  headers : List (String × List UInt8)
  body : Except String (List UInt8)

/-- The blocking HTTP client, with what it talks to and the texts of errors. -/
class Upstream where
  build : Except String Unit
  validMethod : String → Bool
  base64Error : String → String
  send : UpstreamRequest → Except String UpstreamResponse

/-- `HTTP_PROXY:` -/
def proxyPrefix : String := "HTTP_PROXY:"

/-- `HeaderValue::to_str`: visible ASCII and tabs. -/
def headerText (value : List UInt8) : Option String :=
  if value.all fun b => (32 ≤ b && b < 127) || b = 9 then
    some (String.ofList (value.map fun b => Char.ofNat b.toNat))
  else none

def makeError (status : UInt16) (msg : String) : HttpProxyResponse :=
  ⟨status, [], "", some msg⟩

/-- The body of a request. -/
def HttpProxyRequest.bodyBytes (req : HttpProxyRequest) (base64Error : String → String) :
    Except String (Option (List UInt8)) :=
  match req.body with
  | none => .ok none
  | some text =>
      match Base64.decode text with
      | some bytes => .ok (some bytes)
      | none => .error (base64Error text)

section Handling

variable [UnicodeText] [Upstream]

/-- `resp.headers()`, as they are sent on. -/
def UpstreamResponse.shownHeaders (resp : UpstreamResponse) : List (String × String) :=
  resp.headers.map fun header => (header.1, (headerText header.2).getD "")

def doUpstreamRequest (req : HttpProxyRequest) : HttpProxyResponse :=
  match Upstream.build with
  | .error e => makeError 500 ("build client: " ++ e)
  | .ok () =>
      let method := UnicodeText.toUppercase req.method
      if Upstream.validMethod method then
        match req.bodyBytes Upstream.base64Error with
        | .error e => makeError 400 ("bad body base64: " ++ e)
        | .ok body =>
            match Upstream.send ⟨method, req.url, req.headers, body⟩ with
            | .error e => makeError 502 ("upstream: " ++ e)
            | .ok resp =>
                match resp.body with
                | .ok bytes => ⟨resp.status, resp.shownHeaders, Base64.encode bytes, none⟩
                | .error e => ⟨resp.status, resp.shownHeaders, "", some ("read body: " ++ e)⟩
      else makeError 400 ("invalid method: " ++ req.method)

variable [ProxyJson]

/-- The handler of the proxy server. -/
def proxyHandler : PacketHandler :=
  prefixHandler (Utf8.encode proxyPrefix) fun packet =>
    let start := (Utf8.encode proxyPrefix).length
    if packet.payload.length < start then none
    else
      match ProxyJson.readRequest (packet.payload.drop start) with
      | .error e =>
          let failure := makeError 400 ("parse error: " ++ e)
          some (Utf8.encode (ProxyJson.writeResponse failure))
      | .ok req => some (Utf8.encode (ProxyJson.writeResponse (doUpstreamRequest req)))

omit [UnicodeText] [Upstream] [ProxyJson] in
/-- The bytes of two texts in a row are those of the first and then those of
the second, so a prefix of the text is a prefix of the bytes. -/
theorem utf8_encode_append (s t : String) :
    Utf8.encode (s ++ t) = Utf8.encode s ++ Utf8.encode t := by
  simp [Utf8.encode, Utf8.encodeChars]

theorem proxyHandler_accepts (text : String) :
    proxyHandler.accepts (Utf8.encode (proxyPrefix ++ text)) = true := by
  rw [utf8_encode_append]
  exact List.isPrefixOf_iff_prefix.mpr (List.prefix_append _ _)

/-- **A request that was written is made.**  A packet with the marker and the
JSON of a request is answered with the JSON of what the upstream server said,
whoever sent it. -/
theorem proxyHandler_request (hjson : ProxyJson.RoundTrips ‹ProxyJson›) (sender : NodeId)
    (req : HttpProxyRequest) :
    proxyHandler.handle ⟨sender, Utf8.encode (proxyPrefix ++ ProxyJson.writeRequest req)⟩ =
      some (Utf8.encode (ProxyJson.writeResponse (doUpstreamRequest req))) := by
  rw [utf8_encode_append]
  dsimp only [proxyHandler, prefixHandler]
  rw [if_neg (by rw [List.length_append]; omega), List.drop_left, hjson.request]

/-- The request that the proxy makes for one that it is sent. -/
def HttpProxyRequest.upstream (req : HttpProxyRequest) (body : Option (List UInt8)) :
    UpstreamRequest :=
  ⟨UnicodeText.toUppercase req.method, req.url, req.headers, body⟩

/-- What may come of a request: it is not made, or it fails, or there is a
response, with or without its body. -/
inductive UpstreamOutcome (req : HttpProxyRequest) : HttpProxyResponse → Prop
  | unbuilt {e : String} (hbuild : Upstream.build = .error e) :
      UpstreamOutcome req (makeError 500 ("build client: " ++ e))
  | badMethod (hmethod : Upstream.validMethod (UnicodeText.toUppercase req.method) = false) :
      UpstreamOutcome req (makeError 400 ("invalid method: " ++ req.method))
  | badBody {e : String} (hbody : req.bodyBytes Upstream.base64Error = .error e) :
      UpstreamOutcome req (makeError 400 ("bad body base64: " ++ e))
  | failed {body : Option (List UInt8)} {e : String}
      (hbody : req.bodyBytes Upstream.base64Error = .ok body)
      (hsend : Upstream.send (req.upstream body) = .error e) :
      UpstreamOutcome req (makeError 502 ("upstream: " ++ e))
  | bodyLost {body : Option (List UInt8)} {resp : UpstreamResponse} {e : String}
      (hbody : req.bodyBytes Upstream.base64Error = .ok body)
      (hsend : Upstream.send (req.upstream body) = .ok resp) (hlost : resp.body = .error e) :
      UpstreamOutcome req ⟨resp.status, resp.shownHeaders, "", some ("read body: " ++ e)⟩
  | answered {body : Option (List UInt8)} {resp : UpstreamResponse} {bytes : List UInt8}
      (hbody : req.bodyBytes Upstream.base64Error = .ok body)
      (hsend : Upstream.send (req.upstream body) = .ok resp) (hbytes : resp.body = .ok bytes) :
      UpstreamOutcome req ⟨resp.status, resp.shownHeaders, Base64.encode bytes, none⟩

omit [ProxyJson] in
/-- Everything that may come of a request at the proxy: no client can be built,
the method or the body is malformed, the call fails, the body of the response
is lost, or there is an answer. -/
theorem doUpstreamRequest_cases (req : HttpProxyRequest) :
    UpstreamOutcome req (doUpstreamRequest req) := by
  unfold doUpstreamRequest
  cases hbuild : (Upstream.build : Except String Unit) with
  | error e => exact .unbuilt hbuild
  | ok _ =>
      dsimp only
      cases hmethod : Upstream.validMethod (UnicodeText.toUppercase req.method) with
      | false =>
          rw [if_neg Bool.false_ne_true]
          exact .badMethod hmethod
      | true =>
          rw [if_pos rfl]
          cases hbody : req.bodyBytes Upstream.base64Error with
          | error e => exact .badBody hbody
          | ok body =>
              dsimp only
              cases hsend : Upstream.send
                  ⟨UnicodeText.toUppercase req.method, req.url, req.headers, body⟩ with
              | error e => exact .failed hbody hsend
              | ok resp =>
                  dsimp only
                  cases hbytes : resp.body with
                  | error e => exact .bodyLost hbody hsend hbytes
                  | ok bytes => exact .answered hbody hsend hbytes

end Handling

namespace ProxyJson

open TextFormat

/-- A header. -/
def headerFormat : TextFormat (String × String) :=
  after ['['] (upTo (pair text ',' isDigit_comma text) ']' rfl)

def headersFormat : TextFormat (List (String × String)) :=
  list headerFormat fun _ _ => rfl

/-- A text or `null`. -/
def optionFormat : TextFormat (Option String) :=
  nullable text fun _ _ => rfl

def statusFormat : TextFormat UInt16 :=
  map nat UInt16.ofNat UInt16.toNat fun _ => UInt16.ofNat_toNat

/-- The fields of a request, in their order. -/
def requestFormat : TextFormat HttpProxyRequest :=
  map
    (after ('{' :: "\"method\":".toList) (pair text ',' isDigit_comma
      (after "\"url\":".toList (pair text ',' isDigit_comma
        (after "\"headers\":".toList (pair headersFormat ',' isDigit_comma
          (after "\"body\":".toList (upTo optionFormat '}' isDigit_brace))))))))
    (fun r => ⟨r.1, r.2.1, r.2.2.1, r.2.2.2⟩) (fun r => (r.method, r.url, r.headers, r.body))
    fun _ => rfl

/-- The fields of a response, in their order. -/
def responseFormat : TextFormat HttpProxyResponse :=
  map
    (after ('{' :: "\"status\":".toList) (pair statusFormat ',' isDigit_comma
      (after "\"headers\":".toList (pair headersFormat ',' isDigit_comma
        (after "\"body\":".toList (pair text ',' isDigit_comma
          (after "\"error\":".toList (upTo optionFormat '}' isDigit_brace))))))))
    (fun r => ⟨r.1, r.2.1, r.2.2.1, r.2.2.2⟩) (fun r => (r.status, r.headers, r.body, r.error))
    fun _ => rfl

/-- JSON as it is written, and a reader of what is written. -/
@[reducible]
def compact : ProxyJson where
  writeRequest := requestFormat.toText
  readRequest bytes := requestFormat.ofText (Utf8.ofBytesLossy bytes)
  writeResponse := responseFormat.toText
  readResponse := responseFormat.ofText

/-- The JSON of a response is an object, so it neither begins nor ends with
blanks that the client would trim off. -/
theorem isObject_responseFormat (resp : HttpProxyResponse) :
    IsObject (responseFormat.toText resp) := by
  have hend := endsIn_upTo optionFormat (c := '}') isDigit_brace
  have hfields := (((hend.after "\"error\":".toList).pair text (d := ',') isDigit_comma).after
    "\"body\":".toList).pair headersFormat (d := ',') isDigit_comma
  have hall := (hfields.after "\"headers\":".toList).pair statusFormat (d := ',') isDigit_comma
  exact isObject_after hall _ _

/-- The compact JSON keeps both messages, so the assumptions on the parameter
can be met. -/
theorem compact_roundTrips : compact.RoundTrips := by
  refine ⟨?_, fun resp => ofText_toText responseFormat resp, isObject_responseFormat⟩
  intro req
  have htext := congrArg requestFormat.ofText (Utf8.ofBytesLossy_encode (requestFormat.toText req))
  exact htext.trans (ofText_toText requestFormat req)

end ProxyJson

end Zona
