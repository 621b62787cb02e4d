import Zona.RelayServers
import Zona.TextFormats
import Zona.ZoneTables

/-!
# The name server

A name server is a server whose handler looks a domain up in the zones.  A
packet with the prefix that is no query gets no answer.

JSON is left to a library (`DnsJson`).
-/

namespace Zona

/-- `serde_json` for queries and answers, with the texts of its errors; a query
is its domain. -/
class DnsJson where
  writeQuery : String → String
  readQuery : List UInt8 → Except String String
  writeResponse : Dns.DnsLookupResponse → String
  readResponse : String → Except String Dns.DnsLookupResponse

/-- What is written is an object, and is read back. -/
structure DnsJson.RoundTrips (json : DnsJson) : Prop where
  query : ∀ domain, json.readQuery (Utf8.encode (json.writeQuery domain)) = .ok domain
  response : ∀ found, json.readResponse (json.writeResponse found) = .ok found
  object : ∀ found, IsObject (json.writeResponse found)

namespace Dns

/-- `ZONA_DNS:` -/
def dnsPrefix : String := "ZONA_DNS:"

variable [DnsJson]

/-- The handler of the name server. -/
def dnsHandler (zones : ZoneTable) : PacketHandler :=
  prefixHandler (Utf8.encode dnsPrefix) fun packet =>
    let start := (Utf8.encode dnsPrefix).length
    if packet.payload.length < start then none
    else
      match DnsJson.readQuery (packet.payload.drop start) with
      | .error _ => none
      | .ok domain => some (Utf8.encode (DnsJson.writeResponse (lookup zones domain)))

end Dns

namespace DnsJson

open TextFormat

def queryFormat : TextFormat String :=
  after ('{' :: "\"domain\":".toList) (upTo text '}' isDigit_brace)

def nodesFormat : TextFormat (List String) :=
  list text fun _ _ => rfl

/-- The fields of an answer, in their order. -/
def responseFormat : TextFormat Dns.DnsLookupResponse :=
  map
    (after ('{' :: "\"domain\":".toList) (pair text ',' isDigit_comma
      (after "\"nodes\":".toList (upTo nodesFormat '}' isDigit_brace))))
    (fun r => ⟨r.1, r.2⟩) (fun r => (r.domain, r.nodes)) fun _ => rfl

/-- JSON as it is written, and a reader of what is written. -/
@[reducible]
def compact : DnsJson where
  writeQuery := queryFormat.toText
  readQuery bytes := queryFormat.ofText (Utf8.ofBytesLossy bytes)
  writeResponse := responseFormat.toText
  readResponse := responseFormat.ofText

/-- The JSON of an answer is an object, so the client finds it unchanged after
trimming. -/
theorem isObject_responseFormat (found : Dns.DnsLookupResponse) :
    IsObject (responseFormat.toText found) := by
  have hend := endsIn_upTo nodesFormat (c := '}') isDigit_brace
  have hfields := (hend.after "\"nodes\":".toList).pair text (d := ',') isDigit_comma
  exact isObject_after hfields _ _

/-- The compact JSON keeps both messages of the name server, so the assumptions
on the parameter can be met. -/
theorem compact_roundTrips : compact.RoundTrips := by
  refine ⟨?_, fun found => ofText_toText responseFormat found, isObject_responseFormat⟩
  intro domain
  have htext := congrArg queryFormat.ofText (Utf8.ofBytesLossy_encode (queryFormat.toText domain))
  exact htext.trans (ofText_toText queryFormat domain)

end DnsJson

end Zona
