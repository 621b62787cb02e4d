import Zona.ProxiedFetches

/-!
# Looking a name up through the overlay

What the client makes of the reply of a name server is what the zones of that
server say: `dnsLookupDomain_faithful` says so for every network.  The identifiers in
loaded zones are ones that the client accepts (`validate_of_loaded`).
-/

namespace Zona

namespace Curl

/-- The servers of the network that have this identifier are name servers with
these zones. -/
def NameServerAt [DnsJson] {κ : Type} (net : RelayNetwork κ) (node : String)
    (zones : Dns.ZoneTable) : Prop :=
  ∀ d st, net.nodes d = .server st → NodeId.parse node = some st.node.id →
    st.handlers = [Dns.dnsHandler zones]

section Names

variable [UnicodeText] [DnsJson]

/-- The ways for the overlay to fail a lookup. -/
inductive LookupFailure : String → Prop
  | unreachable : LookupFailure "all peers failed to relay the request"
  | undelivered (path : List String) (error : String) :
      LookupFailure ("DNS relay not delivered: " ++ debugPath path ++ " " ++ error)
  | unanswered : LookupFailure "DNS returned empty response"

omit [UnicodeText] in
/-- **The answer of a name server** to the request of a client is what a lookup
in its zones finds, in JSON. -/
theorem answer_nameServer (hjson : DnsJson.RoundTrips ‹DnsJson›) {st : ServerState}
    {zones : Dns.ZoneTable} (hhandlers : st.handlers = [Dns.dnsHandler zones])
    (node domain selfId : String) :
    (RelayNode.server st).answer
        (relayRequest node (Dns.dnsPrefix ++ DnsJson.writeQuery domain) selfId) =
      some (DnsJson.writeResponse (Dns.lookup zones domain)) := by
  have hpayload := utf8_encode_append Dns.dnsPrefix (DnsJson.writeQuery domain)
  have haccepts : (Dns.dnsHandler zones).accepts
      (Utf8.encode (Dns.dnsPrefix ++ DnsJson.writeQuery domain)) = true := by
    rw [hpayload]
    exact List.isPrefixOf_iff_prefix.mpr (List.prefix_append _ _)
  have hfor : handlerFor st.handlers
      (Utf8.encode (Dns.dnsPrefix ++ DnsJson.writeQuery domain)) = some (Dns.dnsHandler zones) := by
    rw [hhandlers, handlerFor]
    exact List.find?_cons_of_pos haccepts
  dsimp only [RelayNode.answer, relayRequest, answerOf]
  rw [hfor, Option.bind_some, hpayload]
  dsimp only [Dns.dnsHandler, prefixHandler]
  rw [if_neg (by rw [List.length_append]; omega), List.drop_left, hjson.query, Option.map_some,
    Utf8.ofBytesLossy_encode]

/-- **A lookup is faithful.**  It ends in a failure of the overlay, or with what
the zones say. -/
theorem dnsLookupDomain_faithful (hjson : DnsJson.RoundTrips ‹DnsJson›) {κ : Type}
    {net : RelayNetwork κ} {dnsNode : String} {zones : Dns.ZoneTable}
    (hnames : NameServerAt net dnsNode zones)
    (hexError : String → String) (chances : Nat → List String → Chance) (depth : Nat)
    (peers : List (String × String)) (domain selfId : String) (posts : List Post) :
    (∃ e, LookupFailure e ∧ (dnsLookupDomain (net.relayer hexError chances depth) peers dnsNode
        domain selfId posts).1 = .error e) ∨
      (dnsLookupDomain (net.relayer hexError chances depth) peers dnsNode domain selfId posts).1 =
        .ok (Dns.lookup zones domain) := by
  unfold dnsLookupDomain
  dsimp only
  generalize hreq : relayRequest dnsNode (Dns.dnsPrefix ++ DnsJson.writeQuery domain) selfId = req
  have hguest : req.IsGuest := by
    rw [← hreq]
    exact relayRequest_isGuest _ _ _
  cases hsync : relaySync (net.relayer hexError chances depth) req peers posts with
  | mk result posts' =>
      cases result with
      | error e =>
          rw [relaySync_error hsync]
          exact Or.inl ⟨_, .unreachable, rfl⟩
      | ok response =>
          obtain ⟨d, hreplied⟩ := relaySync_replied hguest hsync
          dsimp only
          cases hreplied with
          | refused path error => exact Or.inl ⟨_, .undelivered path error, rfl⟩
          | @delivered path hdest =>
              cases hnode : net.nodes d with
              | admin st => exact Or.inl ⟨_, .unanswered, rfl⟩
              | server st =>
                  rw [hnode, ← hreq] at hdest
                  have hhandlers := hnames d st hnode hdest
                  rw [← hreq, answer_nameServer hjson hhandlers, dnsAnswer, if_pos rfl]
                  dsimp only
                  rw [trim_object (hjson.object _), hjson.response]
                  exact Or.inr rfl

end Names

theorem isSome_value?_toLower {c : Char} (h : (Hex.value? c).isSome = true) :
    (Hex.value? c.toLower).isSome = true := by
  have hall : ∀ n < 128, (Hex.value? (Char.ofNat n)).isSome = true →
      (Hex.value? (Char.ofNat n).toLower).isSome = true := by
    decide
  have hascii : c.toNat ≤ 127 := Char.utf8Size_eq_one_iff.mp (Dns.utf8Size_of_value? h)
  have hlower := hall c.toNat (by omega)
  rw [Char.ofNat_toNat] at hlower
  exact hlower h

/-- **What loaded zones list is accepted** as a NodeId, because loading keeps
identifiers of 64 digits only. -/
theorem validate_of_loaded {loaded : HashMap String (List String)} {domain id : String}
    (h : id ∈ (Dns.lookup (Dns.loadZones loaded) domain).nodes) :
    validateHexNodeId id = .ok () := by
  have hlisted : ∃ v, Dns.Listed v id := by
    rcases Dns.nodes_lookup loaded domain with ⟨_, hnone⟩ | ⟨k, v, _, _, hnodes⟩
    · rw [hnone] at h
      cases h
    · rw [hnodes] at h
      exact ⟨v, Dns.mem_zoneIds.mp h⟩
  obtain ⟨v, given, _, hhex, hid⟩ := hlisted
  have hchars : id.toList = (Text.trim given).toList.map Char.toLower := by
    rw [hid, Text.toAsciiLowercase, String.toList_ofList]
  have hlength : id.toList.length = 64 := by
    rw [hchars, List.length_map, hhex.1]
  have hdigits : ∀ c ∈ id.toList, (Hex.value? c).isSome = true := by
    intro c hc
    rw [hchars] at hc
    obtain ⟨upper, hupper, rfl⟩ := List.mem_map.mp hc
    exact isSome_value?_toLower (hhex.2 upper hupper)
  have hdecodes : (Hex.decodeChars id.toList).isSome = true :=
    Hex.decodeChars_isSome_iff.mpr ⟨by omega, hdigits⟩
  obtain ⟨bytes, hbytes⟩ := Option.isSome_iff_exists.mp hdecodes
  have hsize := Hex.length_of_decodeChars hbytes
  have hdecode : Hex.decode id = some bytes := hbytes
  rw [validateHexNodeId, hdecode]
  exact if_pos (by omega)

end Curl

end Zona
