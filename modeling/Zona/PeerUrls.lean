import Zona.Introductions
import Zona.RelayAgreement

/-!
# Every peer has a URL

The table and the URLs of a node are kept apart: a slot may be replaced, and a
URL overwritten.  Both grow in one place only, where the URL is entered first
and whatever happens to the slot.  So the peers of the table stay among the
peers with a URL (`Contacts.Known`), and what a node answers when the URL of its
next hop is missing is never answered (`peers_have_urls`).
-/

namespace Zona

namespace Contacts

/-- Every peer of the table has a URL. -/
def Known (c : Contacts) : Prop :=
  ∀ s ∈ c.node.table.slots, s.peerId ∈ c.peerUrls

/-- New contacts have no slots, so every peer in the table has a URL. -/
theorem known_new (keypair : NodeKeypair) : Known ⟨Node.new keypair ⟨5, 0⟩, ∅⟩ := by
  intro s hs
  cases hs

/-- Entering a peer gives it a slot and a URL together.  A slot that it
displaces leaves its URL behind, which does no harm. -/
theorem Known.enter {c : Contacts} (h : c.Known) (nid : NodeId) (url : String) :
    (c.enter nid url).Known := by
  intro s hs
  rcases PeerTable.mem_tryInsert hs with hold | rfl
  · exact HashMap.mem_put.mpr (Or.inr (h s hold))
  · exact HashMap.mem_put.mpr (Or.inl rfl)

/-- Registering a peer under a text that is no identifier does nothing;
otherwise it enters the peer. -/
theorem Known.register {c : Contacts} (h : c.Known) (nodeId url : String) :
    (c.register nodeId url).Known := by
  unfold Contacts.register
  cases NodeId.parse nodeId with
  | none => exact h
  | some nid => exact h.enter nid url

/-- **One call.**  Whatever peers it names, the peers of the table keep their
URLs, as a slot is only made together with an entry. -/
theorem Known.perform {c : Contacts} (h : c.Known) (call : ContactCall) :
    (c.perform call).Known := by
  rw [perform_eq_foldl]
  induction named call generalizing c with
  | nil => exact h
  | cons entry rest ih => exact ih (h.register entry.1 entry.2)

/-- **All calls**, at whatever holds the contacts of a fresh node: a server, an
admin node, or the node of a bootstrap. -/
theorem known_of_run {σ : Type} {step : σ → ContactCall → σ → Prop} (contacts : σ → Contacts)
    (hstep : ∀ st call st', step st call st' → (contacts st).Step call (contacts st'))
    {keypair : NodeKeypair} {st st' : σ} {es : List (Transition σ ContactCall)}
    (hstart : contacts st = ⟨Node.new keypair ⟨5, 0⟩, ∅⟩) (run : Trace step st es st') :
    (contacts st').Known := by
  have hpreserved : ∀ t call u, step t call u → (contacts t).Known → (contacts u).Known := by
    intro t call u h hknown
    rw [show contacts u = (contacts t).perform call from hstep t call u h]
    exact hknown.perform call
  have hknown : (contacts st).Known := by
    rw [hstart]
    exact known_new keypair
  exact @Trace.invariant σ ContactCall step st st' es (fun t => (contacts t).Known) hpreserved
    run hknown

/-- The next hop towards a target has a URL. -/
theorem Known.nextHop {c : Contacts} (h : c.Known) {target nid : NodeId}
    (hhop : nextHop c.node.id target c.node.table = .forward nid) :
    ∃ url, c.peerUrls.lookup nid = some url := by
  obtain ⟨⟨s, hs, rfl⟩, _⟩ := nextHop_forward hhop
  have hslot := h s (List.mem_of_mem_filter hs)
  exact Option.isSome_iff_exists.mp (AList.lookup_isSome.mpr hslot)

/-- A lookup-only introduction changes nothing, as the caller is not
registered. -/
theorem introduce_lookupOnly (c : Contacts) {req : IntroduceRequest}
    (h : req.registerPeer = false) : (c.introduce req).2 = c := by
  unfold introduce
  rw [h]
  rfl

end Contacts

/-- At a server every next hop has a URL, so that no request is refused for want
of one and no call ends for want of one; a lookup-only introduction leaves the
server as it is. -/
structure ServerState.PeersHaveUrls (st : ServerState) : Prop where
  known : ∀ s ∈ st.node.table.slots, s.peerId ∈ st.peerUrls
  forward : ∀ target nid, nextHop st.node.id target st.node.table = .forward nid →
    ∃ url, st.peerUrls.lookup nid = some url
  route : ∀ toId path error, st.decision toId path ≠ .noRoute error
  firstHop : ∀ toId nid, nextHop st.node.id toId st.node.table = .forward nid →
    Process.firstHopUrl st toId ≠ none
  lookupOnly : ∀ req, req.registerPeer = false → (st.httpIntroduce req).2 = st

/-- The same for a plain node. -/
structure AdminState.PeersHaveUrls (st : AdminState) : Prop where
  known : ∀ s ∈ st.node.table.slots, s.peerId ∈ st.peerUrls
  forward : ∀ target nid, nextHop st.node.id target st.node.table = .forward nid →
    ∃ url, st.peerUrls.lookup nid = some url
  route : ∀ toId path nid, st.decision toId path ≠ some (.forward nid none)
  lookupOnly : ∀ req, req.registerPeer = false → (st.handleIntroduce req).2 = st

/-- A server whose contacts are known has a URL for every hop that it may
select. -/
theorem ServerState.peersHaveUrls_of_known {st : ServerState} (h : st.contacts.Known) :
    st.PeersHaveUrls := by
  have hforward : ∀ target nid, nextHop st.node.id target st.node.table = .forward nid →
      ∃ url, st.peerUrls.lookup nid = some url :=
    fun target nid hhop => h.nextHop hhop
  refine ⟨h, hforward, ?_, ?_, ?_⟩
  · intro toId path error
    unfold decision
    by_cases hself : st.node.id = toId
    · rw [if_pos hself]
      exact fun heq => nomatch heq
    · rw [if_neg hself]
      cases hhop : Zona.nextHop st.node.id toId st.node.table with
      | forward nid =>
          obtain ⟨url, hurl⟩ := hforward toId nid hhop
          dsimp only
          rw [hurl]
          exact fun heq => nomatch heq
      | deliver => exact fun heq => nomatch heq
      | localMinimum => exact fun heq => nomatch heq
  · intro toId nid hhop
    obtain ⟨url, hurl⟩ := hforward toId nid hhop
    rw [Process.firstHopUrl, hhop]
    dsimp only
    rw [hurl]
    exact fun heq => nomatch heq
  · intro req hlookup
    rw [httpIntroduce, Contacts.introduce_lookupOnly st.contacts hlookup]
    rfl

/-- An admin node whose contacts are known has a URL for every hop that it may
select. -/
theorem AdminState.peersHaveUrls_of_known {st : AdminState} (h : st.contacts.Known) :
    st.PeersHaveUrls := by
  have hforward : ∀ target nid, nextHop st.node.id target st.node.table = .forward nid →
      ∃ url, st.peerUrls.lookup nid = some url :=
    fun target nid hhop => h.nextHop hhop
  refine ⟨h, hforward, ?_, ?_⟩
  · intro toId path nid
    unfold decision
    by_cases hself : st.node.id = toId
    · rw [if_pos hself]
      exact fun heq => nomatch heq
    · rw [if_neg hself]
      cases hhop : Zona.nextHop st.node.id toId st.node.table with
      | forward nid' =>
          obtain ⟨url, hurl⟩ := hforward toId nid' hhop
          dsimp only
          rw [hurl]
          intro heq
          injection Option.some.inj heq with _ hnone
          cases hnone
      | deliver => exact fun heq => nomatch heq
      | localMinimum => exact fun heq => nomatch heq
  · intro req hlookup
    rw [handleIntroduce, Contacts.introduce_lookupOnly st.contacts hlookup]
    rfl

/-- **Every peer has a URL**, at a server and at a plain node that have been
introduced to others any number of times. -/
theorem peers_have_urls :
    (∀ selfUrl keypair st,
      Reachable ServerState.ContactStep (ServerState.new selfUrl keypair) st →
        st.PeersHaveUrls) ∧
    ∀ selfUrl keypair st,
      Reachable AdminState.ContactStep (AdminState.new selfUrl keypair) st →
        st.PeersHaveUrls := by
  constructor
  · rintro selfUrl keypair st ⟨es, run⟩
    exact ServerState.peersHaveUrls_of_known
      (Contacts.known_of_run ServerState.contacts
        (fun _ _ _ => ServerState.contactStep_contacts)
        (ServerState.contacts_new selfUrl keypair) run)
  · rintro selfUrl keypair st ⟨es, run⟩
    exact AdminState.peersHaveUrls_of_known
      (Contacts.known_of_run AdminState.contacts
        (fun _ _ _ => AdminState.contactStep_contacts)
        (AdminState.contacts_new selfUrl keypair) run)

/-- A server after a lookup-only introduction and one that registers the caller. -/
def introducedServer : ServerState :=
  let keypair := @NodeKeypair.fromSeed checksumCrypto (Bytes.replicate 32 9)
  let looked := (ServerState.new "http://me" keypair).httpIntroduce
    ⟨NodeId.zero.hex, "http://curl", false⟩
  (looked.2.httpIntroduce ⟨NodeId.zero.hex, "http://peer", true⟩).2

/-- Its one peer is known by its URL. -/
theorem introduced_peer_has_url :
    introducedServer.node.table.slots.map SlotEntry.peerId = [NodeId.zero] ∧
      introducedServer.PeersHaveUrls :=
  ⟨by decide +kernel,
    peers_have_urls.1 "http://me" (@NodeKeypair.fromSeed checksumCrypto (Bytes.replicate 32 9))
      introducedServer
      ((Reachable.single (i := .introduce ⟨NodeId.zero.hex, "http://curl", false⟩) rfl).trans
        (Reachable.single (i := .introduce ⟨NodeId.zero.hex, "http://peer", true⟩) rfl))⟩

end Zona
