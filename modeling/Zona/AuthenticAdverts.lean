import Zona.SlotOrigins
import Zona.StoreConvergence
import Zona.UserDataRelays

/-!
# Advertised descriptors

A node speaks of its peers in the answers to lookups and in peer exchanges,
and of itself in hellos.  Its own descriptor it signs; the others it reads from
its store, for peers of a routing table that nobody has verified.

`MadeFor` is what the handlers preserve: the identifier is the one of the key
pair, and the store is authentic.  `adverts_authentic` draws the conclusion for
every message: each descriptor in it passes the check of its receiver.
-/

namespace Zona

/-- The descriptors in a message. -/
def MessageKind.descriptors : MessageKind → List Descriptor
  | .hello d => [d]
  | .foundNodes peers => peers.map PexCandidate.descriptor
  | .pex candidates => candidates.map PexCandidate.descriptor
  | .announceDescriptor d => [d]
  | _ => []

/-- The descriptors of a store are those that a lookup under some identifier
finds. -/
theorem DescriptorStore.mem_allDescriptors {s : DescriptorStore} {d : Descriptor} :
    d ∈ s.allDescriptors ↔ ∃ id c, s.get id = some c ∧ c.descriptor = d := by
  rw [allDescriptors, List.mem_map]
  constructor
  · rintro ⟨c, hc, hd⟩
    obtain ⟨id, hget⟩ := HashMap.mem_values.mp hc
    exact ⟨id, c, hget, hd⟩
  · rintro ⟨id, c, hget, hd⟩
    exact ⟨c, HashMap.mem_values.mpr ⟨id, hget⟩, hd⟩

/-- The descriptor that is found for a peer is one of the list and carries the
identifier of the peer. -/
theorem descriptorOf_eq_some {descriptors : List Descriptor} {peer : NodeId} {d : Descriptor}
    (h : descriptorOf descriptors peer = some d) : d ∈ descriptors ∧ d.nodeId = peer := by
  unfold descriptorOf at h
  exact ⟨List.mem_of_find?_eq_some h, by simpa using List.find?_some h⟩

/-- The candidates that stand for some peers carry descriptors of the list that
they are looked up in, each under the identifier of its peer. -/
theorem candidate_of_lookup {α : Type} {peerOf : α → NodeId} {descriptors : List Descriptor}
    {referrer : NodeId} {xs : List α} {c : PexCandidate}
    (hc : c ∈ xs.filterMap fun x =>
      (descriptorOf descriptors (peerOf x)).map fun d => ⟨d, referrer⟩) :
    c.descriptor ∈ descriptors ∧ ∃ x ∈ xs, c.descriptor.nodeId = peerOf x := by
  obtain ⟨x, hx, hmap⟩ := List.mem_filterMap.mp hc
  obtain ⟨d, hfind, rfl⟩ := Option.map_eq_some_iff.mp hmap
  obtain ⟨hd, hid⟩ := descriptorOf_eq_some hfind
  exact ⟨hd, x, hx, hid⟩

variable [Crypto]

/-- What an authentic store has descriptors of passes verification. -/
theorem DescriptorStore.Authentic.verifies {s : DescriptorStore} (h : s.Authentic)
    {d : Descriptor} (hd : d ∈ s.allDescriptors) : verifyDescriptor d = .ok () := by
  obtain ⟨id, c, hget, rfl⟩ := mem_allDescriptors.mp hd
  exact (h id c hget).2

namespace Node

/-- A node as it is made for an identifier: the keys hash to it, and what it
holds of others has verified. -/
structure MadeFor (id : NodeId) (n : Node) : Prop where
  identity : n.id = id
  keys : ∃ seed, n.keypair = NodeKeypair.fromSeed seed ∧
    deriveNodeId (Crypto.verifyingKey seed) = id
  store : n.store.Authentic

/-- A new node is made for the identifier of its keys, so it can sign
descriptors of its own. -/
theorem madeFor_new (seed : Bytes 32) (config : NodeConfig) :
    (Node.new (NodeKeypair.fromSeed seed) config).MadeFor (NodeKeypair.fromSeed seed).nodeId :=
  ⟨rfl, ⟨seed, rfl, rfl⟩, DescriptorStore.authentic_new⟩

/-- A call keeps the identifier and the keys of a node.  Hosts that overwrite
fields are left out by the hypothesis. -/
theorem madeFor_step {id : NodeId} {n m : Node} {call : Call} (hstep : n.Step call m)
    (hcall : call.IsOperation) (h : n.MadeFor id) : m.MadeFor id := by
  obtain ⟨hid, hkeypair, _⟩ := identity_step hstep
  refine ⟨hid.trans h.identity, ?_, (store_improves_step hstep hcall).2 h.store⟩
  rw [hkeypair]
  exact h.keys

/-- An envelope keeps the identifier and the keys of a node. -/
theorem madeFor_handleEnvelope {id : NodeId} {n : Node} (h : n.MadeFor id) (now : Nat)
    (peer : NodeId) (env : Envelope) : (n.handleEnvelope now peer env).node.MadeFor id := by
  have hstep : n.Step (.handleEnvelope now peer env) (n.handleEnvelope now peer env).node := rfl
  exact madeFor_step hstep trivial h

/-- Along a whole run a node keeps the identifier and the keys that it was made
with. -/
theorem madeFor_of_trace {seed : Bytes 32} {config : NodeConfig} {n : Node}
    {es : List (Transition Node Call)}
    (run : Trace Step (Node.new (NodeKeypair.fromSeed seed) config) es n)
    (hcalls : ∀ e ∈ es, e.label.IsOperation) : n.MadeFor (NodeKeypair.fromSeed seed).nodeId :=
  @Trace.invariant_of_all _ _ Step _ n es (MadeFor (NodeKeypair.fromSeed seed).nodeId)
    (fun e => e.label.IsOperation) (fun _ he h hcall => madeFor_step he hcall h) run
    (madeFor_new seed config) hcalls

variable {id : NodeId} {n : Node}

/-- The node's own descriptor verifies, whatever it says about reaching it. -/
theorem MadeFor.ownDescriptor_verifies (h : n.MadeFor id) (hsound : Crypto.Sound ‹Crypto›)
    (reach : ReachList) : verifyDescriptor (n.ownDescriptor reach) = .ok () := by
  obtain ⟨seed, hkeypair, hkey⟩ := h.keys
  rw [ownDescriptor, hkeypair]
  refine verifyDescriptor_ok.mpr ⟨hkey.trans h.identity.symm, ?_⟩
  exact signatureValid_sign hsound seed _

/-- Every descriptor in the messages passes the check of its receiver. -/
def Verified (out : Outbox) : Prop :=
  ∀ sent ∈ out, ∀ d ∈ sent.2.body.descriptors, verifyDescriptor d = .ok ()

theorem verified_nil : Verified [] := by
  intro sent hsent
  cases hsent

/-- Messages without descriptors are verified, as there is nothing in them to
check. -/
theorem verified_of_silent {out : Outbox} (h : ∀ sent ∈ out, sent.2.body.descriptors = []) :
    Verified out := by
  intro sent hsent d hd
  rw [h sent hsent] at hd
  cases hd

/-- A reply is verified if the descriptors in its body are, since it sends that
body and nothing else. -/
theorem verified_reply {body : MessageKind}
    (h : ∀ d ∈ body.descriptors, verifyDescriptor d = .ok ()) (n : Node) (peer : NodeId) :
    Verified (n.reply peer body).out := by
  intro sent hsent
  rw [List.mem_singleton.mp hsent]
  exact h

/-- A user envelope is forwarded as user data, beside lookups. -/
theorem verified_forwardUserData (n : Node) {env : Envelope} {payload : List UInt8}
    (hbody : env.body = .userData payload) : Verified (n.forwardUserData env).1 := by
  have hcopy : ∀ hop, ∀ sent ∈ (n.sendUserHop env hop).1, sent.2.body.descriptors = [] := by
    intro hop sent hsent
    obtain ⟨_, rfl, hrelayed⟩ := mem_sendUserHop.mp hsent
    rw [hrelayed, relayedCopy, signEnvelope, hbody]
    rfl
  obtain ⟨repairs, counter, hrepairs, hforward⟩ := forwardUserData_spec n env
  have hlookups : ∀ sent ∈ repairs, sent.2.body.descriptors = [] := by
    intro sent hsent
    rw [hrepairs sent hsent]
    rfl
  refine verified_of_silent ?_
  rw [hforward]
  cases n.userHop env.toId with
  | some hop =>
      intro sent hsent
      rcases List.mem_append.mp hsent with hmem | hmem
      · exact hcopy hop sent hmem
      · exact hlookups sent hmem
  | none => exact hlookups

/-- User data is forwarded as it came, and what is sent to repair a route
carries no descriptors. -/
theorem verified_handleUserData (n : Node) {env : Envelope} {payload : List UInt8}
    (hbody : env.body = .userData payload) : Verified (n.handleUserData env payload).out := by
  by_cases hdest : env.toId = n.id
  · by_cases hclass : env.messageClass = .criticalUser
    · rw [handleUserData_critical hdest hclass]
      exact verified_nil
    · rw [handleUserData_normal hdest hclass]
      exact verified_nil
  · rw [handleUserData_forward hdest]
    exact n.verified_forwardUserData hbody

/-- The answer to a hello is the own descriptor, of the node after it has filed
the one it was given. -/
theorem MadeFor.handleHello_verified (h : n.MadeFor id) (hsound : Crypto.Sound ‹Crypto›)
    (peer : NodeId) (d : Descriptor) : Verified (n.handleHello peer d).out := by
  have hown : ∀ m : Node, m.MadeFor id →
      Verified (m.reply peer (.hello (m.ownDescriptor []))).out := by
    intro m hm
    refine verified_reply ?_ m peer
    intro e he
    rw [List.mem_singleton.mp he]
    exact hm.ownDescriptor_verifies hsound []
  have hstore : (n.store.upsert d none).2.Authentic :=
    DescriptorStore.authentic_upsert h.store d none
  unfold handleHello
  rcases hupsert : n.store.upsert d none with ⟨verdict, store⟩
  rw [hupsert] at hstore
  cases verdict with
  | ok updated => exact hown _ ⟨h.identity, h.keys, hstore⟩
  | error e => exact hown _ ⟨h.identity, h.keys, hstore⟩

/-- The answer to a lookup is verified: its descriptors come from the store,
which holds verified ones only. -/
theorem MadeFor.handleFindNode_verified (h : n.MadeFor id) (now : Nat)
    (peer target : NodeId) (count : UInt8) :
    Verified (n.handleFindNode now peer target count).out := by
  obtain ⟨find, checked, hchecked, hdropped | hanswered⟩ :=
    handleFindNode_cases n now peer target count
  · rw [hdropped]
    exact verified_nil
  · rw [hanswered]
    refine verified_reply ?_ checked peer
    intro d hd
    obtain ⟨c, hc, rfl⟩ := List.mem_map.mp hd
    have hmem : c.descriptor ∈ checked.store.allDescriptors := (candidate_of_lookup hc).1
    rw [hchecked] at hmem
    exact h.store.verifies hmem

/-- **What a node answers** is verified, whatever it received: its descriptors
are its own or come from its store. -/
theorem MadeFor.handleEnvelope_verified (h : n.MadeFor id)
    (hsound : Crypto.Sound ‹Crypto›) (now : Nat) (peer : NodeId) (env : Envelope) :
    Verified (n.handleEnvelope now peer env).out := by
  cases hadmits : n.admits peer env with
  | false =>
      rw [handleEnvelope_refused hadmits]
      exact verified_nil
  | true =>
      rw [handleEnvelope_admitted hadmits]
      unfold dispatch
      cases hbody : env.body with
      | hello d => exact h.handleHello_verified hsound peer d
      | ping nonce =>
          refine verified_reply ?_ n peer
          intro d hd
          cases hd
      | findNode target count => exact h.handleFindNode_verified now peer target count
      | userData payload => exact n.verified_handleUserData hbody
      | _ => exact verified_nil

/-- A peer exchange built from the store is verified, whatever the table. -/
theorem MadeFor.buildResponse_verified (h : n.MadeFor id) (table : PeerTable) :
    ∀ c ∈ n.pex.buildResponse table n.store.allDescriptors,
      verifyDescriptor c.descriptor = .ok () := by
  intro c hc
  exact h.store.verifies (candidate_of_lookup hc).1

/-- **Advertised descriptors are authentic.**  In every run of a node from its
start, every entry of the store is filed under its own identifier, which is the
hash of its public key, and its signature verifies.  Hence every descriptor in
an answer of the node, in a peer exchange from its store and in a hello of its
own verifies at the receiver. -/
theorem adverts_authentic (hsound : Crypto.Sound ‹Crypto›) {seed : Bytes 32} {config : NodeConfig}
    {n : Node} {es : List (Transition Node Call)}
    (run : Trace Step (Node.new (NodeKeypair.fromSeed seed) config) es n)
    (hcalls : ∀ e ∈ es, e.label.IsOperation) :
    (∀ id c, n.store.get id = some c → c.descriptor.nodeId = id ∧
      deriveNodeId c.descriptor.pubkey = id ∧
        signatureValid c.descriptor.pubkey c.descriptor.signingPayload
          c.descriptor.signature = true) ∧
      (∀ now peer env, Verified (n.handleEnvelope now peer env).out) ∧
        (∀ table, ∀ c ∈ n.pex.buildResponse table n.store.allDescriptors,
          verifyDescriptor c.descriptor = .ok ()) ∧
          ∀ reach, verifyDescriptor (n.ownDescriptor reach) = .ok () := by
  have hmade := madeFor_of_trace run hcalls
  refine ⟨?_, hmade.handleEnvelope_verified hsound, hmade.buildResponse_verified,
    hmade.ownDescriptor_verifies hsound⟩
  intro id c hget
  obtain ⟨hid, hverify⟩ := hmade.store id c hget
  obtain ⟨hkey, hvalid⟩ := verifyDescriptor_ok.mp hverify
  exact ⟨hid, hkey.trans hid, hvalid⟩

end Node

/-- A node that has heard one hello. -/
def greetedBy8 : Node :=
  (@Node.handleEnvelope checksumCrypto (Node.sample 7) 0 (Node.sample 8).id
    (unsignedTo7 (.hello (sampleDescriptor 8 1)))).node

/-- Its answer to a lookup. -/
def answerTo9 : Handled :=
  @Node.handleEnvelope checksumCrypto greetedBy8 1 (Node.sample 9).id
    (unsignedTo7 (.findNode (Node.sample 8).id 3))

omit [Crypto] in
/-- The answer names the sender of the hello, with a descriptor that
verifies. -/
theorem hello_advertised :
    answerTo9.out.map (fun sent => sent.2.body.descriptors) = [[sampleDescriptor 8 1]] ∧
      @Node.Verified checksumCrypto answerTo9.out :=
  ⟨by decide +kernel,
    (@Node.adverts_authentic checksumCrypto checksumCrypto_sound _ _ _ _
      (oneEnvelopeRun_trace (.hello (sampleDescriptor 8 1)))
      (oneEnvelopeRun_operations _)).2.1 1 (Node.sample 9).id
        (unsignedTo7 (.findNode (Node.sample 8).id 3))⟩

end Zona
