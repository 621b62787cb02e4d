import Zona.SlotOrigins
import Zona.StoreConvergence

/-!
# Slots and the descriptors behind them

A slot should only name a peer that the node holds a descriptor of, and every
descriptor it holds has verified.  Nothing in the handlers sees to it: a found
peer is tried whatever the store made of its descriptor, a hello is filed under
its sender although the descriptor may be another's, and the candidates of an
exchange never reach the store.

`slots_proven` says what it takes: in every run in which each peer that is
tried is held already or comes with a descriptor that verifies, every slot is
proven.
-/

namespace Zona

namespace Node

variable [Crypto]

/-- Every slot names a peer whose descriptor is held. -/
def SlotsHeld (n : Node) : Prop :=
  ∀ s ∈ n.table.slots, (n.store.get s.peerId).isSome

/-- Each peer that a call makes the node try is held already, or the message
carries a descriptor of it that verifies. -/
def OffersProven (n : Node) : Call → Prop
  | .handleEnvelope _ peer env =>
      ∀ o ∈ n.offers peer env, (n.store.get o.peerId).isSome ∨
        ∃ d ∈ env.body.carried, d.nodeId = o.peerId ∧ verifyDescriptor d = .ok ()
  | _ => True

/-- What a node has to show for a peer: a descriptor under the hash of its
public key, with a signature of that key. -/
def Proven (n : Node) (peer : NodeId) : Prop :=
  ∃ c, n.store.get peer = some c ∧ c.descriptor.nodeId = peer ∧
    deriveNodeId c.descriptor.pubkey = peer ∧
      signatureValid c.descriptor.pubkey c.descriptor.signingPayload
        c.descriptor.signature = true

/-- **A call that tries proven peers keeps the slots proven.**  Other calls
make no slots, and none of them forgets a descriptor. -/
theorem slotsHeld_step {n m : Node} {call : Call} (hstep : n.Step call m)
    (hcall : call.IsOperation) (hproven : n.OffersProven call) (h : n.SlotsHeld) :
    m.SlotsHeld := by
  intro s hs
  have himproves := (store_improves_step hstep hcall).1
  rcases slot_origin_step hstep hcall hs with ⟨s', hs', hpeer⟩ | ⟨o, ho, hpeer⟩
  · rw [← hpeer]
    exact himproves.isSome (h s' hs')
  · rw [← hpeer]
    cases call with
    | handleEnvelope now peer env =>
        rcases hproven o ho with hheld | ⟨d, hd, hid, hverify⟩
        · exact himproves.isSome hheld
        · subst hstep
          rw [← hid]
          have hfiles := handleEnvelope_files n now peer env
          rw [if_pos (admits_of_offer ho)] at hfiles
          exact hfiles.filed d hd hverify
    | _ => cases ho

/-- The store of a node is authentic in every run from its start. -/
theorem authentic_of_run {keypair : NodeKeypair} {config : NodeConfig} {n : Node}
    {es : List (Transition Node Call)} (run : Trace Step (Node.new keypair config) es n)
    (hcalls : ∀ e ∈ es, e.label.IsOperation) : n.store.Authentic :=
  @Trace.invariant_of_all _ _ Step _ n es (fun m : Node => m.store.Authentic)
    (fun e => e.label.IsOperation)
    (fun _ he h hcall => (store_improves_step he hcall).2 h)
    run DescriptorStore.authentic_new hcalls

/-- **Slots of proven peers.**  In every run of a node from its start in which
each peer it tries is held or proven by the message, every slot names a peer
that the node has a verified descriptor of. -/
theorem slots_proven {keypair : NodeKeypair} {config : NodeConfig} {n : Node}
    {es : List (Transition Node Call)} (run : Trace Step (Node.new keypair config) es n)
    (hcalls : ∀ e ∈ es, e.label.IsOperation)
    (hproven : ∀ e ∈ es, e.before.OffersProven e.label) :
    ∀ s ∈ n.table.slots, n.Proven s.peerId := by
  have hstart : (Node.new keypair config).SlotsHeld := by
    intro s hs
    cases hs
  have hheld : n.SlotsHeld :=
    @Trace.invariant_of_all _ _ Step _ n es SlotsHeld
      (fun e => e.label.IsOperation ∧ e.before.OffersProven e.label)
      (fun _ he h hgood => slotsHeld_step he hgood.1 hgood.2 h)
      run hstart (fun e he => ⟨hcalls e he, hproven e he⟩)
  have hauthentic : n.store.Authentic := authentic_of_run run hcalls
  intro s hs
  obtain ⟨c, hget⟩ := Option.isSome_iff_exists.mp (hheld s hs)
  obtain ⟨hid, hverify⟩ := hauthentic s.peerId c hget
  obtain ⟨hkey, hvalid⟩ := verifyDescriptor_ok.mp hverify
  exact ⟨c, hget, hid, hkey.trans hid, hvalid⟩

end Node

/-- A hello that carries the sender's own descriptor earns a proven slot. -/
theorem hello_slot_proven :
    @Node.Proven checksumCrypto
      (@Node.handleEnvelope checksumCrypto (Node.sample 7) 0 (Node.sample 8).id
        (unsignedTo7 (.hello (sampleDescriptor 8 1)))).node (Node.sample 8).id :=
  @Node.slots_proven checksumCrypto _ _ _ _
    (oneEnvelopeRun_trace (.hello (sampleDescriptor 8 1)))
    (oneEnvelopeRun_operations _)
    (by
      intro e he
      rw [List.mem_singleton.mp he]
      intro o ho
      refine Or.inr ⟨sampleDescriptor 8 1, List.mem_singleton.mpr rfl, ?_⟩
      have hoffers : @Node.offers checksumCrypto (Node.sample 7) (Node.sample 8).id
          (unsignedTo7 (.hello (sampleDescriptor 8 1))) =
            [⟨(Node.sample 8).id, (Node.sample 8).id⟩] := by
        decide +kernel
      rw [hoffers] at ho
      rw [List.mem_singleton.mp ho]
      decide +kernel)
    (SlotEntry.new .greedy (Node.sample 8).id (Node.sample 8).id)
    (by decide +kernel)

/-- A descriptor that nobody signed. -/
def unsignedDescriptor (k : UInt8) : Descriptor :=
  { sampleDescriptor k 1 with signature := [] }

/-- **Slots without descriptors.**  A fresh node that is sent one lookup answer
with an unsigned descriptor has a slot for a peer it holds no descriptor of. -/
theorem slot_without_descriptor :
    ¬ (∀ (es : List (Transition Node Node.Call)) (n : Node),
        Trace (@Node.Step checksumCrypto) (Node.sample 7) es n →
          (∀ e ∈ es, e.label.IsOperation) →
            ∀ s ∈ n.table.slots, @Node.Proven checksumCrypto n s.peerId) := by
  intro hclaim
  have hproven := hclaim _ _
    (oneEnvelopeRun_trace (.foundNodes [⟨unsignedDescriptor 9, (Node.sample 8).id⟩]))
    (oneEnvelopeRun_operations _)
    (SlotEntry.new .greedy (Node.sample 9).id (Node.sample 8).id)
    (by decide +kernel)
  obtain ⟨c, hget, _⟩ := hproven
  have hnone : (@Node.handleEnvelope checksumCrypto (Node.sample 7) 0 (Node.sample 8).id
      (unsignedTo7 (.foundNodes [⟨unsignedDescriptor 9, (Node.sample 8).id⟩]))).node.store.get
        (Node.sample 9).id = none := by
    decide +kernel
  rw [show (SlotEntry.new .greedy (Node.sample 9).id (Node.sample 8).id).peerId =
    (Node.sample 9).id from rfl, hnone] at hget
  cases hget

end Zona
