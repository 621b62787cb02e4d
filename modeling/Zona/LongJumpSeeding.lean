import Zona.TickRenewal

/-!
# Who fills the long-jump slot

A repair tick looks up the long-jump target when the long-jump slot is empty,
so that whoever answers for it fills the slot.  The answer is integrated like
any other: each peer it names is tried for a greedy slot.  Long-jump entries
come from nowhere else either, so the slot of a node stays empty in every run
(`long_jump_never_seeded`), and the bypass of a local minimum is never taken.
-/

namespace Zona

namespace Node

variable [Crypto]

/-- The long-jump slot is empty, there is room for it, and the lookup of the
next repair tick is answered with a valid peer that is new to the node. -/
structure SeedAnswered (n : Node) (peer : NodeId) (env : Envelope) (peers : List PexCandidate) :
    Prop where
  vacant : n.table.longJumpSlot = none
  room : n.table.slots.length < PeerTable.maxTotal
  asked : ∃ sent ∈ n.repairTick.1, sent.1 = peer ∧
    sent.2.body = .findNode (longJumpTarget n.config.epochSeed n.id) 3
  admitted : n.repairTick.2.admits peer env = true
  answer : env.body = .foundNodes peers
  candidate : ∃ c ∈ peers, verifyDescriptor c.descriptor = .ok () ∧
    c.descriptor.nodeId ≠ n.id ∧ ∀ s ∈ n.table.slots, s.peerId ≠ c.descriptor.nodeId

/-- Along a whole run the table of a node gets no long-jump slot, as long as
its host uses the operations only. -/
theorem noLongJump_of_run {keypair : NodeKeypair} {config : NodeConfig} {n : Node}
    {es : List (Transition Node Call)} (run : Trace Step (Node.new keypair config) es n)
    (hcalls : ∀ e ∈ es, e.label.IsOperation) : n.table.NoLongJump := by
  refine PeerTable.noLongJump_of_reachable (table_of_run run hcalls) ?_
  intro s hs
  cases hs

/-- **The long-jump slot is never seeded.**  A node that was left to itself since
its start has none, and it has none after a repair tick and whatever envelope
answers it; user data that is stuck at it is not handed on. -/
theorem long_jump_never_seeded {keypair : NodeKeypair} {config : NodeConfig} {n : Node}
    {es : List (Transition Node Call)} (run : Trace Step (Node.new keypair config) es n)
    (hcalls : ∀ e ∈ es, e.label.IsOperation) :
    n.table.longJumpSlot = none ∧
      (∀ now peer env,
        (n.repairTick.2.handleEnvelope now peer env).node.table.longJumpSlot = none) ∧
      ∀ target, nextHop n.id target n.table = .localMinimum → n.userHop target = none := by
  have hnone := PeerTable.noLongJump_iff.mp (noLongJump_of_run run hcalls)
  refine ⟨hnone, ?_, ?_⟩
  · intro now peer env
    have htick : n.Step .repairTick n.repairTick.2 := rfl
    have hanswer : n.repairTick.2.Step (.handleEnvelope now peer env)
        (n.repairTick.2.handleEnvelope now peer env).node := rfl
    refine PeerTable.noLongJump_iff.mp (noLongJump_of_run ((run.snoc htick).snoc hanswer) ?_)
    intro e he
    rcases List.mem_append.mp he with hearlier | hlast
    · rcases List.mem_append.mp hearlier with hin | htick
      · exact hcalls e hin
      · rw [List.mem_singleton.mp htick]
        trivial
    · rw [List.mem_singleton.mp hlast]
      trivial
  · intro target hstuck
    rw [userHop, hstuck, hnone]
    rfl

end Node

/-- The eighth sample node is known, and asked for the long-jump target; it
names the ninth one. -/
theorem greeted_seed_answered : @Node.SeedAnswered checksumCrypto (greeted [8])
    (Node.sample 8).id (unsignedTo7 (.foundNodes (namesPeer 9 8))) (namesPeer 9 8) := by
  refine @Node.SeedAnswered.mk checksumCrypto _ _ _ _ ?_ ?_ ?_ ?_ rfl ?_
  · decide +kernel
  · decide +kernel
  · decide +kernel
  · decide +kernel
  · decide +kernel

/-- The answer of the eighth node seeds nothing. -/
theorem greeted_not_seeded : (greeted [8]).table.longJumpSlot = none :=
  (@Node.long_jump_never_seeded checksumCrypto _ _ _ _ (greeted_trace [8])
    (fun _ he => (greeted_upkeep he).isOperation)).1

/-- **An empty slot.**  Answers to the lookup of the long-jump target do not
fill it. -/
theorem long_jump_stays_empty :
    ¬ ∀ (es : List (Transition Node Node.Call)) (n : Node),
      Trace (@Node.Step checksumCrypto) threeSlotNode es n → (∀ e ∈ es, e.label.IsUpkeep) →
        ∀ (now : Nat) (peer : NodeId) (env : Envelope) (peers : List PexCandidate),
          @Node.SeedAnswered checksumCrypto n peer env peers →
            (@Node.handleEnvelope checksumCrypto (@Node.repairTick checksumCrypto n).2
              now peer env).node.table.longJumpSlot.isSome := by
  intro hclaim
  have hseeded := hclaim _ _ (greeted_trace [8]) (fun _ he => greeted_upkeep he) 0 _ _ _
    greeted_seed_answered
  have hnone : (@Node.handleEnvelope checksumCrypto
      (@Node.repairTick checksumCrypto (greeted [8])).2 0 (Node.sample 8).id
      (unsignedTo7 (.foundNodes (namesPeer 9 8)))).node.table.longJumpSlot = none := by
    decide +kernel
  rw [hnone] at hseeded
  cases hseeded

end Zona
