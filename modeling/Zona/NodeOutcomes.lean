import Zona.NodeHandler

/-!
# What the operations of a node do

One statement for each operation that the others rely on, so that nothing else
unfolds the operations: what they send, what they report, and what they leave
alone.
-/

namespace Zona

namespace Node

/-- The peer that a user envelope for `target` is handed to: the greedy hop,
or at a local minimum the long-jump slot. -/
def userHop (n : Node) (target : NodeId) : Option NodeId :=
  match nextHop n.id target n.table with
  | .forward next => some next
  | .deliver => none
  | .localMinimum =>
      (n.table.longJumpSlot.filter fun l => l.peerId ≠ n.id).map SlotEntry.peerId

variable [Crypto]

/-- Signing a message uses up one message number and changes nothing else. -/
@[simp]
theorem makeSigned_snd (n : Node) (peer : NodeId) (body : MessageKind) :
    (n.makeSigned peer body).2 = { n with msgCounter := n.msgCounter + 1 } :=
  rfl

/-- Making a lookup uses up one message number and changes nothing else. -/
@[simp]
theorem makeFind_snd (n : Node) (peer target : NodeId) :
    (n.makeFind peer target).2 = { n with msgCounter := n.msgCounter + 1 } :=
  rfl

/-- **A lookup** touches the message counter only, and asks for three peers.
Where the table is empty nothing is sent. -/
theorem emitFindNodeRepair_spec (n : Node) (target : NodeId) :
    (∃ counter, (n.emitFindNodeRepair target).2 = { n with msgCounter := counter }) ∧
      ∀ sent ∈ (n.emitFindNodeRepair target).1, sent.2.body = .findNode target 3 := by
  unfold emitFindNodeRepair
  cases n.findHop target with
  | none => exact ⟨⟨n.msgCounter, rfl⟩, by simp⟩
  | some next =>
      refine ⟨⟨n.msgCounter + 1, rfl⟩, ?_⟩
      intro sent hsent
      rw [List.mem_singleton.mp hsent]
      rfl

/-- A repair tick touches the counters only, although it may send many lookups. -/
theorem repairTick_snd (n : Node) :
    ∃ counter metrics,
      n.repairTick.2 = { n with msgCounter := counter, metrics := metrics } := by
  have hfold : ∀ (targets : List NodeId) (acc : Outbox × Node), ∃ counter,
      (targets.foldl repairStep acc).2 = { acc.2 with msgCounter := counter } := by
    intro targets
    induction targets with
    | nil => exact fun acc => ⟨acc.2.msgCounter, rfl⟩
    | cons target rest ih =>
        intro acc
        obtain ⟨counter, hrest⟩ := ih (repairStep acc target)
        have hone : ∃ c, (repairStep acc target).2 = { acc.2 with msgCounter := c } := by
          unfold repairStep
          cases acc.2.findHop target with
          | none => exact ⟨acc.2.msgCounter, rfl⟩
          | some next => exact ⟨acc.2.msgCounter + 1, rfl⟩
        obtain ⟨c, hone⟩ := hone
        refine ⟨counter, ?_⟩
        rw [List.foldl_cons, hrest, hone]
  unfold repairTick
  dsimp only
  obtain ⟨counter, hrepaired⟩ :=
    hfold (repairTargets n.config.epochSeed n.id repairTargetsPerTick)
      ([], { n with metrics := { n.metrics with repairTicks := n.metrics.repairTicks + 1 } })
  split
  · exact ⟨_, _, by rw [makeFind_snd, hrepaired]⟩
  · exact ⟨counter, _, hrepaired⟩

/-- A critical message uses up one message number, forked or not, as the copies
share it. -/
theorem sendCritical_snd (n : Node) (toId : NodeId) (payload : List UInt8) :
    (n.sendCritical toId payload).2 = { n with msgCounter := n.msgCounter + 1 } := by
  unfold sendCritical
  dsimp only
  cases pickForkHops n.table with
  | some hops => rfl
  | none =>
      cases n.table.slots.head? with
      | some slot => rfl
      | none => rfl

/-- The copy of a user envelope that a node sends on. -/
def relayedCopy (n : Node) (env : Envelope) (next : NodeId) : Envelope :=
  signEnvelope { env with ttl := env.ttl - 1, toId := next } n.keypair.signing

omit [Crypto] in
/-- The time to live of a copy, zero included. -/
theorem saturating_pred_eq_zero (ttl : UInt8) :
    (if ttl = 0 then 0 else ttl - 1) = 0 ↔ ttl ≤ 1 := by
  by_cases hzero : ttl = 0
  · simp [hzero]
  · rw [if_neg hzero]
    constructor
    · intro h
      have hone : ttl = 1 := by grind
      rw [hone]
      exact UInt8.le_refl 1
    · intro h
      have hone : ttl.toNat = 1 := by
        have hle : ttl.toNat ≤ 1 := UInt8.le_iff_toNat_le.mp h
        have hne : ttl.toNat ≠ 0 := fun heq => hzero (UInt8.toNat_inj.mp heq)
        omega
      have heq : ttl = 1 := UInt8.toNat_inj.mp hone
      rw [heq]
      rfl

/-- A packet whose life ends here is counted as dropped and not sent. -/
theorem sendUserHop_of_le {n : Node} {env : Envelope} {next : NodeId} (h : env.ttl ≤ 1) :
    n.sendUserHop env next = ([], n.countDropped) := by
  rw [sendUserHop, if_pos ((saturating_pred_eq_zero env.ttl).mpr h)]

/-- A packet with life left is sent to the chosen hop, signed anew and with a
shorter life. -/
theorem sendUserHop_of_lt {n : Node} {env : Envelope} {next : NodeId} (h : 1 < env.ttl) :
    n.sendUserHop env next = ([(next, n.relayedCopy env next)], n.countForwarded) := by
  have hle : ¬ env.ttl ≤ 1 := UInt8.not_le.mpr h
  have hzero : ¬ env.ttl = 0 := by
    intro heq
    rw [heq] at hle
    exact hle (by decide)
  have hrest : ¬ (if env.ttl = 0 then 0 else env.ttl - 1) = 0 :=
    fun heq => hle ((saturating_pred_eq_zero env.ttl).mp heq)
  rw [sendUserHop, if_neg hrest, if_neg hzero, relayedCopy]

/-- Sending a copy on touches the counters of messages only. -/
theorem sendUserHop_snd (n : Node) (env : Envelope) (next : NodeId) :
    ∃ metrics, (n.sendUserHop env next).2 = { n with metrics := metrics } := by
  by_cases hle : env.ttl ≤ 1
  · exact ⟨_, by rw [sendUserHop_of_le hle]; rfl⟩
  · exact ⟨_, by rw [sendUserHop_of_lt (UInt8.not_le.mp hle)]; rfl⟩

/-- **Forwarding.**  A copy goes to the chosen hop, if there is one; besides,
lookups may go out, which touch the message counter only.  Without a hop the
message is dropped, unless it is at its destination. -/
theorem forwardUserData_spec (n : Node) (env : Envelope) :
    ∃ repairs counter, (∀ sent ∈ repairs, sent.2.body = .findNode env.toId 3) ∧
      n.forwardUserData env =
        match n.userHop env.toId with
        | some hop => ((n.sendUserHop env hop).1 ++ repairs,
            { (n.sendUserHop env hop).2 with msgCounter := counter })
        | none => (repairs,
            if n.id = env.toId then n else { n.countDropped with msgCounter := counter }) := by
  have hkeeps : ∀ hop, (n.sendUserHop env hop).2.msgCounter = n.msgCounter := by
    intro hop
    obtain ⟨metrics, hsent⟩ := sendUserHop_snd n env hop
    rw [hsent]
  unfold forwardUserData userHop
  dsimp only
  by_cases hself : n.id = env.toId
  · refine ⟨[], n.msgCounter, by simp, ?_⟩
    simp only [nextHop, if_pos hself]
  · have hroute := nextHop_ne_deliver hself n.table
    cases hhop : nextHop n.id env.toId n.table with
    | deliver => exact (hroute hhop).elim
    | forward next =>
        refine ⟨[], n.msgCounter, by simp, ?_⟩
        dsimp only
        rw [List.append_nil, ← hkeeps next]
    | localMinimum =>
        cases n.table.longJumpSlot.filter fun l => l.peerId ≠ n.id with
        | some l =>
            obtain ⟨⟨counter, hcounter⟩, hrepairs⟩ :=
              emitFindNodeRepair_spec (n.sendUserHop env l.peerId).2 env.toId
            refine ⟨_, counter, hrepairs, ?_⟩
            dsimp only [Option.map_some]
            rw [hcounter]
        | none =>
            obtain ⟨⟨counter, hcounter⟩, hrepairs⟩ := emitFindNodeRepair_spec n env.toId
            refine ⟨_, counter, hrepairs, ?_⟩
            dsimp only [Option.map_none]
            rw [if_neg hself, hcounter]
            rfl

/-- A critical message at its destination is recorded and reported, and
counted as dropped when its copies differ. -/
theorem handleUserData_critical {n : Node} {env : Envelope} {payload : List UInt8}
    (hdest : env.toId = n.id) (hclass : env.messageClass = .criticalUser) :
    n.handleUserData env payload =
      { node :=
          if (n.quorum.record env.messageId payload).1 = .inconsistent then
            { n with quorum := (n.quorum.record env.messageId payload).2 }.countDropped
          else { n with quorum := (n.quorum.record env.messageId payload).2 }
        out := []
        event := some (.critical env.messageId (n.quorum.record env.messageId payload).1) } := by
  rw [handleUserData, if_pos hdest, if_pos hclass]
  rcases n.quorum.record env.messageId payload with ⟨result, quorum⟩
  cases result with
  | _ => rfl

/-- Any other message at its destination is reported and nothing else. -/
theorem handleUserData_normal {n : Node} {env : Envelope} {payload : List UInt8}
    (hdest : env.toId = n.id) (hclass : env.messageClass ≠ .criticalUser) :
    n.handleUserData env payload = ⟨n, [], some (.deliveredToSelf env.messageId)⟩ := by
  rw [handleUserData, if_pos hdest, if_neg hclass]

/-- User data for another node is forwarded and never delivered here. -/
theorem handleUserData_forward {n : Node} {env : Envelope} {payload : List UInt8}
    (hdest : env.toId ≠ n.id) :
    n.handleUserData env payload =
      ⟨(n.forwardUserData env).2, (n.forwardUserData env).1, none⟩ := by
  rw [handleUserData, if_neg hdest]

/-- A lookup is dropped or answered, and in either case the limiter has counted
it. -/
theorem handleFindNode_cases (n : Node) (now : Nat) (peer target : NodeId) (count : UInt8) :
    ∃ find, ∃ checked : Node, checked = { n with limits := { n.limits with find := find } } ∧
      (n.handleFindNode now peer target count = ⟨checked.countDropped, [], none⟩ ∨
        n.handleFindNode now peer target count =
          checked.reply peer (.foundNodes (checked.foundCandidates target count))) := by
  obtain ⟨find, hlimits⟩ := RateLimiter.checkFind_snd n.limits peer true now
  unfold handleFindNode
  rcases hcheck : n.limits.checkFind peer true now with ⟨verdict, limits⟩
  rw [hcheck] at hlimits
  dsimp only at hlimits
  subst hlimits
  refine ⟨find, _, rfl, ?_⟩
  cases verdict with
  | ok u => exact Or.inr rfl
  | error e => exact Or.inl rfl

/-- A dropped envelope leaves the node alone and sends nothing. -/
theorem handleEnvelope_refused {n : Node} {now : Nat} {peer : NodeId} {env : Envelope}
    (h : n.admits peer env = false) : n.handleEnvelope now peer env = ⟨n, [], none⟩ := by
  rw [handleEnvelope, h, if_neg Bool.false_ne_true]

/-- An admitted envelope goes to its arm as it is. -/
theorem handleEnvelope_admitted {n : Node} {now : Nat} {peer : NodeId} {env : Envelope}
    (h : n.admits peer env = true) : n.handleEnvelope now peer env = n.dispatch now peer env := by
  rw [handleEnvelope, if_pos h]

end Node

end Zona
