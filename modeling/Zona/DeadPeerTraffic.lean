import Zona.CriticalForks
import Zona.GreedyWalks
import Zona.IndependentPeers

/-!
# Traffic and dead peers

The greedy hop is chosen among live slots.  Every fallback of it is not: a
lookup goes to the first slot of the table when the node is stuck, user data
takes the long-jump slot, and a critical message goes over the slots that the
three stages of the fork find, or over the first slot.

The lemmas on hops say where the messages of each operation go; all of them
depend on the table alone.  `traffic_live_iff` says for each operation in which
tables its messages go to good peers only.
-/

namespace Zona

namespace Node

open PeerTable

/-- A peer that traffic may go to: one with a slot that is not due for
eviction, other than the node itself. -/
def GoodPeer (n : Node) (peer : NodeId) : Prop :=
  peer ≠ n.id ∧ ∃ s ∈ n.table.liveSlots, s.peerId = peer

instance (n : Node) (peer : NodeId) : Decidable (n.GoodPeer peer) :=
  inferInstanceAs (Decidable (_ ∧ ∃ s ∈ n.table.liveSlots, s.peerId = peer))

/-- The first slot, if there is one, is for a good peer. -/
def FirstGood (n : Node) : Prop :=
  ∀ s, n.table.slots.head? = some s → n.GoodPeer s.peerId

/-- There is somebody whom traffic may go to. -/
def HasGoodPeer (n : Node) : Prop :=
  ∃ peer, n.GoodPeer peer

/-- Every message goes to a good peer. -/
def AllGood (n : Node) (out : Outbox) : Prop :=
  ∀ peer ∈ out.map Prod.fst, n.GoodPeer peer

instance (n : Node) (out : Outbox) : Decidable (n.AllGood out) :=
  List.decidableBAll n.GoodPeer (out.map Prod.fst)

/-- No live peer is closer to the target than the node. -/
def Stuck (n : Node) (target : NodeId) : Prop :=
  ∀ s ∈ n.table.liveSlots, ¬ s.peerId.xorDistance target < n.id.xorDistance target

/-- A node that is not stuck forwards, to a good peer. -/
theorem nextHop_of_not_stuck {n : Node} {target : NodeId} (h : ¬ n.Stuck target) :
    ∃ peer, nextHop n.id target n.table = .forward peer ∧ n.GoodPeer peer := by
  have hforward : ∃ peer, Forwards target n.id n.table peer := by
    apply Classical.byContradiction
    intro hnone
    rcases not_forwards_iff.mp (not_exists.mp hnone) with hself | hstuck
    · refine h fun s _ hcloser => ?_
      rw [hself] at hcloser
      exact Bytes.not_lt_xor_self _ _ hcloser
    · exact h hstuck
  obtain ⟨peer, hpeer⟩ := hforward
  obtain ⟨hslot, hless, _⟩ := nextHop_forward hpeer
  refine ⟨peer, hpeer, ?_, hslot⟩
  rintro rfl
  exact lt_irrefl _ hless

/-- A node that is stuck has no greedy hop, be it for lack of live peers or of
closer ones. -/
theorem nextHop_of_stuck {n : Node} {target : NodeId} (h : n.Stuck target) (peer : NodeId) :
    nextHop n.id target n.table ≠ .forward peer :=
  not_forwards_iff.mpr (Or.inr h) peer

/-- A stuck node hands its lookups to the first slot. -/
theorem findHop_of_stuck {n : Node} {target : NodeId} (h : n.Stuck target) :
    n.findHop target = n.table.slots.head?.map SlotEntry.peerId := by
  unfold findHop
  split
  · rename_i hforward
    exact absurd hforward (nextHop_of_stuck h _)
  · rfl

/-- **A lookup** goes to a good peer, unless the node is stuck and the first
slot is not for one. -/
theorem findHop_good_iff (n : Node) (target : NodeId) :
    (∀ peer ∈ n.findHop target, n.GoodPeer peer) ↔ (n.Stuck target → n.FirstGood) := by
  by_cases hstuck : n.Stuck target
  · rw [findHop_of_stuck hstuck]
    constructor
    · intro h _ s hs
      exact h s.peerId (by rw [hs]; rfl)
    · intro h peer hpeer
      obtain ⟨s, hs, rfl⟩ := Option.map_eq_some_iff.mp hpeer
      exact h hstuck s hs
  · obtain ⟨peer, hforward, hgood⟩ := nextHop_of_not_stuck hstuck
    refine iff_of_true ?_ (fun h => absurd h hstuck)
    intro other hother
    unfold findHop at hother
    rw [hforward] at hother
    obtain rfl := Option.some.inj hother
    exact hgood

variable [Crypto]

/-- A repair lookup goes to the hop that is selected for it, if there is one,
and nowhere else. -/
theorem emitFindNodeRepair_hops (n : Node) (target : NodeId) :
    (n.emitFindNodeRepair target).1.map Prod.fst = (n.findHop target).toList := by
  unfold emitFindNodeRepair
  cases n.findHop target with
  | none => rfl
  | some next => rfl

/-- A packet goes to the hop that was chosen, unless its life ends here. -/
theorem sendUserHop_hops (n : Node) (env : Envelope) (next : NodeId) :
    (n.sendUserHop env next).1.map Prod.fst = if 1 < env.ttl then [next] else [] := by
  by_cases hle : env.ttl ≤ 1
  · rw [sendUserHop_of_le hle, if_neg (UInt8.not_lt.mpr hle)]
    rfl
  · rw [sendUserHop_of_lt (UInt8.not_le.mp hle), if_pos (UInt8.not_le.mp hle)]
    rfl

/-- At a local minimum a copy goes to the long-jump slot, unless that is for
the node itself or the copy is at the end of its life, and a lookup to the
first slot. -/
theorem forwardUserData_hops_of_stuck {n : Node} {env : Envelope} (hdest : env.toId ≠ n.id)
    (hstuck : n.Stuck env.toId) :
    (n.forwardUserData env).1.map Prod.fst =
      (if 1 < env.ttl then
          ((n.table.longJumpSlot.filter fun l => l.peerId ≠ n.id).map SlotEntry.peerId).toList
        else []) ++ (n.table.slots.head?.map SlotEntry.peerId).toList := by
  have hminimum : nextHop n.id env.toId n.table = .localMinimum := by
    cases hhop : nextHop n.id env.toId n.table with
    | forward peer => exact absurd hhop (nextHop_of_stuck hstuck peer)
    | deliver => exact absurd hhop (nextHop_ne_deliver (Ne.symm hdest) n.table)
    | localMinimum => rfl
  unfold forwardUserData
  dsimp only
  rw [hminimum]
  dsimp only
  cases n.table.longJumpSlot.filter fun l => l.peerId ≠ n.id with
  | none =>
      rw [emitFindNodeRepair_hops, findHop_of_stuck hstuck]
      simp
  | some l =>
      obtain ⟨metrics, hsent⟩ := sendUserHop_snd n env l.peerId
      have hhop : (n.sendUserHop env l.peerId).2.findHop env.toId = n.findHop env.toId := by
        rw [hsent]
        rfl
      rw [List.map_append, sendUserHop_hops, emitFindNodeRepair_hops, hhop,
        findHop_of_stuck hstuck]
      rfl

/-- One repair target: a lookup to its hop, if there is one. -/
theorem repairStep_hop (out : Outbox) (n : Node) (target : NodeId) :
    (repairStep (out, n) target).1.map Prod.fst =
        out.map Prod.fst ++ (n.findHop target).toList ∧
      (repairStep (out, n) target).2.table = n.table ∧
      (repairStep (out, n) target).2.findHop = n.findHop := by
  unfold repairStep
  dsimp only
  cases n.findHop target with
  | none => simp
  | some next => exact ⟨by simp, rfl, rfl⟩

/-- The lookups of a repair tick go to the hops of its targets. -/
theorem foldl_repairStep_hops (targets : List NodeId) (out : Outbox) (n : Node) :
    (targets.foldl repairStep (out, n)).1.map Prod.fst =
        out.map Prod.fst ++ targets.filterMap n.findHop ∧
      (targets.foldl repairStep (out, n)).2.table = n.table := by
  induction targets generalizing out n with
  | nil => simp
  | cons target rest ih =>
      obtain ⟨hhops, htable, hsame⟩ := repairStep_hop out n target
      obtain ⟨hrest, hkept⟩ := ih (repairStep (out, n) target).1 (repairStep (out, n) target).2
      rw [List.foldl_cons]
      refine ⟨?_, hkept.trans htable⟩
      rw [hhops, hsame] at hrest
      refine hrest.trans ?_
      cases hhop : n.findHop target with
      | none => simp [hhop]
      | some next => simp [hhop]

/-- A repair tick looks up its targets, and without a long-jump slot one more
through the first slot. -/
theorem repairTick_hops (n : Node) :
    n.repairTick.1.map Prod.fst =
      (repairTargets n.config.epochSeed n.id repairTargetsPerTick).filterMap n.findHop ++
        if n.table.longJumpSlot = none then
          (n.table.slots.head?.map SlotEntry.peerId).toList
        else [] := by
  obtain ⟨hhops, htable⟩ := foldl_repairStep_hops
    (repairTargets n.config.epochSeed n.id repairTargetsPerTick) []
    { n with metrics := { n.metrics with repairTicks := n.metrics.repairTicks + 1 } }
  have hsame : ({ n with metrics :=
      { n.metrics with repairTicks := n.metrics.repairTicks + 1 } } : Node).findHop =
        n.findHop := rfl
  rw [hsame, List.map_nil, List.nil_append] at hhops
  unfold repairTick
  dsimp only
  generalize List.foldl repairStep _ _ = repaired at hhops htable ⊢
  rw [htable, ← hhops]
  dsimp only
  cases n.table.longJumpSlot with
  | none =>
      cases n.table.slots.head? with
      | none => simp
      | some slot => simp
  | some l => simp

/-- The node is to forward the envelope: it passes the guard, and carries user
data for another node. -/
def ToForward (n : Node) (peer : NodeId) (env : Envelope) : Prop :=
  n.admits peer env = true ∧ env.body.isUserData = true ∧ env.toId ≠ n.id

omit [Crypto] in
/-- A stuck node has a first slot for a good peer, and if the envelope may live
on, so has it a long-jump slot, unless that is for itself. -/
structure ForwardReady (n : Node) (env : Envelope) : Prop where
  lookup : n.Stuck env.toId → n.FirstGood
  bypass : n.Stuck env.toId → 1 < env.ttl → ∀ l, n.table.longJumpSlot = some l →
    l.peerId ≠ n.id → n.GoodPeer l.peerId

/-- The first slot is for a good peer if the node is stuck on one of its repair
targets, or without a long-jump slot. -/
structure RepairReady (n : Node) : Prop where
  targets : ∀ target ∈ repairTargets n.config.epochSeed n.id repairTargetsPerTick,
    n.Stuck target → n.FirstGood
  seed : n.table.longJumpSlot = none → n.FirstGood

omit [Crypto] in
/-- The slots that the stages of a fork use are for good peers, and so is the
first slot when there is no fork. -/
structure CriticalReady (n : Node) : Prop where
  diversity : ∀ d g, n.table.diversitySlot = some d →
    (n.table.liveGreedy.find? fun s => s.referrerId ≠ d.referrerId) = some g →
      n.GoodPeer g.peerId ∧ n.GoodPeer d.peerId
  longJump : NoDiversityFork n.table → ∀ g l, n.table.liveGreedy.head? = some g →
    n.table.longJumpSlot = some l → l.peerId ≠ g.peerId →
      n.GoodPeer g.peerId ∧ n.GoodPeer l.peerId
  anyTwo : NoDiversityFork n.table → NoLongJumpFork n.table →
    ∀ a c rest, n.table.liveSlots = a :: c :: rest → n.GoodPeer a.peerId ∧ n.GoodPeer c.peerId
  single : NoDiversityFork n.table → NoLongJumpFork n.table →
    n.table.liveSlots.length < 2 → n.FirstGood

/-- When forwarding uses live peers only: exactly if the table gives it one at
each place where the code looks. -/
theorem forward_allGood_iff {n : Node} {now : Nat} {peer : NodeId} {env : Envelope}
    (h : n.ToForward peer env) :
    n.AllGood (n.handleEnvelope now peer env).out ↔ n.ForwardReady env := by
  obtain ⟨hadmits, huser, hdest⟩ := h
  obtain ⟨payload, hbody⟩ := eq_userData_of_isUserData huser
  have hout : (n.handleEnvelope now peer env).out = (n.forwardUserData env).1 := by
    rw [handleEnvelope_admitted hadmits]
    simp only [dispatch, hbody]
    rw [handleUserData_forward hdest]
  unfold AllGood
  rw [hout]
  by_cases hstuck : n.Stuck env.toId
  · rw [forwardUserData_hops_of_stuck hdest hstuck]
    constructor
    · intro hall
      refine ⟨fun _ s hs => ?_, fun _ httl l hl hother => ?_⟩
      · exact hall s.peerId (List.mem_append_right _ (by simp [hs]))
      · refine hall l.peerId (List.mem_append_left _ ?_)
        simp [httl, hl, hother]
    · intro hready hop hhop
      rcases List.mem_append.mp hhop with hcopy | hlookup
      · by_cases httl : 1 < env.ttl
        · rw [if_pos httl, Option.mem_toList, Option.map_eq_some_iff] at hcopy
          obtain ⟨l, hl, rfl⟩ := hcopy
          obtain ⟨hslot, hother⟩ := Option.filter_eq_some_iff.mp hl
          exact hready.bypass hstuck httl l hslot (of_decide_eq_true hother)
        · rw [if_neg httl] at hcopy
          cases hcopy
      · rw [Option.mem_toList, Option.map_eq_some_iff] at hlookup
        obtain ⟨s, hs, rfl⟩ := hlookup
        exact hready.lookup hstuck s hs
  · obtain ⟨next, hforward, hgood⟩ := nextHop_of_not_stuck hstuck
    refine iff_of_true ?_ ⟨fun h => absurd h hstuck, fun h => absurd h hstuck⟩
    intro hop hhop
    unfold forwardUserData at hhop
    dsimp only at hhop
    rw [hforward] at hhop
    dsimp only at hhop
    rw [sendUserHop_hops] at hhop
    split at hhop
    · rw [List.mem_singleton.mp hhop]
      exact hgood
    · cases hhop

/-- When a repair uses live peers only, stated by its targets and the slots of
the table. -/
theorem repair_allGood_iff (n : Node) : n.AllGood n.repairTick.1 ↔ n.RepairReady := by
  unfold AllGood
  rw [repairTick_hops]
  constructor
  · intro hall
    refine ⟨fun target htarget => (findHop_good_iff n target).mp fun peer hpeer => ?_,
      fun hnone s hs => ?_⟩
    · exact hall peer (List.mem_append_left _ (List.mem_filterMap.mpr ⟨target, htarget, hpeer⟩))
    · refine hall s.peerId (List.mem_append_right _ ?_)
      simp [hnone, hs]
  · intro hready peer hpeer
    rcases List.mem_append.mp hpeer with hlookup | hseed
    · obtain ⟨target, htarget, hhop⟩ := List.mem_filterMap.mp hlookup
      exact (findHop_good_iff n target).mpr (hready.targets target htarget) peer hhop
    · by_cases hnone : n.table.longJumpSlot = none
      · rw [if_pos hnone, Option.mem_toList, Option.map_eq_some_iff] at hseed
        obtain ⟨s, hs, rfl⟩ := hseed
        exact hready.seed hnone s hs
      · rw [if_neg hnone] at hseed
        cases hseed

omit [Crypto] in
/-- The first hops of a critical message are good, stage by stage. -/
theorem firstHops_good_iff (n : Node) :
    (∀ peer ∈ n.firstHops, n.GoodPeer peer) ↔ n.CriticalReady := by
  have houtcome := pickForkHops_outcome n.table
  have hpair : ∀ a b : NodeId,
      (∀ peer ∈ [a, b], n.GoodPeer peer) ↔ n.GoodPeer a ∧ n.GoodPeer b := by simp
  unfold firstHops
  generalize pickForkHops n.table = hops at houtcome
  cases houtcome with
  | @diversity d g hd hg =>
      have hfork : ¬ NoDiversityFork n.table := fun hno =>
        hno.not_exists hd ⟨g, of_find_other hg⟩
      rw [hpair]
      constructor
      · intro hgood
        refine ⟨?_, fun hno => absurd hno hfork, fun hno => absurd hno hfork,
          fun hno => absurd hno hfork⟩
        intro d' g' hd' hg'
        obtain rfl := Option.some.inj (hd.symm.trans hd')
        obtain rfl := Option.some.inj (hg.symm.trans hg')
        exact hgood
      · intro hready
        exact hready.diversity d g hd hg
  | @longJump g l hno hg hl hne =>
      have hjump : ¬ NoLongJumpFork n.table := fun hnone => hne (hnone g l hg hl)
      rw [hpair]
      constructor
      · intro hgood
        refine ⟨fun d g' hd hg' => ?_, ?_, fun _ hnone => absurd hnone hjump,
          fun _ hnone => absurd hnone hjump⟩
        · exact absurd ⟨g', of_find_other hg'⟩ (hno.not_exists hd)
        · intro _ g' l' hg' hl' _
          obtain rfl := Option.some.inj (hg.symm.trans hg')
          obtain rfl := Option.some.inj (hl.symm.trans hl')
          exact hgood
      · intro hready
        exact hready.longJump hno g l hg hl hne
  | @anyTwo a c rest hno hnone hlive =>
      rw [hpair]
      constructor
      · intro hgood
        refine ⟨fun d g' hd hg' => ?_, fun _ g l hg hl hne => ?_, ?_, fun _ _ hfew => ?_⟩
        · exact absurd ⟨g', of_find_other hg'⟩ (hno.not_exists hd)
        · exact absurd (hnone g l hg hl) hne
        · intro _ _ a' c' rest' hlive'
          rw [hlive, List.cons.injEq, List.cons.injEq] at hlive'
          rw [← hlive'.1, ← hlive'.2.1]
          exact hgood
        · rw [hlive, List.length_cons, List.length_cons] at hfew
          omega
      · intro hready
        exact hready.anyTwo hno hnone a c rest hlive
  | nothing hno hnone hfew =>
      constructor
      · intro hgood
        refine ⟨fun d g' hd hg' => ?_, fun _ g l hg hl hne => ?_, fun _ _ a c rest hlive => ?_,
          fun _ _ _ s hs => ?_⟩
        · exact absurd ⟨g', of_find_other hg'⟩ (hno.not_exists hd)
        · exact absurd (hnone g l hg hl) hne
        · rw [hlive, List.length_cons, List.length_cons] at hfew
          omega
        · exact hgood s.peerId (by simp [hs])
      · intro hready peer hpeer
        rw [Option.mem_toList, Option.map_eq_some_iff] at hpeer
        obtain ⟨s, hs, rfl⟩ := hpeer
        exact hready.single hno hnone hfew s hs

/-- When a critical message uses live peers only, stated by the slots of the
table. -/
theorem critical_allGood_iff (n : Node) (toId : NodeId) (payload : List UInt8) :
    n.AllGood (n.sendCritical toId payload).1 ↔ n.CriticalReady := by
  unfold AllGood
  rw [(sendCritical_hops n toId payload).1]
  exact firstHops_good_iff n

/-- **Traffic goes to live peers**, in the tables in which every fallback finds
one: for each operation, and for every node that has a peer to send to. -/
theorem traffic_live_iff (n : Node) :
    (∀ now peer env, n.ToForward peer env →
      ((n.HasGoodPeer → n.AllGood (n.handleEnvelope now peer env).out) ↔
        (n.HasGoodPeer → n.ForwardReady env))) ∧
    ((n.HasGoodPeer → n.AllGood n.repairTick.1) ↔ (n.HasGoodPeer → n.RepairReady)) ∧
    ∀ toId payload,
      ((n.HasGoodPeer → n.AllGood (n.sendCritical toId payload).1) ↔
        (n.HasGoodPeer → n.CriticalReady)) := by
  refine ⟨fun now peer env hdue => ?_, ?_, fun toId payload => ?_⟩
  · exact imp_congr_right fun _ => forward_allGood_iff hdue
  · exact imp_congr_right fun _ => repair_allGood_iff n
  · exact imp_congr_right fun _ => critical_allGood_iff n toId payload

/-- A node with two greedy slots, the first of them for a peer that answers
none of nine probes. -/
def firstSlotDead : Node :=
  let ops : List Op := [.tryInsert (sampleSlot .greedy 2 2), .tryInsert (sampleSlot .greedy 3 3)] ++
    List.replicate 9 (.recordProbe 0 false)
  { sample 1 with table := ops.foldl PeerTable.perform (sample 1).table }

/-- User data for a node that is closer to the sender than its live peer is. -/
def strandedMessage : Envelope where
  toId := ⟨Bytes.replicate 32 9⟩
  fromId := ⟨Bytes.replicate 32 3⟩
  messageId := 1
  ttl := 20
  messageClass := .normal
  routeFork := false
  body := .userData []
  signature := []

omit [Crypto] in
/-- There is a live peer, yet a lookup for stranded user data, a repair tick
and a critical message all go to the dead one. -/
theorem traffic_to_dead_peer :
    firstSlotDead.GoodPeer ⟨Bytes.replicate 32 3⟩ ∧
      @ToForward checksumCrypto firstSlotDead ⟨Bytes.replicate 32 3⟩ strandedMessage ∧
      ¬ firstSlotDead.AllGood (@handleEnvelope checksumCrypto firstSlotDead 0
        ⟨Bytes.replicate 32 3⟩ strandedMessage).out ∧
      ¬ firstSlotDead.AllGood (@repairTick checksumCrypto firstSlotDead).1 ∧
      ¬ firstSlotDead.AllGood (@sendCritical checksumCrypto firstSlotDead
        ⟨Bytes.replicate 32 9⟩ []).1 := by
  refine ⟨?_, ⟨rfl, rfl, ?_⟩, ?_⟩
  · decide +kernel
  · decide +kernel
  · decide +kernel

end Node

end Zona
