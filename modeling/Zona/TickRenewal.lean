import Zona.NodeTables
import Zona.ReplacementBudgets
import Zona.StoreConvergence
import Zona.TableCapacity

/-!
# Whether a repair tick renews the budget

A repair tick of the node is not a tick of its table: nothing that a node does
by itself ever resets the replacements.  So once a replacement is spent, full
greedy slots are frozen, and `replaced_iff_unspent` says that a better peer is
taken after a repair tick exactly when the node has spent none since its start.
-/

namespace Zona

/-- The greedy entry for a found peer. -/
def PexCandidate.greedyEntry (c : PexCandidate) : SlotEntry :=
  .new .greedy c.descriptor.nodeId c.referrerId

namespace PeerTable

/-- The entry has the place of the farthest greedy slot, and is closer. -/
def FarthestReplaced (t : PeerTable) (entry : SlotEntry) (u : PeerTable) : Prop :=
  ∃ (idx : Nat) (old : SlotEntry), t.slots[idx]? = some old ∧ old.kind = .greedy ∧
    t.slotDistance old = t.farthest ∧ t.slotDistance entry < t.slotDistance old ∧
      u.slots = t.slots.set idx entry

/-- A new peer, under a referrer that is under quota, that is closer than the
farthest greedy slot. -/
structure Better (t : PeerTable) (entry : SlotEntry) : Prop where
  kind : entry.kind = .greedy
  fresh : ∀ s ∈ t.slots, s.peerId ≠ entry.peerId
  quota : t.referrerQuotaExceeded entry.referrerId = false
  closer : t.slotDistance entry < t.farthest

variable {t : PeerTable} {entry : SlotEntry}

/-- The greatest distance in the table is that of the slot which the source
picks for replacement. -/
theorem farthest_of_worst {worst : SlotEntry} {idx : Nat}
    (h : t.worstGreedy = some (worst, idx)) : t.farthest = t.slotDistance worst := by
  obtain ⟨hget, hkind, hmax⟩ := worstGreedy_spec h
  refine List.maximum_eq_coe_iff.mpr ⟨?_, ?_⟩
  · exact List.mem_map.mpr
      ⟨worst, List.mem_filter.mpr ⟨List.mem_of_getElem? hget, decide_eq_true hkind⟩, rfl⟩
  · intro d hd
    obtain ⟨s, hs, rfl⟩ := List.mem_map.mp hd
    exact hmax s hs

/-- Full greedy slots are kept, but for an unspent budget and a better entry. -/
theorem tryInsert_of_full (hkind : entry.kind = .greedy) (hfull : t.GreedyFull) :
    (t.tryInsert entry).2 = t ∨ (t.replacementsThisTick = 0 ∧ t.Better entry) := by
  have houtcome := tryInsert_outcome t entry
  generalize (t.tryInsert entry).2 = u at houtcome ⊢
  cases houtcome with
  | kept => exact Or.inl rfl
  | added _ hroom _ =>
      rw [hkind] at hroom
      exact absurd hfull (Nat.not_le.mpr hroom)
  | replaced haccepts _ _ hworst hbudget =>
      obtain ⟨hfound, hcloser⟩ := hworst hkind
      refine Or.inr ⟨hbudget ?_, hkind, haccepts.fresh, haccepts.quota hkind, ?_⟩
      · rw [hkind]
        exact fun h => nomatch h
      · rw [farthest_of_worst hfound]
        exact WithBot.coe_lt_coe.mpr hcloser

/-- Full greedy slots are frozen once the budget is spent. -/
theorem insertAll_of_spent {entries : List SlotEntry} (hkinds : ∀ e ∈ entries, e.kind = .greedy)
    (hfull : t.GreedyFull) (hspent : t.replacementsThisTick ≠ 0) :
    t.insertAll entries = t := by
  induction entries with
  | nil => rfl
  | cons e rest ih =>
      have hkept := (tryInsert_of_full (hkinds e List.mem_cons_self) hfull).resolve_right
        (fun h => hspent h.1)
      rw [insertAll, List.foldl_cons, hkept]
      exact ih fun e' he' => hkinds e' (List.mem_cons_of_mem e he')

/-- While the budget is unspent, a better entry takes the farthest greedy slot. -/
theorem tryInsert_of_better (hfull : t.GreedyFull) (hbudget : t.replacementsThisTick = 0)
    (hbetter : t.Better entry) :
    t.FarthestReplaced entry (t.tryInsert entry).2 ∧
      (t.tryInsert entry).2.GreedyFull ∧ (t.tryInsert entry).2.replacementsThisTick ≠ 0 := by
  have hgreedy : t.greedySlots ≠ [] := by
    intro hnil
    have hbot := hbetter.closer
    rw [farthest, hnil, List.map_nil, List.maximum_nil] at hbot
    exact not_lt_bot hbot
  obtain ⟨worst, idx, hworst⟩ := worstGreedy_isSome hgreedy
  obtain ⟨hget, hkind, _⟩ := worstGreedy_spec hworst
  have hfarthest := farthest_of_worst hworst
  have hcloser : t.slotDistance entry < t.slotDistance worst := by
    have hlt := hbetter.closer
    rw [hfarthest] at hlt
    exact WithBot.coe_lt_coe.mp hlt
  have hrun := tryInsert_of_closer hbetter.kind hbetter.fresh hbetter.quota
    (Nat.not_lt.mpr hfull) hbudget hworst hcloser
  have hstays := ((tryInsert_outcome t entry).farthest_le hfull).1
  rw [hrun] at hstays ⊢
  exact ⟨⟨idx, worst, hget, hkind, hfarthest.symm, hcloser, rfl⟩, hstays, Nat.succ_ne_zero _⟩

/-- **A list of found peers** with a better one among them: while the budget is
unspent, one of them takes the farthest greedy slot. -/
theorem insertAll_of_better {entries : List SlotEntry} (hkinds : ∀ e ∈ entries, e.kind = .greedy)
    (hfull : t.GreedyFull) (hbudget : t.replacementsThisTick = 0) (hmem : entry ∈ entries)
    (hbetter : t.Better entry) :
    ∃ e ∈ entries, t.FarthestReplaced e (t.insertAll entries) := by
  induction entries with
  | nil => cases hmem
  | cons e rest ih =>
      have hrest : ∀ e' ∈ rest, e'.kind = .greedy :=
        fun e' he' => hkinds e' (List.mem_cons_of_mem e he')
      rw [insertAll, List.foldl_cons]
      by_cases he : t.Better e
      · obtain ⟨hreplaced, hfull', hspent⟩ := tryInsert_of_better hfull hbudget he
        have hfrozen := insertAll_of_spent hrest hfull' hspent
        rw [insertAll] at hfrozen
        rw [hfrozen]
        exact ⟨e, List.mem_cons_self, hreplaced⟩
      · -- the first entry leaves the table alone, so the better one is still to come
        have hkept := (tryInsert_of_full (hkinds e List.mem_cons_self) hfull).resolve_right
          (fun h => he h.2)
        rcases List.mem_cons.mp hmem with rfl | hlater
        · exact (he hbetter).elim
        · rw [hkept]
          obtain ⟨e', he', hreplaced⟩ := ih hrest hlater
          exact ⟨e', List.mem_cons_of_mem e he', hreplaced⟩

/-- A table that stays as it is has had nothing replaced. -/
theorem not_farthestReplaced_self : ¬ t.FarthestReplaced entry t := by
  rintro ⟨idx, old, hget, _, _, hcloser, hset⟩
  have hlt := (List.getElem?_eq_some_iff.mp hget).1
  have hnew : t.slots[idx]? = some entry := by
    rw [hset, List.getElem?_set_self hlt]
  rw [hget, Option.some.injEq] at hnew
  rw [hnew] at hcloser
  exact lt_irrefl _ hcloser

end PeerTable

namespace Node

/-- What a call may be on a node that is left to itself. -/
def Call.IsUpkeep : Call → Prop
  | .handleEnvelope _ _ _ => True
  | .repairTick => True
  | _ => False

theorem Call.IsUpkeep.isOperation {call : Call} (h : call.IsUpkeep) : call.IsOperation := by
  cases call with
  | host table store => exact h.elim
  | _ => trivial

/-- The transition took a replacement from the budget of the table. -/
def Spends (e : Transition Node Call) : Prop :=
  e.before.table.replacementsThisTick < e.after.table.replacementsThisTick

variable [Crypto]

/-- A known peer answers a lookup with some peers; one of them is valid and new,
closer to the node than its farthest greedy slot, and its referrer is under
quota.  All greedy slots are taken. -/
structure BetterOffer (n : Node) (peer : NodeId) (env : Envelope) (peers : List PexCandidate)
    (c : PexCandidate) : Prop where
  full : n.table.GreedyFull
  known : (n.store.get peer).isSome
  admitted : n.admits peer env = true
  answer : env.body = .foundNodes peers
  offered : c ∈ peers
  valid : verifyDescriptor c.descriptor = .ok ()
  fresh : ∀ s ∈ n.table.slots, s.peerId ≠ c.descriptor.nodeId
  quota : n.table.referrerQuotaExceeded c.referrerId = false
  closer : c.descriptor.nodeId.xorDistance n.id < n.table.farthest

/-- Taking up found peers inserts a greedy entry for each of them, seen through
the table. -/
theorem foldl_integrate_insertAll (peers : List PexCandidate) (n : Node) :
    (peers.foldl integrate n).table =
      n.table.insertAll (peers.map PexCandidate.greedyEntry) := by
  induction peers generalizing n with
  | nil => rfl
  | cons c rest ih =>
      rw [List.foldl_cons, ih, List.map_cons, PeerTable.insertAll, PeerTable.insertAll,
        List.foldl_cons]
      rfl

/-- After a repair tick the answer to a lookup is integrated as before it. -/
theorem repaired_foundNodes_table {n : Node} {peer : NodeId} {env : Envelope}
    {peers : List PexCandidate} (hadmits : n.admits peer env = true)
    (hanswer : env.body = .foundNodes peers) (now : Nat) :
    (n.repairTick.2.handleEnvelope now peer env).node.table =
      n.table.insertAll (peers.map PexCandidate.greedyEntry) := by
  obtain ⟨counter, metrics, hticked⟩ := repairTick_snd n
  have hadmits' : ({ n with msgCounter := counter, metrics := metrics } : Node).admits peer env =
      true := hadmits
  rw [hticked, handleEnvelope_admitted hadmits', dispatch, hanswer]
  exact foldl_integrate_insertAll peers _

/-- The table of a node keeps to the node. -/
theorem selfId_of_run {keypair : NodeKeypair} {config : NodeConfig} {n : Node}
    {es : List (Transition Node Call)} (run : Trace Step (Node.new keypair config) es n)
    (hcalls : ∀ e ∈ es, e.label.IsOperation) : n.table.selfId = n.id := by
  rw [(PeerTable.sameTick_of_reachable (table_of_run run hcalls)).self, id_of_trace run]
  rfl

/-- The budget is unspent exactly when no transition took from it. -/
theorem unspent_iff {keypair : NodeKeypair} {config : NodeConfig} {n : Node}
    {es : List (Transition Node Call)} (run : Trace Step (Node.new keypair config) es n)
    (hcalls : ∀ e ∈ es, e.label.IsOperation) :
    n.table.replacementsThisTick = 0 ↔ ∀ e ∈ es, ¬ Spends e := by
  constructor
  · intro hzero e he hspends
    obtain ⟨pre, post, rfl, _, _, hpost⟩ := run.split he
    have hlater := (PeerTable.sameTick_of_reachable (table_of_run hpost fun e' he' =>
      hcalls e' (List.mem_append_right _ (List.mem_cons_of_mem e he')))).spent
    unfold Spends at hspends
    omega
  · intro hnone
    exact @Trace.invariant_of_all _ _ Step _ n es (fun m => m.table.replacementsThisTick = 0)
      (fun e => ¬ Spends e)
      (by
        intro e _ hzero hkept
        unfold Spends at hkept
        omega)
      run rfl hnone

/-- **When a repair tick lets the table improve.**  A node that was left to
itself since its start is offered a better peer after a repair tick.  One of
the peers offered then takes its farthest greedy slot exactly when no earlier
transition has spent a replacement, that is, when the budget is still whole. -/
theorem replaced_iff_unspent {keypair : NodeKeypair} {config : NodeConfig} {n : Node}
    {es : List (Transition Node Call)} (run : Trace Step (Node.new keypair config) es n)
    (hcalls : ∀ e ∈ es, e.label.IsOperation) {peer : NodeId} {env : Envelope}
    {peers : List PexCandidate} {c : PexCandidate} (hoffer : n.BetterOffer peer env peers c)
    (now : Nat) :
    ((∃ c' ∈ peers, n.table.FarthestReplaced c'.greedyEntry
        (n.repairTick.2.handleEnvelope now peer env).node.table) ↔
      n.table.replacementsThisTick = 0) ∧
    (n.table.replacementsThisTick = 0 ↔ ∀ e ∈ es, ¬ Spends e) := by
  refine ⟨?_, unspent_iff run hcalls⟩
  have hkinds : ∀ e ∈ peers.map PexCandidate.greedyEntry, e.kind = .greedy := by
    intro e he
    obtain ⟨c', _, rfl⟩ := List.mem_map.mp he
    rfl
  rw [repaired_foundNodes_table hoffer.admitted hoffer.answer]
  constructor
  · rintro ⟨c', _, hreplaced⟩
    by_contra hspent
    rw [PeerTable.insertAll_of_spent hkinds hoffer.full hspent] at hreplaced
    exact PeerTable.not_farthestReplaced_self hreplaced
  · intro hbudget
    have hbetter : n.table.Better c.greedyEntry := by
      refine ⟨rfl, hoffer.fresh, hoffer.quota, ?_⟩
      rw [PeerTable.slotDistance, selfId_of_run run hcalls]
      exact hoffer.closer
    obtain ⟨e, he, hreplaced⟩ := PeerTable.insertAll_of_better hkinds hoffer.full hbudget
      (List.mem_map.mpr ⟨c, hoffer.offered, rfl⟩) hbetter
    obtain ⟨c', hc', rfl⟩ := List.mem_map.mp he
    exact ⟨c', hc', hreplaced⟩

end Node

/-- The seventh sample node with the default number of greedy slots. -/
def threeSlotNode : Node :=
  .new (@NodeKeypair.fromSeed checksumCrypto (Bytes.replicate 32 7)) ⟨3, 0⟩

/-- The hello of the sample node that repeats the byte `k`. -/
def helloOf (k : UInt8) : Node.Call :=
  .handleEnvelope 0 (Node.sample k).id (unsignedTo7 (.hello (sampleDescriptor k 1)))

/-- The answer of a sample node that names another one. -/
def namesPeer (k : UInt8) (asked : UInt8) : List PexCandidate :=
  [⟨sampleDescriptor k 1, (Node.sample asked).id⟩]

/-- The node after some hellos. -/
def greeted (ks : List UInt8) : Node :=
  (ks.map helloOf).foldl (@Node.perform checksumCrypto) threeSlotNode

/-- Greeting the node with three slots, again and again, makes a run. -/
theorem greeted_trace (ks : List UInt8) :
    Trace (@Node.Step checksumCrypto) threeSlotNode
      (Trace.record (@Node.perform checksumCrypto) threeSlotNode (ks.map helloOf))
      (greeted ks) :=
  @Trace.of_record _ _ (@Node.Step checksumCrypto) (@Node.perform checksumCrypto)
    (fun _ _ => rfl) (ks.map helloOf) threeSlotNode

theorem greeted_upkeep {ks : List UInt8} {e : Transition Node Node.Call}
    (he : e ∈ Trace.record (@Node.perform checksumCrypto) threeSlotNode (ks.map helloOf)) :
    e.label.IsUpkeep := by
  obtain ⟨k, _, hlabel⟩ := List.mem_map.mp (Trace.label_of_record he)
  rw [← hlabel]
  trivial

/-- The nodes after three hellos and after four: what a better offer asks of
them, and what is left of their budgets. -/
theorem greeted_facts :
    (∀ ks ∈ ([[8, 9, 10], [8, 9, 10, 11]] : List (List UInt8)),
      (greeted ks).table.GreedyFull ∧
        ((greeted ks).store.get (Node.sample 8).id).isSome ∧
          @Node.admits checksumCrypto (greeted ks) (Node.sample 8).id
              (unsignedTo7 (.foundNodes (namesPeer 12 8))) = true ∧
            (∀ s ∈ (greeted ks).table.slots, s.peerId ≠ (Node.sample 12).id) ∧
              (greeted ks).table.referrerQuotaExceeded (Node.sample 8).id = false ∧
                (Node.sample 12).id.xorDistance (greeted ks).id <
                  (greeted ks).table.farthest) ∧
      (greeted [8, 9, 10]).table.replacementsThisTick = 0 ∧
        (greeted [8, 9, 10, 11]).table.replacementsThisTick ≠ 0 := by
  unfold PeerTable.GreedyFull
  decide +kernel

/-- After three hellos and after four, node 12 is closer than the farthest of
three greedy slots. -/
theorem better_offer : ∀ ks ∈ ([[8, 9, 10], [8, 9, 10, 11]] : List (List UInt8)),
    @Node.BetterOffer checksumCrypto (greeted ks) (Node.sample 8).id
      (unsignedTo7 (.foundNodes (namesPeer 12 8))) (namesPeer 12 8)
      ⟨sampleDescriptor 12 1, (Node.sample 8).id⟩ := by
  intro ks hks
  obtain ⟨hfull, hknown, hadmitted, hfresh, hquota, hcloser⟩ := greeted_facts.1 ks hks
  exact @Node.BetterOffer.mk checksumCrypto _ _ _ _ _ hfull hknown hadmitted rfl
    (by decide +kernel) (by decide +kernel) hfresh hquota hcloser

/-- After three hellos the budget is whole, and node 12 is taken. -/
theorem better_peer_taken :
    ∃ c ∈ namesPeer 12 8, (greeted [8, 9, 10]).table.FarthestReplaced c.greedyEntry
      (@Node.handleEnvelope checksumCrypto (@Node.repairTick checksumCrypto (greeted [8, 9, 10])).2
        0 (Node.sample 8).id (unsignedTo7 (.foundNodes (namesPeer 12 8)))).node.table :=
  (@Node.replaced_iff_unspent checksumCrypto _ _ _ _ (greeted_trace [8, 9, 10])
    (fun _ he => (greeted_upkeep he).isOperation) _ _ _ _
    (better_offer [8, 9, 10] (by decide)) 0).1.mpr greeted_facts.2.1

/-- **A frozen table.**  The fourth hello took the replacement, and no repair
tick brings it back. -/
theorem better_peer_refused :
    ¬ ∀ (es : List (Transition Node Node.Call)) (n : Node),
      Trace (@Node.Step checksumCrypto) threeSlotNode es n → (∀ e ∈ es, e.label.IsUpkeep) →
        ∀ (now : Nat) (peer : NodeId) (env : Envelope) (peers : List PexCandidate)
          (c : PexCandidate), @Node.BetterOffer checksumCrypto n peer env peers c →
            ∃ c' ∈ peers, n.table.FarthestReplaced c'.greedyEntry
              (@Node.handleEnvelope checksumCrypto (@Node.repairTick checksumCrypto n).2
                now peer env).node.table := by
  intro hclaim
  have hoffer := better_offer [8, 9, 10, 11] (by decide)
  have hadmits := @Node.BetterOffer.admitted checksumCrypto _ _ _ _ _ hoffer
  have hfull := @Node.BetterOffer.full checksumCrypto _ _ _ _ _ hoffer
  have htaken := hclaim _ _ (greeted_trace [8, 9, 10, 11]) (fun _ he => greeted_upkeep he) 0 _ _ _
    _ hoffer
  rw [@Node.repaired_foundNodes_table checksumCrypto _ _ _ _ hadmits rfl 0,
    PeerTable.insertAll_of_spent (by decide) hfull greeted_facts.2.2] at htaken
  obtain ⟨c', _, hreplaced⟩ := htaken
  exact PeerTable.not_farthestReplaced_self hreplaced

end Zona
