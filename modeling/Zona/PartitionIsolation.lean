import Zona.Quiescence
import Mathlib.Data.Finset.Insert

/-!
# Partitions

A partition blocks the messages between two groups of nodes.  A round of
deliveries asks for it at every message; the two functions that look for a route
do not, and follow the tables, which still name the nodes of the other side.

`partition_isolation_iff` is about the rounds and repairs after a partition of
all nodes: whatever was in flight, no message is handed over to the other side;
and no route to the other side is reported exactly while no table has a live
slot that leads there.
-/

namespace Zona

/-- A live peer is the next hop towards itself. -/
theorem nextHop_of_live {selfId : NodeId} {table : PeerTable} {s : SlotEntry}
    (hs : s ∈ table.liveSlots) (hne : selfId ≠ s.peerId) :
    nextHop selfId s.peerId table = .forward s.peerId := by
  rw [nextHop, if_neg hne]
  cases hbest : table.liveSlots.argmin fun s' => s'.peerId.xorDistance s.peerId with
  | none =>
      rw [List.argmin_eq_none.mp hbest] at hs
      cases hs
  | some best =>
      have hle : best.peerId.xorDistance s.peerId ≤ s.peerId.xorDistance s.peerId :=
        List.le_of_mem_argmin hs hbest
      have hpeer : best.peerId = s.peerId := by
        by_contra hother
        have hbytes : best.peerId.bytes ≠ s.peerId.bytes :=
          fun heq => hother (congrArg NodeId.mk heq)
        exact absurd (Bytes.xor_self_lt_iff.mpr hbytes) (not_lt_of_ge hle)
      have hcloser : s.peerId.xorDistance s.peerId < selfId.xorDistance s.peerId :=
        Bytes.xor_self_lt_iff.mpr fun heq => hne (congrArg NodeId.mk heq)
      dsimp only
      rw [hpeer, if_pos hcloser]

namespace Sim

variable {ρ : Type}

/-- The loop of `can_route` with some hops left.  It panics, here `none`, at a
node that does not exist. -/
def routeFrom (sim : Sim ρ) (dst : NodeId) : Nat → NodeId → Option Bool
  | 0, current => some (decide (current = dst))
  | ttl + 1, current =>
      if current = dst then some true
      else
        match sim.nodes.lookup current with
        | none => none
        | some node =>
            match nextHop current dst node.table with
            | .forward next => routeFrom sim dst ttl next
            | .deliver => some true
            | .localMinimum => some false

/-- Connectivity test: is there a route within 20 hops? -/
def canRoute (sim : Sim ρ) (src dst : NodeId) : Option Bool :=
  sim.routeFrom dst 20 src

/-- The loop of `trace_route`, with the path so far. -/
def traceFrom (sim : Sim ρ) (dst : NodeId) :
    Nat → NodeId → Finset NodeId → List NodeId → List NodeId
  | 0, _, _, path => path
  | ttl + 1, current, visited, path =>
      if current = dst then path
      else
        match sim.nodes.lookup current with
        | none => path
        | some node =>
            match nextHop current dst node.table with
            | .forward next =>
                if next ∈ visited then path
                else traceFrom sim dst ttl next (insert next visited) (path ++ [next])
            | .deliver => path
            | .localMinimum => path

/-- Trace a route hop by hop; it is one if it ends at the destination. -/
def traceRoute (sim : Sim ρ) (src dst : NodeId) : List NodeId :=
  sim.traceFrom dst 30 src {src} [src]

/-- One of the two reports a route. -/
def ReportsRoute (sim : Sim ρ) (src dst : NodeId) : Prop :=
  sim.canRoute src dst = some true ∨ (sim.traceRoute src dst).getLast? = some dst

/-- The first is in one group and the second in the other. -/
def Across (groupA groupB : List NodeId) (a b : NodeId) : Prop :=
  a ∈ groupA ∧ b ∈ groupB ∨ a ∈ groupB ∧ b ∈ groupA

/-- A route from one group to the other is reported. -/
def RoutesAcross (sim : Sim ρ) (groupA groupB : List NodeId) : Prop :=
  ∃ a b, Across groupA groupB a b ∧ sim.ReportsRoute a b

/-- A node of one group has a live slot for one of the other. -/
def SlotAcross (sim : Sim ρ) (groupA groupB : List NodeId) : Prop :=
  ∃ id node s, sim.nodes.lookup id = some node ∧ s ∈ node.table.liveSlots ∧
    Across groupA groupB id s.peerId

/-- Being on opposite sides does not depend on which side is named first. -/
theorem Across.symm {groupA groupB : List NodeId} {a b : NodeId} (h : Across groupA groupB a b) :
    Across groupB groupA a b :=
  Or.symm h

/-- Nor does having a slot for a node on the other side. -/
theorem SlotAcross.symm {sim : Sim ρ} {groupA groupB : List NodeId}
    (h : sim.SlotAcross groupA groupB) : sim.SlotAcross groupB groupA := by
  obtain ⟨id, node, s, hnode, hs, hacross⟩ := h
  exact ⟨id, node, s, hnode, hs, hacross.symm⟩

section Routes

variable {sim : Sim ρ} {groupA groupB : List NodeId} {dst : NodeId}

/-- The next hop from one group either crosses over or stays away from the
other group. -/
theorem slotAcross_of_hop (hcover : ∀ id ∈ sim.nodes, id ∈ groupA ∨ id ∈ groupB)
    {current next : NodeId} {node : Node} (hnode : sim.nodes.lookup current = some node)
    (hhere : current ∉ groupB) (hhop : nextHop current dst node.table = .forward next)
    (hthere : next ∈ groupB) : sim.SlotAcross groupA groupB := by
  obtain ⟨⟨s, hs, rfl⟩, _⟩ := nextHop_forward hhop
  have hmem : current ∈ sim.nodes := HashMap.mem_of_lookup hnode
  exact ⟨current, node, s, hnode, hs, Or.inl ⟨(hcover current hmem).resolve_right hhere, hthere⟩⟩

/-- **A route that is found** into a group from outside it uses a slot across. -/
theorem slotAcross_of_routeFrom (hcover : ∀ id ∈ sim.nodes, id ∈ groupA ∨ id ∈ groupB)
    (hdst : dst ∈ groupB) {ttl : Nat} {current : NodeId} (hhere : current ∉ groupB)
    (h : sim.routeFrom dst ttl current = some true) : sim.SlotAcross groupA groupB := by
  have hother : current ≠ dst := fun heq => hhere (heq ▸ hdst)
  induction ttl generalizing current with
  | zero =>
      rw [routeFrom, decide_eq_false hother] at h
      cases h
  | succ ttl ih =>
      rw [routeFrom, if_neg hother] at h
      cases hnode : sim.nodes.lookup current with
      | none =>
          rw [hnode] at h
          cases h
      | some node =>
          rw [hnode] at h
          dsimp only at h
          cases hhop : nextHop current dst node.table with
          | forward next =>
              rw [hhop] at h
              by_cases hthere : next ∈ groupB
              · exact slotAcross_of_hop hcover hnode hhere hhop hthere
              · exact ih hthere h fun heq => hthere (heq ▸ hdst)
          | deliver => exact (nextHop_ne_deliver hother node.table hhop).elim
          | localMinimum =>
              rw [hhop] at h
              cases h

theorem slotAcross_of_traceFrom (hcover : ∀ id ∈ sim.nodes, id ∈ groupA ∨ id ∈ groupB)
    (hdst : dst ∈ groupB) {ttl : Nat} {current : NodeId} {visited : Finset NodeId}
    {path : List NodeId} (hhere : current ∉ groupB) (hlast : path.getLast? = some current)
    (h : (sim.traceFrom dst ttl current visited path).getLast? = some dst) :
    sim.SlotAcross groupA groupB := by
  have hother : current ≠ dst := fun heq => hhere (heq ▸ hdst)
  have hends : path.getLast? ≠ some dst := by
    rw [hlast]
    exact fun heq => hother (Option.some.inj heq)
  induction ttl generalizing current visited path with
  | zero => exact (hends h).elim
  | succ ttl ih =>
      rw [traceFrom, if_neg hother] at h
      cases hnode : sim.nodes.lookup current with
      | none =>
          rw [hnode] at h
          exact (hends h).elim
      | some node =>
          rw [hnode] at h
          dsimp only at h
          cases hhop : nextHop current dst node.table with
          | forward next =>
              rw [hhop] at h
              dsimp only at h
              by_cases hvisited : next ∈ visited
              · rw [if_pos hvisited] at h
                exact (hends h).elim
              · rw [if_neg hvisited] at h
                by_cases hthere : next ∈ groupB
                · exact slotAcross_of_hop hcover hnode hhere hhop hthere
                · have hnext : next ≠ dst := fun heq => hthere (heq ▸ hdst)
                  have hgrown : (path ++ [next]).getLast? = some next := List.getLast?_concat
                  refine ih hthere hgrown h hnext ?_
                  rw [hgrown]
                  exact fun heq => hnext (Option.some.inj heq)
          | deliver =>
              rw [hhop] at h
              exact (hends h).elim
          | localMinimum =>
              rw [hhop] at h
              exact (hends h).elim

/-- A reported route has to cross somewhere: the last node of it on the side of
the source has a slot for the next one, on the other side. -/
theorem slotAcross_of_reports (hcover : ∀ id ∈ sim.nodes, id ∈ groupA ∨ id ∈ groupB)
    {src : NodeId} (hdst : dst ∈ groupB) (hsrc : src ∉ groupB) (h : sim.ReportsRoute src dst) :
    sim.SlotAcross groupA groupB := by
  rcases h with hroute | htrace
  · exact slotAcross_of_routeFrom hcover hdst hsrc hroute
  · exact slotAcross_of_traceFrom hcover hdst hsrc rfl htrace

/-- **Routes across** are reported exactly while some live slot leads across,
because the report follows the tables and does not ask for partitions. -/
theorem routesAcross_iff (hdisjoint : groupA.Disjoint groupB)
    (hcover : ∀ id ∈ sim.nodes, id ∈ groupA ∨ id ∈ groupB) :
    sim.RoutesAcross groupA groupB ↔ sim.SlotAcross groupA groupB := by
  constructor
  · rintro ⟨a, b, ⟨ha, hb⟩ | ⟨ha, hb⟩, hreports⟩
    · exact slotAcross_of_reports hcover hb (fun hin => hdisjoint ha hin) hreports
    · have hcover' : ∀ id ∈ sim.nodes, id ∈ groupB ∨ id ∈ groupA := fun id hid =>
        (hcover id hid).symm
      exact (slotAcross_of_reports hcover' hb (fun hin => hdisjoint hin ha) hreports).symm
  · rintro ⟨id, node, s, hnode, hs, hacross⟩
    have hne : id ≠ s.peerId := by
      intro heq
      rcases hacross with ⟨ha, hb⟩ | ⟨hb, ha⟩
      · exact hdisjoint ha (heq ▸ hb)
      · exact hdisjoint (heq ▸ ha) hb
    refine ⟨id, s.peerId, hacross, Or.inl ?_⟩
    rw [canRoute, routeFrom, if_neg hne, hnode]
    dsimp only
    rw [nextHop_of_live hs hne]
    dsimp only
    rw [routeFrom, if_pos rfl]

end Routes

section Deliveries

variable [Crypto] [Rng ρ]

/-- A message is handed over: it is not blocked, the dice let it pass, and its
destination exists. -/
def HandsOver (sim : Sim ρ) (msg : InFlight) : Prop :=
  sim.isPartitioned msg.fromId msg.toId = false ∧ ¬ (Rng.gen sim.rng).1 < sim.dropProb ∧
    msg.toId ∈ sim.nodes

/-- Messages that are not handed over reach no node and cause no message. -/
theorem deliver_of_not_handsOver {sim : Sim ρ} {now : Nat} {msg : InFlight}
    (h : ¬ sim.HandsOver msg) : ∃ r, sim.deliver now msg = { sim with rng := r } := by
  unfold deliver
  cases hblocked : sim.isPartitioned msg.fromId msg.toId with
  | true => exact ⟨sim.rng, rfl⟩
  | false =>
      rw [if_neg Bool.false_ne_true]
      dsimp only
      by_cases hdropped : (Rng.gen sim.rng).1 < sim.dropProb
      · rw [if_pos hdropped]
        exact ⟨_, rfl⟩
      · rw [if_neg hdropped]
        unfold handOver
        dsimp only
        cases hnode : sim.nodes.lookup msg.toId with
        | none => exact ⟨_, rfl⟩
        | some node =>
            have hmem : msg.toId ∈ sim.nodes := HashMap.mem_of_lookup hnode
            exact (h ⟨hblocked, hdropped, hmem⟩).elim

/-- A message of a round is handed over when its turn has come. -/
def HandedIn (clock : Nat → Nat) (sim : Sim ρ) (batch : List (InFlight × Nat))
    (msg : InFlight) : Prop :=
  ∃ pre p post, batch = pre ++ p :: post ∧ p.1 = msg ∧
    (pre.foldl (fun s q => s.deliver (clock q.2) q.1) sim).HandsOver msg

/-- The messages handed over by an operation; only rounds deliver. -/
def Handed (sim : Sim ρ) : Call → InFlight → Prop
  | .step clock, msg =>
      HandedIn clock { sim with ticks := sim.ticks + 1, queue := [] } sim.queue.zipIdx msg
  | _, _ => False

omit [Crypto] [Rng ρ] in
/-- A change at a node that exists keeps the network. -/
theorem sameNet_put {sim : Sim ρ} {id : NodeId} (h : id ∈ sim.nodes) (n : Node)
    (queue : List InFlight) (rng : ρ) :
    SameNet sim { sim with nodes := sim.nodes.put id n, queue := queue, rng := rng } := by
  refine ⟨fun other => ?_, rfl, rfl⟩
  rw [HashMap.mem_put]
  constructor
  · rintro (rfl | hin)
    · exact h
    · exact hin
  · exact Or.inr

theorem net_deliver (sim : Sim ρ) (now : Nat) (msg : InFlight) :
    SameNet sim (sim.deliver now msg) := by
  by_cases hhands : sim.HandsOver msg
  · obtain ⟨hblocked, hkept, hmem⟩ := hhands
    unfold deliver
    rw [if_neg (by rw [hblocked]; exact Bool.false_ne_true)]
    dsimp only
    rw [if_neg hkept]
    unfold handOver
    dsimp only
    cases hnode : sim.nodes.lookup msg.toId with
    | none => exact ⟨fun _ => Iff.rfl, rfl, rfl⟩
    | some node => exact sameNet_put hmem _ _ _
  · obtain ⟨r, hsame⟩ : ∃ r, sim.deliver now msg = { sim with rng := r } :=
      deliver_of_not_handsOver hhands
    rw [hsame]
    exact ⟨fun _ => Iff.rfl, rfl, rfl⟩

/-- A batch of deliveries keeps the partitions and the set of nodes. -/
theorem net_foldl_deliver (clock : Nat → Nat) (batch : List (InFlight × Nat)) (sim : Sim ρ) :
    SameNet sim (batch.foldl (fun s p => s.deliver (clock p.2) p.1) sim) := by
  induction batch generalizing sim with
  | nil => exact SameNet.refl sim
  | cons p rest ih => exact (net_deliver sim (clock p.2) p.1).trans (ih _)

/-- A step keeps the partitions and the set of nodes, as nodes are added and
killed by calls of their own. -/
theorem net_step (sim : Sim ρ) (clock : Nat → Nat) : SameNet sim (sim.step clock) := by
  have hstart : SameNet sim { sim with ticks := sim.ticks + 1, queue := [] } :=
    ⟨fun _ => Iff.rfl, rfl, rfl⟩
  exact hstart.trans (net_foldl_deliver clock sim.queue.zipIdx _)

omit [Rng ρ] in
/-- A repair of all nodes keeps the partitions and the set of nodes as well. -/
theorem net_repairAll (sim : Sim ρ) : SameNet sim sim.repairAll := by
  have hfold : ∀ (ids : List NodeId) (s : Sim ρ), SameNet s (ids.foldl repairOne s) := by
    intro ids
    induction ids with
    | nil => exact SameNet.refl
    | cons id rest ih =>
        intro s
        refine SameNet.trans ?_ (ih (s.repairOne id))
        unfold repairOne
        cases hnode : s.nodes.lookup id with
        | none => exact SameNet.refl s
        | some node => exact sameNet_put (HashMap.mem_of_lookup hnode) _ _ _
  exact hfold sim.nodes.keys sim

/-- Rounds of deliveries and of repairs. -/
def Call.IsRound : Call → Prop
  | .step _ => True
  | .repairAll => True
  | _ => False

/-- A round, be it a step or a repair, keeps the partitions and the set of
nodes. -/
theorem net_of_round {sim sim' : Sim ρ} {call : Call} (hround : call.IsRound)
    (h : Step sim call sim') : SameNet sim sim' := by
  cases h with
  | step => exact net_step sim _
  | repairAll => exact net_repairAll sim
  | _ => exact hround.elim

/-- **Deliveries respect partitions**: a message that was handed over was not
between the two sides at that time. -/
theorem not_partitioned_of_handed {sim : Sim ρ} {call : Call} {msg : InFlight}
    (h : sim.Handed call msg) : sim.isPartitioned msg.fromId msg.toId = false := by
  cases call with
  | step clock =>
      obtain ⟨pre, p, post, _, _, hblocked, _⟩ := h
      have hnet := net_foldl_deliver clock pre { sim with ticks := sim.ticks + 1, queue := [] }
      rw [isPartitioned, hnet.partitioned] at hblocked
      exact hblocked
  | _ => exact h.elim

omit [Crypto] [Rng ρ] in
/-- After the call of `partition` two nodes on opposite sides are partitioned. -/
theorem isPartitioned_of_across {sim : Sim ρ} {groupA groupB : List NodeId} {a b : NodeId}
    (h : Across groupA groupB a b) :
    (sim.partition groupA groupB).isPartitioned a b = true := by
  unfold isPartitioned partition
  rw [List.contains_iff_mem]
  refine List.mem_append_right _ ?_
  rcases h with ⟨ha, hb⟩ | ⟨ha, hb⟩
  · exact List.mem_flatMap.mpr ⟨a, ha, List.mem_flatMap.mpr ⟨b, hb, by simp⟩⟩
  · exact List.mem_flatMap.mpr ⟨b, hb, List.mem_flatMap.mpr ⟨a, ha, by simp⟩⟩

/-- The states of a run. -/
def Visits (start : Sim ρ) (es : List (Transition (Sim ρ) Call)) (sim : Sim ρ) : Prop :=
  sim = start ∨ ∃ e ∈ es, e.after = sim

/-- In a run the groups are isolated: nothing is handed over from one to the
other, and no route between them is reported. -/
structure Isolates (groupA groupB : List NodeId) (start : Sim ρ)
    (es : List (Transition (Sim ρ) Call)) : Prop where
  deliveries : ∀ e ∈ es, ∀ msg, e.before.Handed e.label msg →
    ¬ Across groupA groupB msg.fromId msg.toId
  routes : ∀ sim, Visits start es sim → ¬ sim.RoutesAcross groupA groupB

/-- **Partitions and isolation.**  After a partition of all nodes into two
groups, in any rounds of deliveries and repairs: no message is handed over to the
other side, and the groups are isolated exactly when no state has a live slot
across. -/
theorem partition_isolation_iff (sim : Sim ρ) (groupA groupB : List NodeId)
    (hdisjoint : groupA.Disjoint groupB) (hcover : ∀ id ∈ sim.nodes, id ∈ groupA ∨ id ∈ groupB)
    {es : List (Transition (Sim ρ) Call)} {final : Sim ρ}
    (run : Trace Step (sim.partition groupA groupB) es final)
    (hrounds : ∀ e ∈ es, e.label.IsRound) :
    (∀ e ∈ es, ∀ msg, e.before.Handed e.label msg → ¬ Across groupA groupB msg.fromId msg.toId) ∧
      (Isolates groupA groupB (sim.partition groupA groupB) es ↔
        ∀ s, Visits (sim.partition groupA groupB) es s → ¬ s.SlotAcross groupA groupB) := by
  have hnet : ∀ pre s, Trace Step (sim.partition groupA groupB) pre s →
      (∀ e ∈ pre, e.label.IsRound) → SameNet (sim.partition groupA groupB) s := by
    intro pre s hrun hpre
    exact hrun.invariant_of_all
      (fun e hstep hbefore hround => hbefore.trans (net_of_round hround hstep))
      (SameNet.refl _) hpre
  have hvisited : ∀ s, Visits (sim.partition groupA groupB) es s →
      SameNet (sim.partition groupA groupB) s := by
    rintro s (rfl | ⟨e, he, rfl⟩)
    · exact SameNet.refl _
    · obtain ⟨pre, post, rfl, hpre, hstep, _⟩ := run.split he
      refine hnet _ _ (hpre.snoc hstep) ?_
      intro e' he'
      rcases List.mem_append.mp he' with hin | hlast
      · exact hrounds e' (List.mem_append_left _ hin)
      · rw [List.mem_singleton.mp hlast]
        exact hrounds e he
  have hroutes : ∀ s, Visits (sim.partition groupA groupB) es s →
      (s.RoutesAcross groupA groupB ↔ s.SlotAcross groupA groupB) := by
    intro s hs
    exact routesAcross_iff hdisjoint fun id hid =>
      hcover id (((hvisited s hs).nodes id).mp hid)
  have hdeliveries : ∀ e ∈ es, ∀ msg, e.before.Handed e.label msg →
      ¬ Across groupA groupB msg.fromId msg.toId := by
    intro e he msg hhanded hacross
    obtain ⟨pre, post, rfl, hpre, _, _⟩ := run.split he
    have hbefore := hnet pre e.before hpre fun e' he' =>
      hrounds e' (List.mem_append_left _ he')
    have hfree := not_partitioned_of_handed hhanded
    rw [isPartitioned, hbefore.partitioned, ← isPartitioned,
      isPartitioned_of_across hacross] at hfree
    cases hfree
  refine ⟨hdeliveries, ?_, ?_⟩
  · intro h s hs hslot
    exact h.routes s hs ((hroutes s hs).mpr hslot)
  · intro h
    exact ⟨hdeliveries, fun s hs hroute => h s hs ((hroutes s hs).mp hroute)⟩

end Deliveries

end Sim

/-- Two nodes that have been introduced. -/
def greeting : Sim Unit :=
  ((@Sim.introduce Unit checksumCrypto twoNodes (sampleId 1) (sampleId 2)).getD twoNodes)

/-- Two nodes that have taken in each other's hello. -/
def acquainted : Sim Unit :=
  @Sim.step Unit checksumCrypto evenDice (fun _ => 0) greeting

/-- The two sides of the example have no node in common. -/
theorem disjoint_sides : [sampleId 1].Disjoint [sampleId 2] := by
  rw [List.singleton_disjoint]
  decide +kernel

/-- The two sides of the example cover its nodes, which are checked entry by
entry. -/
theorem sides_cover {sim : Sim Unit} (h : sim.nodes.keys = [sampleId 2, sampleId 1]) :
    ∀ id ∈ sim.nodes, id ∈ [sampleId 1] ∨ id ∈ [sampleId 2] := by
  intro id hid
  have hkey : id ∈ sim.nodes.keys := AList.mem_keys.mp hid
  rw [h] at hkey
  simpa [or_comm] using hkey

/-- Without slots there is no slot across, so nothing has to be known of the
sides. -/
theorem not_slotAcross_of_empty {sim : Sim Unit} {groupA groupB : List NodeId}
    (h : (HashMap.values sim.nodes).all fun n => n.table.slots.isEmpty) :
    ¬ sim.SlotAcross groupA groupB := by
  rintro ⟨id, node, s, hnode, hs, _⟩
  have hempty := List.all_eq_true.mp h node (HashMap.mem_values.mpr ⟨id, hnode⟩)
  have hslot : s ∈ node.table.slots := List.mem_of_mem_filter hs
  rw [List.isEmpty_iff.mp hempty] at hslot
  cases hslot

/-- Two nodes that are parted before they have met stay isolated, although their
hellos are in flight. -/
theorem hellos_blocked :
    let parted := greeting.partition [sampleId 1] [sampleId 2]
    @Sim.Isolates Unit checksumCrypto evenDice [sampleId 1] [sampleId 2] parted
      [⟨parted, .step (fun _ => 0),
        @Sim.step Unit checksumCrypto evenDice (fun _ => 0) parted⟩] := by
  have hnone : ∀ s, @Sim.Visits Unit (greeting.partition [sampleId 1] [sampleId 2])
      [⟨greeting.partition [sampleId 1] [sampleId 2], .step (fun _ => 0),
        @Sim.step Unit checksumCrypto evenDice (fun _ => 0)
          (greeting.partition [sampleId 1] [sampleId 2])⟩] s →
        ¬ s.SlotAcross [sampleId 1] [sampleId 2] := by
    rintro s (rfl | ⟨e, he, rfl⟩)
    · exact not_slotAcross_of_empty (by decide +kernel)
    · rw [List.mem_singleton.mp he]
      exact not_slotAcross_of_empty (by decide +kernel)
  exact (@Sim.partition_isolation_iff Unit checksumCrypto evenDice greeting [sampleId 1]
    [sampleId 2] disjoint_sides (sides_cover (by decide +kernel)) _ _
    (Trace.single (@Sim.Step.step Unit checksumCrypto evenDice _ _))
    (fun e he => by rw [List.mem_singleton.mp he]; trivial)).2.mpr hnone

/-- **Routes across a partition.**  Two nodes that have met are parted, and a
route from one to the other is still reported. -/
theorem route_across_reported :
    ¬ ∀ (sim : Sim Unit) (groupA groupB : List NodeId), groupA.Disjoint groupB →
      (∀ id ∈ sim.nodes, id ∈ groupA ∨ id ∈ groupB) →
        ∀ es final, @Trace _ _ (@Sim.Step Unit checksumCrypto evenDice)
            (sim.partition groupA groupB) es final →
          (∀ e ∈ es, e.label.IsRound) →
            @Sim.Isolates Unit checksumCrypto evenDice groupA groupB
              (sim.partition groupA groupB) es := by
  intro h
  have hisolates := h acquainted [sampleId 1] [sampleId 2] disjoint_sides
    (sides_cover (by decide +kernel)) [] _ .nil (fun e he => nomatch he)
  refine @Sim.Isolates.routes Unit checksumCrypto evenDice _ _ _ _ hisolates _ (Or.inl rfl) ?_
  exact ⟨sampleId 1, sampleId 2, Or.inl ⟨by decide, by decide⟩, Or.inl (by decide +kernel)⟩

end Zona
