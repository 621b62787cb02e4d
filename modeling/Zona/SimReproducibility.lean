import Zona.IterationOrders
import Zona.PartitionIsolation

/-!
# Reproducible simulations

The dice of a simulator are seeded; the orders of its maps are not, nor is the
clock.  A `Shuffle` puts the maps in another order.  A script is run in a world
that says what the clock reads and how the maps are shuffled: before each
delivery, and before the nodes are enumerated for their repairs.

Deliveries look nodes up, and `handleEnvelope_alike` covers the rest.  A repair of
all nodes files the messages of one node after those of another, in the order in
which the map is iterated.

`reproducible_iff` is about all scripts: the worlds of one clock agree on every
stage of the script exactly if no repair of all nodes ever finds two nodes that
have a slot; and worlds of different clocks agree as well, as long as no lookup
is refused for its rate.
-/

namespace Zona

/-- Lists are put together the same in any order, if at most one of them has
anything in it. -/
theorem flatMap_of_perm {α β : Type} {l l' : List α} {f : α → List β} (hperm : l'.Perm l)
    (hnodup : l.Nodup) (hlone : ∀ a ∈ l, ∀ b ∈ l, f a ≠ [] → f b ≠ [] → a = b) :
    l'.flatMap f = l.flatMap f := by
  induction hperm with
  | nil => rfl
  | cons x _ ih =>
      rw [List.flatMap_cons, List.flatMap_cons, ih (List.nodup_cons.mp hnodup).2
        fun a ha b hb => hlone a (List.mem_cons_of_mem x ha) b (List.mem_cons_of_mem x hb)]
  | swap x y rest =>
      have hne : x ≠ y := by
        rintro rfl
        exact (List.nodup_cons.mp hnodup).1 List.mem_cons_self
      have hempty : f x = [] ∨ f y = [] := by
        by_contra hboth
        obtain ⟨hx, hy⟩ := not_or.mp hboth
        exact hne (hlone x List.mem_cons_self y (List.mem_cons_of_mem x List.mem_cons_self) hx hy)
      simp only [List.flatMap_cons, ← List.append_assoc]
      rcases hempty with hx | hy
      · rw [hx, List.nil_append, List.append_nil]
      · rw [hy, List.nil_append, List.append_nil]
  | trans h h' ih ih' =>
      have hmid := (h'.nodup_iff).mpr hnodup
      rw [ih hmid fun a ha b hb => hlone a (h'.mem_iff.mp ha) b (h'.mem_iff.mp hb),
        ih' hnodup hlone]

/-- What holds of the first of two related values. -/
theorem rel_and {α β : Type} {r : α → β → Prop} {P : α → Prop} {o : Option α} {o' : Option β}
    (h : Option.Rel r o o') (hP : ∀ a, o = some a → P a) :
    Option.Rel (fun a b => r a b ∧ P a) o o' := by
  cases h with
  | none => exact .none
  | some hr => exact .some ⟨hr, hP _ rfl⟩

/-- Two steps that may both panic are related one after the other: if the first
steps are related, and the second ones on related results. -/
theorem rel_bind {α β γ δ : Type} {r : α → β → Prop} {q : γ → δ → Prop} {o : Option α}
    {o' : Option β} {f : α → Option γ} {g : β → Option δ} (h : Option.Rel r o o')
    (hstep : ∀ a b, o = some a → o' = some b → r a b → Option.Rel q (f a) (g b)) :
    Option.Rel q (o.bind f) (o'.bind g) := by
  cases h with
  | none => exact .none
  | some hr => exact hstep _ _ rfl rfl hr

namespace Sim

variable {ρ : Type} {rated : Prop}

/-- The simulators differ at most in the order of the maps and, unless the nodes
are rated, in their limits. -/
structure Alike (rated : Prop) (sim sim' : Sim ρ) : Prop where
  nodes : HashMap.Related (Node.Alike rated) sim.nodes sim'.nodes
  queue : sim'.queue = sim.queue
  rng : sim'.rng = sim.rng
  dropProb : sim'.dropProb = sim.dropProb
  partitioned : sim'.partitioned = sim.partitioned
  ticks : sim'.ticks = sim.ticks

namespace Alike

variable {sim sim' sim'' : Sim ρ}

theorem refl (rated : Prop) (sim : Sim ρ) : sim.Alike rated sim :=
  ⟨.of_alike (.refl _) (Node.Alike.refl rated), rfl, rfl, rfl, rfl, rfl⟩

theorem symm (h : sim.Alike rated sim') : sim'.Alike rated sim :=
  ⟨h.nodes.symm Node.Alike.symm, h.queue.symm, h.rng.symm, h.dropProb.symm,
    h.partitioned.symm, h.ticks.symm⟩

theorem trans (h : sim.Alike rated sim') (h' : sim'.Alike rated sim'') :
    sim.Alike rated sim'' :=
  ⟨h.nodes.trans h'.nodes Node.Alike.trans, h'.queue.trans h.queue, h'.rng.trans h.rng,
    h'.dropProb.trans h.dropProb, h'.partitioned.trans h.partitioned, h'.ticks.trans h.ticks⟩

/-- Simulators that are alike with their limiters are alike without them. -/
theorem weaken (h : sim.Alike True sim') : sim.Alike rated sim' :=
  ⟨h.nodes.imp Node.Alike.weaken, h.queue, h.rng, h.dropProb, h.partitioned, h.ticks⟩

end Alike

/-- Another order of the maps of a simulator and of its nodes. -/
structure Shuffle (ρ : Type) where
  apply : Sim ρ → Sim ρ
  alike : ∀ sim : Sim ρ, sim.Alike True (apply sim)

namespace Shuffle

/-- Every map stays as it is. -/
def keep : Shuffle ρ where
  apply sim := sim
  alike sim := .refl True sim

/-- One node is enumerated first. -/
def first (id : NodeId) : Shuffle ρ where
  apply sim := { sim with nodes := sim.nodes.bringFirst id }
  alike sim :=
    ⟨.of_alike (HashMap.bringFirst_alike id sim.nodes) (Node.Alike.refl True),
      rfl, rfl, rfl, rfl, rfl⟩

theorem apply_alike {sim sim' : Sim ρ} (h : sim.Alike rated sim') (order order' : Shuffle ρ) :
    (order.apply sim).Alike rated (order'.apply sim') :=
  ((order.alike sim).weaken.symm.trans h).trans (order'.alike sim').weaken

end Shuffle

/-- The descriptors that the nodes hold have verified. -/
def StoresAuthentic [Crypto] (sim : Sim ρ) : Prop :=
  ∀ id n, sim.nodes.lookup id = some n → n.store.Authentic

section Authenticity

variable [Crypto]

theorem Alike.storesAuthentic {sim sim' : Sim ρ} (h : sim.Alike rated sim')
    (hstores : sim.StoresAuthentic) : sim'.StoresAuthentic := by
  intro id n' hlookup
  rcases h.nodes.lookup_cases id with ⟨_, hnone⟩ | ⟨n, m, hn, hm, store, _, _, rfl, hmaps⟩
  · rw [hlookup] at hnone
    cases hnone
  · rw [hlookup] at hm
    rw [Option.some.inj hm]
    exact DescriptorStore.authentic_of_alike hmaps.store (hstores id n hn)

/-- A delivery keeps the stores authentic, as a node takes up verified
descriptors only. -/
theorem storesAuthentic_deliver [Rng ρ] {sim : Sim ρ} (h : sim.StoresAuthentic) (now : Nat)
    (msg : InFlight) : (sim.deliver now msg).StoresAuthentic := by
  unfold deliver
  split
  · exact h
  · dsimp only
    split
    · exact h
    · unfold handOver
      dsimp only
      cases hnode : sim.nodes.lookup msg.toId with
      | none => exact h
      | some node =>
          have hstep : node.Step (.handleEnvelope now msg.fromId msg.envelope)
              (node.handleEnvelope now msg.fromId msg.envelope).node := rfl
          have hafter := (Node.store_improves_step hstep trivial).2 (h _ _ hnode)
          exact HashMap.forall_put h hafter

end Authenticity

section Deliveries

variable [Crypto] [Rng ρ]

/-- No lookup is refused for its rate when the message is delivered. -/
def Allows (sim : Sim ρ) (now : Nat) (msg : InFlight) : Prop :=
  sim.HandsOver msg → ∀ n, sim.nodes.lookup msg.toId = some n →
    n.Allows now msg.fromId msg.envelope

omit [Rng ρ] in
/-- Handing a message over keeps simulators alike where both read the same
clock, or where neither refuses the call. -/
theorem handOver_alike {sim sim' : Sim ρ} (h : sim.Alike rated sim')
    (hstores : sim.StoresAuthentic) {now now' : Nat} {msg : InFlight}
    (hclock : rated → now' = now)
    (hallows : ¬ rated → ∀ n n', sim.nodes.lookup msg.toId = some n →
      sim'.nodes.lookup msg.toId = some n' →
        n.Allows now msg.fromId msg.envelope ∧ n'.Allows now' msg.fromId msg.envelope) :
    (sim.handOver now msg).Alike rated (sim'.handOver now' msg) := by
  unfold handOver
  rcases h.nodes.lookup_cases msg.toId with ⟨hn, hn'⟩ | ⟨n, n', hn, hn', halike⟩
  · rw [hn, hn']
    exact h
  · have hhandled := Node.handleEnvelope_alike halike (hstores _ _ hn) hclock
      fun hrated => hallows hrated n n' hn hn'
    rw [hn, hn']
    refine ⟨h.nodes.put _ hhandled.node, ?_, h.rng, h.dropProb, h.partitioned, h.ticks⟩
    dsimp only
    rw [h.queue, hhandled.out]

/-- **Alike simulators deliver alike**, if they read the same clock or neither
refuses the message for its rate. -/
theorem deliver_alike {sim sim' : Sim ρ} (h : sim.Alike rated sim')
    (hstores : sim.StoresAuthentic) {now now' : Nat} {msg : InFlight}
    (hclock : rated → now' = now)
    (hallows : ¬ rated → sim.Allows now msg ∧ sim'.Allows now' msg) :
    (sim.deliver now msg).Alike rated (sim'.deliver now' msg) := by
  have hblocked : sim'.isPartitioned msg.fromId msg.toId =
      sim.isPartitioned msg.fromId msg.toId := by
    rw [isPartitioned, h.partitioned, ← isPartitioned]
  have hdice : (Rng.gen sim'.rng).1 < sim'.dropProb ↔ (Rng.gen sim.rng).1 < sim.dropProb := by
    rw [h.rng, h.dropProb]
  have hrolled : Alike rated { sim with rng := (Rng.gen sim.rng).2 }
      { sim' with rng := (Rng.gen sim'.rng).2 } :=
    ⟨h.nodes, h.queue, congrArg (fun r => (Rng.gen r).2) h.rng, h.dropProb, h.partitioned,
      h.ticks⟩
  unfold deliver
  dsimp only
  by_cases hparted : sim.isPartitioned msg.fromId msg.toId = true
  · rw [if_pos hparted, if_pos (hblocked.trans hparted)]
    exact h
  · have hparted' : ¬ sim'.isPartitioned msg.fromId msg.toId = true := by
      rw [hblocked]
      exact hparted
    rw [if_neg hparted, if_neg hparted']
    by_cases hdropped : (Rng.gen sim.rng).1 < sim.dropProb
    · rw [if_pos hdropped, if_pos (hdice.mpr hdropped)]
      exact hrolled
    · have hdropped' := fun hless => hdropped (hdice.mp hless)
      rw [if_neg hdropped, if_neg hdropped']
      refine handOver_alike hrolled hstores hclock ?_
      intro hrated n n' hn hn'
      obtain ⟨hfirst, hsecond⟩ := hallows hrated
      have hmem : msg.toId ∈ sim.nodes := HashMap.mem_of_lookup hn
      have hmem' : msg.toId ∈ sim'.nodes := HashMap.mem_of_lookup hn'
      exact ⟨hfirst ⟨Bool.eq_false_iff.mpr hparted, hdropped, hmem⟩ n hn,
        hsecond ⟨Bool.eq_false_iff.mpr hparted', hdropped', hmem'⟩ n' hn'⟩

/-- Deliver the message at one place of the queue. -/
def deliverIn (clock : Nat → Nat) (order : Nat → Shuffle ρ) (sim : Sim ρ)
    (p : InFlight × Nat) : Sim ρ :=
  ((order p.2).apply sim).deliver (clock p.2) p.1

/-- One delivery round.  Each message finds its own reading of the clock and its
own order of the maps. -/
def stepIn (clock : Nat → Nat) (order : Nat → Shuffle ρ) (sim : Sim ρ) : Sim ρ :=
  sim.queue.zipIdx.foldl (deliverIn clock order) { sim with ticks := sim.ticks + 1, queue := [] }

/-- Maps that keep their order: then the step with chosen orders is the step of
the source. -/
theorem stepIn_keep (clock : Nat → Nat) (sim : Sim ρ) :
    sim.stepIn clock (fun _ => .keep) = sim.step clock :=
  rfl

/-- No lookup among the messages is refused for its rate. -/
def AllowsAll (clock : Nat → Nat) (order : Nat → Shuffle ρ) :
    List (InFlight × Nat) → Sim ρ → Prop
  | [], _ => True
  | p :: rest, sim =>
      ((order p.2).apply sim).Allows (clock p.2) p.1 ∧
        AllowsAll clock order rest (sim.deliverIn clock order p)

/-- The deliveries of a round keep simulators alike and their stores authentic,
with the maps of either shuffled before each. -/
theorem foldl_deliverIn_alike {clock clock' : Nat → Nat} {order order' : Nat → Shuffle ρ}
    (batch : List (InFlight × Nat)) {sim sim' : Sim ρ} (h : sim.Alike rated sim')
    (hstores : sim.StoresAuthentic) (hclock : rated → clock' = clock)
    (hallows : ¬ rated → AllowsAll clock order batch sim ∧ AllowsAll clock' order' batch sim') :
    (batch.foldl (deliverIn clock order) sim).Alike rated
        (batch.foldl (deliverIn clock' order') sim') ∧
      (batch.foldl (deliverIn clock order) sim).StoresAuthentic := by
  induction batch generalizing sim sim' with
  | nil => exact ⟨h, hstores⟩
  | cons p rest ih =>
      have hshuffled := Shuffle.apply_alike h (order p.2) (order' p.2)
      have hstores' := ((order p.2).alike sim).storesAuthentic hstores
      have hone : (sim.deliverIn clock order p).Alike rated (sim'.deliverIn clock' order' p) :=
        deliver_alike hshuffled hstores'
          (fun hrated => congrFun (hclock hrated) p.2)
          (fun hrated => ⟨(hallows hrated).1.1, (hallows hrated).2.1⟩)
      exact ih hone (storesAuthentic_deliver hstores' _ _)
        fun hrated => ⟨(hallows hrated).1.2, (hallows hrated).2.2⟩

/-- No lookup is refused for its rate in the next round. -/
def RoundAllows (clock : Nat → Nat) (order : Nat → Shuffle ρ) (sim : Sim ρ) : Prop :=
  AllowsAll clock order sim.queue.zipIdx { sim with ticks := sim.ticks + 1, queue := [] }

/-- A whole step keeps simulators alike, since both draw the same random
numbers for the same messages. -/
theorem stepIn_alike {clock clock' : Nat → Nat} {order order' : Nat → Shuffle ρ}
    {sim sim' : Sim ρ} (h : sim.Alike rated sim') (hstores : sim.StoresAuthentic)
    (hclock : rated → clock' = clock)
    (hallows : ¬ rated → sim.RoundAllows clock order ∧ sim'.RoundAllows clock' order') :
    (sim.stepIn clock order).Alike rated (sim'.stepIn clock' order') ∧
      (sim.stepIn clock order).StoresAuthentic := by
  unfold RoundAllows at hallows
  unfold stepIn
  rw [h.queue] at hallows ⊢
  refine foldl_deliverIn_alike _ ⟨h.nodes, rfl, h.rng, h.dropProb, h.partitioned, ?_⟩ hstores
    hclock hallows
  exact congrArg (· + 1) h.ticks

end Deliveries

section Repairs

variable [Crypto]

/-- What the repair tick of a node sends. -/
def launches (sim : Sim ρ) (id : NodeId) : List InFlight :=
  match sim.nodes.lookup id with
  | none => []
  | some n => launched id n.repairTick.1

/-- At most one node has a slot. -/
def LoneTable (sim : Sim ρ) : Prop :=
  ∀ a b n m, sim.nodes.lookup a = some n → sim.nodes.lookup b = some m →
    n.table.slots ≠ [] → m.table.slots ≠ [] → a = b

/-- A node launches something in a repair exactly if its table has a slot. -/
theorem launches_ne_nil {sim : Sim ρ} {id : NodeId} :
    sim.launches id ≠ [] ↔ ∃ n, sim.nodes.lookup id = some n ∧ n.table.slots ≠ [] := by
  unfold launches
  cases hn : sim.nodes.lookup id with
  | none => simp
  | some n =>
      have hsilent := n.repairTick_silent_iff
      simp [launched, hsilent]

/-- What is sent comes from the node that sends it. -/
theorem fromId_of_launches {sim : Sim ρ} {id : NodeId} {msg : InFlight}
    (h : msg ∈ sim.launches id) : msg.fromId = id := by
  unfold launches at h
  cases hn : sim.nodes.lookup id with
  | none =>
      rw [hn] at h
      cases h
  | some n =>
      rw [hn] at h
      obtain ⟨sent, _, rfl⟩ := List.mem_map.mp h
      rfl

/-- The state after the repair ticks of some nodes. -/
structure Repaired (sim : Sim ρ) (ids : List NodeId) (s : Sim ρ) : Prop where
  queue : s.queue = sim.queue ++ ids.flatMap sim.launches
  nodes : ∀ id, s.nodes.lookup id =
    if id ∈ ids then (sim.nodes.lookup id).map fun n => n.repairTick.2 else sim.nodes.lookup id
  rng : s.rng = sim.rng
  dropProb : s.dropProb = sim.dropProb
  partitioned : s.partitioned = sim.partitioned
  ticks : s.ticks = sim.ticks

/-- The repair of one node is a repair in the sense that is proved of them all:
the nodes listed are repaired, and what they launch is appended. -/
theorem repaired_one (sim : Sim ρ) (id : NodeId) : sim.Repaired [id] (sim.repairOne id) := by
  unfold repairOne
  cases hn : sim.nodes.lookup id with
  | none =>
      refine ⟨by simp [launches, hn], ?_, rfl, rfl, rfl, rfl⟩
      intro id'
      by_cases heq : id' = id
      · rw [heq, hn, if_pos (List.mem_singleton.mpr rfl)]
        rfl
      · rw [if_neg (fun hmem => heq (List.mem_singleton.mp hmem))]
  | some n =>
      refine ⟨by simp [launches, hn], ?_, rfl, rfl, rfl, rfl⟩
      intro id'
      dsimp only
      rw [HashMap.lookup_put]
      by_cases heq : id' = id
      · rw [if_pos heq, if_pos (List.mem_singleton.mpr heq), heq, hn]
        rfl
      · rw [if_neg heq, if_neg (fun hmem => heq (List.mem_singleton.mp hmem))]

/-- The repair tick of one node is none of the business of the others. -/
theorem repaired_foldl {ids : List NodeId} (hnodup : ids.Nodup) (sim : Sim ρ) :
    sim.Repaired ids (ids.foldl repairOne sim) := by
  induction ids generalizing sim with
  | nil => exact ⟨by simp, by simp, rfl, rfl, rfl, rfl⟩
  | cons id rest ih =>
      obtain ⟨hout, hrest⟩ := List.nodup_cons.mp hnodup
      have hone := sim.repaired_one id
      have hall := ih hrest (sim.repairOne id)
      have hsame : ∀ id' ∈ rest, (sim.repairOne id).nodes.lookup id' = sim.nodes.lookup id' := by
        intro id' hid'
        rw [hone.nodes id', if_neg]
        intro hmem
        rw [List.mem_singleton.mp hmem] at hid'
        exact hout hid'
      refine ⟨?_, ?_, hall.rng.trans hone.rng, hall.dropProb.trans hone.dropProb,
        hall.partitioned.trans hone.partitioned, hall.ticks.trans hone.ticks⟩
      · have hlaunches : rest.flatMap (sim.repairOne id).launches =
            rest.flatMap sim.launches := by
          refine List.flatMap_congr fun id' hid' => ?_
          unfold launches
          rw [hsame id' hid']
        rw [List.foldl_cons, hall.queue, hone.queue, hlaunches]
        simp
      · intro id'
        rw [List.foldl_cons, hall.nodes id']
        by_cases hmem : id' ∈ rest
        · rw [if_pos hmem, if_pos (List.mem_cons_of_mem id hmem), hsame id' hmem]
        · rw [if_neg hmem, hone.nodes id']
          simp [hmem]

/-- `repair_all` repairs every node once, in the order of the keys. -/
theorem repaired_all (sim : Sim ρ) : sim.Repaired sim.nodes.keys sim.repairAll :=
  repaired_foldl sim.nodes.keys_nodup sim

/-- After `repair_all` each node is the repaired one, whatever the order was in
which the nodes were visited. -/
theorem lookup_repairAll (sim : Sim ρ) (id : NodeId) :
    sim.repairAll.nodes.lookup id =
      (sim.nodes.lookup id).map fun n => n.repairTick.2 := by
  rw [(repaired_all sim).nodes id]
  by_cases hmem : id ∈ sim.nodes.keys
  · rw [if_pos hmem]
  · have hnone : sim.nodes.lookup id = none :=
      AList.lookup_eq_none.mpr fun hin => hmem (AList.mem_keys.mp hin)
    rw [if_neg hmem, hnone]
    rfl

/-- A repair adds nothing to the stores, so they stay authentic. -/
theorem storesAuthentic_repairAll {sim : Sim ρ} (h : sim.StoresAuthentic) :
    sim.repairAll.StoresAuthentic := by
  intro id n hlookup
  rw [lookup_repairAll] at hlookup
  obtain ⟨before, hbefore, rfl⟩ := Option.map_eq_some_iff.mp hlookup
  obtain ⟨counter, metrics, hframe⟩ := Node.repairTick_snd before
  rw [hframe]
  exact h id before hbefore

/-- A node of either simulator launches the same lookups, as they are read off
its table and its identifier. -/
theorem Alike.launches_eq {sim sim' : Sim ρ} (h : sim.Alike rated sim') (id : NodeId) :
    sim'.launches id = sim.launches id := by
  unfold launches
  rcases h.nodes.lookup_cases id with ⟨hn, hn'⟩ | ⟨n, n', hn, hn', halike⟩
  · rw [hn, hn']
  · rw [hn, hn']
    dsimp only
    rw [(Node.repairTick_alike halike).1]

omit [Crypto] in
/-- If at most one node has slots in one of two simulators that are alike, the
same holds of the other. -/
theorem Alike.loneTable {sim sim' : Sim ρ} (h : sim.Alike rated sim') (hlone : sim.LoneTable) :
    sim'.LoneTable := by
  have hback : ∀ id n', sim'.nodes.lookup id = some n' →
      ∃ n, sim.nodes.lookup id = some n ∧ n'.table = n.table := by
    intro id n' hn'
    rcases h.nodes.lookup_cases id with ⟨_, hnone⟩ | ⟨n, m, hn, hm, store, _, _, rfl, _⟩
    · rw [hn'] at hnone
      cases hnone
    · rw [hn'] at hm
      rw [Option.some.inj hm]
      exact ⟨n, hn, rfl⟩
  intro a b n' m' hn' hm' hslots hslots'
  obtain ⟨n, hn, htable⟩ := hback a n' hn'
  obtain ⟨m, hm, htable'⟩ := hback b m' hm'
  rw [htable] at hslots
  rw [htable'] at hslots'
  exact hlone a b n m hn hm hslots hslots'

/-- **Alike simulators repair alike**, if at most one node has a slot: then
only one of them sends, in whatever order they are visited. -/
theorem repairAll_alike {sim sim' : Sim ρ} (h : sim.Alike rated sim') (hlone : sim.LoneTable) :
    sim.repairAll.Alike rated sim'.repairAll := by
  have hall := sim.repaired_all
  have hall' := sim'.repaired_all
  refine ⟨?_, ?_, ?_, ?_, ?_, ?_⟩
  · intro id
    rw [lookup_repairAll, lookup_repairAll]
    rcases h.nodes.lookup_cases id with ⟨hn, hn'⟩ | ⟨n, n', hn, hn', halike⟩
    · rw [hn, hn']
      exact .none
    · rw [hn, hn']
      exact .some (Node.repairTick_alike halike).2
  · have hflat : sim'.nodes.keys.flatMap sim'.launches = sim.nodes.keys.flatMap sim.launches := by
      rw [funext h.launches_eq]
      refine flatMap_of_perm h.nodes.keys_perm sim.nodes.keys_nodup ?_
      intro a _ b _ ha hb
      obtain ⟨n, hn, hslots⟩ := launches_ne_nil.mp ha
      obtain ⟨m, hm, hslots'⟩ := launches_ne_nil.mp hb
      exact hlone a b n m hn hm hslots hslots'
    rw [hall.queue, hall'.queue, h.queue, hflat]
  · rw [hall.rng, hall'.rng, h.rng]
  · rw [hall.dropProb, hall'.dropProb, h.dropProb]
  · rw [hall.partitioned, hall'.partitioned, h.partitioned]
  · rw [hall.ticks, hall'.ticks, h.ticks]

theorem queue_of_first {sim : Sim ρ} {id : NodeId} {n : Node}
    (hn : sim.nodes.lookup id = some n) (hslots : n.table.slots ≠ []) :
    ∃ msg rest, ((Shuffle.first id).apply sim).repairAll.queue = sim.queue ++ msg :: rest ∧
      msg.fromId = id := by
  obtain ⟨keys, hkeys⟩ := HashMap.keys_bringFirst hn
  have hsends : sim.launches id ≠ [] := launches_ne_nil.mpr ⟨n, hn, hslots⟩
  obtain ⟨msg, others, hlaunches⟩ := List.exists_cons_of_ne_nil hsends
  have hmsg : msg ∈ sim.launches id := by
    rw [hlaunches]
    exact List.mem_cons_self
  have halike := (Shuffle.first id).alike sim
  refine ⟨msg, others ++ keys.flatMap sim.launches, ?_, fromId_of_launches hmsg⟩
  rw [(repaired_all _).queue, halike.queue, funext halike.launches_eq]
  change sim.queue ++ (sim.nodes.bringFirst id).keys.flatMap sim.launches = _
  rw [hkeys, List.flatMap_cons, hlaunches, List.cons_append]

/-- **Two nodes with a slot** send their lookups in one order or the other,
depending on the order of the map. -/
theorem first_ne_first {sim : Sim ρ} {a b : NodeId} {n m : Node}
    (hn : sim.nodes.lookup a = some n) (hm : sim.nodes.lookup b = some m)
    (hslots : n.table.slots ≠ []) (hslots' : m.table.slots ≠ []) (hne : a ≠ b) :
    ((Shuffle.first a).apply sim).repairAll.queue ≠
      ((Shuffle.first b).apply sim).repairAll.queue := by
  obtain ⟨msg, rest, hqueue, hfrom⟩ := queue_of_first hn hslots
  obtain ⟨msg', rest', hqueue', hfrom'⟩ := queue_of_first hm hslots'
  intro hsame
  rw [hqueue, hqueue'] at hsame
  have hmsg := (List.cons.inj (List.append_cancel_left hsame)).1
  rw [hmsg] at hfrom
  exact hne (hfrom.symm.trans hfrom')

end Repairs

/-- The calls of a script. -/
inductive Command
  | addNode (keypair : NodeKeypair)
  | introduce (a b : NodeId)
  | enqueue (fromId toId : NodeId) (body : MessageKind)
  | partition (groupA groupB : List NodeId)
  | healPartition
  | killNode (id : NodeId)
  | step
  | repairAll

section Scripts

variable [Crypto] [Rng ρ]

/-- One call in a world.  An introduction of a missing node panics. -/
def perform (clock : Nat → Nat) (order : Nat → Shuffle ρ) (sim : Sim ρ) :
    Command → Option (Sim ρ)
  | .addNode keypair => some (sim.addNode keypair).2
  | .introduce a b => sim.introduce a b
  | .enqueue fromId toId body => some (sim.enqueue fromId toId body)
  | .partition groupA groupB => some (sim.partition groupA groupB)
  | .healPartition => some sim.healPartition
  | .killNode id => some (sim.killNode id).2
  | .step => some (sim.stepIn clock order)
  | .repairAll => some ((order 0).apply sim).repairAll

/-- The state after the first calls of a script, if none of them panics. -/
def after (clock : Nat → Nat → Nat) (order : Nat → Nat → Shuffle ρ) (script : List Command)
    (sim : Sim ρ) : Nat → Option (Sim ρ)
  | 0 => some sim
  | k + 1 =>
      (after clock order script sim k).bind fun s =>
        match script[k]? with
        | none => some s
        | some command => s.perform (clock k) (order k) command

omit [Crypto] [Rng ρ] in
/-- Enqueuing a message keeps simulators alike: the node that signs it has the
same counter and the same keys in both. -/
theorem enqueue_alike {sim sim' : Sim ρ} (h : sim.Alike rated sim') (fromId toId : NodeId)
    (body : MessageKind) :
    (sim.enqueue fromId toId body).Alike rated (sim'.enqueue fromId toId body) := by
  unfold enqueue
  rcases h.nodes.lookup_cases fromId with ⟨hn, hn'⟩ | ⟨n, n', hn, hn', halike⟩
  · rw [hn, hn']
    exact h
  · obtain ⟨store, limits, quorum, rfl, _⟩ := halike
    rw [hn, hn']
    refine ⟨h.nodes, ?_, h.rng, h.dropProb, h.partitioned, h.ticks⟩
    dsimp only
    rw [h.queue]
    rfl

omit [Rng ρ] in
/-- Introductions keep simulators alike, and panic in both or in neither. -/
theorem introduce_alike {sim sim' : Sim ρ} (h : sim.Alike rated sim') (a b : NodeId) :
    Option.Rel (Alike rated) (sim.introduce a b) (sim'.introduce a b) := by
  unfold introduce
  rcases h.nodes.lookup_cases a with ⟨hn, hn'⟩ | ⟨n, n', hn, hn', halike⟩
  · rw [hn, hn']
    exact .none
  · rcases h.nodes.lookup_cases b with ⟨hm, hm'⟩ | ⟨m, m', hm, hm', halike'⟩
    · rw [hn, hn', hm, hm']
      exact .none
    · obtain ⟨store, limits, quorum, rfl, _⟩ := halike
      obtain ⟨store', limits', quorum', rfl, _⟩ := halike'
      rw [hn, hn', hm, hm']
      exact .some (enqueue_alike (enqueue_alike h a b _) b a _)

omit [Rng ρ] in
/-- An introduction changes no node, as it only puts greetings into the queue. -/
theorem nodes_introduce {sim sim' : Sim ρ} {a b : NodeId} (h : sim.introduce a b = some sim') :
    sim'.nodes = sim.nodes := by
  have henqueue : ∀ (s : Sim ρ) fromId toId body, (s.enqueue fromId toId body).nodes = s.nodes := by
    intro s fromId toId body
    unfold enqueue
    cases s.nodes.lookup fromId with
    | none => rfl
    | some n => rfl
  unfold introduce at h
  split at h
  · rw [← Option.some.inj h, henqueue, henqueue]
  · cases h

/-- What a call asks of the state it finds: one table at most before the repairs
of all nodes and, unless the clocks are compared, no lookup that is refused. -/
structure Calm (rated : Prop) (clock : Nat → Nat) (order : Nat → Shuffle ρ) (sim : Sim ρ)
    (command : Command) : Prop where
  repairs : command = .repairAll → sim.LoneTable
  rounds : ¬ rated → command = .step → sim.RoundAllows clock order

/-- **One call** takes alike simulators to alike simulators, or panics in both,
where the maps and clocks are calm. -/
theorem perform_alike {clock clock' : Nat → Nat} {order order' : Nat → Shuffle ρ}
    {sim sim' : Sim ρ} (h : sim.Alike rated sim') (hstores : sim.StoresAuthentic)
    (hclock : rated → clock' = clock) {command : Command}
    (hcalm : sim.Calm rated clock order command)
    (hcalm' : sim'.Calm rated clock' order' command) :
    Option.Rel (fun s s' => s.Alike rated s' ∧ s.StoresAuthentic)
      (sim.perform clock order command) (sim'.perform clock' order' command) := by
  cases command with
  | addNode keypair =>
      have hconfig : (⟨3, sim'.ticks⟩ : NodeConfig) = ⟨3, sim.ticks⟩ := by rw [h.ticks]
      refine .some ⟨⟨?_, h.queue, h.rng, h.dropProb, h.partitioned, h.ticks⟩, ?_⟩
      · unfold addNode
        rw [hconfig]
        exact h.nodes.put _ (Node.Alike.refl rated _)
      · exact HashMap.forall_put hstores DescriptorStore.authentic_new
  | introduce a b =>
      refine rel_and (introduce_alike h a b) fun s hs => ?_
      unfold StoresAuthentic
      rw [nodes_introduce hs]
      exact hstores
  | enqueue fromId toId body =>
      refine .some ⟨enqueue_alike h fromId toId body, ?_⟩
      unfold enqueue
      cases sim.nodes.lookup fromId with
      | none => exact hstores
      | some n => exact hstores
  | partition groupA groupB =>
      refine .some ⟨⟨h.nodes, h.queue, h.rng, h.dropProb, ?_, h.ticks⟩, hstores⟩
      exact congrArg (· ++ _) h.partitioned
  | healPartition =>
      exact .some ⟨⟨h.nodes, h.queue, h.rng, h.dropProb, rfl, h.ticks⟩, hstores⟩
  | killNode id =>
      refine .some ⟨⟨h.nodes.erase id, h.queue, h.rng, h.dropProb, h.partitioned, h.ticks⟩, ?_⟩
      intro id' n hlookup
      exact hstores id' n (HashMap.lookup_of_erase hlookup)
  | step =>
      exact .some (stepIn_alike h hstores hclock
        fun hrated => ⟨hcalm.rounds hrated rfl, hcalm'.rounds hrated rfl⟩)
  | repairAll =>
      have hshuffled := Shuffle.apply_alike h (order 0) (order' 0)
      have hlone : ((order 0).apply sim).LoneTable :=
        ((order 0).alike sim).loneTable (hcalm.repairs rfl)
      exact .some ⟨repairAll_alike hshuffled hlone,
        storesAuthentic_repairAll (((order 0).alike sim).storesAuthentic hstores)⟩

/-- No repair of all nodes finds two nodes that have a slot. -/
def LoneRepairs (clock : Nat → Nat → Nat) (order : Nat → Nat → Shuffle ρ)
    (script : List Command) (sim : Sim ρ) : Prop :=
  ∀ k s, script[k]? = some .repairAll → after clock order script sim k = some s → s.LoneTable

/-- No lookup is ever refused for its rate. -/
def NoneRefused (clock : Nat → Nat → Nat) (order : Nat → Nat → Shuffle ρ)
    (script : List Command) (sim : Sim ρ) : Prop :=
  ∀ k s, script[k]? = some .step → after clock order script sim k = some s →
    s.RoundAllows (clock k) (order k)

/-- **A script** takes alike simulators to alike simulators, by induction on
the number of commands that were carried out. -/
theorem after_alike {clock clock' : Nat → Nat → Nat} {order order' : Nat → Nat → Shuffle ρ}
    {script : List Command} {sim : Sim ρ} (hstores : sim.StoresAuthentic)
    (hclock : rated → clock' = clock) (hlone : LoneRepairs clock order script sim)
    (hlone' : LoneRepairs clock' order' script sim)
    (hallows : ¬ rated → NoneRefused clock order script sim ∧
      NoneRefused clock' order' script sim) (k : Nat) :
    Option.Rel (fun s s' => s.Alike rated s' ∧ s.StoresAuthentic)
      (after clock order script sim k) (after clock' order' script sim k) := by
  induction k with
  | zero => exact .some ⟨.refl rated sim, hstores⟩
  | succ k ih =>
      refine rel_bind ih fun s s' hs hs' ⟨halike, hauthentic⟩ => ?_
      cases hcommand : script[k]? with
      | none => exact .some ⟨halike, hauthentic⟩
      | some command =>
          refine perform_alike halike hauthentic
            (fun hrated => congrFun (hclock hrated) k) ⟨?_, ?_⟩ ⟨?_, ?_⟩
          · rintro rfl
            exact hlone k s hcommand hs
          · rintro hrated rfl
            exact (hallows hrated).1 k s hcommand hs
          · rintro rfl
            exact hlone' k s' hcommand hs'
          · rintro hrated rfl
            exact (hallows hrated).2 k s' hcommand hs'

/-- What comes later does not matter yet: the state after some commands depends
on the orders up to there only. -/
theorem after_congr {clock : Nat → Nat → Nat} {order order' : Nat → Nat → Shuffle ρ}
    (script : List Command) (sim : Sim ρ) {k : Nat} (h : ∀ i < k, order' i = order i) :
    after clock order' script sim k = after clock order script sim k := by
  induction k with
  | zero => rfl
  | succ k ih =>
      unfold after
      rw [ih fun i hi => h i (Nat.lt_succ_of_lt hi), h k (Nat.lt_succ_self k)]

/-- The same messages in flight, the same tables and the same descriptors. -/
structure SameOutcome (s s' : Sim ρ) : Prop where
  queue : s'.queue = s.queue
  tables : HashMap.Related (fun n n' : Node => n'.table = n.table) s.nodes s'.nodes
  stores : HashMap.Related (fun n n' : Node => n.store.entries.Alike n'.store.entries)
    s.nodes s'.nodes

omit [Crypto] [Rng ρ] in
/-- Simulators that are alike have the same outcome: the same queue, the same
tables, and stores that hold the same descriptors. -/
theorem Alike.sameOutcome {s s' : Sim ρ} (h : s.Alike rated s') : s.SameOutcome s' := by
  refine ⟨h.queue, h.nodes.imp ?_, h.nodes.imp ?_⟩
  · rintro n n' ⟨store, limits, quorum, rfl, _⟩
    rfl
  · rintro n n' ⟨store, limits, quorum, rfl, hmaps⟩
    exact hmaps.store

/-- Two runs panic both or end in the same outcome. -/
def Agree (o o' : Option (Sim ρ)) : Prop :=
  Option.Rel SameOutcome o o'

/-- Two runs of one script stay alike, command by command, where repairs have
one node to launch from and no limiter refuses what another admits. -/
theorem after_agree {clock clock' : Nat → Nat → Nat} {order order' : Nat → Nat → Shuffle ρ}
    {script : List Command} {rng : ρ} {dropProb : Float} (rated : Prop)
    (hclock : rated → clock' = clock)
    (hlone : LoneRepairs clock order script (Sim.new rng dropProb))
    (hlone' : LoneRepairs clock' order' script (Sim.new rng dropProb))
    (hallows : ¬ rated → NoneRefused clock order script (Sim.new rng dropProb) ∧
      NoneRefused clock' order' script (Sim.new rng dropProb)) (k : Nat) :
    Agree (after clock order script (Sim.new rng dropProb) k)
      (after clock' order' script (Sim.new rng dropProb) k) := by
  have hstores : (Sim.new rng dropProb).StoresAuthentic := by
    intro id n hlookup
    cases hlookup
  have hrel := after_alike hstores hclock hlone hlone' hallows k
  unfold Agree
  generalize after clock order script (Sim.new rng dropProb) k = o at hrel
  generalize after clock' order' script (Sim.new rng dropProb) k = o' at hrel
  cases hrel with
  | none => exact .none
  | some h => exact .some h.1.sameOutcome

/-- **Reproducible simulations.**  Two runs of a script from one seed, whose maps
are iterated in any orders and which read one clock, agree on the messages in
flight, the tables and the descriptors after every call, exactly if no run of the
script comes to a repair of all nodes while two nodes have a slot.  Runs that
read different clocks agree as well, if they come to no such repair and no
lookup is refused for its rate. -/
theorem reproducible_iff (rng : ρ) (dropProb : Float) (script : List Command) :
    (∀ clock, (∀ order order' k, Agree (after clock order script (Sim.new rng dropProb) k)
        (after clock order' script (Sim.new rng dropProb) k)) ↔
      ∀ order, LoneRepairs clock order script (Sim.new rng dropProb)) ∧
    ∀ clock clock' order order',
      LoneRepairs clock order script (Sim.new rng dropProb) →
        LoneRepairs clock' order' script (Sim.new rng dropProb) →
          NoneRefused clock order script (Sim.new rng dropProb) →
            NoneRefused clock' order' script (Sim.new rng dropProb) →
              ∀ k, Agree (after clock order script (Sim.new rng dropProb) k)
                (after clock' order' script (Sim.new rng dropProb) k) := by
  refine ⟨fun clock => ⟨?_, ?_⟩, ?_⟩
  · intro hagree order k s hcommand hs a b n m hn hm hslots hslots'
    by_contra hne
    -- the run goes on with one node or the other in front
    have hfront : ∀ id, after clock (Function.update order k fun _ => .first id) script
        (Sim.new rng dropProb) (k + 1) = some ((Shuffle.first id).apply s).repairAll := by
      intro id
      have hbefore : after clock (Function.update order k fun _ => .first id) script
          (Sim.new rng dropProb) k = after clock order script (Sim.new rng dropProb) k :=
        after_congr script _ fun i hi => Function.update_of_ne (Nat.ne_of_lt hi) _ order
      unfold after
      rw [hbefore, hs, Option.bind_some, hcommand]
      dsimp only
      rw [Function.update_self]
      rfl
    have hsame := hagree (Function.update order k fun _ => .first a)
      (Function.update order k fun _ => .first b) (k + 1)
    rw [hfront a, hfront b] at hsame
    exact first_ne_first hn hm hslots hslots' hne (Option.rel_some_some.mp hsame).queue.symm
  · intro hlone order order' k
    exact after_agree True (fun _ => rfl) (hlone order) (hlone order')
      (fun hrated => absurd trivial hrated) k
  · intro clock clock' order order' hlone hlone' hallows hallows' k
    exact after_agree False (fun hrated => hrated.elim) hlone hlone'
      (fun _ => ⟨hallows, hallows'⟩) k

end Scripts

end Sim

/-- Two nodes meet, and then all nodes repair. -/
def meetAndRepair : List Sim.Command :=
  [.addNode (@NodeKeypair.fromSeed checksumCrypto (Bytes.replicate 32 1)),
    .addNode (@NodeKeypair.fromSeed checksumCrypto (Bytes.replicate 32 2)),
    .introduce (sampleId 1) (sampleId 2), .step, .repairAll]

/-- **The order of the nodes shows in the queue**, so two runs of one script
from one seed need not agree. -/
theorem repairs_in_any_order :
    ¬ ∀ (dropProb : Float) (script : List Sim.Command) (clock : Nat → Nat → Nat)
        (order order' : Nat → Nat → Sim.Shuffle Unit),
      Sim.Agree
        (@Sim.after Unit checksumCrypto evenDice clock order script (Sim.new () dropProb)
          script.length)
        (@Sim.after Unit checksumCrypto evenDice clock order' script (Sim.new () dropProb)
          script.length) := by
  intro h
  have hagree := h 0.0 meetAndRepair (fun _ _ => 0) (fun _ _ => .first (sampleId 1))
    (fun _ _ => .first (sampleId 2))
  have hsenders : ∀ {o o' : Option (Sim Unit)}, Sim.Agree o o' →
      o'.map (fun s => s.queue.map InFlight.fromId) =
        o.map fun s => s.queue.map InFlight.fromId := by
    rintro o o' (hsame | _)
    · exact congrArg (fun q => some (List.map InFlight.fromId q)) hsame.queue
    · rfl
  exact absurd (hsenders hagree) (by decide +kernel)

end Zona
