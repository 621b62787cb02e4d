import Zona.NetworkSimulators

/-!
# When a simulator comes to rest

Without losses by chance, the queue of a simulator runs empty unless a hello is
in flight between two nodes that reach each other: such a hello is answered by
a hello the other way, and so on.  A `Live` message is one of these;
`quiescent_iff` is the equivalence, for reachable simulators, and half of it
holds of any simulator.

A message that is not live has a rank, which its replies fall short of: the
length of the chain it can set off, or for a hello whether it arrives.
-/

namespace Zona

namespace Sim

variable {ρ : Type}

/-- A message from the first node arrives at the second one, chance apart. -/
def Reaches (sim : Sim ρ) (a b : NodeId) : Prop :=
  b ∈ sim.nodes ∧ sim.isPartitioned a b = false

instance (sim : Sim ρ) (a b : NodeId) : Decidable (sim.Reaches a b) :=
  inferInstanceAs (Decidable (_ ∧ _))

/-- A hello between two nodes that reach each other. -/
def Live (sim : Sim ρ) (msg : InFlight) : Prop :=
  msg.envelope.body.isHello = true ∧ sim.Reaches msg.fromId msg.toId ∧
    sim.Reaches msg.toId msg.fromId

/-- The rank of a message that is not live. -/
def rank (sim : Sim ρ) (msg : InFlight) : Nat :=
  if msg.envelope.body.isHello then if sim.Reaches msg.fromId msg.toId then 2 else 1
  else msg.envelope.chainLength

/-- Two states of one network: the same nodes, partitions and odds. -/
structure SameNet (sim sim' : Sim ρ) : Prop where
  nodes : ∀ id, id ∈ sim'.nodes ↔ id ∈ sim.nodes
  partitioned : sim'.partitioned = sim.partitioned
  dropProb : sim'.dropProb = sim.dropProb

namespace SameNet

variable {sim sim' sim'' : Sim ρ}

theorem refl (sim : Sim ρ) : SameNet sim sim :=
  ⟨fun _ => Iff.rfl, rfl, rfl⟩

theorem trans (h : SameNet sim sim') (h' : SameNet sim' sim'') : SameNet sim sim'' :=
  ⟨fun id => (h'.nodes id).trans (h.nodes id), h'.partitioned.trans h.partitioned,
    h'.dropProb.trans h.dropProb⟩

/-- Simulators with the same network have the same connections. -/
theorem reaches_iff (h : SameNet sim sim') (a b : NodeId) :
    sim'.Reaches a b ↔ sim.Reaches a b := by
  unfold Reaches isPartitioned
  rw [h.nodes b, h.partitioned]

/-- Simulators with the same network have the same live messages. -/
theorem live_iff (h : SameNet sim sim') (msg : InFlight) : sim'.Live msg ↔ sim.Live msg := by
  unfold Live
  rw [h.reaches_iff, h.reaches_iff]

end SameNet

variable [Crypto]

/-- Handling the first message may put the second one in flight. -/
def Causes (sim : Sim ρ) (msg m : InFlight) : Prop :=
  sim.Reaches msg.fromId msg.toId ∧
    ∃ (n : Node) (now : Nat), ∃ sent ∈ (n.handleEnvelope now msg.fromId msg.envelope).out,
      m = ⟨sent.1, msg.toId, sent.2⟩

variable [Rng ρ]

/-- **What a delivery does** when nothing is lost by chance: nothing, or the
node at the destination handles the message. -/
theorem deliver_cases {sim : Sim ρ} (hdrop : sim.dropProb = 0.0) (now : Nat) (msg : InFlight) :
    (¬ sim.Reaches msg.fromId msg.toId ∧ ∃ r, sim.deliver now msg = { sim with rng := r }) ∨
      (sim.Reaches msg.fromId msg.toId ∧ ∃ r n, sim.nodes.lookup msg.toId = some n ∧
        sim.deliver now msg =
          { sim with
            rng := r
            nodes := sim.nodes.put msg.toId
              (n.handleEnvelope now msg.fromId msg.envelope).node
            queue := sim.queue ++
              launched msg.toId (n.handleEnvelope now msg.fromId msg.envelope).out }) := by
  unfold deliver Reaches
  cases hpartitioned : sim.isPartitioned msg.fromId msg.toId with
  | true => exact Or.inl ⟨(fun h => nomatch h.2), sim.rng, rfl⟩
  | false =>
      have hkept : ¬ (Rng.gen sim.rng).1 < sim.dropProb := by
        rw [hdrop]
        exact Rng.gen_nonneg sim.rng
      rw [if_neg Bool.false_ne_true]
      dsimp only
      rw [if_neg hkept]
      unfold handOver
      dsimp only
      cases hnode : sim.nodes.lookup msg.toId with
      | none =>
          refine Or.inl ⟨fun h => ?_, _, rfl⟩
          have hsome := AList.lookup_isSome.mpr h.1
          rw [hnode] at hsome
          cases hsome
      | some n =>
          have hmem : msg.toId ∈ sim.nodes := HashMap.mem_of_lookup hnode
          exact Or.inr ⟨⟨hmem, rfl⟩, _, n, rfl, rfl⟩

/-- A delivery changes neither the partitions nor the set of nodes. -/
theorem sameNet_deliver {sim : Sim ρ} (hdrop : sim.dropProb = 0.0) (now : Nat)
    (msg : InFlight) : SameNet sim (sim.deliver now msg) := by
  rcases deliver_cases hdrop now msg with ⟨_, r, hsame⟩ | ⟨hreaches, r, n, _, hdelivered⟩
  · rw [hsame]
    exact ⟨fun _ => Iff.rfl, rfl, rfl⟩
  · rw [hdelivered]
    refine ⟨?_, rfl, rfl⟩
    intro id
    rw [HashMap.mem_put]
    constructor
    · rintro (rfl | hin)
      · exact hreaches.1
      · exact hin
    · exact Or.inr

/-- What is in the queue after a delivery was there before or was caused by it,
as no message is made up. -/
theorem mem_queue_deliver {sim : Sim ρ} (hdrop : sim.dropProb = 0.0) {now : Nat}
    {msg m : InFlight} (hm : m ∈ (sim.deliver now msg).queue) :
    m ∈ sim.queue ∨ sim.Causes msg m := by
  rcases deliver_cases hdrop now msg with ⟨_, r, hsame⟩ | ⟨hreaches, r, n, _, hdelivered⟩
  · rw [hsame] at hm
    exact Or.inl hm
  · rw [hdelivered] at hm
    rcases List.mem_append.mp hm with hold | hnew
    · exact Or.inl hold
    · obtain ⟨sent, hsent, rfl⟩ := List.mem_map.mp hnew
      exact Or.inr ⟨hreaches, n, now, sent, hsent, rfl⟩

/-- A delivery takes nothing out of the queue, as the messages of a round were
taken out when it began. -/
theorem queue_subset_deliver {sim : Sim ρ} (hdrop : sim.dropProb = 0.0) (now : Nat)
    (msg : InFlight) : sim.queue ⊆ (sim.deliver now msg).queue := by
  intro m hm
  rcases deliver_cases hdrop now msg with ⟨_, r, hsame⟩ | ⟨_, r, n, _, hdelivered⟩
  · rw [hsame]
    exact hm
  · rw [hdelivered]
    exact List.mem_append_left _ hm

/-- The deliveries of a round, seen from its beginning. -/
theorem foldl_deliver_spec (clock : Nat → Nat) (batch : List (InFlight × Nat)) {sim : Sim ρ}
    (hdrop : sim.dropProb = 0.0) :
    SameNet sim (batch.foldl (fun s p => s.deliver (clock p.2) p.1) sim) ∧
      sim.queue ⊆ (batch.foldl (fun s p => s.deliver (clock p.2) p.1) sim).queue ∧
        ∀ m ∈ (batch.foldl (fun s p => s.deliver (clock p.2) p.1) sim).queue,
          m ∈ sim.queue ∨ ∃ p ∈ batch, sim.Causes p.1 m := by
  induction batch generalizing sim with
  | nil => exact ⟨SameNet.refl sim, fun _ h => h, fun _ h => Or.inl h⟩
  | cons p rest ih =>
      have hfirst := sameNet_deliver hdrop (clock p.2) p.1
      obtain ⟨hrest, hkeeps, hfrom⟩ := ih (hfirst.dropProb.trans hdrop)
      refine ⟨hfirst.trans hrest,
        fun m hm => hkeeps (queue_subset_deliver hdrop _ _ hm), ?_⟩
      intro m hm
      rcases hfrom m hm with hearlier | ⟨q, hq, hreaches, hhandled⟩
      · rcases mem_queue_deliver hdrop hearlier with hold | hcaused
        · exact Or.inl hold
        · exact Or.inr ⟨p, List.mem_cons_self, hcaused⟩
      · exact Or.inr ⟨q, List.mem_cons_of_mem p hq, (hfirst.reaches_iff _ _).mp hreaches,
          hhandled⟩

/-- **What is in flight after a round** was caused by what was before, and the
network itself is the same. -/
theorem step_spec (clock : Nat → Nat) {sim : Sim ρ} (hdrop : sim.dropProb = 0.0) :
    SameNet sim (sim.step clock) ∧
      ∀ m ∈ (sim.step clock).queue, ∃ msg ∈ sim.queue, sim.Causes msg m := by
  have hstart : ({ sim with ticks := sim.ticks + 1, queue := [] } : Sim ρ).dropProb = 0.0 := hdrop
  obtain ⟨hsame, _, hfrom⟩ := foldl_deliver_spec clock sim.queue.zipIdx hstart
  refine ⟨⟨hsame.nodes, hsame.partitioned, hsame.dropProb⟩, ?_⟩
  intro m hm
  rcases hfrom m hm with hnone | ⟨p, hp, hcaused⟩
  · cases hnone
  · have hin : p.1 ∈ sim.queue :=
      List.mem_of_getElem? (List.mem_zipIdx_iff_getElem?.mp hp)
    exact ⟨p.1, hin, hcaused⟩

omit [Rng ρ] in
/-- **Rank.**  What a message causes falls short of its rank, and is not live,
unless the message is. -/
theorem rank_lt_of_causes {sim : Sim ρ} {msg m : InFlight} (hdead : ¬ sim.Live msg)
    (h : sim.Causes msg m) : sim.rank m < sim.rank msg ∧ ¬ sim.Live m := by
  obtain ⟨hreaches, n, now, sent, hsent, rfl⟩ := h
  unfold rank Live
  dsimp only
  cases hbody : msg.envelope.body.isHello with
  | true =>
      obtain ⟨hpeer, hhello, _⟩ := Node.hello_out hbody hsent
      have hlost : ¬ sim.Reaches msg.toId msg.fromId :=
        fun hback => hdead ⟨hbody, hreaches, hback⟩
      rw [hpeer, hhello, if_pos rfl, if_pos rfl, if_neg hlost, if_pos hreaches]
      exact ⟨Nat.lt_succ_self 1, fun hlive => hlost hlive.2.1⟩
  | false =>
      obtain ⟨hother, hshort⟩ := Node.out_shorter hbody sent hsent
      rw [hother, if_neg Bool.false_ne_true, if_neg Bool.false_ne_true]
      exact ⟨hshort, fun hlive => nomatch hlive.1⟩

/-- **Rest.**  Without a live message in flight, any simulator comes to rest,
because every chain of replies is shorter than the one before. -/
theorem exists_rest {sim : Sim ρ} (hdrop : sim.dropProb = 0.0) (clock : Nat → Nat → Nat)
    (hdead : ∀ msg ∈ sim.queue, ¬ sim.Live msg) :
    ∃ k, (sim.runSteps clock k).queue = [] := by
  have hround : ∀ (k : Nat) (t : Sim ρ),
      (SameNet sim t ∧ ∀ m ∈ t.queue, ¬ sim.Live m) →
        SameNet sim (t.step (clock k)) ∧ ∀ m ∈ (t.step (clock k)).queue,
          ∃ msg ∈ t.queue, sim.rank m < sim.rank msg ∧ ¬ sim.Live m := by
    rintro k t ⟨hsame, hquiet⟩
    obtain ⟨hstep, hfrom⟩ := step_spec (clock k) (hsame.dropProb.trans hdrop)
    refine ⟨hsame.trans hstep, ?_⟩
    intro m hm
    obtain ⟨msg, hmsg, hreaches, hhandled⟩ := hfrom m hm
    exact ⟨msg, hmsg, rank_lt_of_causes (hquiet msg hmsg)
      ⟨(hsame.reaches_iff _ _).mp hreaches, hhandled⟩⟩
  refine @Rounds.exists_empty (Sim ρ) InFlight (fun k => step (clock k)) queue
    (fun t => SameNet sim t ∧ ∀ m ∈ t.queue, ¬ sim.Live m) sim sim.rank ?_ ?_
    ⟨SameNet.refl sim, hdead⟩
  · intro k t ht
    obtain ⟨hsame, hless⟩ := hround k t ht
    refine ⟨hsame, ?_⟩
    intro m hm
    obtain ⟨_, _, _, hdead'⟩ := hless m hm
    exact hdead'
  · intro k t ht m hm
    obtain ⟨msg, hmsg, hrank, _⟩ := (hround k t ht).2 m hm
    exact ⟨msg, hmsg, hrank⟩

omit [Rng ρ] in
/-- No two keys hash to the identifier of one of the nodes. -/
def KeysDistinct (sim : Sim ρ) : Prop :=
  ∀ id ∈ sim.nodes, ∀ key key', deriveNodeId key = id → deriveNodeId key' = id → key = key'

/-- A genuine hello passes the guard of any node. -/
theorem admits_of_genuine {id : NodeId} {n : Node} (hmade : n.MadeFor id) {msg : InFlight}
    (hhello : msg.envelope.body.isHello = true) (hgenuine : msg.Genuine)
    (hkeys : ∀ key key', deriveNodeId key = msg.fromId → deriveNodeId key' = msg.fromId →
      key = key') : n.admits msg.fromId msg.envelope = true := by
  refine Node.admits_iff.mpr ?_
  rcases hgenuine hhello with hunsigned | ⟨key, hkey, hauthentic⟩
  · exact Or.inl hunsigned
  · cases hget : n.store.get msg.fromId with
    | none => exact Or.inr (Or.inr ⟨rfl, hhello⟩)
    | some cached =>
        obtain ⟨hid, hverify⟩ := hmade.store _ _ hget
        have hcached : deriveNodeId cached.descriptor.pubkey = msg.fromId :=
          (verifyDescriptor_ok.mp hverify).1.trans hid
        refine Or.inr (Or.inl ⟨cached, hget, ?_⟩)
        rw [hkeys _ _ hcached hkey]
        exact hauthentic

/-- A live hello is answered by a live hello. -/
theorem deliver_live {sim : Sim ρ} (hdrop : sim.dropProb = 0.0) (hsane : sim.Sane)
    (hkeys : sim.KeysDistinct) (now : Nat) {msg : InFlight} (hgenuine : msg.Genuine)
    (hlive : sim.Live msg) : ∃ m ∈ (sim.deliver now msg).queue, sim.Live m := by
  obtain ⟨hhello, hthere, hback⟩ := hlive
  rcases deliver_cases hdrop now msg with ⟨hlost, _⟩ | ⟨_, r, n, hnode, hdelivered⟩
  · exact (hlost hthere).elim
  · have hadmits := admits_of_genuine (hsane.nodes _ _ hnode) hhello hgenuine
      (hkeys _ hback.1)
    obtain ⟨answer, hout, hanswer, _⟩ := @Node.hello_answered _ n now _ _ hhello hadmits
    refine ⟨⟨msg.fromId, msg.toId, answer⟩, ?_, hanswer, hback, hthere⟩
    rw [hdelivered, hout]
    exact List.mem_append_right _ (List.mem_singleton.mpr rfl)

/-- **A live hello outlasts every round**: it is answered by a hello, which is
live too, so the queue never runs dry. -/
theorem step_live (hsound : Crypto.Sound ‹Crypto›) {sim : Sim ρ} (hdrop : sim.dropProb = 0.0)
    (hsane : sim.Sane) (hkeys : sim.KeysDistinct) (clock : Nat → Nat)
    (hlive : ∃ msg ∈ sim.queue, sim.Live msg) :
    ∃ m ∈ (sim.step clock).queue, sim.Live m := by
  obtain ⟨msg, hmsg, hlive⟩ := hlive
  obtain ⟨i, hi⟩ := List.getElem?_of_mem hmsg
  obtain ⟨pre, post, hsplit⟩ :=
    List.append_of_mem (List.mem_zipIdx_iff_getElem? (x := (msg, i)) |>.mpr hi)
  unfold step
  rw [hsplit, List.foldl_append, List.foldl_cons]
  -- the messages before this one, this one, and those after it
  have hstart : ({ sim with ticks := sim.ticks + 1, queue := [] } : Sim ρ).dropProb = 0.0 := hdrop
  have hsane₀ : ({ sim with ticks := sim.ticks + 1, queue := [] } : Sim ρ).Sane :=
    ⟨hsane.nodes, by simp⟩
  obtain ⟨hsame, _, _⟩ := foldl_deliver_spec clock pre hstart
  have hsane₁ := sane_foldl_deliver hsound clock pre hsane₀
  revert hsame hsane₁
  generalize pre.foldl (fun s p => s.deliver (clock p.2) p.1)
    { sim with ticks := sim.ticks + 1, queue := [] } = turn
  intro hsame hsane₁
  have hsame₁ : SameNet sim turn := ⟨hsame.nodes, hsame.partitioned, hsame.dropProb⟩
  have hdrop₁ := hsame₁.dropProb.trans hdrop
  have hkeys₁ : turn.KeysDistinct := fun id hid => hkeys id ((hsame₁.nodes id).mp hid)
  obtain ⟨m, hm, hanswer⟩ := deliver_live hdrop₁ hsane₁ hkeys₁ (clock i)
    (hsane.queue msg hmsg) ((hsame₁.live_iff msg).mpr hlive)
  have hdrop₂ := (sameNet_deliver hdrop₁ (clock i) msg).dropProb.trans hdrop₁
  obtain ⟨_, hkeeps, _⟩ := foldl_deliver_spec clock post hdrop₂
  exact ⟨m, hkeeps hm, (hsame₁.live_iff m).mp hanswer⟩

/-- With a live message in flight a sane simulator never comes to rest. -/
theorem never_rests (hsound : Crypto.Sound ‹Crypto›) {sim : Sim ρ} (hdrop : sim.dropProb = 0.0)
    (hsane : sim.Sane) (hkeys : sim.KeysDistinct) (clock : Nat → Nat → Nat)
    (hlive : ∃ msg ∈ sim.queue, sim.Live msg) (k : Nat) :
    (sim.runSteps clock k).queue ≠ [] := by
  refine @Rounds.never_empty (Sim ρ) InFlight (fun k => step (clock k)) queue
    (fun t => SameNet sim t ∧ t.Sane) sim sim.Live ?_ ⟨SameNet.refl sim, hsane⟩ hlive k
  rintro k t ⟨hsame, hsane'⟩ ⟨msg, hmsg, hlive'⟩
  have hdrop' := hsame.dropProb.trans hdrop
  have hkeys' : t.KeysDistinct := fun id hid => hkeys id ((hsame.nodes id).mp hid)
  obtain ⟨m, hm, hanswer⟩ := step_live hsound hdrop' hsane' hkeys' (clock k)
    ⟨msg, hmsg, (hsame.live_iff msg).mpr hlive'⟩
  exact ⟨⟨hsame.trans (step_spec (clock k) hdrop').1, sane_step hsound hsane' (clock k)⟩,
    m, hm, (hsame.live_iff m).mp hanswer⟩

/-- **When a simulator comes to rest.**  Without losses by chance, any
simulator does when no hello is in flight between two nodes that reach each
other; a reachable one, given signatures that verify and nodes whose
identifiers belong to one key each, does exactly then. -/
theorem quiescent_iff {sim : Sim ρ} (hdrop : sim.dropProb = 0.0) (clock : Nat → Nat → Nat) :
    ((∀ msg ∈ sim.queue, ¬ sim.Live msg) → ∃ k, (sim.runSteps clock k).queue = []) ∧
      (Crypto.Sound ‹Crypto› → sim.KeysDistinct → sim.IsReachable →
        ((∃ k, (sim.runSteps clock k).queue = []) ↔ ∀ msg ∈ sim.queue, ¬ sim.Live msg)) := by
  refine ⟨exists_rest hdrop clock, ?_⟩
  intro hsound hkeys hreachable
  constructor
  · rintro ⟨k, hempty⟩ msg hmsg hlive
    exact never_rests hsound hdrop (sane_of_reachable hsound hreachable) hkeys clock
      ⟨msg, hmsg, hlive⟩ k hempty
  · exact exists_rest hdrop clock

omit [Rng ρ] in
/-- An introduction puts a live hello in flight, unless the two are
partitioned. -/
theorem introduce_live {sim sim' : Sim ρ} {a b : NodeId} (h : sim.introduce a b = some sim')
    (hthere : sim.isPartitioned a b = false) (hback : sim.isPartitioned b a = false) :
    sim'.dropProb = sim.dropProb ∧ sim'.nodes = sim.nodes ∧
      ∃ msg ∈ sim'.queue, sim'.Live msg := by
  unfold introduce at h
  cases ha : sim.nodes.lookup a with
  | none =>
      rw [ha] at h
      cases h
  | some nodeA =>
      cases hb : sim.nodes.lookup b with
      | none =>
          rw [ha, hb] at h
          cases h
      | some nodeB =>
          have hina : a ∈ sim.nodes := HashMap.mem_of_lookup ha
          have hinb : b ∈ sim.nodes := HashMap.mem_of_lookup hb
          rw [ha, hb] at h
          dsimp only [enqueue] at h
          rw [ha] at h
          dsimp only at h
          rw [hb] at h
          rw [← Option.some.inj h]
          exact ⟨rfl, rfl, _, List.mem_append_left _ (List.mem_append_right _
            (List.mem_singleton.mpr rfl)), rfl, ⟨hinb, hthere⟩, hina, hback⟩

end Sim

/-- Dice that always show one half. -/
@[reducible]
def evenDice : Rng Unit where
  gen _ := (0.5, ())
  gen_nonneg _ := by decide +kernel
  gen_lt_one _ := by decide +kernel

/-- The identifier of the sample node of this number. -/
def sampleId (k : UInt8) : NodeId :=
  (@NodeKeypair.fromSeed checksumCrypto (Bytes.replicate 32 k)).nodeId

/-- A simulator with two nodes. -/
def twoNodes : Sim Unit :=
  ((((Sim.new () 0.0).addNode
    (@NodeKeypair.fromSeed checksumCrypto (Bytes.replicate 32 1))).2).addNode
      (@NodeKeypair.fromSeed checksumCrypto (Bytes.replicate 32 2))).2

/-- What is one call away from the two nodes can be reached. -/
theorem twoNodes_reachable {sim : Sim Unit} {call : Sim.Call}
    (h : @Sim.Step Unit checksumCrypto evenDice twoNodes call sim) :
    @Sim.IsReachable Unit checksumCrypto evenDice sim :=
  ⟨(), 0.0, _, .snoc (.snoc (.snoc .nil (@Sim.Step.addNode Unit checksumCrypto evenDice _ _))
    (@Sim.Step.addNode Unit checksumCrypto evenDice _ _)) h⟩

/-- In the examples different seeds give different identifiers, which makes the
keys distinct. -/
theorem sample_keysDistinct (sim : Sim Unit) : @Sim.KeysDistinct Unit checksumCrypto sim :=
  fun _ _ _ _ hkey hkey' => checksumCrypto_injective (hkey.trans hkey'.symm)

/-- A ping between two nodes comes to rest. -/
theorem ping_rests :
    ∃ k, (@Sim.runSteps Unit checksumCrypto evenDice (fun _ _ => 0)
      (twoNodes.enqueue (sampleId 1) (sampleId 2) (.ping 5)) k).queue = [] :=
  ((@Sim.quiescent_iff Unit checksumCrypto evenDice
    (twoNodes.enqueue (sampleId 1) (sampleId 2) (.ping 5)) (by decide +kernel)
      (fun _ _ => 0)).2 checksumCrypto_sound (sample_keysDistinct _)
        (twoNodes_reachable (@Sim.Step.enqueue Unit checksumCrypto evenDice _ _ _ _))).mpr (by
    unfold Sim.Live
    decide +kernel)

/-- **Two introduced nodes greet each other for ever**: a greeting is answered
by a greeting, in every round. -/
theorem hellos_without_end :
    ¬ ∀ sim : Sim Unit, @Sim.IsReachable Unit checksumCrypto evenDice sim →
      sim.dropProb = 0.0 → ∀ clock : Nat → Nat → Nat,
        ∃ k, (@Sim.runSteps Unit checksumCrypto evenDice clock sim k).queue = [] := by
  intro hclaim
  have hsome : (@Sim.introduce Unit checksumCrypto twoNodes (sampleId 1) (sampleId 2)).isSome :=
    by decide +kernel
  obtain ⟨sim, hintro⟩ := Option.isSome_iff_exists.mp hsome
  have hreachable := twoNodes_reachable
    (@Sim.Step.introduce Unit checksumCrypto evenDice _ _ _ _ hintro)
  obtain ⟨hdrop, _, hlive⟩ := @Sim.introduce_live Unit checksumCrypto _ _ _ _ hintro
    (by decide +kernel) (by decide +kernel)
  have hzero : sim.dropProb = 0.0 := by
    rw [hdrop]
    rfl
  obtain ⟨k, hempty⟩ := hclaim sim hreachable hzero (fun _ _ => 0)
  exact @Sim.never_rests Unit checksumCrypto evenDice checksumCrypto_sound sim hzero
    (@Sim.sane_of_reachable checksumCrypto Unit evenDice checksumCrypto_sound sim hreachable)
    (sample_keysDistinct sim) (fun _ _ => 0) hlive k hempty

end Zona
