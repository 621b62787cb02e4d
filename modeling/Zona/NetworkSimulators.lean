import Zona.AuthenticAdverts
import Zona.MessageRounds
import Zona.ReplyChains

/-!
# The network simulator

A `Sim` holds nodes and the messages in flight between them, and delivers the
messages in rounds.  A message is lost when its ends are partitioned, when the
dice say so, or when nobody is at its destination; what its handling sends is
in flight from then on.

The dice are a generator of numbers from zero up to one.  Each message that is
delivered finds its own reading of the clock.

`Reachable` states come about through the operations of the simulator, the
nodes being public.  They are `Sane`: a node is filed under the hash of its
key, and a hello in flight is unsigned or signed by its sender.
-/

namespace Zona

/-- A random number generator: `gen::<f64>()` is at least zero and below one. -/
class Rng (ρ : Type) where
  gen : ρ → Float × ρ
  gen_nonneg : ∀ r, ¬ (gen r).1 < 0.0
  gen_lt_one : ∀ r, (gen r).1 < 1.0

/-- A pending in-flight message. -/
structure InFlight where
  toId : NodeId
  fromId : NodeId
  envelope : Envelope

/-- The network simulator. -/
structure Sim (ρ : Type) where
  nodes : HashMap NodeId Node
  queue : List InFlight
  rng : ρ
  dropProb : Float
  partitioned : List (NodeId × NodeId)
  ticks : UInt64

namespace Sim

variable {ρ : Type}

/-- A simulator without nodes. -/
def new (rng : ρ) (dropProb : Float) : Sim ρ where
  nodes := ∅
  queue := []
  rng := rng
  dropProb := dropProb
  partitioned := []
  ticks := 0

/-- Add a new node. -/
def addNode (sim : Sim ρ) (keypair : NodeKeypair) : NodeId × Sim ρ :=
  (keypair.nodeId,
    { sim with nodes := sim.nodes.put keypair.nodeId (Node.new keypair ⟨3, sim.ticks⟩) })

/-- Block messages between two groups of nodes. -/
def partition (sim : Sim ρ) (groupA groupB : List NodeId) : Sim ρ :=
  { sim with
    partitioned := sim.partitioned ++
      groupA.flatMap fun a => groupB.flatMap fun b => [(a, b), (b, a)] }

/-- Remove all partition rules. -/
def healPartition (sim : Sim ρ) : Sim ρ :=
  { sim with partitioned := [] }

def isPartitioned (sim : Sim ρ) (a b : NodeId) : Bool :=
  sim.partitioned.contains (a, b)

/-- Enqueue a protocol message, if its sender exists. -/
def enqueue (sim : Sim ρ) (fromId toId : NodeId) (body : MessageKind) : Sim ρ :=
  match sim.nodes.lookup fromId with
  | none => sim
  | some node =>
      { sim with
        queue := sim.queue ++
          [{ toId := toId
             fromId := fromId
             envelope :=
               { toId := toId
                 fromId := fromId
                 messageId := node.metrics.messagesForwarded + 1
                 ttl := 20
                 messageClass := .normal
                 routeFork := false
                 body := body
                 signature := [] } }] }

/-- Remove a node. -/
def killNode (sim : Sim ρ) (id : NodeId) : Bool × Sim ρ :=
  ((sim.nodes.lookup id).isSome, { sim with nodes := sim.nodes.erase id })

/-- Change the probability that a message is dropped. -/
def setDropProb (sim : Sim ρ) (p : Float) : Sim ρ :=
  { sim with dropProb := if p < 0.0 then 0.0 else if 1.0 < p then 1.0 else p }

section Delivery

variable [Crypto]

/-- Send a hello in both directions; fails when a node is missing. -/
def introduce (sim : Sim ρ) (a b : NodeId) : Option (Sim ρ) :=
  match sim.nodes.lookup a, sim.nodes.lookup b with
  | some nodeA, some nodeB =>
      some ((sim.enqueue a b (.hello (nodeA.ownDescriptor []))).enqueue b a
        (.hello (nodeB.ownDescriptor [])))
  | _, _ => none

/-- What a node sent is in flight. -/
def launched (sender : NodeId) (out : Outbox) : List InFlight :=
  out.map fun sent => ⟨sent.1, sender, sent.2⟩

/-- Deliver a message to the node it is for. -/
def handOver (sim : Sim ρ) (now : Nat) (msg : InFlight) : Sim ρ :=
  match sim.nodes.lookup msg.toId with
  | none => sim
  | some node =>
      let handled := node.handleEnvelope now msg.fromId msg.envelope
      { sim with
        nodes := sim.nodes.put msg.toId handled.node
        queue := sim.queue ++ launched msg.toId handled.out }

/-- Deliver a message unless it is lost. -/
def deliver [Rng ρ] (sim : Sim ρ) (now : Nat) (msg : InFlight) : Sim ρ :=
  if sim.isPartitioned msg.fromId msg.toId then sim
  else
    let drawn := Rng.gen sim.rng
    let rolled := { sim with rng := drawn.2 }
    if drawn.1 < sim.dropProb then rolled else rolled.handOver now msg

/-- One delivery round.  The message at each place of the queue finds its own
reading of the clock. -/
def step [Rng ρ] (clock : Nat → Nat) (sim : Sim ρ) : Sim ρ :=
  sim.queue.zipIdx.foldl (fun s p => s.deliver (clock p.2) p.1)
    { sim with ticks := sim.ticks + 1, queue := [] }

/-- Run `n` delivery rounds. -/
def runSteps [Rng ρ] (clock : Nat → Nat → Nat) (sim : Sim ρ) (n : Nat) : Sim ρ :=
  Rounds.after (fun k => step (clock k)) sim n

/-- The repair tick of one node. -/
def repairOne (sim : Sim ρ) (id : NodeId) : Sim ρ :=
  match sim.nodes.lookup id with
  | none => sim
  | some node =>
      { sim with
        nodes := sim.nodes.put id node.repairTick.2
        queue := sim.queue ++ launched id node.repairTick.1 }

/-- Repair ticks for all nodes. -/
def repairAll (sim : Sim ρ) : Sim ρ :=
  sim.nodes.keys.foldl repairOne sim

end Delivery

/-- The operations on a simulator.  Its host may also call a node directly and
set the public fields. -/
inductive Call
  | addNode (seed : Bytes 32)
  | introduce (a b : NodeId)
  | partition (groupA groupB : List NodeId)
  | healPartition
  | enqueue (fromId toId : NodeId) (body : MessageKind)
  | step (clock : Nat → Nat)
  | repairAll
  | killNode (id : NodeId)
  | setDropProb (p : Float)
  | node (id : NodeId) (call : Node.Call)
  | host (dropProb : Float) (partitioned : List (NodeId × NodeId)) (ticks : UInt64)

section Reachability

variable [Crypto]

/-- One operation. -/
inductive Step [Rng ρ] : Sim ρ → Call → Sim ρ → Prop
  | addNode {sim : Sim ρ} {seed : Bytes 32} :
      Step sim (.addNode seed) (sim.addNode (NodeKeypair.fromSeed seed)).2
  | introduce {sim sim' : Sim ρ} {a b : NodeId} (h : sim.introduce a b = some sim') :
      Step sim (.introduce a b) sim'
  | partition {sim : Sim ρ} {groupA groupB : List NodeId} :
      Step sim (.partition groupA groupB) (sim.partition groupA groupB)
  | healPartition {sim : Sim ρ} : Step sim .healPartition sim.healPartition
  | enqueue {sim : Sim ρ} {fromId toId : NodeId} {body : MessageKind} :
      Step sim (.enqueue fromId toId body) (sim.enqueue fromId toId body)
  | step {sim : Sim ρ} {clock : Nat → Nat} : Step sim (.step clock) (sim.step clock)
  | repairAll {sim : Sim ρ} : Step sim .repairAll sim.repairAll
  | killNode {sim : Sim ρ} {id : NodeId} : Step sim (.killNode id) (sim.killNode id).2
  | setDropProb {sim : Sim ρ} {p : Float} : Step sim (.setDropProb p) (sim.setDropProb p)
  | node {sim : Sim ρ} {id : NodeId} {call : Node.Call} {n : Node}
      (hnode : sim.nodes.lookup id = some n) (hcall : call.IsOperation) :
      Step sim (.node id call) { sim with nodes := sim.nodes.put id (n.perform call) }
  | host {sim : Sim ρ} {dropProb : Float} {partitioned : List (NodeId × NodeId)}
      {ticks : UInt64} :
      Step sim (.host dropProb partitioned ticks)
        { sim with dropProb := dropProb, partitioned := partitioned, ticks := ticks }

/-- The operations of a simulator lead from a fresh one to this one. -/
def IsReachable [Rng ρ] (sim : Sim ρ) : Prop :=
  ∃ rng dropProb, Reachable Step (Sim.new rng dropProb) sim

end Reachability

end Sim

variable [Crypto]

/-- A hello in flight is unsigned or signed by its sender. -/
def InFlight.Genuine (msg : InFlight) : Prop :=
  msg.envelope.body.isHello = true → msg.envelope.signature = [] ∨
    ∃ key, deriveNodeId key = msg.fromId ∧ msg.envelope.AuthenticBy key

/-- What a node signs is genuine in the queue: it carries the identifier of its
sender and a signature that verifies. -/
theorem genuine_of_signed (hsound : Crypto.Sound ‹Crypto›) {id : NodeId} {n : Node}
    (h : n.MadeFor id) (plain : Envelope) (next : NodeId) :
    InFlight.Genuine ⟨next, id, signEnvelope plain n.keypair.signing⟩ := by
  intro _
  obtain ⟨seed, hkeypair, hkey⟩ := h.keys
  refine Or.inr ⟨Crypto.verifyingKey seed, hkey, ?_⟩
  rw [hkeypair]
  exact signEnvelope_authentic hsound plain seed

theorem genuine_of_handled (hsound : Crypto.Sound ‹Crypto›) {id : NodeId} {n : Node}
    (h : n.MadeFor id) {now : Nat} {peer : NodeId} {env : Envelope} {sent : NodeId × Envelope}
    (hsent : sent ∈ (n.handleEnvelope now peer env).out) :
    InFlight.Genuine ⟨sent.1, id, sent.2⟩ := by
  cases hbody : env.body.isHello with
  | true =>
      obtain ⟨_, _, plain, hplain⟩ := Node.hello_out hbody hsent
      rw [hplain]
      exact genuine_of_signed hsound h plain sent.1
  | false =>
      intro hhello
      rw [(Node.out_shorter hbody sent hsent).1] at hhello
      cases hhello

namespace Sim

variable {ρ : Type}

/-- Nodes are filed under their identifiers, and the messages in flight are
genuine. -/
structure Sane (sim : Sim ρ) : Prop where
  nodes : ∀ id n, sim.nodes.lookup id = some n → n.MadeFor id
  queue : ∀ msg ∈ sim.queue, msg.Genuine

/-- Enqueuing keeps a simulator sane, since the message is signed by the node
that is named as the sender. -/
theorem sane_enqueue {sim : Sim ρ} (h : sim.Sane) (fromId toId : NodeId) (body : MessageKind) :
    (sim.enqueue fromId toId body).Sane := by
  unfold enqueue
  cases sim.nodes.lookup fromId with
  | none => exact h
  | some node =>
      refine ⟨h.nodes, ?_⟩
      intro msg hmsg
      rcases List.mem_append.mp hmsg with hold | hnew
      · exact h.queue msg hold
      · rw [List.mem_singleton.mp hnew]
        exact fun _ => Or.inl rfl

/-- Handing a message over keeps a simulator sane: what the node sends in turn
is signed by it. -/
theorem sane_handOver (hsound : Crypto.Sound ‹Crypto›) {sim : Sim ρ} (h : sim.Sane) (now : Nat)
    (msg : InFlight) : (sim.handOver now msg).Sane := by
  unfold handOver
  cases hnode : sim.nodes.lookup msg.toId with
  | none => exact h
  | some node =>
      have hmade := h.nodes _ _ hnode
      refine ⟨HashMap.forall_put h.nodes (Node.madeFor_handleEnvelope hmade now _ _), ?_⟩
      intro m hm
      rcases List.mem_append.mp hm with hold | hnew
      · exact h.queue m hold
      · obtain ⟨sent, hsent, rfl⟩ := List.mem_map.mp hnew
        exact genuine_of_handled hsound hmade hsent

/-- A delivery keeps a simulator sane, whether the message is lost,
partitioned, too late or handed over. -/
theorem sane_deliver [Rng ρ] (hsound : Crypto.Sound ‹Crypto›) {sim : Sim ρ} (h : sim.Sane)
    (now : Nat) (msg : InFlight) : (sim.deliver now msg).Sane := by
  unfold deliver
  have hrolled : Sane { sim with rng := (Rng.gen sim.rng).2 } := ⟨h.nodes, h.queue⟩
  split
  · exact h
  · dsimp only
    split
    · exact hrolled
    · exact sane_handOver hsound hrolled now msg

/-- So does a batch of deliveries, by induction on the batch. -/
theorem sane_foldl_deliver [Rng ρ] (hsound : Crypto.Sound ‹Crypto›) (clock : Nat → Nat)
    (batch : List (InFlight × Nat)) {sim : Sim ρ} (h : sim.Sane) :
    (batch.foldl (fun s p => s.deliver (clock p.2) p.1) sim).Sane := by
  induction batch generalizing sim with
  | nil => exact h
  | cons p rest ih => exact ih (sane_deliver hsound h (clock p.2) p.1)

/-- So does a step, which delivers the messages that were in the queue when it
began. -/
theorem sane_step [Rng ρ] (hsound : Crypto.Sound ‹Crypto›) {sim : Sim ρ} (h : sim.Sane)
    (clock : Nat → Nat) : (sim.step clock).Sane :=
  sane_foldl_deliver hsound clock _ ⟨h.nodes, by simp⟩

/-- A repair tick sends lookups, which are no greetings, so a repair sets off
no introductions. -/
theorem repairTick_lookups (n : Node) :
    ∀ sent ∈ n.repairTick.1, sent.2.body.isHello = false := by
  have hfold : ∀ (targets : List NodeId) (acc : Outbox × Node),
      (∀ sent ∈ acc.1, sent.2.body.isHello = false) →
        ∀ sent ∈ (targets.foldl Node.repairStep acc).1, sent.2.body.isHello = false := by
    intro targets
    induction targets with
    | nil => exact fun acc h => h
    | cons target rest ih =>
        intro acc h
        refine ih _ ?_
        intro sent hsent
        unfold Node.repairStep at hsent
        cases hhop : acc.2.findHop target with
        | none =>
            rw [hhop] at hsent
            exact h sent hsent
        | some next =>
            rw [hhop] at hsent
            rcases List.mem_append.mp hsent with hold | hnew
            · exact h sent hold
            · rw [List.mem_singleton.mp hnew]
              rfl
  intro sent hsent
  unfold Node.repairTick at hsent
  dsimp only at hsent
  have hrepaired := hfold (repairTargets n.config.epochSeed n.id repairTargetsPerTick)
    ([], { n with metrics := { n.metrics with repairTicks := n.metrics.repairTicks + 1 } })
    (by simp)
  split at hsent
  · rcases List.mem_append.mp hsent with hold | hnew
    · exact hrepaired sent hold
    · rw [List.mem_singleton.mp hnew]
      rfl
  · exact hrepaired sent hsent

/-- So does a repair of all nodes, as each of them signs its own lookups. -/
theorem sane_repairAll {sim : Sim ρ} (h : sim.Sane) : sim.repairAll.Sane := by
  have hfold : ∀ (ids : List NodeId) (s : Sim ρ), s.Sane → (ids.foldl repairOne s).Sane := by
    intro ids
    induction ids with
    | nil => exact fun s hs => hs
    | cons id rest ih =>
        intro s hs
        refine ih _ ?_
        unfold repairOne
        cases hnode : s.nodes.lookup id with
        | none => exact hs
        | some node =>
            have htick : node.Step .repairTick node.repairTick.2 := rfl
            have hmade := Node.madeFor_step htick trivial (hs.nodes _ _ hnode)
            refine ⟨HashMap.forall_put hs.nodes hmade, ?_⟩
            intro m hm
            rcases List.mem_append.mp hm with hold | hnew
            · exact hs.queue m hold
            · obtain ⟨sent, hsent, rfl⟩ := List.mem_map.mp hnew
              intro hhello
              rw [repairTick_lookups node sent hsent] at hhello
              cases hhello
  exact hfold _ sim h

/-- **Operations keep a simulator sane**, each of them, with what a host may do
to its public fields among them. -/
theorem sane_of_step [Rng ρ] (hsound : Crypto.Sound ‹Crypto›) {sim sim' : Sim ρ} {call : Call}
    (hstep : Step sim call sim') (h : sim.Sane) : sim'.Sane := by
  cases hstep with
  | addNode =>
      rename_i seed
      refine ⟨HashMap.forall_put h.nodes ?_, h.queue⟩
      exact Node.madeFor_new seed _
  | introduce hintro =>
      rename_i a b
      unfold introduce at hintro
      split at hintro
      · rw [← Option.some.inj hintro]
        exact sane_enqueue (sane_enqueue h _ _ _) _ _ _
      · cases hintro
  | partition => exact ⟨h.nodes, h.queue⟩
  | healPartition => exact ⟨h.nodes, h.queue⟩
  | enqueue => exact sane_enqueue h _ _ _
  | step => exact sane_step hsound h _
  | repairAll => exact sane_repairAll h
  | killNode =>
      rename_i id
      refine ⟨?_, h.queue⟩
      intro id' n hlookup
      exact h.nodes id' n (HashMap.lookup_of_erase hlookup)
  | setDropProb => exact ⟨h.nodes, h.queue⟩
  | node hnode hcall =>
      exact ⟨HashMap.forall_put h.nodes (Node.madeFor_step rfl hcall (h.nodes _ _ hnode)), h.queue⟩
  | host => exact ⟨h.nodes, h.queue⟩

/-- Every simulator that can be reached is sane, by induction on the run from
an empty one. -/
theorem sane_of_reachable [Rng ρ] (hsound : Crypto.Sound ‹Crypto›) {sim : Sim ρ}
    (h : sim.IsReachable) : sim.Sane := by
  obtain ⟨rng, dropProb, es, run⟩ := h
  have hstart : (Sim.new rng dropProb).Sane := by
    refine ⟨?_, by simp [Sim.new]⟩
    intro id n hlookup
    cases hlookup
  exact @Trace.invariant _ _ Step _ sim es Sane
    (fun _ _ _ hstep hsane => sane_of_step hsound hstep hsane) run hstart

end Sim

end Zona
