import Zona.CriticalRouting
import Zona.DescriptorStores
import Zona.GreedyRouting
import Zona.PeerExchange
import Zona.RateLimits
import Zona.RepairTargets

/-!
# The node

`Node` wires the tables together.  `handleEnvelope` checks the signature of an
incoming envelope and processes it by kind; the other operations start
messages of their own: repairs, pings, and critical messages over two routes.

A node is a pure state machine: every operation takes the node and returns it
with the envelopes to send, each paired with the peer it is handed to.  What
the log line of a received message reports is kept as an `Event`.  Counters
are machine words that wrap around.
-/

namespace Zona

/-- In-process counters. -/
structure Metrics where
  messagesDropped : UInt64
  messagesForwarded : UInt64
  pexRounds : UInt64
  repairTicks : UInt64
  deriving DecidableEq

/-- The part of the configuration that the protocol logic reads. -/
structure NodeConfig where
  maxGreedy : Nat
  epochSeed : UInt64
  deriving DecidableEq

/-- The state of a node. -/
structure Node where
  id : NodeId
  keypair : NodeKeypair
  config : NodeConfig
  table : PeerTable
  store : DescriptorStore
  pex : PexManager
  limits : RateLimiter
  metrics : Metrics
  quorum : QuorumTracker
  msgCounter : UInt64

/-- Envelopes to send, each with the peer it is handed to. -/
abbrev Outbox := List (NodeId × Envelope)

/-- What the node reports about a message addressed to it. -/
inductive Event
  | deliveredToSelf (messageId : UInt64)
  | critical (messageId : UInt64) (result : QuorumResult)
  deriving DecidableEq

/-- The outcome of handling an envelope. -/
structure Handled where
  node : Node
  out : Outbox
  event : Option Event

namespace Node

def new (keypair : NodeKeypair) (config : NodeConfig) : Node where
  id := keypair.nodeId
  keypair := keypair
  config := config
  table := PeerTable.new keypair.nodeId config.maxGreedy
  store := DescriptorStore.new
  pex := ⟨keypair.nodeId⟩
  limits := RateLimiter.new
  metrics := ⟨0, 0, 0, 0⟩
  quorum := QuorumTracker.new
  msgCounter := 0

/-- `metrics.messages_dropped += 1`. -/
def countDropped (n : Node) : Node :=
  { n with metrics := { n.metrics with messagesDropped := n.metrics.messagesDropped + 1 } }

/-- `metrics.messages_forwarded += 1`. -/
def countForwarded (n : Node) : Node :=
  { n with metrics := { n.metrics with messagesForwarded := n.metrics.messagesForwarded + 1 } }

/-- Next message id. -/
def nextMsgId (n : Node) : UInt64 × Node :=
  (n.msgCounter + 1, { n with msgCounter := n.msgCounter + 1 })

def makeEnvelope (n : Node) (toId : NodeId) (body : MessageKind) : Envelope × Node :=
  ({ toId := toId
     fromId := n.id
     messageId := n.nextMsgId.1
     ttl := 20
     messageClass := .normal
     routeFork := false
     body := body
     signature := [] }, n.nextMsgId.2)

section Operations

variable [Crypto]

/-- Build and sign this node's own descriptor. -/
def ownDescriptor (n : Node) (reach : ReachList) : Descriptor :=
  signDescriptor
    { nodeId := n.id
      pubkey := n.keypair.rawPublic
      reach := reach
      version := 1
      provisional := false
      signature := List.replicate 64 0 }
    n.keypair.signing

/-- `make_envelope` followed by `sign_envelope`. -/
def makeSigned (n : Node) (toId : NodeId) (body : MessageKind) : Envelope × Node :=
  (signEnvelope (n.makeEnvelope toId body).1 n.keypair.signing, (n.makeEnvelope toId body).2)

/-- Produce a ping for a peer. -/
def makePing (n : Node) (peer : NodeId) : Envelope × Node :=
  n.makeSigned peer (.ping n.msgCounter)

/-- Produce a lookup for repair. -/
def makeFind (n : Node) (peer target : NodeId) : Envelope × Node :=
  n.makeSigned peer (.findNode target 3)

/-- Answer a peer with one signed message. -/
def reply (n : Node) (peer : NodeId) (body : MessageKind) : Handled where
  node := (n.makeSigned peer body).2
  out := [(peer, (n.makeSigned peer body).1)]
  event := none

/-- Send a user envelope one hop on, if its time to live allows. -/
def sendUserHop (n : Node) (env : Envelope) (next : NodeId) : Outbox × Node :=
  let ttl := if env.ttl = 0 then 0 else env.ttl - 1
  if ttl = 0 then ([], n.countDropped)
  else
    ([(next, signEnvelope { env with ttl := ttl, toId := next } n.keypair.signing)],
      n.countForwarded)

/-- The peer a lookup toward `target` is handed to: the greedy hop, or the
first slot. -/
def findHop (n : Node) (target : NodeId) : Option NodeId :=
  match nextHop n.id target n.table with
  | .forward peer => some peer
  | _ => n.table.slots.head?.map SlotEntry.peerId

/-- Emit one lookup toward `target`. -/
def emitFindNodeRepair (n : Node) (target : NodeId) : Outbox × Node :=
  match n.findHop target with
  | none => ([], n)
  | some next => ([(next, (n.makeFind next target).1)], (n.makeFind next target).2)

/-- Forward a user envelope: greedily, else through the long-jump slot, else
drop it; at a local minimum a lookup is emitted as well. -/
def forwardUserData (n : Node) (env : Envelope) : Outbox × Node :=
  let target := env.toId
  match nextHop n.id target n.table with
  | .forward next => n.sendUserHop env next
  | .deliver => ([], n)
  | .localMinimum =>
      match n.table.longJumpSlot.filter fun l => l.peerId ≠ n.id with
      | some l =>
          let sent := n.sendUserHop env l.peerId
          let repair := sent.2.emitFindNodeRepair target
          (sent.1 ++ repair.1, repair.2)
      | none =>
          let repair := n.emitFindNodeRepair target
          (repair.1, repair.2.countDropped)

def handleHello (n : Node) (peer : NodeId) (d : Descriptor) : Handled :=
  let admitted :=
    match n.store.upsert d none with
    | (.ok _, store) =>
        { n with
          store := store
          table := (n.table.tryInsert (SlotEntry.new .greedy peer peer)).2 }
    | (.error _, store) => { n with store := store }
  admitted.reply peer (.hello (admitted.ownDescriptor []))

def handlePing (n : Node) (peer : NodeId) (nonce : UInt64) : Handled :=
  n.reply peer (.pong nonce)

def handlePong (n : Node) (peer : NodeId) : Handled where
  node := { n with table := n.table.recordProbe peer true }
  out := []
  event := none

/-- The candidates that answer a lookup. -/
def foundCandidates (n : Node) (target : NodeId) (count : UInt8) : List PexCandidate :=
  (closestPeers target n.table count.toNat).filterMap fun peer =>
    (descriptorOf n.store.allDescriptors peer).map fun d => ⟨d, n.id⟩

def handleFindNode (n : Node) (now : Nat) (peer target : NodeId) (count : UInt8) : Handled :=
  match n.limits.checkFind peer true now with
  | (.error _, limits) => ⟨{ n with limits := limits }.countDropped, [], none⟩
  | (.ok _, limits) =>
      let checked := { n with limits := limits }
      checked.reply peer (.foundNodes (checked.foundCandidates target count))

/-- Integrate one found peer. -/
def integrate (n : Node) (c : PexCandidate) : Node :=
  { n with
    store := (n.store.upsert c.descriptor none).2
    table := (n.table.tryInsert (SlotEntry.new .greedy c.descriptor.nodeId c.referrerId)).2 }

def handleFoundNodes (n : Node) (peers : List PexCandidate) : Handled where
  node := peers.foldl integrate n
  out := []
  event := none

def handlePex (n : Node) (candidates : List PexCandidate) : Handled where
  node := { n with
    table := (n.pex.applyCandidates candidates n.table).2
    metrics := { n.metrics with pexRounds := n.metrics.pexRounds + 1 } }
  out := []
  event := none

def handleAnnounceDescriptor (n : Node) (d : Descriptor) : Handled where
  node := { n with store := (n.store.upsert d none).2 }
  out := []
  event := none

def handleUserData (n : Node) (env : Envelope) (payload : List UInt8) : Handled :=
  if env.toId = n.id then
    if env.messageClass = .criticalUser then
      match n.quorum.record env.messageId payload with
      | (.inconsistent, quorum) =>
          ⟨{ n with quorum := quorum }.countDropped, [],
            some (.critical env.messageId .inconsistent)⟩
      | (result, quorum) =>
          ⟨{ n with quorum := quorum }, [], some (.critical env.messageId result)⟩
    else ⟨n, [], some (.deliveredToSelf env.messageId)⟩
  else
    ⟨(n.forwardUserData env).2, (n.forwardUserData env).1, none⟩

def handleInvite (n : Node) (now : Nat) (peer : NodeId) : Handled where
  node := { n with limits := (n.limits.checkInvite peer now).2 }
  out := []
  event := none

/-- The dispatch on the kind of message. -/
def dispatch (n : Node) (now : Nat) (peer : NodeId) (env : Envelope) : Handled :=
  match env.body with
  | .hello d => n.handleHello peer d
  | .ping nonce => n.handlePing peer nonce
  | .pong _ => n.handlePong peer
  | .findNode target count => n.handleFindNode now peer target count
  | .foundNodes peers => n.handleFoundNodes peers
  | .pex candidates => n.handlePex candidates
  | .announceDescriptor d => n.handleAnnounceDescriptor d
  | .userData payload => n.handleUserData env payload
  | .invite _ => n.handleInvite now peer

/-- The signature guard: an unsigned envelope passes, a signed one must verify
under the key held for the peer, and from an unknown peer only a hello passes. -/
def admits (n : Node) (peer : NodeId) (env : Envelope) : Bool :=
  if env.signature = [] then true
  else
    match n.store.get peer with
    | some cached =>
        match verifyEnvelope env cached.descriptor.pubkey with
        | .ok _ => true
        | .error _ => false
    | none => env.body.isHello

/-- Verify and process an incoming envelope. -/
def handleEnvelope (n : Node) (now : Nat) (peer : NodeId) (env : Envelope) : Handled :=
  if n.admits peer env then n.dispatch now peer env else ⟨n, [], none⟩

/-- Send a critical message over two first hops, or in one copy. -/
def sendCritical (n : Node) (toId : NodeId) (payload : List UInt8) : Outbox × Node :=
  let base : Envelope :=
    { toId := toId
      fromId := n.id
      messageId := n.nextMsgId.1
      ttl := 20
      messageClass := .criticalUser
      routeFork := false
      body := .userData payload
      signature := [] }
  match pickForkHops n.table with
  | some (hopA, hopB) =>
      let forked := forkEnvelopes base hopA hopB
      ([(hopA, signEnvelope forked.1 n.keypair.signing),
        (hopB, signEnvelope forked.2 n.keypair.signing)], n.nextMsgId.2)
  | none =>
      match n.table.slots.head? with
      | some slot =>
          ([(slot.peerId, signEnvelope { base with toId := slot.peerId } n.keypair.signing)],
            n.nextMsgId.2)
      | none => ([], n.nextMsgId.2)

def recoveryState (n : Node) : RecoveryState :=
  evaluateRecovery n.table

/-- Emit the lookup of one repair target. -/
def repairStep (acc : Outbox × Node) (target : NodeId) : Outbox × Node :=
  match acc.2.findHop target with
  | none => acc
  | some next =>
      (acc.1 ++ [(next, (acc.2.makeFind next target).1)], (acc.2.makeFind next target).2)

/-- Run a repair tick. -/
def repairTick (n : Node) : Outbox × Node :=
  let ticked := { n with metrics := { n.metrics with repairTicks := n.metrics.repairTicks + 1 } }
  let repaired :=
    (repairTargets n.config.epochSeed n.id repairTargetsPerTick).foldl repairStep ([], ticked)
  match repaired.2.table.longJumpSlot, repaired.2.table.slots.head? with
  | none, some slot =>
      let seed := repaired.2.makeFind slot.peerId (longJumpTarget n.config.epochSeed n.id)
      (repaired.1 ++ [(slot.peerId, seed.1)], seed.2)
  | _, _ => repaired

/-- Peers whose descriptor is held and that have no live slot. -/
def pendingInvertedConnects (n : Node) : List (NodeId × ReachList) :=
  (n.store.allDescriptors.filter fun d =>
    d.nodeId ≠ n.id ∧ d.nodeId ∉ n.table.liveSlots.map SlotEntry.peerId).map
      fun d => (d.nodeId, d.reach)

end Operations

/-- A node with a fresh key, for concrete runs. -/
def sample (k : UInt8) : Node :=
  .new (@NodeKeypair.fromSeed checksumCrypto (Bytes.replicate 32 k)) ⟨8, 0⟩

end Node

end Zona
