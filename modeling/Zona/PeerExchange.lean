import Zona.PeerTables
import Zona.WireMessages

/-!
# Peer exchange

A node offers up to three live neighbours to a peer, and tries the candidates
it is offered one after the other: a candidate with a referrer that stands
behind no greedy slot is meant for the diversity slot, any other for a greedy
one.
-/

namespace Zona

/-- Maximum number of candidates in one round. -/
def pexQ : Nat := 3

/-- The first descriptor of a peer in a list. -/
def descriptorOf (descriptors : List Descriptor) (peer : NodeId) : Option Descriptor :=
  descriptors.find? fun d => d.nodeId = peer

/-- Manages the exchanges of one node. -/
structure PexManager where
  selfId : NodeId
  deriving DecidableEq

namespace PexManager

/-- Build a response from the table: up to `pexQ` candidates. -/
def buildResponse (m : PexManager) (table : PeerTable) (descriptors : List Descriptor) :
    List PexCandidate :=
  (table.liveSlots.take pexQ).filterMap fun slot =>
    (descriptorOf descriptors slot.peerId).map fun d => ⟨d, m.selfId⟩

/-- Classify the slot kind for a candidate. -/
def classifyCandidate (c : PexCandidate) (table : PeerTable) : SlotEntry :=
  let kind := if c.referrerId ∈ table.greedyReferrers then SlotKind.greedy else .diversity
  SlotEntry.new kind c.descriptor.nodeId c.referrerId

/-- Try one candidate: the number inserted so far, and the table. -/
def applyCandidate (m : PexManager) (acc : Nat × PeerTable) (c : PexCandidate) :
    Nat × PeerTable :=
  if c.descriptor.nodeId = m.selfId then acc
  else
    match acc.2.tryInsert (classifyCandidate c acc.2) with
    | (true, table) => (acc.1 + 1, table)
    | (false, table) => (acc.1, table)

/-- Process incoming candidates: the number inserted, and the table. -/
def applyCandidates (m : PexManager) (candidates : List PexCandidate) (table : PeerTable) :
    Nat × PeerTable :=
  (candidates.take pexQ).foldl m.applyCandidate (0, table)

end PexManager

end Zona
