import Zona.GreedyRouting
import Zona.RankedRuns
import Mathlib.Data.FinEnum
import Mathlib.Data.Fintype.BigOperators
import Mathlib.Data.Fintype.Vector

/-!
# Greedy walks

A message for a target goes from node to node, at each of them to the peer that
`nextHop` names.  The tables need not have anything to do with each other and
may change from hop to hop; all the same the distance to the target shrinks,
so that no node is met twice and the walk ends (`greedy_progress`).
-/

namespace Bytes

variable {n : Nat}

/-- Arrays of bytes as vectors. -/
def equivVector : List.Vector UInt8 n ≃ Bytes n where
  toFun v := ⟨v.1, v.2⟩
  invFun a := ⟨a.toList, a.length_eq⟩
  left_inv _ := rfl
  right_inv _ := rfl

instance : Fintype (Bytes n) :=
  Fintype.ofEquiv (List.Vector UInt8 n) equivVector

/-- There are 256 values for each byte of an array. -/
theorem card_bytes : Fintype.card (Bytes n) = 256 ^ n := by
  have hbyte : Fintype.card UInt8 = 256 := by
    rw [← FinEnum.card_eq_fintypeCard, FinEnum.card_UInt8]
    rfl
  rw [← Fintype.card_congr equivVector, card_vector, hbyte]

end Bytes

namespace Zona

namespace NodeId

def equivBytes : Bytes 32 ≃ NodeId where
  toFun a := ⟨a⟩
  invFun id := id.bytes
  left_inv _ := rfl
  right_inv _ := rfl

instance : Fintype NodeId :=
  Fintype.ofEquiv (Bytes 32) equivBytes

/-- There are finitely many identifiers, so a walk on which distances decrease
has a bounded length. -/
theorem card_nodeId : Fintype.card NodeId = 2 ^ 256 := by
  rw [← Fintype.card_congr equivBytes, Bytes.card_bytes]
  exact (Nat.pow_mul 2 8 32).symm

end NodeId

/-- A node with this table forwards a message for the target to a peer. -/
def Forwards (target node : NodeId) (table : PeerTable) (peer : NodeId) : Prop :=
  nextHop node target table = .forward peer

variable {target : NodeId}

/-- One hop of a walk leads closer to the target, whatever the table of the
node was at that moment. -/
theorem Forwards.closer {node peer : NodeId} {table : PeerTable}
    (h : Forwards target node table peer) :
    peer.xorDistance target < node.xorDistance target :=
  (nextHop_forward h).2.1

/-- **Where a walk ends**: at the target, or at a node without a live peer
closer to it. -/
theorem not_forwards_iff {node : NodeId} {table : PeerTable} :
    (∀ peer, ¬ Forwards target node table peer) ↔
      node = target ∨
        ∀ s ∈ table.liveSlots, ¬ s.peerId.xorDistance target < node.xorDistance target := by
  constructor
  · intro hstuck
    refine or_iff_not_imp_left.mpr ?_
    intro hne s hs hcloser
    cases hbest : table.liveSlots.argmin fun s => s.peerId.xorDistance target with
    | none =>
        rw [List.argmin_eq_none.mp hbest] at hs
        cases hs
    | some best =>
        have hle : best.peerId.xorDistance target ≤ s.peerId.xorDistance target :=
          List.le_of_mem_argmin hs hbest
        apply hstuck best.peerId
        rw [Forwards, nextHop, if_neg hne, hbest]
        dsimp only
        rw [if_pos (lt_of_le_of_lt hle hcloser)]
  · intro hend peer hforward
    rcases hend with rfl | hnone
    · rw [Forwards, nextHop, if_pos rfl] at hforward
      cases hforward
    · obtain ⟨⟨s, hs, rfl⟩, hcloser, _⟩ := nextHop_forward hforward
      exact hnone s hs hcloser

/-- **Greedy routing makes progress.**  Whatever the tables on the way: each
node of a walk is closer to the target than those before it, so none occurs
twice and there are fewer hops than identifiers.  And whatever table each node
has when the message comes to it, the walk ends, at the target or at a node
that has no live peer closer to it. -/
theorem greedy_progress (target : NodeId) :
    (∀ start final es, Trace (Forwards target) start es final →
      (Trace.visited start es).Pairwise
          (fun v w => w.xorDistance target < v.xorDistance target) ∧
        (Trace.visited start es).Nodup ∧ es.length < Fintype.card NodeId) ∧
    ∀ (tables : Nat → NodeId → PeerTable) (start : NodeId),
      ∃ es final, Trace (Forwards target) start es final ∧
        (∀ k e, es[k]? = some e → e.label = tables k e.before) ∧
          es.length < 2 ^ 256 ∧
          (final = target ∨ ∀ s ∈ (tables es.length final).liveSlots,
            ¬ s.peerId.xorDistance target < final.xorDistance target) := by
  have hrank : ∀ v table w, Forwards target v table w →
      w.xorDistance target < v.xorDistance target :=
    fun _ _ _ h => h.closer
  refine ⟨?_, ?_⟩
  · intro start final es walk
    exact ⟨(walk.pairwise_visited hrank).1, walk.nodup_visited hrank, walk.length_lt_card hrank⟩
  · intro tables start
    obtain ⟨es, final, walk, hlabels, hrest⟩ :=
      Trace.exists_rest hrank tables 0 start
    refine ⟨es, final, walk, ?_, ?_, ?_⟩
    · intro k e hk
      rw [hlabels k e hk, Nat.zero_add]
    · rw [← NodeId.card_nodeId]
      exact walk.length_lt_card hrank
    · rw [Nat.zero_add] at hrest
      exact not_forwards_iff.mp hrest

end Zona
