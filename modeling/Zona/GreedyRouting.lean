import Zona.PeerTables
import Mathlib.Data.List.MinMax
import Mathlib.Data.List.Sort

/-!
# Greedy routing

On each hop a node picks the live neighbour with the smallest XOR distance to
the target, and forwards only if that neighbour is strictly closer than the
node itself.
-/

namespace Zona

/-- The outcome of a routing decision. -/
inductive NextHopResult
  | forward (peer : NodeId)
  | deliver
  | localMinimum
  deriving DecidableEq

/-- Choose the next hop toward `target` from `selfId`. -/
def nextHop (selfId target : NodeId) (table : PeerTable) : NextHopResult :=
  if selfId = target then .deliver
  else
    match table.liveSlots.argmin fun s => s.peerId.xorDistance target with
    | none => .localMinimum
    | some entry =>
        if entry.peerId.xorDistance target < selfId.xorDistance target then
          .forward entry.peerId
        else .localMinimum

/-- Up to `n` live peers closest to `target`. -/
def closestPeers (target : NodeId) (table : PeerTable) (n : Nat) : List NodeId :=
  ((table.liveSlots.map SlotEntry.peerId).insertionSort fun p q =>
    p.xorDistance target ≤ q.xorDistance target).take n

theorem nextHop_ne_deliver {selfId target : NodeId} (h : selfId ≠ target) (table : PeerTable) :
    nextHop selfId target table ≠ .deliver := by
  rw [nextHop, if_neg h]
  cases table.liveSlots.argmin fun s => s.peerId.xorDistance target with
  | none => simp
  | some entry =>
      by_cases hcloser : entry.peerId.xorDistance target < selfId.xorDistance target
      · simp [hcloser]
      · simp [hcloser]

/-- **A forwarding decision** names a live peer of the table that is strictly
closer to the target, and no live peer is closer than it. -/
theorem nextHop_forward {selfId target peer : NodeId} {table : PeerTable}
    (h : nextHop selfId target table = .forward peer) :
    (∃ s ∈ table.liveSlots, s.peerId = peer) ∧
      peer.xorDistance target < selfId.xorDistance target ∧
        ∀ s ∈ table.liveSlots, peer.xorDistance target ≤ s.peerId.xorDistance target := by
  have hne : selfId ≠ target := by
    intro heq
    rw [nextHop, if_pos heq] at h
    cases h
  rw [nextHop, if_neg hne] at h
  cases hbest : table.liveSlots.argmin fun s => s.peerId.xorDistance target with
  | none =>
      rw [hbest] at h
      cases h
  | some entry =>
      rw [hbest] at h
      by_cases hcloser : entry.peerId.xorDistance target < selfId.xorDistance target
      · simp only [if_pos hcloser, NextHopResult.forward.injEq] at h
        subst h
        refine ⟨⟨entry, List.argmin_mem hbest, rfl⟩, hcloser, ?_⟩
        intro s hs
        exact List.le_of_mem_argmin hs hbest
      · simp only [if_neg hcloser] at h
        cases h

end Zona
