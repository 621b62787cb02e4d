import Zona.AnswerFullness
import Zona.GreedyRouting
import Zona.SortedLists

/-!
# Selecting the closest peers

A lookup is answered by sorting the live peers by distance and truncating, a
packet is routed by taking the least of them.

`xorDistance_strictTotalOrder` says that the distances to one target tell
identifiers apart and order them.  From this, `exactSelection` says what the
sorted path returns, and `nextHop_eq` that the other path takes the peer that
the sorted one returns first.  `closest_consistent_with_nextHop` puts the two
together.
-/

namespace Zona

/-- Comparing distances to a target is a strict total order on identifiers. -/
theorem xorDistance_strictTotalOrder (target : NodeId) :
    IsStrictTotalOrder NodeId fun p q => p.xorDistance target < q.xorDistance target where
  irrefl p := lt_irrefl (p.xorDistance target)
  trans _ _ _ hpq hqr := lt_trans hpq hqr
  trichotomous _ _ hpq hqp := xorDistance_injective (le_antisymm (not_lt.mp hqp) (not_lt.mp hpq))

/-- What the sorted path returns: as many live peers as asked for or as there
are, in strictly increasing distance, and all others are farther away. -/
structure ExactSelection (target : NodeId) (t : PeerTable) (n : Nat) (peers : List NodeId) :
    Prop where
  length : peers.length = min n t.liveSlots.length
  live : ∀ p ∈ peers, p ∈ t.livePeers
  increasing : peers.Pairwise fun p q => p.xorDistance target < q.xorDistance target
  farther : ∀ q ∈ t.livePeers, q ∉ peers →
    ∀ p ∈ peers, p.xorDistance target < q.xorDistance target

/-- The selection of a table without repeated peers is exact: the closest live
peers, in order, each of them once, and as many as asked for or there are. -/
theorem exactSelection {t : PeerTable} (hpeers : t.allPeers.Nodup) (target : NodeId) (n : Nat) :
    ExactSelection target t n (closestPeers target t n) where
  length := by
    rw [closestPeers_eq, List.length_take, byDistance, List.length_insertionSort,
      PeerTable.livePeers, List.length_map]
  live p hp := mem_byDistance.mp (List.mem_of_mem_take hp)
  increasing := (byDistance_increasing hpeers target).sublist (List.take_sublist n _)
  farther q hq hother p hp := by
    rcases mem_closestPeers_or_drop hq target n with htaken | hdropped
    · exact absurd htaken hother
    · exact closest_lt_drop hpeers hp hdropped

/-- The slot of least distance holds the peer that the sorted path returns
first. -/
theorem argmin_peer {target : NodeId} {t : PeerTable} :
    (t.liveSlots.argmin fun s => s.peerId.xorDistance target).map SlotEntry.peerId =
      (closestPeers target t 1).head? := by
  have hhead : (closestPeers target t 1).head? = (byDistance target t).head? := by
    rw [closestPeers_eq, List.head?_take, if_neg one_ne_zero]
  rw [hhead]
  cases hbest : t.liveSlots.argmin fun s => s.peerId.xorDistance target with
  | none =>
      have hnone := List.argmin_eq_none.mp hbest
      rw [byDistance, PeerTable.livePeers, hnone]
      rfl
  | some entry =>
      have hentry : entry.peerId ∈ t.livePeers := List.mem_map_of_mem (List.argmin_mem hbest)
      cases hsorted : byDistance target t with
      | nil =>
          have hin : entry.peerId ∈ byDistance target t := mem_byDistance.mpr hentry
          rw [hsorted] at hin
          cases hin
      | cons p rest =>
          obtain ⟨hlive, hleast⟩ := le_of_insertionSort_eq_cons hsorted
          obtain ⟨s, hs, rfl⟩ := List.mem_map.mp hlive
          have hle := List.le_of_mem_argmin hs hbest
          exact congrArg some (xorDistance_injective (le_antisymm hle (hleast _ hentry)))

/-- **The next hop** is the closest peer, if that is closer than the node.  So
the greedy choice is the selection of one peer and a comparison. -/
theorem nextHop_eq {selfId target : NodeId} (h : selfId ≠ target) (t : PeerTable) :
    nextHop selfId target t =
      match (closestPeers target t 1).head? with
      | none => .localMinimum
      | some p => if p.isCloserTo target selfId then .forward p else .localMinimum := by
  rw [nextHop, if_neg h, ← argmin_peer]
  cases t.liveSlots.argmin fun s => s.peerId.xorDistance target with
  | none => rfl
  | some entry => simp [NodeId.isCloserTo]

/-- Asking for one peer gives a list with one element or none, so its first
element says everything. -/
theorem closestPeers_one_eq {target p : NodeId} {t : PeerTable} :
    closestPeers target t 1 = [p] ↔ (closestPeers target t 1).head? = some p := by
  have hlength : (closestPeers target t 1).length ≤ 1 := List.length_take_le 1 _
  cases hclosest : closestPeers target t 1 with
  | nil => simp
  | cons q rest =>
      rw [hclosest, List.length_cons] at hlength
      have hrest : rest = [] := List.length_eq_zero_iff.mp (by omega)
      simp [hrest]

/-- **Consistency.**  For a table of distinct peers, the sorted path returns
exactly the closest of the live ones; a node forwards to a peer exactly when
that is the one closest peer and closer than the node, and is at a local
minimum otherwise.  Distances to a target are different for different
identifiers, and order them. -/
theorem closest_consistent_with_nextHop (target : NodeId) {t : PeerTable}
    (hpeers : t.allPeers.Nodup) :
    Function.Injective (fun p : NodeId => p.xorDistance target) ∧
      (IsStrictTotalOrder NodeId fun p q => p.xorDistance target < q.xorDistance target) ∧
      (∀ n, ExactSelection target t n (closestPeers target t n)) ∧
      ∀ selfId, selfId ≠ target →
        (∀ p, nextHop selfId target t = .forward p ↔
          closestPeers target t 1 = [p] ∧ p.isCloserTo target selfId = true) ∧
        (nextHop selfId target t = .localMinimum ↔
          ¬ ∃ p, closestPeers target t 1 = [p] ∧ p.isCloserTo target selfId = true) := by
  refine ⟨fun _ _ => xorDistance_injective, xorDistance_strictTotalOrder target,
    exactSelection hpeers target, ?_⟩
  intro selfId hself
  rw [nextHop_eq hself]
  simp only [closestPeers_one_eq]
  cases (closestPeers target t 1).head? with
  | none => simp
  | some q =>
      by_cases hcloser : q.isCloserTo target selfId = true
      · simp only [hcloser, if_true, NextHopResult.forward.injEq, Option.some.injEq]
        refine ⟨fun p => ⟨?_, And.left⟩, ?_⟩
        · rintro rfl
          exact ⟨rfl, hcloser⟩
        · simp [hcloser]
      · simp only [if_neg hcloser, Option.some.injEq, reduceCtorEq, false_iff, true_iff]
        refine ⟨?_, ?_⟩
        · rintro p ⟨rfl, hp⟩
          exact hcloser hp
        · intro hgiven
          obtain ⟨p, rfl, hp⟩ := hgiven
          exact hcloser hp

/-- The identifier of 32 equal bytes. -/
def evenId (b : UInt8) : NodeId :=
  ⟨Bytes.replicate 32 b⟩

/-- A table of two peers. -/
def peers1And2 : PeerTable :=
  { PeerTable.new (evenId 7) 3 with
    slots := [.new .greedy (evenId 1) (evenId 7), .new .greedy (evenId 2) (evenId 7)] }

/-- Toward 3, the node 7 forwards to 2. -/
theorem forward_to_closest :
    nextHop (evenId 7) (evenId 3) peers1And2 = .forward (evenId 2) ∧
      ExactSelection (evenId 3) peers1And2 1 [evenId 2] := by
  have hclosest : closestPeers (evenId 3) peers1And2 1 = [evenId 2] ∧
      (evenId 2).isCloserTo (evenId 3) (evenId 7) = true := by decide +kernel
  obtain ⟨-, -, hexact, hhop⟩ :=
    closest_consistent_with_nextHop (evenId 3) (t := peers1And2) (by decide +kernel)
  refine ⟨((hhop (evenId 7) (by decide)).1 (evenId 2)).mpr hclosest, ?_⟩
  rw [← hclosest.1]
  exact hexact 1

end Zona
