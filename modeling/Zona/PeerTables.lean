import Zona.NodeIdentity

/-!
# The routing table

A `PeerTable` has slots of three kinds: greedy slots for close neighbours, one
long-jump slot, and one diversity slot.  `tryInsert` adds a peer or replaces
one, under a quota per referrer and a budget of one replacement per tick; the
other operations age slots and drop dead ones.

Loss scores are 32-bit floats, taken with their IEEE meaning: an arbitrary
table may hold any score, not-a-number included.
-/

namespace Zona

/-- Classification of a routing slot. -/
inductive SlotKind
  | greedy
  | longJump
  | diversity
  deriving DecidableEq

/-- A single slot of the routing table. -/
structure SlotEntry where
  kind : SlotKind
  peerId : NodeId
  referrerId : NodeId
  ewmaLoss : Float32
  score : Float32
  deriving DecidableEq

namespace SlotEntry

def new (kind : SlotKind) (peerId referrerId : NodeId) : SlotEntry where
  kind := kind
  peerId := peerId
  referrerId := referrerId
  ewmaLoss := 0.0
  score := 0.5

/-- The weight of the newest probe. -/
def alpha : Float32 := 0.2

/-- Update the moving average of the loss. -/
def recordProbe (s : SlotEntry) (success : Bool) : SlotEntry :=
  let fail : Float32 := if success then 0.0 else 1.0
  { s with ewmaLoss := alpha * fail + (1.0 - alpha) * s.ewmaLoss }

/-- `f32::min`, which ignores an operand that is not a number. -/
def f32Min (a b : Float32) : Float32 :=
  if a.isNaN then b else if b.isNaN then a else min a b

/-- `f32::max`, which ignores an operand that is not a number. -/
def f32Max (a b : Float32) : Float32 :=
  if a.isNaN then b else if b.isNaN then a else max a b

/-- Bump or penalise the score. -/
def adjustScore (s : SlotEntry) (agreed : Bool) : SlotEntry :=
  if agreed then { s with score := f32Min (s.score + 0.05) 1.0 }
  else { s with score := f32Max (s.score - 0.10) 0.0 }

def isDegraded (s : SlotEntry) : Bool :=
  decide (s.ewmaLoss > 0.6)

def shouldEvict (s : SlotEntry) : Bool :=
  decide (s.ewmaLoss > 0.85)

end SlotEntry

/-- The routing table of a node. -/
structure PeerTable where
  slots : List SlotEntry
  maxGreedy : Nat
  selfId : NodeId
  replacementsThisTick : Nat
  deriving DecidableEq

namespace PeerTable

/-- The number of slots the table is meant to hold. -/
def maxTotal : Nat := 5

def new (selfId : NodeId) (maxGreedy : Nat) : PeerTable where
  slots := []
  maxGreedy := maxGreedy
  selfId := selfId
  replacementsThisTick := 0

def resetTick (t : PeerTable) : PeerTable :=
  { t with replacementsThisTick := 0 }

def greedySlots (t : PeerTable) : List SlotEntry :=
  t.slots.filter fun s => s.kind = .greedy

def longJumpSlot (t : PeerTable) : Option SlotEntry :=
  t.slots.find? fun s => s.kind = .longJump

def diversitySlot (t : PeerTable) : Option SlotEntry :=
  t.slots.find? fun s => s.kind = .diversity

/-- All slots as peers for routing. -/
def allPeers (t : PeerTable) : List NodeId :=
  t.slots.map SlotEntry.peerId

/-- The slots that are not due for eviction. -/
def liveSlots (t : PeerTable) : List SlotEntry :=
  t.slots.filter fun s => !s.shouldEvict

/-- All referrers present in greedy slots. -/
def greedyReferrers (t : PeerTable) : List NodeId :=
  t.greedySlots.map SlotEntry.referrerId

/-- The referrer already stands behind two greedy slots. -/
def referrerQuotaExceeded (t : PeerTable) (referrer : NodeId) : Bool :=
  decide (2 ≤ (t.slots.filter fun s => s.kind = .greedy ∧ s.referrerId = referrer).length)

/-- The greedy slot farthest from the node, with its position; the last one
among equally far ones. -/
def worstGreedy (t : PeerTable) : Option (SlotEntry × Nat) :=
  (t.slots.zipIdx.filter fun p => p.1.kind = .greedy).foldl
    (fun worst p =>
      match worst with
      | none => some p
      | some q =>
          if q.1.peerId.xorDistance t.selfId ≤ p.1.peerId.xorDistance t.selfId then some p
          else some q)
    none

def tryInsertGreedy (t : PeerTable) (entry : SlotEntry) : Bool × PeerTable :=
  if t.referrerQuotaExceeded entry.referrerId then (false, t)
  else if t.greedySlots.length < t.maxGreedy then
    (true, { t with slots := t.slots ++ [entry] })
  else if 1 ≤ t.replacementsThisTick then (false, t)
  else
    match t.worstGreedy with
    | none => (false, t)
    | some (worst, idx) =>
        if entry.peerId.xorDistance t.selfId < worst.peerId.xorDistance t.selfId then
          (true, { t with
            slots := t.slots.set idx entry
            replacementsThisTick := t.replacementsThisTick + 1 })
        else (false, t)

def tryInsertLongJump (t : PeerTable) (entry : SlotEntry) : Bool × PeerTable :=
  match t.slots.findIdx? fun s => s.kind = .longJump with
  | some idx => (true, { t with slots := t.slots.set idx entry })
  | none =>
      if t.slots.length < maxTotal then (true, { t with slots := t.slots ++ [entry] })
      else (true, t)

def tryInsertDiversity (t : PeerTable) (entry : SlotEntry) : Bool × PeerTable :=
  if entry.referrerId ∈ t.greedyReferrers then (false, t)
  else if 1 ≤ t.replacementsThisTick then (false, t)
  else
    match t.slots.findIdx? fun s => s.kind = .diversity with
    | some idx =>
        (true, { t with
          slots := t.slots.set idx entry
          replacementsThisTick := t.replacementsThisTick + 1 })
    | none =>
        if t.slots.length < maxTotal then
          (true, { t with
            slots := t.slots ++ [entry]
            replacementsThisTick := t.replacementsThisTick + 1 })
        else (false, t)

/-- Try to add or replace a slot: whether it was admitted, and the table. -/
def tryInsert (t : PeerTable) (entry : SlotEntry) : Bool × PeerTable :=
  if t.slots.any fun s => s.peerId = entry.peerId then (false, t)
  else
    match entry.kind with
    | .greedy => t.tryInsertGreedy entry
    | .longJump => t.tryInsertLongJump entry
    | .diversity => t.tryInsertDiversity entry

/-- Remove the slots that are due for eviction. -/
def evictDead (t : PeerTable) : PeerTable :=
  { t with slots := t.liveSlots }

/-- Fewer than two live greedy slots. -/
def inRecovery (t : PeerTable) : Bool :=
  decide ((t.slots.filter fun s => s.kind = .greedy ∧ s.shouldEvict = false).length < 2)

/-- Note a probe in the first slot of a peer: `slots.iter_mut().find(…)`. -/
def recordFirst (peer : NodeId) (success : Bool) : List SlotEntry → List SlotEntry
  | [] => []
  | s :: rest =>
      if s.peerId = peer then s.recordProbe success :: rest
      else s :: recordFirst peer success rest

/-- Note a probe of a peer, when it has a slot. -/
def recordProbe (t : PeerTable) (peer : NodeId) (success : Bool) : PeerTable :=
  { t with slots := recordFirst peer success t.slots }

/-- A probe leaves the slots alone exactly if there is none for the peer, or
the first one is left alone by it. -/
theorem recordFirst_eq_self_iff (peer : NodeId) (success : Bool) (slots : List SlotEntry) :
    recordFirst peer success slots = slots ↔
      ∀ s, (slots.find? fun s => s.peerId = peer) = some s → s.recordProbe success = s := by
  induction slots with
  | nil => simp [recordFirst]
  | cons s rest ih =>
      by_cases hpeer : s.peerId = peer
      · simp [recordFirst, hpeer]
      · simp [recordFirst, hpeer, ih]

/-- A probe leaves no trace exactly when the peer has no slot, or its first
slot stays as it is. -/
theorem recordProbe_eq_self_iff (t : PeerTable) (peer : NodeId) (success : Bool) :
    t.recordProbe peer success = t ↔
      ∀ s, (t.slots.find? fun s => s.peerId = peer) = some s → s.recordProbe success = s := by
  rw [← recordFirst_eq_self_iff]
  constructor
  · intro h
    exact congrArg PeerTable.slots h
  · intro h
    rw [recordProbe, h]

/-- The table got one slot longer, or spent a replacement on a slot. -/
def Grew (t u : PeerTable) : Prop :=
  t.slots.length + t.replacementsThisTick < u.slots.length + u.replacementsThisTick

/-- A greedy insertion is refused without a trace, or it shows: a slot is
added, or a replacement is spent. -/
theorem tryInsertGreedy_cases (t : PeerTable) (entry : SlotEntry) :
    t.tryInsertGreedy entry = (false, t) ∨
      ((t.tryInsertGreedy entry).1 = true ∧ t.Grew (t.tryInsertGreedy entry).2) := by
  unfold tryInsertGreedy
  by_cases hquota : t.referrerQuotaExceeded entry.referrerId = true
  · exact Or.inl (if_pos hquota)
  · rw [if_neg hquota]
    by_cases hroom : t.greedySlots.length < t.maxGreedy
    · rw [if_pos hroom]
      exact Or.inr ⟨rfl, by simp [Grew]⟩
    · rw [if_neg hroom]
      by_cases hspent : 1 ≤ t.replacementsThisTick
      · exact Or.inl (if_pos hspent)
      · rw [if_neg hspent]
        cases hworst : t.worstGreedy with
        | none => exact Or.inl rfl
        | some pair =>
            obtain ⟨worst, idx⟩ := pair
            by_cases hcloser :
                entry.peerId.xorDistance t.selfId < worst.peerId.xorDistance t.selfId
            · exact Or.inr ⟨by simp only [if_pos hcloser], by simp [Grew, if_pos hcloser]⟩
            · exact Or.inl (by simp only [if_neg hcloser])

/-- The same for an insertion of a greedy entry through `tryInsert`. -/
theorem tryInsert_greedy_cases (t : PeerTable) (entry : SlotEntry) (hkind : entry.kind = .greedy) :
    t.tryInsert entry = (false, t) ∨
      ((t.tryInsert entry).1 = true ∧ t.Grew (t.tryInsert entry).2) := by
  unfold tryInsert
  by_cases hknown : (t.slots.any fun s => s.peerId = entry.peerId) = true
  · exact Or.inl (if_pos hknown)
  · rw [if_neg hknown, hkind]
    exact tryInsertGreedy_cases t entry

theorem Grew.ne {t u : PeerTable} (h : t.Grew u) : u ≠ t := by
  intro heq
  rw [heq] at h
  exact Nat.lt_irrefl _ h

end PeerTable

end Zona
