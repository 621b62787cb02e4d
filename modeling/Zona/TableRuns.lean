import Zona.LabelledRuns
import Zona.TableInsertions
import Mathlib.Data.List.Nodup

/-!
# Runs of a routing table

A table goes through insertions, ticks, evictions, probes and score
adjustments, in any order.  `perform_cases` says what one of them does to the
labels of the slots: some of them go, or an entry is admitted.

`WellFormed` is the representation invariant.  `wellFormed_of_run` proves it of
every table that a new one becomes.
-/

namespace Zona

namespace PeerTable

/-- What may be done to a routing table.  A probe and an adjustment of the
score touch one slot. -/
inductive Op
  | tryInsert (entry : SlotEntry)
  | resetTick
  | evictDead
  | recordProbe (idx : Nat) (success : Bool)
  | adjustScore (idx : Nat) (agreed : Bool)

/-- The operations that add and remove slots, and the tick. -/
def Op.IsStructural : Op → Prop
  | .recordProbe _ _ => False
  | .adjustScore _ _ => False
  | _ => True

def perform (t : PeerTable) : Op → PeerTable
  | .tryInsert entry => (t.tryInsert entry).2
  | .resetTick => t.resetTick
  | .evictDead => t.evictDead
  | .recordProbe idx success =>
      { t with slots := t.slots.modify idx fun s => s.recordProbe success }
  | .adjustScore idx agreed =>
      { t with slots := t.slots.modify idx fun s => s.adjustScore agreed }

/-- One operation on a table. -/
def Step (t : PeerTable) (op : Op) (u : PeerTable) : Prop :=
  u = t.perform op

/-- Changing the scores of a slot keeps the labels. -/
theorem map_label_modify (slots : List SlotEntry) (idx : Nat) {f : SlotEntry → SlotEntry}
    (hf : ∀ s, (f s).label = s.label) :
    (slots.modify idx f).map SlotEntry.label = slots.map SlotEntry.label := by
  induction slots generalizing idx with
  | nil => simp
  | cons s rest ih =>
      cases idx with
      | zero => rw [List.modify_zero_cons, List.map_cons, List.map_cons, hf]
      | succ idx => rw [List.modify_succ_cons, List.map_cons, List.map_cons, ih]

/-- Adjusting a score keeps peer, referrer and kind of a slot. -/
theorem adjustScore_label (s : SlotEntry) (agreed : Bool) :
    (s.adjustScore agreed).label = s.label := by
  cases agreed with
  | _ => rfl

/-- **What an operation does.**  The bounds of the table stay; of the slots
some go and none comes, or an entry is admitted. -/
theorem perform_cases (t : PeerTable) (op : Op) :
    ((t.perform op).selfId = t.selfId ∧ (t.perform op).maxGreedy = t.maxGreedy) ∧
      ((t.perform op).labels.Sublist t.labels ∨
        ∃ entry, op = .tryInsert entry ∧ t.Admitted entry (t.perform op)) := by
  cases op with
  | tryInsert entry =>
      rcases tryInsert_admitted t entry with hsame | hadmitted
      · rw [perform, hsame]
        exact ⟨⟨rfl, rfl⟩, Or.inl (List.Sublist.refl _)⟩
      · exact ⟨hadmitted.frame, Or.inr ⟨entry, rfl, hadmitted⟩⟩
  | resetTick => exact ⟨⟨rfl, rfl⟩, Or.inl (List.Sublist.refl _)⟩
  | evictDead => exact ⟨⟨rfl, rfl⟩, Or.inl (List.filter_sublist.map _)⟩
  | recordProbe idx success =>
      refine ⟨⟨rfl, rfl⟩, Or.inl ?_⟩
      rw [labels, perform, map_label_modify t.slots idx fun s => recordProbe_label s success]
      exact List.Sublist.refl _
  | adjustScore idx agreed =>
      refine ⟨⟨rfl, rfl⟩, Or.inl ?_⟩
      rw [labels, perform, map_label_modify t.slots idx fun s => adjustScore_label s agreed]
      exact List.Sublist.refl _

/-- How many slots of a kind there are. -/
def countKind (t : PeerTable) (kind : SlotKind) : Nat :=
  t.slots.countP fun s => s.kind = kind

/-- How many slots of a kind there may be. -/
def kindLimit (maxGreedy : Nat) : SlotKind → Nat
  | .greedy => maxGreedy
  | .longJump => 1
  | .diversity => 1

/-- The representation invariant: peers are distinct, every kind keeps to its
limit, and no referrer stands behind more than two greedy slots. -/
structure WellFormed (maxGreedy : Nat) (t : PeerTable) : Prop where
  bound : t.maxGreedy = maxGreedy
  peers : t.allPeers.Nodup
  kinds : ∀ kind, t.countKind kind ≤ kindLimit maxGreedy kind
  quota : t.QuotaKept

/-- The peers of a table are those of its labels. -/
theorem allPeers_eq (t : PeerTable) : t.allPeers = t.labels.map SlotLabel.peerId := by
  rw [allPeers, labels, List.map_map]
  rfl

/-- Counting the slots of a kind is counting labels. -/
theorem countKind_eq (t : PeerTable) (kind : SlotKind) :
    t.countKind kind = t.labels.countP fun l => l.kind = kind := by
  rw [countKind, labels, List.countP_map]
  rfl

/-- If the search for a kind fails, there is no slot of it. -/
theorem countKind_eq_zero {t : PeerTable} {kind : SlotKind}
    (h : (t.slots.find? fun s => s.kind = kind) = none) : t.countKind kind = 0 := by
  rw [countKind, List.countP_eq_zero]
  exact List.find?_eq_none.mp h

/-- Room for a slot of a kind means that the kind is below its limit. -/
theorem HasRoom.countKind_lt {t : PeerTable} {kind : SlotKind} (h : t.HasRoom kind) :
    t.countKind kind < kindLimit t.maxGreedy kind := by
  cases kind with
  | greedy =>
      rw [countKind, List.countP_eq_length_filter]
      exact h
  | longJump =>
      rw [countKind_eq_zero h.1]
      exact Nat.one_pos
  | diversity =>
      rw [countKind_eq_zero h.1]
      exact Nat.one_pos

/-- **An admitted entry** makes its kind one more, if there was room, and no
kind any more otherwise. -/
theorem Admitted.countKind_le {t u : PeerTable} {entry : SlotEntry} (h : t.Admitted entry u)
    (kind : SlotKind) :
    u.countKind kind ≤ t.countKind kind ∨
      u.countKind kind = t.countKind kind + 1 ∧ t.countKind kind < kindLimit t.maxGreedy kind := by
  unfold countKind
  rcases h.slots with ⟨hroom, happend⟩ | ⟨idx, old, hget, hsame, _, hset⟩
  · rw [happend, List.countP_append, List.countP_singleton]
    by_cases hkind : entry.kind = kind
    · rw [if_pos (decide_eq_true hkind)]
      exact Or.inr ⟨rfl, hkind ▸ hroom.countKind_lt⟩
    · rw [if_neg (by simpa using hkind)]
      exact Or.inl (Nat.le_refl _)
  · obtain ⟨hlt, hold⟩ := List.getElem?_eq_some_iff.mp hget
    left
    rw [hset, List.countP_set hlt, hold, hsame]
    by_cases hkind : entry.kind = kind
    · have hpos : 0 < t.slots.countP fun s => s.kind = kind :=
        List.countP_pos_iff.mpr ⟨old, List.mem_of_getElem? hget, by simpa [hsame] using hkind⟩
      rw [if_pos (decide_eq_true hkind)]
      omega
    · rw [if_neg (by simpa using hkind)]
      omega

/-- An admitted entry names a peer that had no slot. -/
theorem Admitted.nodup_allPeers {t u : PeerTable} {entry : SlotEntry} (h : t.Admitted entry u)
    (hpeers : t.allPeers.Nodup) : u.allPeers.Nodup := by
  have hfresh : entry.peerId ∉ t.allPeers := by
    intro hmem
    obtain ⟨s, hs, heq⟩ := List.mem_map.mp hmem
    exact h.fresh s hs heq
  unfold allPeers
  rcases h.slots with ⟨_, happend⟩ | ⟨idx, _, _, _, _, hset⟩
  · rw [happend, List.map_append, List.map_singleton]
    exact List.nodup_append.mpr ⟨hpeers, List.nodup_singleton _, by
      intro a ha b hb hab
      rw [List.mem_singleton.mp hb] at hab
      exact hfresh (hab ▸ ha)⟩
  · rw [hset, List.map_set]
    exact hpeers.set hfresh

/-- A new table has no slots and is well formed. -/
theorem wellFormed_new (selfId : NodeId) (maxGreedy : Nat) :
    (new selfId maxGreedy).WellFormed maxGreedy := by
  refine ⟨rfl, List.nodup_nil, ?_, ?_⟩
  · intro kind
    exact Nat.zero_le _
  · intro referrer
    exact Nat.zero_le _

/-- **The step.**  Every operation keeps the representation invariant, whatever
its arguments are. -/
theorem wellFormed_step {t u : PeerTable} {maxGreedy : Nat} {op : Op} (hstep : t.Step op u)
    (h : t.WellFormed maxGreedy) : u.WellFormed maxGreedy := by
  subst hstep
  obtain ⟨⟨_, hbound⟩, hsub | ⟨entry, rfl, hadmitted⟩⟩ := perform_cases t op
  · refine ⟨hbound.trans h.bound, ?_, ?_, ?_⟩
    · rw [allPeers_eq]
      exact (allPeers_eq t ▸ h.peers).sublist (hsub.map _)
    · intro kind
      rw [countKind_eq]
      exact hsub.countP_le.trans (countKind_eq t kind ▸ h.kinds kind)
    · intro referrer
      exact hsub.countP_le.trans (h.quota referrer)
  · refine ⟨hbound.trans h.bound, hadmitted.nodup_allPeers h.peers, ?_,
      quotaKept_tryInsert h.quota entry⟩
    intro kind
    rcases hadmitted.countKind_le kind with hle | ⟨hone, hroom⟩
    · exact hle.trans (h.kinds kind)
    · rw [h.bound] at hroom
      omega

/-- Every table that the operations make of a new one is well formed, by
induction on the run. -/
theorem wellFormed_of_run {selfId : NodeId} {maxGreedy : Nat} {t : PeerTable}
    {es : List (Transition PeerTable Op)} (run : Trace Step (new selfId maxGreedy) es t) :
    t.WellFormed maxGreedy :=
  run.invariant (fun _ _ _ hstep h => wellFormed_step hstep h) (wellFormed_new selfId maxGreedy)

/-- **The representation invariant.**  Whatever is done to a new table: peers
are distinct, there are at most as many greedy slots as allowed, at most two of
them for one referrer, and at most one slot of each other kind. -/
theorem slots_well_formed {selfId : NodeId} {maxGreedy : Nat} {t : PeerTable}
    {es : List (Transition PeerTable Op)} (run : Trace Step (new selfId maxGreedy) es t) :
    t.allPeers.Nodup ∧ t.greedySlots.length ≤ maxGreedy ∧
      (∀ referrer,
        (t.slots.filter fun s => s.kind = .greedy ∧ s.referrerId = referrer).length ≤ 2) ∧
      (t.slots.filter fun s => s.kind = .longJump).length ≤ 1 ∧
      (t.slots.filter fun s => s.kind = .diversity).length ≤ 1 := by
  have h := wellFormed_of_run run
  refine ⟨h.peers, ?_, ?_, ?_, ?_⟩
  · rw [greedySlots, ← List.countP_eq_length_filter]
    exact h.kinds .greedy
  · intro referrer
    rw [length_filter_greedy]
    exact h.quota referrer
  · rw [← List.countP_eq_length_filter]
    exact h.kinds .longJump
  · rw [← List.countP_eq_length_filter]
    exact h.kinds .diversity

/-- A new slot for a peer under a referrer, each named by one byte. -/
def sampleSlot (kind : SlotKind) (peer referrer : UInt8) : SlotEntry :=
  .new kind ⟨Bytes.replicate 32 peer⟩ ⟨Bytes.replicate 32 referrer⟩

/-- The tables that the operations make of a new one for the node 0. -/
def sampleTable (maxGreedy : Nat) (ops : List Op) : PeerTable :=
  ops.foldl perform (new ⟨Bytes.replicate 32 0⟩ maxGreedy)

/-- The operations on the sample table make a run. -/
theorem sampleTable_trace (maxGreedy : Nat) (ops : List Op) :
    Trace Step (new ⟨Bytes.replicate 32 0⟩ maxGreedy)
      (Trace.record perform (new ⟨Bytes.replicate 32 0⟩ maxGreedy) ops)
      (sampleTable maxGreedy ops) :=
  @Trace.of_record _ _ Step perform (fun _ _ => rfl) ops _

/-- The greedy slot is replaced by that of a closer peer. -/
theorem closer_peer_replaces :
    ((sampleTable 1 [.tryInsert (sampleSlot .greedy 5 5),
      .tryInsert (sampleSlot .greedy 4 4)]).greedySlots).length ≤ 1 :=
  (slots_well_formed (sampleTable_trace 1 [.tryInsert (sampleSlot .greedy 5 5),
    .tryInsert (sampleSlot .greedy 4 4)])).2.1

end PeerTable

end Zona
