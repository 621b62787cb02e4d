import Zona.TableRuns

/-!
# How many slots a table may have

A long-jump slot and a diversity slot are only added to a table of fewer than
`maxTotal` slots; greedy slots are added up to `maxGreedy`, whatever else is
there.  So the total is kept exactly by the tables that allow three greedy
slots or fewer: a table that allows four is filled past it when the two other
slots come first (`table_capacity`).
-/

namespace Zona

namespace PeerTable

/-- Every slot is of one of the three kinds. -/
theorem length_eq_countKind (t : PeerTable) :
    t.slots.length = t.countKind .greedy + t.countKind .longJump + t.countKind .diversity := by
  unfold countKind
  induction t.slots with
  | nil => rfl
  | cons s rest ih =>
      rw [List.length_cons, ih, List.countP_cons, List.countP_cons, List.countP_cons]
      cases hkind : s.kind with
      | _ => simp; omega

/-- A well-formed table has two slots more than greedy ones at most. -/
theorem WellFormed.length_le {t : PeerTable} {maxGreedy : Nat} (h : t.WellFormed maxGreedy) :
    t.slots.length ≤ maxGreedy + 2 := by
  have hgreedy : t.countKind .greedy ≤ maxGreedy := h.kinds .greedy
  have hlong : t.countKind .longJump ≤ 1 := h.kinds .longJump
  have hdiverse : t.countKind .diversity ≤ 1 := h.kinds .diversity
  rw [length_eq_countKind]
  omega

/-- Insert some entries in turn. -/
def insertAll (t : PeerTable) (entries : List SlotEntry) : PeerTable :=
  entries.foldl (fun t entry => (t.tryInsert entry).2) t

/-- A greedy entry for a new peer under a new referrer is added when there is
room. -/
theorem tryInsert_of_new_referrer {t : PeerTable} {entry : SlotEntry}
    (hkind : entry.kind = .greedy) (hfresh : entry.peerId ∉ t.allPeers)
    (hreferrer : entry.referrerId ∉ t.greedyReferrers)
    (hroom : t.greedySlots.length < t.maxGreedy) :
    t.tryInsert entry = (true, { t with slots := t.slots ++ [entry] }) := by
  refine tryInsert_of_room hkind ?_ ?_ hroom
  · intro s hs heq
    exact hfresh (List.mem_map.mpr ⟨s, hs, heq⟩)
  · have hnone : (t.slots.filter fun s => s.kind = .greedy ∧ s.referrerId = entry.referrerId) =
        [] := by
      rw [List.filter_eq_nil_iff]
      intro s hs hbehind
      obtain ⟨hgreedy, heq⟩ := of_decide_eq_true hbehind
      exact hreferrer (List.mem_map.mpr ⟨s, List.mem_filter.mpr ⟨hs, decide_eq_true hgreedy⟩, heq⟩)
    rw [referrerQuotaExceeded, hnone]
    simp

/-- **Filling.**  Greedy entries for new peers under new referrers are all
added as long as there is room. -/
theorem insertAll_slots {t : PeerTable} {entries : List SlotEntry}
    (hkinds : ∀ entry ∈ entries, entry.kind = .greedy)
    (hpeers : (t.allPeers ++ entries.map SlotEntry.peerId).Nodup)
    (hreferrers : (t.greedyReferrers ++ entries.map SlotEntry.referrerId).Nodup)
    (hroom : t.greedySlots.length + entries.length ≤ t.maxGreedy) :
    (t.insertAll entries).slots = t.slots ++ entries := by
  induction entries generalizing t with
  | nil => simp [insertAll]
  | cons entry rest ih =>
      have hkind := hkinds entry List.mem_cons_self
      rw [List.map_cons] at hpeers hreferrers
      have hfresh : entry.peerId ∉ t.allPeers := fun hmem =>
        (List.nodup_append.mp hpeers).2.2 _ hmem _ List.mem_cons_self rfl
      have hown : entry.referrerId ∉ t.greedyReferrers := fun hmem =>
        (List.nodup_append.mp hreferrers).2.2 _ hmem _ List.mem_cons_self rfl
      rw [List.length_cons] at hroom
      have hadded := tryInsert_of_new_referrer hkind hfresh hown (by omega)
      have hgreedy : ({ t with slots := t.slots ++ [entry] } : PeerTable).greedySlots =
          t.greedySlots ++ [entry] := by
        simp [greedySlots, hkind]
      rw [insertAll, List.foldl_cons, hadded]
      have hrest := @ih { t with slots := t.slots ++ [entry] }
        (fun e he => hkinds e (List.mem_cons_of_mem entry he))
        (by simpa [allPeers] using hpeers)
        (by simpa [greedyReferrers, hgreedy] using hreferrers)
        (by rw [hgreedy, List.length_append, List.length_singleton]; dsimp only; omega)
      rw [insertAll] at hrest
      rw [hrest]
      simp

/-- Inserting a list of entries is a run of insertions. -/
theorem insertAll_eq_foldl (t : PeerTable) (entries : List SlotEntry) :
    t.insertAll entries = (entries.map Op.tryInsert).foldl perform t := by
  rw [insertAll, List.foldl_map]
  rfl

/-- A long-jump and a diversity slot. -/
def otherSlots : List SlotEntry :=
  [sampleSlot .longJump 1 1, sampleSlot .diversity 2 2]

/-- Four greedy slots. -/
def fourGreedy : List SlotEntry :=
  [sampleSlot .greedy 3 3, sampleSlot .greedy 4 4, sampleSlot .greedy 5 5, sampleSlot .greedy 6 6]

theorem insertAll_otherSlots (selfId : NodeId) (maxGreedy : Nat) :
    (new selfId maxGreedy).insertAll otherSlots =
      { new selfId maxGreedy with slots := otherSlots, replacementsThisTick := 1 } := by
  rfl

/-- A table that allows four greedy slots takes six slots in all. -/
theorem insertAll_six (selfId : NodeId) {maxGreedy : Nat} (h : 4 ≤ maxGreedy) :
    ((new selfId maxGreedy).insertAll (otherSlots ++ fourGreedy)).slots =
      otherSlots ++ fourGreedy := by
  have hsplit : (new selfId maxGreedy).insertAll (otherSlots ++ fourGreedy) =
      ((new selfId maxGreedy).insertAll otherSlots).insertAll fourGreedy :=
    List.foldl_append
  rw [hsplit, insertAll_otherSlots]
  refine insertAll_slots ?_ ?_ ?_ h
  · decide
  · show (otherSlots.map SlotEntry.peerId ++ fourGreedy.map SlotEntry.peerId).Nodup
    decide
  · show (fourGreedy.map SlotEntry.referrerId).Nodup
    decide

/-- The six slots come from insertions, so the total that the source names is
exceeded by operations alone. -/
theorem six_slots_run (selfId : NodeId) {maxGreedy : Nat} (h : 4 ≤ maxGreedy) :
    ∃ es t, Trace Step (new selfId maxGreedy) es t ∧ (∀ e ∈ es, e.label.IsStructural) ∧
      maxTotal < t.slots.length := by
  have hrun := @Trace.of_record _ _ Step perform (fun _ _ => rfl)
    ((otherSlots ++ fourGreedy).map Op.tryInsert) (new selfId maxGreedy)
  refine ⟨_, _, hrun, ?_, ?_⟩
  · intro e he
    obtain ⟨entry, _, hlabel⟩ := List.mem_map.mp (Trace.label_of_record he)
    rw [← hlabel]
    trivial
  · rw [← insertAll_eq_foldl, insertAll_six selfId h]
    decide

/-- **The total is kept** by every table that a new one becomes, exactly when it
allows three greedy slots or fewer. -/
theorem table_capacity (selfId : NodeId) (maxGreedy : Nat) :
    (∀ es t, Trace Step (new selfId maxGreedy) es t → (∀ e ∈ es, e.label.IsStructural) →
      t.slots.length ≤ maxTotal) ↔ maxGreedy ≤ 3 := by
  constructor
  · intro h
    by_contra hmany
    obtain ⟨es, t, run, hops, hover⟩ := six_slots_run selfId (Nat.lt_of_not_le hmany)
    exact absurd (h es t run hops) (Nat.not_le.mpr hover)
  · intro h es t run _
    have hlength := (wellFormed_of_run run).length_le
    unfold maxTotal
    omega

/-- **Tables with too many slots.**  The tables of servers, which allow five
greedy slots, and those that allow four. -/
theorem tables_overfull :
    ¬ ∀ maxGreedy ∈ [3, 4, 5], ∀ es t,
      Trace Step (new ⟨Bytes.replicate 32 0⟩ maxGreedy) es t →
        (∀ e ∈ es, e.label.IsStructural) → t.slots.length ≤ maxTotal := by
  intro h
  obtain ⟨es, t, run, hops, hover⟩ :=
    six_slots_run ⟨Bytes.replicate 32 0⟩ (show 4 ≤ 5 by decide)
  exact absurd (h 5 (by decide) es t run hops) (Nat.not_le.mpr hover)

end PeerTable

end Zona
