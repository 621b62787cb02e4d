import Zona.NodeTables
import Zona.TableCapacity

/-!
# What an insertion reports

`tryInsert` returns whether the entry was admitted.  Its three routines compute
the answer each for itself, at every exit of theirs; `Reported` is what the
caller relies on, and all exits but one keep to it.  A long-jump entry for
which there is no room is dropped, and reported as inserted
(`truthful_iff`).  A table that allows three greedy slots never gets so full
without a long-jump slot (`truthful_of_three_greedy`), one that allows five
does.

A peer exchange inserts greedy and diversity entries only, so the number it
returns is the number of candidates that took a place.
-/

namespace Zona

namespace PeerTable

/-- The answer and the table go together: the entry has a slot, or nothing has
changed. -/
def Reported (t : PeerTable) (entry : SlotEntry) (r : Bool × PeerTable) : Prop :=
  (r.1 = true → entry.label ∈ r.2.labels) ∧ (r.1 = false → r.2 = t)

/-- The insertion tells the truth. -/
def Truthful (t : PeerTable) (entry : SlotEntry) : Prop :=
  t.Reported entry (t.tryInsert entry)

/-- A long-jump entry for a new peer finds no long-jump slot to replace, and no
room for one. -/
structure NoLongJumpRoom (t : PeerTable) (entry : SlotEntry) : Prop where
  kind : entry.kind = .longJump
  fresh : ∀ s ∈ t.slots, s.peerId ≠ entry.peerId
  noSlot : ∀ s ∈ t.slots, s.kind ≠ .longJump
  full : maxTotal ≤ t.slots.length

/-- Reporting `false` and leaving the table alone is truthful. -/
theorem reported_refused (t : PeerTable) (entry : SlotEntry) : t.Reported entry (false, t) :=
  ⟨fun h => (nomatch h), fun _ => rfl⟩

/-- Reporting `true` after adding the entry at the end is truthful. -/
theorem reported_added (t : PeerTable) (entry : SlotEntry) (spent : Nat) :
    t.Reported entry
      (true, { t with slots := t.slots ++ [entry], replacementsThisTick := spent }) := by
  refine ⟨fun _ => ?_, fun h => (nomatch h)⟩
  exact List.mem_map_of_mem (List.mem_append_right _ (List.mem_singleton.mpr rfl))

/-- Reporting `true` after putting the entry in the place of another slot is
truthful. -/
theorem reported_replaced {t : PeerTable} {idx : Nat} {old : SlotEntry}
    (hget : t.slots[idx]? = some old) (entry : SlotEntry) (spent : Nat) :
    t.Reported entry
      (true, { t with slots := t.slots.set idx entry, replacementsThisTick := spent }) := by
  refine ⟨fun _ => ?_, fun h => (nomatch h)⟩
  exact List.mem_map_of_mem (List.mem_set (List.getElem?_eq_some_iff.mp hget).1 entry)

/-- The report on a greedy entry is truthful in each branch: known peer, free
place, replacement and refusal. -/
theorem tryInsertGreedy_reported (t : PeerTable) (entry : SlotEntry) :
    t.Reported entry (t.tryInsertGreedy entry) := by
  unfold tryInsertGreedy
  by_cases hquota : t.referrerQuotaExceeded entry.referrerId = true
  · rw [if_pos hquota]
    exact reported_refused t entry
  · rw [if_neg hquota]
    by_cases hroom : t.greedySlots.length < t.maxGreedy
    · rw [if_pos hroom]
      exact reported_added t entry _
    · rw [if_neg hroom]
      by_cases hspent : 1 ≤ t.replacementsThisTick
      · rw [if_pos hspent]
        exact reported_refused t entry
      · rw [if_neg hspent]
        cases hworst : t.worstGreedy with
        | none => exact reported_refused t entry
        | some pair =>
            obtain ⟨worst, idx⟩ := pair
            dsimp only
            split
            · exact reported_replaced (worstGreedy_spec hworst).1 entry _
            · exact reported_refused t entry

/-- The report on a diversity entry is truthful in each branch. -/
theorem tryInsertDiversity_reported (t : PeerTable) (entry : SlotEntry) :
    t.Reported entry (t.tryInsertDiversity entry) := by
  unfold tryInsertDiversity
  by_cases hreferrer : entry.referrerId ∈ t.greedyReferrers
  · rw [if_pos hreferrer]
    exact reported_refused t entry
  · rw [if_neg hreferrer]
    by_cases hspent : 1 ≤ t.replacementsThisTick
    · rw [if_pos hspent]
      exact reported_refused t entry
    · rw [if_neg hspent]
      cases hfind : t.slots.findIdx? fun s => s.kind = .diversity with
      | some idx =>
          obtain ⟨old, hget, _⟩ := getElem?_of_findIdx? hfind
          exact reported_replaced hget entry _
      | none =>
          dsimp only
          split
          · exact reported_added t entry _
          · exact reported_refused t entry

/-- A long-jump entry is always reported as inserted, which is right unless
there is neither a slot to replace nor room. -/
theorem tryInsertLongJump_reported_iff {t : PeerTable} {entry : SlotEntry}
    (hfresh : ∀ s ∈ t.slots, s.peerId ≠ entry.peerId) :
    t.Reported entry (t.tryInsertLongJump entry) ↔
      ¬ ((∀ s ∈ t.slots, s.kind ≠ .longJump) ∧ maxTotal ≤ t.slots.length) := by
  unfold tryInsertLongJump
  cases hfind : t.slots.findIdx? fun s => s.kind = .longJump with
  | some idx =>
      obtain ⟨old, hget, hkind⟩ := getElem?_of_findIdx? hfind
      have hreported := reported_replaced hget entry t.replacementsThisTick
      refine ⟨fun _ h => ?_, fun _ => hreported⟩
      exact h.1 old (List.mem_of_getElem? hget) hkind
  | none =>
      have hnone : ∀ s ∈ t.slots, s.kind ≠ .longJump := by
        intro s hs hkind
        exact List.find?_eq_none.mp (find?_of_findIdx? hfind) s hs (decide_eq_true hkind)
      dsimp only
      by_cases hroom : t.slots.length < maxTotal
      · rw [if_pos hroom]
        have hreported := reported_added t entry t.replacementsThisTick
        exact ⟨fun _ h => absurd hroom (Nat.not_lt.mpr h.2), fun _ => hreported⟩
      · rw [if_neg hroom]
        have hfull : maxTotal ≤ t.slots.length := Nat.not_lt.mp hroom
        refine ⟨fun h _ => ?_, fun h => absurd ⟨hnone, hfull⟩ h⟩
        -- the dropped entry has no slot, for its peer had none before
        obtain ⟨s, hs, hlabel⟩ := List.mem_map.mp (h.1 rfl)
        exact hfresh s hs (congrArg SlotLabel.peerId hlabel)

/-- **Insertions report.**  An insertion tells the truth, unless a long-jump
entry for a new peer finds neither a long-jump slot nor room. -/
theorem truthful_iff (t : PeerTable) (entry : SlotEntry) :
    t.Truthful entry ↔ ¬ t.NoLongJumpRoom entry := by
  unfold Truthful tryInsert
  by_cases hknown : (t.slots.any fun s => s.peerId = entry.peerId) = true
  · rw [if_pos hknown]
    refine iff_of_true (reported_refused t entry) (fun h => ?_)
    obtain ⟨s, hs, heq⟩ := List.any_eq_true.mp hknown
    exact h.fresh s hs (of_decide_eq_true heq)
  · rw [if_neg hknown]
    have hfresh : ∀ s ∈ t.slots, s.peerId ≠ entry.peerId := by
      intro s hs heq
      exact hknown (List.any_eq_true.mpr ⟨s, hs, decide_eq_true heq⟩)
    cases hkind : entry.kind with
    | greedy =>
        refine iff_of_true (tryInsertGreedy_reported t entry) (fun h => ?_)
        exact nomatch hkind.symm.trans h.kind
    | longJump =>
        rw [tryInsertLongJump_reported_iff hfresh]
        constructor
        · intro h hroom
          exact h ⟨hroom.noSlot, hroom.full⟩
        · intro h hroom
          exact h ⟨hkind, hfresh, hroom.1, hroom.2⟩
    | diversity =>
        refine iff_of_true (tryInsertDiversity_reported t entry) (fun h => ?_)
        exact nomatch hkind.symm.trans h.kind

/-- With room for three greedy slots, as the default configuration has it,
every insertion in every run tells the truth. -/
theorem truthful_of_three_greedy {selfId : NodeId} {maxGreedy : Nat} {t : PeerTable}
    {es : List (Transition PeerTable Op)} (run : Trace Step (new selfId maxGreedy) es t)
    (hthree : maxGreedy ≤ 3) (entry : SlotEntry) : t.Truthful entry := by
  rw [truthful_iff]
  intro h
  have hwell := wellFormed_of_run run
  have hgreedy : t.countKind .greedy ≤ maxGreedy := hwell.kinds .greedy
  have hdiverse : t.countKind .diversity ≤ 1 := hwell.kinds .diversity
  have hlong : t.countKind .longJump = 0 := by
    rw [countKind, List.countP_eq_zero]
    intro s hs hkind
    exact h.noSlot s hs (of_decide_eq_true hkind)
  have hfull : 5 ≤ t.slots.length := h.full
  rw [length_eq_countKind] at hfull
  omega

end PeerTable

namespace PexManager

open PeerTable

/-- The entries that candidates take a place with, each in its turn: the slot
was not there before, and is there afterwards. -/
def placements (m : PexManager) (t : PeerTable) : List PexCandidate → List SlotEntry
  | [] => []
  | c :: rest =>
      let entry := classifyCandidate c t
      let after := (m.applyCandidate (0, t) c).2
      if entry.label ∈ after.labels ∧ entry.label ∉ t.labels then
        entry :: m.placements after rest
      else m.placements after rest

/-- **One candidate** adds one to the number exactly when it takes a place, as
the label of its slot is in the table only afterwards. -/
theorem applyCandidate_eq (m : PexManager) (n : Nat) (t : PeerTable) (c : PexCandidate) :
    m.applyCandidate (n, t) c =
      (n + (if (classifyCandidate c t).label ∈ (m.applyCandidate (0, t) c).2.labels ∧
          (classifyCandidate c t).label ∉ t.labels then 1 else 0),
        (m.applyCandidate (0, t) c).2) := by
  unfold applyCandidate
  by_cases hself : c.descriptor.nodeId = m.selfId
  · rw [if_pos hself, if_pos hself, if_neg (fun h => h.2 h.1), Nat.add_zero]
  · rw [if_neg hself, if_neg hself]
    have htruthful : t.Truthful (classifyCandidate c t) :=
      (truthful_iff t _).mpr (fun h => classifyCandidate_kind c t h.kind)
    unfold Truthful at htruthful
    have hold : (t.tryInsert (classifyCandidate c t)).1 = true →
        (classifyCandidate c t).label ∉ t.labels := by
      intro htrue hmem
      obtain ⟨s, hs, hlabel⟩ := List.mem_map.mp hmem
      have hknown : (t.slots.any fun s => s.peerId = (classifyCandidate c t).peerId) = true :=
        List.any_eq_true.mpr ⟨s, hs, decide_eq_true (congrArg SlotLabel.peerId hlabel)⟩
      rw [tryInsert, if_pos hknown] at htrue
      cases htrue
    dsimp only
    rcases hrun : t.tryInsert (classifyCandidate c t) with ⟨inserted, u⟩
    rw [hrun] at htruthful hold
    cases inserted with
    | true => rw [if_pos ⟨htruthful.1 rfl, hold rfl⟩]
    | false =>
        have hsame : u = t := htruthful.2 rfl
        rw [hsame, if_neg (fun h => h.2 h.1)]
        rfl

/-- The number counts the placements, whatever it starts from. -/
theorem foldl_applyCandidate (m : PexManager) (candidates : List PexCandidate) (n : Nat)
    (t : PeerTable) :
    (candidates.foldl m.applyCandidate (n, t)).1 = n + (m.placements t candidates).length := by
  induction candidates generalizing n t with
  | nil => rfl
  | cons c rest ih =>
      rw [List.foldl_cons, applyCandidate_eq, ih, placements]
      split
      · rw [List.length_cons]
        omega
      · omega

/-- **The number returned** is the number of candidates that took a place.
Candidates beyond the limit of one exchange are not looked at. -/
theorem applyCandidates_fst (m : PexManager) (candidates : List PexCandidate) (t : PeerTable) :
    (m.applyCandidates candidates t).1 = (m.placements t (candidates.take pexQ)).length := by
  rw [applyCandidates, foldl_applyCandidate, Nat.zero_add]

/-- **Insertions and exchanges report.**  For every table and every entry, an
insertion tells the truth unless a long-jump entry for a new peer finds neither
a long-jump slot nor room; and for all candidates, an exchange returns the
number of those that took a place. -/
theorem insertions_reported_iff (t : PeerTable) :
    (∀ entry, ((t.tryInsert entry).1 = true → entry.label ∈ (t.tryInsert entry).2.labels) ∧
          ((t.tryInsert entry).1 = false → (t.tryInsert entry).2 = t) ↔
        ¬ t.NoLongJumpRoom entry) ∧
      ∀ (m : PexManager) (candidates : List PexCandidate),
        (m.applyCandidates candidates t).1 =
          (m.placements t (candidates.take pexQ)).length :=
  ⟨truthful_iff t, fun m candidates => m.applyCandidates_fst candidates t⟩

/-- Five greedy slots, each under a referrer of its own. -/
def fiveGreedy : List Op :=
  [.tryInsert (sampleSlot .greedy 3 3), .tryInsert (sampleSlot .greedy 4 4),
    .tryInsert (sampleSlot .greedy 5 5), .tryInsert (sampleSlot .greedy 6 6),
    .tryInsert (sampleSlot .greedy 7 7)]

/-- A table that allows five greedy slots and has them drops a long jump, and
reports that it was inserted. -/
theorem dropped_long_jump :
    Trace Step (new ⟨Bytes.replicate 32 0⟩ 5)
        (Trace.record perform (new ⟨Bytes.replicate 32 0⟩ 5) fiveGreedy)
        (sampleTable 5 fiveGreedy) ∧
      ((sampleTable 5 fiveGreedy).tryInsert (sampleSlot .longJump 8 8)).1 = true ∧
      (sampleSlot .longJump 8 8).label ∉
        ((sampleTable 5 fiveGreedy).tryInsert (sampleSlot .longJump 8 8)).2.labels :=
  ⟨sampleTable_trace 5 fiveGreedy, by decide⟩

end PexManager

end Zona
