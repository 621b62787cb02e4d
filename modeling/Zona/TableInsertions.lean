import Zona.PeerTables
import Mathlib.Data.List.Induction

/-!
# What an insertion does to the slots

`tryInsert_outcome` is the one statement about insertion that the invariants of
the routing table are derived from: the table is left as it is, or the entry
takes a place, a new one or that of a slot of its own kind.  `tryInsert_admitted`
is what most of them need of it.

A slot is known by its **label**: its kind, its peer and its referrer.  Probes
change scores and keep labels.  `QuotaKept` is the rule that no referrer stands
behind more than two greedy slots.  `Tried` is what a message does to a table
that offers it several peers.
-/

namespace Zona

/-- What identifies a slot. -/
structure SlotLabel where
  kind : SlotKind
  peerId : NodeId
  referrerId : NodeId
  deriving DecidableEq

def SlotEntry.label (s : SlotEntry) : SlotLabel :=
  ⟨s.kind, s.peerId, s.referrerId⟩

/-- A peer to try, with the referrer it is filed under. -/
structure SlotOffer where
  peerId : NodeId
  referrerId : NodeId
  deriving DecidableEq

/-- A slot is filed under an offer. -/
def SlotLabel.FiledUnder (l : SlotLabel) (o : SlotOffer) : Prop :=
  l.peerId = o.peerId ∧ l.referrerId = o.referrerId

namespace PeerTable

/-- The labels of the slots, in order. -/
def labels (t : PeerTable) : List SlotLabel :=
  t.slots.map SlotEntry.label

/-- The distance of a slot's peer from the node. -/
def slotDistance (t : PeerTable) (s : SlotEntry) : Bytes 32 :=
  s.peerId.xorDistance t.selfId

/-- Keep the greater of two elements, the later one if they are level. -/
def keepGreatest {α β : Type} [LinearOrder β] (f : α → β) : Option α → α → Option α
  | none, p => some p
  | some q, p => if f q ≤ f p then some p else some q

/-- A fold that keeps the greater element finds a greatest one, when there is
any. -/
theorem foldl_keepGreatest {α β : Type} [LinearOrder β] (f : α → β) (l : List α) :
    (∀ m, l.foldl (keepGreatest f) none = some m → m ∈ l ∧ ∀ p ∈ l, f p ≤ f m) ∧
      (l.foldl (keepGreatest f) none = none → l = []) := by
  induction l using List.reverseRecOn with
  | nil => simp
  | append_singleton l p ih =>
      rw [List.foldl_append, List.foldl_cons, List.foldl_nil]
      obtain ⟨hsome, hnone⟩ := ih
      cases hfound : l.foldl (keepGreatest f) none with
      | none =>
          rw [hnone hfound]
          simp [keepGreatest]
      | some q =>
          obtain ⟨hmem, hmax⟩ := hsome q hfound
          rw [keepGreatest]
          by_cases hle : f q ≤ f p
          · rw [if_pos hle]
            refine ⟨?_, fun h => nomatch h⟩
            rintro m ⟨rfl⟩
            refine ⟨by simp, ?_⟩
            intro r hr
            rcases List.mem_append.mp hr with hin | hlast
            · exact le_trans (hmax r hin) hle
            · rw [List.mem_singleton.mp hlast]
          · rw [if_neg hle]
            refine ⟨?_, fun h => nomatch h⟩
            rintro m ⟨rfl⟩
            refine ⟨List.mem_append_left _ hmem, ?_⟩
            intro r hr
            rcases List.mem_append.mp hr with hin | hlast
            · exact hmax r hin
            · rw [List.mem_singleton.mp hlast]
              exact le_of_lt (not_le.mp hle)

/-- The slot to replace is found by such a fold over the greedy slots. -/
theorem worstGreedy_eq (t : PeerTable) :
    t.worstGreedy = (t.slots.zipIdx.filter fun p => p.1.kind = .greedy).foldl
      (keepGreatest fun p : SlotEntry × Nat => t.slotDistance p.1) none := by
  unfold worstGreedy
  congr 1
  funext worst p
  cases worst with
  | none => rfl
  | some q => rfl

/-- The numbered greedy slots are the greedy slots with their places in the
table. -/
theorem mem_zipIdx_greedy {t : PeerTable} {p : SlotEntry × Nat} :
    (p ∈ t.slots.zipIdx.filter fun p => p.1.kind = .greedy) ↔
      t.slots[p.2]? = some p.1 ∧ p.1.kind = .greedy := by
  rw [List.mem_filter, List.mem_zipIdx_iff_getElem?, decide_eq_true_eq]

/-- **The slot to replace** is a greedy slot, and none is farther away; among
equals the source takes whichever `max_by` gives. -/
theorem worstGreedy_spec {t : PeerTable} {worst : SlotEntry} {idx : Nat}
    (h : t.worstGreedy = some (worst, idx)) :
    t.slots[idx]? = some worst ∧ worst.kind = .greedy ∧
      ∀ s ∈ t.greedySlots, t.slotDistance s ≤ t.slotDistance worst := by
  rw [worstGreedy_eq] at h
  obtain ⟨hmem, hmax⟩ := (foldl_keepGreatest _ _).1 _ h
  obtain ⟨hget, hkind⟩ := mem_zipIdx_greedy.mp hmem
  refine ⟨hget, hkind, ?_⟩
  intro s hs
  obtain ⟨hslot, hgreedy⟩ := List.mem_filter.mp hs
  obtain ⟨i, hi⟩ := List.getElem?_of_mem hslot
  exact hmax (s, i) (mem_zipIdx_greedy.mpr ⟨hi, of_decide_eq_true hgreedy⟩)

/-- There is a slot to replace as soon as there is a greedy slot. -/
theorem worstGreedy_isSome {t : PeerTable} (h : t.greedySlots ≠ []) :
    ∃ worst idx, t.worstGreedy = some (worst, idx) := by
  cases hworst : t.worstGreedy with
  | some pair => exact ⟨pair.1, pair.2, rfl⟩
  | none =>
      rw [worstGreedy_eq] at hworst
      have hnone := (foldl_keepGreatest _ _).2 hworst
      obtain ⟨s, hs⟩ := List.exists_mem_of_ne_nil _ h
      obtain ⟨hslot, hgreedy⟩ := List.mem_filter.mp hs
      obtain ⟨i, hi⟩ := List.getElem?_of_mem hslot
      have hmem := mem_zipIdx_greedy.mpr
        (show t.slots[(s, i).2]? = some (s, i).1 ∧ _ from ⟨hi, of_decide_eq_true hgreedy⟩)
      rw [hnone] at hmem
      cases hmem

/-- The entry took a place in the table: a new one, or that of a slot of its
kind, which was farther away if it was a greedy one. -/
structure Placed (t : PeerTable) (entry : SlotEntry) (u : PeerTable) : Prop where
  fresh : ∀ s ∈ t.slots, s.peerId ≠ entry.peerId
  quota : entry.kind = .greedy → t.referrerQuotaExceeded entry.referrerId = false
  slots : u.slots = t.slots ++ [entry] ∨
    ∃ idx old, t.slots[idx]? = some old ∧ old.kind = entry.kind ∧
      (entry.kind = .greedy → t.slotDistance entry < t.slotDistance old) ∧
      u.slots = t.slots.set idx entry
  frame : u.selfId = t.selfId ∧ u.maxGreedy = t.maxGreedy

/-- There is room for one more slot of a kind. -/
def HasRoom (t : PeerTable) : SlotKind → Prop
  | .greedy => t.greedySlots.length < t.maxGreedy
  | .longJump => t.longJumpSlot = none ∧ t.slots.length < maxTotal
  | .diversity => t.diversitySlot = none ∧ t.slots.length < maxTotal

/-- The same with what its place asks of the entry: room for a new slot, and of
a diversity slot a referrer of its own. -/
structure Admitted (t : PeerTable) (entry : SlotEntry) (u : PeerTable) : Prop where
  fresh : ∀ s ∈ t.slots, s.peerId ≠ entry.peerId
  quota : entry.kind = .greedy → t.referrerQuotaExceeded entry.referrerId = false
  diverse : entry.kind = .diversity → entry.referrerId ∉ t.greedyReferrers
  slots : (t.HasRoom entry.kind ∧ u.slots = t.slots ++ [entry]) ∨
    ∃ idx old, t.slots[idx]? = some old ∧ old.kind = entry.kind ∧
      (entry.kind = .greedy → t.slotDistance entry < t.slotDistance old) ∧
      u.slots = t.slots.set idx entry
  frame : u.selfId = t.selfId ∧ u.maxGreedy = t.maxGreedy

/-- An entry that was admitted at the end of the table has been placed. -/
theorem Admitted.placed {t u : PeerTable} {entry : SlotEntry} (h : t.Admitted entry u) :
    t.Placed entry u :=
  ⟨h.fresh, h.quota, h.slots.imp_left And.right, h.frame⟩

/-- The entry passes the checks that its kind asks for. -/
structure Accepts (t : PeerTable) (entry : SlotEntry) : Prop where
  fresh : ∀ s ∈ t.slots, s.peerId ≠ entry.peerId
  quota : entry.kind = .greedy → t.referrerQuotaExceeded entry.referrerId = false
  diverse : entry.kind = .diversity → entry.referrerId ∉ t.greedyReferrers

/-- What an insertion comes to: the table stays, it has one slot more, or a
slot of the entry's kind is replaced.  A replacement is spent on a greedy and a
diversity slot, and on a new diversity slot as well. -/
inductive Outcome (t : PeerTable) (entry : SlotEntry) : PeerTable → Prop
  | kept : Outcome t entry t
  | added (haccepts : t.Accepts entry) (hroom : t.HasRoom entry.kind)
      (hbudget : entry.kind = .diversity → t.replacementsThisTick = 0) :
      Outcome t entry
        { t with
          slots := t.slots ++ [entry]
          replacementsThisTick :=
            t.replacementsThisTick + if entry.kind = .diversity then 1 else 0 }
  | replaced {idx : Nat} {old : SlotEntry} (haccepts : t.Accepts entry)
      (hget : t.slots[idx]? = some old) (hkind : old.kind = entry.kind)
      (hworst : entry.kind = .greedy → t.worstGreedy = some (old, idx) ∧
        t.slotDistance entry < t.slotDistance old)
      (hbudget : entry.kind ≠ .longJump → t.replacementsThisTick = 0) :
      Outcome t entry
        { t with
          slots := t.slots.set idx entry
          replacementsThisTick :=
            t.replacementsThisTick + if entry.kind = .longJump then 0 else 1 }

/-- Inserting a greedy entry adds it, puts it in the place of a farther slot,
or changes nothing. -/
theorem tryInsertGreedy_outcome {t : PeerTable} {entry : SlotEntry} (hkind : entry.kind = .greedy)
    (hfresh : ∀ s ∈ t.slots, s.peerId ≠ entry.peerId) :
    t.Outcome entry (t.tryInsertGreedy entry).2 := by
  unfold tryInsertGreedy
  cases hquota : t.referrerQuotaExceeded entry.referrerId with
  | true => exact .kept
  | false =>
      have haccepts : t.Accepts entry :=
        ⟨hfresh, fun _ => hquota, fun h => (nomatch hkind.symm.trans h)⟩
      rw [if_neg Bool.false_ne_true]
      by_cases hroom : t.greedySlots.length < t.maxGreedy
      · have hadded := @Outcome.added t entry haccepts (hkind ▸ hroom)
          (fun h => (nomatch hkind.symm.trans h))
        rw [if_pos hroom]
        rw [hkind] at hadded
        exact hadded
      · rw [if_neg hroom]
        by_cases hspent : 1 ≤ t.replacementsThisTick
        · rw [if_pos hspent]
          exact .kept
        · rw [if_neg hspent]
          cases hworst : t.worstGreedy with
          | none => exact .kept
          | some pair =>
              obtain ⟨worst, idx⟩ := pair
              dsimp only
              by_cases hcloser :
                  entry.peerId.xorDistance t.selfId < worst.peerId.xorDistance t.selfId
              · obtain ⟨hget, hgreedy, _⟩ := worstGreedy_spec hworst
                have hreplaced := @Outcome.replaced t entry idx worst haccepts hget
                  (hgreedy.trans hkind.symm) (fun _ => ⟨hworst, hcloser⟩) (fun _ => by omega)
                rw [if_pos hcloser]
                rw [hkind] at hreplaced
                exact hreplaced
              · rw [if_neg hcloser]
                exact .kept

/-- The slot that `findIdx?` names is there and has the kind that was looked
for. -/
theorem getElem?_of_findIdx? {t : PeerTable} {kind : SlotKind} {idx : Nat}
    (h : (t.slots.findIdx? fun s => s.kind = kind) = some idx) :
    ∃ old, t.slots[idx]? = some old ∧ old.kind = kind := by
  obtain ⟨hlt, hkind, _⟩ := List.findIdx?_eq_some_iff_getElem.mp h
  exact ⟨t.slots[idx], List.getElem?_eq_getElem hlt, of_decide_eq_true hkind⟩

/-- No slot is of the kind that `findIdx?` does not find. -/
theorem find?_of_findIdx? {t : PeerTable} {kind : SlotKind}
    (h : (t.slots.findIdx? fun s => s.kind = kind) = none) :
    (t.slots.find? fun s => s.kind = kind) = none := by
  rw [List.findIdx?_eq_none_iff] at h
  rw [List.find?_eq_none]
  intro s hs hkind
  rw [h s hs] at hkind
  exact Bool.false_ne_true hkind

/-- Inserting a long jump adds it, replaces the one there is, or changes
nothing. -/
theorem tryInsertLongJump_outcome {t : PeerTable} {entry : SlotEntry}
    (hkind : entry.kind = .longJump) (hfresh : ∀ s ∈ t.slots, s.peerId ≠ entry.peerId) :
    t.Outcome entry (t.tryInsertLongJump entry).2 := by
  have haccepts : t.Accepts entry :=
    ⟨hfresh, fun h => (nomatch hkind.symm.trans h), fun h => (nomatch hkind.symm.trans h)⟩
  unfold tryInsertLongJump
  cases hfind : t.slots.findIdx? fun s => s.kind = .longJump with
  | some idx =>
      obtain ⟨old, hget, hold⟩ := getElem?_of_findIdx? hfind
      have hreplaced := @Outcome.replaced t entry idx old haccepts hget (hold.trans hkind.symm)
        (fun h => (nomatch hkind.symm.trans h)) (fun h => (h hkind).elim)
      rw [hkind] at hreplaced
      exact hreplaced
  | none =>
      dsimp only
      by_cases hroom : t.slots.length < maxTotal
      · have hadded := @Outcome.added t entry haccepts
          (hkind ▸ ⟨find?_of_findIdx? hfind, hroom⟩) (fun h => (nomatch hkind.symm.trans h))
        rw [if_pos hroom]
        rw [hkind] at hadded
        exact hadded
      · rw [if_neg hroom]
        exact .kept

/-- Inserting a diversity entry adds it, replaces the one there is, or changes
nothing. -/
theorem tryInsertDiversity_outcome {t : PeerTable} {entry : SlotEntry}
    (hkind : entry.kind = .diversity) (hfresh : ∀ s ∈ t.slots, s.peerId ≠ entry.peerId) :
    t.Outcome entry (t.tryInsertDiversity entry).2 := by
  unfold tryInsertDiversity
  by_cases hreferrer : entry.referrerId ∈ t.greedyReferrers
  · rw [if_pos hreferrer]
    exact .kept
  · have haccepts : t.Accepts entry :=
      ⟨hfresh, fun h => (nomatch hkind.symm.trans h), fun _ => hreferrer⟩
    rw [if_neg hreferrer]
    by_cases hspent : 1 ≤ t.replacementsThisTick
    · rw [if_pos hspent]
      exact .kept
    · have hbudget : t.replacementsThisTick = 0 := by omega
      rw [if_neg hspent]
      cases hfind : t.slots.findIdx? fun s => s.kind = .diversity with
      | some idx =>
          obtain ⟨old, hget, hold⟩ := getElem?_of_findIdx? hfind
          have hreplaced := @Outcome.replaced t entry idx old haccepts hget
            (hold.trans hkind.symm) (fun h => (nomatch hkind.symm.trans h)) (fun _ => hbudget)
          rw [hkind] at hreplaced
          exact hreplaced
      | none =>
          dsimp only
          by_cases hroom : t.slots.length < maxTotal
          · have hadded := @Outcome.added t entry haccepts
              (hkind ▸ ⟨find?_of_findIdx? hfind, hroom⟩) (fun _ => hbudget)
            rw [if_pos hroom]
            rw [hkind] at hadded
            exact hadded
          · rw [if_neg hroom]
            exact .kept

/-- **What an insertion does**, for an entry of any kind: a known peer changes
nothing, and a new one goes by its kind. -/
theorem tryInsert_outcome (t : PeerTable) (entry : SlotEntry) :
    t.Outcome entry (t.tryInsert entry).2 := by
  unfold tryInsert
  by_cases hknown : (t.slots.any fun s => s.peerId = entry.peerId) = true
  · rw [if_pos hknown]
    exact .kept
  · rw [if_neg hknown]
    have hfresh : ∀ s ∈ t.slots, s.peerId ≠ entry.peerId := by
      intro s hs heq
      exact hknown (List.any_eq_true.mpr ⟨s, hs, decide_eq_true heq⟩)
    cases hkind : entry.kind with
    | greedy => exact tryInsertGreedy_outcome hkind hfresh
    | longJump => exact tryInsertLongJump_outcome hkind hfresh
    | diversity => exact tryInsertDiversity_outcome hkind hfresh

/-- It leaves the table as it is, or the entry takes a place. -/
theorem tryInsert_admitted (t : PeerTable) (entry : SlotEntry) :
    (t.tryInsert entry).2 = t ∨ t.Admitted entry (t.tryInsert entry).2 := by
  generalize hrun : (t.tryInsert entry).2 = u
  have houtcome := tryInsert_outcome t entry
  rw [hrun] at houtcome
  cases houtcome with
  | kept => exact Or.inl rfl
  | added haccepts hroom _ =>
      exact Or.inr ⟨haccepts.fresh, haccepts.quota, haccepts.diverse, Or.inl ⟨hroom, rfl⟩,
        rfl, rfl⟩
  | @replaced idx old haccepts hget hkind hworst _ =>
      exact Or.inr ⟨haccepts.fresh, haccepts.quota, haccepts.diverse,
        Or.inr ⟨idx, old, hget, hkind, fun h => (hworst h).2, rfl⟩, rfl, rfl⟩

/-- An insertion places the entry or leaves the table as it is. -/
theorem tryInsert_placed (t : PeerTable) (entry : SlotEntry) :
    (t.tryInsert entry).2 = t ∨ t.Placed entry (t.tryInsert entry).2 :=
  (tryInsert_admitted t entry).imp_right Admitted.placed

/-- After an insertion a slot is an old one or the entry. -/
theorem mem_tryInsert {t : PeerTable} {entry s : SlotEntry} (h : s ∈ (t.tryInsert entry).2.slots) :
    s ∈ t.slots ∨ s = entry := by
  rcases tryInsert_placed t entry with hsame | hplaced
  · rw [hsame] at h
    exact Or.inl h
  · rcases hplaced.slots with happend | ⟨idx, old, _, _, _, hset⟩
    · rw [happend] at h
      rcases List.mem_append.mp h with hold | hnew
      · exact Or.inl hold
      · exact Or.inr (List.mem_singleton.mp hnew)
    · rw [hset] at h
      exact List.mem_or_eq_of_mem_set h

/-- A slot that names the node itself is never replaced by a greedy entry. -/
theorem own_slot_stays {t : PeerTable} {s entry : SlotEntry} (hs : s ∈ t.slots)
    (hself : s.peerId = t.selfId) (hkind : entry.kind = .greedy) :
    s ∈ (t.tryInsert entry).2.slots := by
  rcases tryInsert_placed t entry with hsame | hplaced
  · rw [hsame]
    exact hs
  · rcases hplaced.slots with happend | ⟨idx, old, hget, _, hcloser, hset⟩
    · rw [happend]
      exact List.mem_append_left _ hs
    · obtain ⟨i, hi⟩ := List.getElem?_of_mem hs
      have hne : idx ≠ i := by
        rintro rfl
        rw [hi, Option.some.injEq] at hget
        have hless := hcloser hkind
        rw [← hget, slotDistance, slotDistance, hself] at hless
        exact Bytes.not_lt_xor_self _ _ hless
      rw [hset]
      refine List.mem_of_getElem? (i := i) ?_
      rw [List.getElem?_set_ne hne, hi]

section Eligible

variable {t : PeerTable} {entry : SlotEntry}

/-- What a greedy entry for a new peer comes to, when its referrer may stand
behind one more slot. -/
theorem tryInsert_eligible (hkind : entry.kind = .greedy)
    (hfresh : ∀ s ∈ t.slots, s.peerId ≠ entry.peerId)
    (hquota : t.referrerQuotaExceeded entry.referrerId = false) :
    t.tryInsert entry =
      if t.greedySlots.length < t.maxGreedy then (true, { t with slots := t.slots ++ [entry] })
      else if 1 ≤ t.replacementsThisTick then (false, t)
      else
        match t.worstGreedy with
        | none => (false, t)
        | some (worst, idx) =>
            if t.slotDistance entry < t.slotDistance worst then
              (true, { t with
                slots := t.slots.set idx entry
                replacementsThisTick := t.replacementsThisTick + 1 })
            else (false, t) := by
  have hnew : ¬ (t.slots.any fun s => s.peerId = entry.peerId) = true := by
    intro hany
    obtain ⟨s, hs, heq⟩ := List.any_eq_true.mp hany
    exact hfresh s hs (of_decide_eq_true heq)
  have hquota' : ¬ t.referrerQuotaExceeded entry.referrerId = true := by
    rw [hquota]
    exact Bool.false_ne_true
  rw [tryInsert, if_neg hnew, hkind]
  dsimp only
  rw [tryInsertGreedy, if_neg hquota']
  rfl

theorem tryInsert_of_room (hkind : entry.kind = .greedy)
    (hfresh : ∀ s ∈ t.slots, s.peerId ≠ entry.peerId)
    (hquota : t.referrerQuotaExceeded entry.referrerId = false)
    (hroom : t.greedySlots.length < t.maxGreedy) :
    t.tryInsert entry = (true, { t with slots := t.slots ++ [entry] }) := by
  rw [tryInsert_eligible hkind hfresh hquota, if_pos hroom]

/-- With full greedy slots and an unspent budget, an entry that is closer than
the farthest greedy slot takes it. -/
theorem tryInsert_of_closer {worst : SlotEntry} {idx : Nat} (hkind : entry.kind = .greedy)
    (hfresh : ∀ s ∈ t.slots, s.peerId ≠ entry.peerId)
    (hquota : t.referrerQuotaExceeded entry.referrerId = false)
    (hfull : ¬ t.greedySlots.length < t.maxGreedy) (hbudget : t.replacementsThisTick = 0)
    (hworst : t.worstGreedy = some (worst, idx))
    (hcloser : t.slotDistance entry < t.slotDistance worst) :
    t.tryInsert entry =
      (true, { t with
        slots := t.slots.set idx entry
        replacementsThisTick := t.replacementsThisTick + 1 }) := by
  rw [tryInsert_eligible hkind hfresh hquota, if_neg hfull, if_neg (by omega), hworst]
  dsimp only
  rw [if_pos hcloser]

end Eligible

/-- A node that is told of itself at the start of a tick gives itself a slot:
no slot is closer. -/
theorem tryInsert_self {t : PeerTable} {entry : SlotEntry} (hkind : entry.kind = .greedy)
    (hself : entry.peerId = t.selfId) (hfresh : ∀ s ∈ t.slots, s.peerId ≠ entry.peerId)
    (hquota : t.referrerQuotaExceeded entry.referrerId = false) (hmax : 0 < t.maxGreedy)
    (hbudget : t.replacementsThisTick = 0) : entry ∈ (t.tryInsert entry).2.slots := by
  by_cases hroom : t.greedySlots.length < t.maxGreedy
  · rw [tryInsert_of_room hkind hfresh hquota hroom]
    exact List.mem_append_right _ (List.mem_singleton.mpr rfl)
  · have hgreedy : t.greedySlots ≠ [] := by
      intro hnil
      rw [hnil, List.length_nil] at hroom
      exact hroom hmax
    obtain ⟨worst, idx, hworst⟩ := worstGreedy_isSome hgreedy
    obtain ⟨hget, _, _⟩ := worstGreedy_spec hworst
    have hfar : t.slotDistance entry < t.slotDistance worst := by
      rw [slotDistance, hself]
      refine Bytes.xor_self_lt_iff.mpr ?_
      intro heq
      refine hfresh worst (List.mem_of_getElem? hget) ?_
      rw [hself]
      exact congrArg NodeId.mk heq
    rw [tryInsert_of_closer hkind hfresh hquota hroom hbudget hworst hfar]
    exact List.mem_set (List.getElem?_eq_some_iff.mp hget).1 entry

/-- A probe keeps peer, referrer and kind of a slot. -/
theorem recordProbe_label (s : SlotEntry) (success : Bool) :
    (s.recordProbe success).label = s.label :=
  rfl

/-- A probe keeps the labels of the whole table, so it has no part in questions
about origins and quotas. -/
theorem labels_recordProbe (t : PeerTable) (peer : NodeId) (success : Bool) :
    (t.recordProbe peer success).labels = t.labels := by
  have hfirst : ∀ slots : List SlotEntry,
      (recordFirst peer success slots).map SlotEntry.label = slots.map SlotEntry.label := by
    intro slots
    induction slots with
    | nil => rfl
    | cons s rest ih =>
        rw [recordFirst]
        split
        · rw [List.map_cons, List.map_cons, recordProbe_label]
        · rw [List.map_cons, List.map_cons, ih]
  exact hfirst t.slots

/-- The greedy slots a referrer stands behind. -/
def greedyBehind (referrer : NodeId) (labels : List SlotLabel) : Nat :=
  labels.countP fun l => l.kind = .greedy ∧ l.referrerId = referrer

/-- No referrer stands behind more than two greedy slots. -/
def QuotaKept (t : PeerTable) : Prop :=
  ∀ referrer, greedyBehind referrer t.labels ≤ 2

/-- Counting the greedy slots of a referrer is counting labels. -/
theorem length_filter_greedy (t : PeerTable) (referrer : NodeId) :
    (t.slots.filter fun s => s.kind = .greedy ∧ s.referrerId = referrer).length =
      greedyBehind referrer t.labels := by
  rw [greedyBehind, labels, List.countP_map, List.countP_eq_length_filter]
  rfl

/-- The quota has room exactly if the referrer has fewer than two greedy slots. -/
theorem quotaExceeded_eq_false_iff {t : PeerTable} {referrer : NodeId} :
    t.referrerQuotaExceeded referrer = false ↔ greedyBehind referrer t.labels < 2 := by
  rw [referrerQuotaExceeded, length_filter_greedy, decide_eq_false_iff_not, Nat.not_le]

/-- Replacing one element of a list changes a count by at most one. -/
theorem countP_set_le {α : Type} (p : α → Bool) (l : List α) (i : Nat) (a : α) :
    (l.set i a).countP p ≤ l.countP p + if p a then 1 else 0 := by
  induction l generalizing i with
  | nil => simp
  | cons x l ih =>
      cases i with
      | zero =>
          rw [List.set_cons_zero, List.countP_cons, List.countP_cons]
          omega
      | succ i =>
          rw [List.set_cons_succ, List.countP_cons, List.countP_cons]
          have hrest := ih i
          omega

/-- **An insertion keeps the quota**: an added slot is checked against it, and
a replaced one leaves the count of its referrer. -/
theorem quotaKept_tryInsert {t : PeerTable} (h : t.QuotaKept) (entry : SlotEntry) :
    (t.tryInsert entry).2.QuotaKept := by
  rcases tryInsert_placed t entry with hsame | hplaced
  · rw [hsame]
    exact h
  · intro referrer
    have hone : greedyBehind referrer (t.tryInsert entry).2.labels ≤
        greedyBehind referrer t.labels +
          if decide (entry.kind = .greedy ∧ entry.referrerId = referrer) = true then 1 else 0 := by
      unfold greedyBehind labels
      rcases hplaced.slots with happend | ⟨idx, old, _, _, _, hset⟩
      · rw [happend, List.map_append, List.countP_append, List.map_singleton,
          List.countP_singleton]
        exact le_refl _
      · rw [hset, List.map_set]
        exact countP_set_le _ (t.slots.map SlotEntry.label) idx entry.label
    have hbefore := h referrer
    by_cases hown : entry.kind = .greedy ∧ entry.referrerId = referrer
    · have hquota := quotaExceeded_eq_false_iff.mp (hplaced.quota hown.1)
      rw [hown.2] at hquota
      rw [if_pos (decide_eq_true hown)] at hone
      omega
    · rw [if_neg (fun heq => hown (of_decide_eq_true heq))] at hone
      omega

/-- The second table is the first one after its offers were tried in turn,
each for a slot of some kind. -/
inductive Tried : PeerTable → List SlotOffer → PeerTable → Prop
  | nil {t : PeerTable} : Tried t [] t
  | cons {t u : PeerTable} {o : SlotOffer} {rest : List SlotOffer} (kind : SlotKind)
      (h : Tried (t.tryInsert (SlotEntry.new kind o.peerId o.referrerId)).2 rest u) :
      Tried t (o :: rest) u

namespace Tried

variable {t u : PeerTable} {offers : List SlotOffer}

theorem eq_of_nil (h : Tried t [] u) : u = t := by
  cases h with
  | nil => rfl

/-- **Where slots come from.**  A slot was there before, or it is filed under
one of the offers. -/
theorem label_origin (h : Tried t offers u) {l : SlotLabel} (hl : l ∈ u.labels) :
    l ∈ t.labels ∨ ∃ o ∈ offers, l.FiledUnder o := by
  induction h with
  | nil => exact Or.inl hl
  | @cons t u o rest kind _ ih =>
      rcases ih hl with hearlier | ⟨o', ho', hfiled⟩
      · obtain ⟨s, hs, hlabel⟩ := List.mem_map.mp hearlier
        rcases mem_tryInsert hs with hold | hnew
        · exact Or.inl (List.mem_map.mpr ⟨s, hold, hlabel⟩)
        · refine Or.inr ⟨o, List.mem_cons_self, ?_⟩
          rw [← hlabel, hnew]
          exact ⟨rfl, rfl⟩
      · exact Or.inr ⟨o', List.mem_cons_of_mem o ho', hfiled⟩

/-- Trying a list of offers keeps the quota, one insertion at a time. -/
theorem quotaKept (h : Tried t offers u) (ht : t.QuotaKept) : u.QuotaKept := by
  induction h with
  | nil => exact ht
  | cons kind _ ih => exact ih (quotaKept_tryInsert ht _)

end Tried

end PeerTable

end Zona
