import Zona.TableRuns

/-!
# The diversity slot and the greedy slots

A diversity slot is for a peer that no referrer of a greedy slot stands behind.
The rule is checked when a diversity entry is inserted and not when a greedy
one is.  So a run keeps it exactly as long as no greedy entry gets a slot under
the referrer of the diversity slot (`diverse_iff`).
-/

namespace Zona

namespace PeerTable

/-- Diversity slots have other referrers than greedy slots. -/
def Diverse (t : PeerTable) : Prop :=
  ∀ d ∈ t.slots, d.kind = .diversity → ∀ g ∈ t.slots, g.kind = .greedy →
    d.referrerId ≠ g.referrerId

/-- What it takes for a greedy entry to get a slot: a new peer, a referrer
below its quota, and room or a slot to replace. -/
def AdmitsGreedy (t : PeerTable) (entry : SlotEntry) : Prop :=
  (∀ s ∈ t.slots, s.peerId ≠ entry.peerId) ∧
    t.referrerQuotaExceeded entry.referrerId = false ∧
      (t.greedySlots.length < t.maxGreedy ∨
        t.replacementsThisTick = 0 ∧ ∃ worst idx, t.worstGreedy = some (worst, idx) ∧
          t.slotDistance entry < t.slotDistance worst)

/-- A greedy entry is to get a slot under the referrer of a diversity slot. -/
def Clash (t : PeerTable) : Op → Prop
  | .tryInsert entry =>
      entry.kind = .greedy ∧ t.AdmitsGreedy entry ∧
        ∃ d ∈ t.slots, d.kind = .diversity ∧ d.referrerId = entry.referrerId
  | _ => False

/-- Without what it takes a greedy entry leaves the table alone. -/
theorem tryInsert_of_not_admits {t : PeerTable} {entry : SlotEntry} (hkind : entry.kind = .greedy)
    (h : ¬ t.AdmitsGreedy entry) : (t.tryInsert entry).2 = t := by
  rw [tryInsert]
  by_cases hknown : (t.slots.any fun s => s.peerId = entry.peerId) = true
  · rw [if_pos hknown]
  · have hfresh : ∀ s ∈ t.slots, s.peerId ≠ entry.peerId := by
      intro s hs heq
      exact hknown (List.any_eq_true.mpr ⟨s, hs, decide_eq_true heq⟩)
    rw [if_neg hknown, hkind]
    dsimp only
    rw [tryInsertGreedy]
    cases hquota : t.referrerQuotaExceeded entry.referrerId with
    | true => rfl
    | false =>
        rw [if_neg Bool.false_ne_true]
        by_cases hroom : t.greedySlots.length < t.maxGreedy
        · exact (h ⟨hfresh, hquota, Or.inl hroom⟩).elim
        · rw [if_neg hroom]
          by_cases hspent : 1 ≤ t.replacementsThisTick
          · rw [if_pos hspent]
          · rw [if_neg hspent]
            cases hworst : t.worstGreedy with
            | none => rfl
            | some pair =>
                obtain ⟨worst, idx⟩ := pair
                dsimp only
                by_cases hcloser :
                    entry.peerId.xorDistance t.selfId < worst.peerId.xorDistance t.selfId
                · exact (h ⟨hfresh, hquota,
                    Or.inr ⟨by omega, worst, idx, hworst, hcloser⟩⟩).elim
                · rw [if_neg hcloser]

/-- With it the entry is among the slots, and every slot of another kind
stays. -/
theorem tryInsert_of_admits {t : PeerTable} {entry : SlotEntry} (hkind : entry.kind = .greedy)
    (h : t.AdmitsGreedy entry) :
    entry ∈ (t.tryInsert entry).2.slots ∧
      ∀ s ∈ t.slots, s.kind ≠ .greedy → s ∈ (t.tryInsert entry).2.slots := by
  obtain ⟨hfresh, hquota, hplace⟩ := h
  have hnew : ¬ (t.slots.any fun s => s.peerId = entry.peerId) = true := by
    intro hany
    obtain ⟨s, hs, heq⟩ := List.any_eq_true.mp hany
    exact hfresh s hs (of_decide_eq_true heq)
  rw [tryInsert, if_neg hnew, hkind]
  dsimp only
  rw [tryInsertGreedy, hquota, if_neg Bool.false_ne_true]
  by_cases hroom : t.greedySlots.length < t.maxGreedy
  · rw [if_pos hroom]
    exact ⟨by simp, fun s hs _ => List.mem_append_left _ hs⟩
  · obtain ⟨htick, worst, idx, hworst, hcloser⟩ := hplace.resolve_left hroom
    obtain ⟨hget, hgreedy, _⟩ := worstGreedy_spec hworst
    rw [if_neg hroom, if_neg (by omega), hworst]
    dsimp only
    rw [slotDistance, slotDistance] at hcloser
    rw [if_pos hcloser]
    refine ⟨List.mem_set (List.getElem?_eq_some_iff.mp hget).1 entry, ?_⟩
    intro s hs hother
    obtain ⟨i, hi⟩ := List.getElem?_of_mem hs
    have hne : idx ≠ i := by
      rintro rfl
      rw [hget, Option.some.injEq] at hi
      exact hother (hi ▸ hgreedy)
    exact List.mem_of_getElem? (i := i) (by rw [List.getElem?_set_ne hne, hi])

/-- A slot of a table with fewer labels was a slot before, up to its score. -/
theorem Diverse.of_subset {t u : PeerTable} (h : t.Diverse) (hsub : u.labels ⊆ t.labels) :
    u.Diverse := by
  have hold : ∀ s ∈ u.slots, ∃ s' ∈ t.slots, s'.label = s.label := by
    intro s hs
    exact List.mem_map.mp (hsub (List.mem_map_of_mem hs))
  intro d hd hdiversity g hg hgreedy
  obtain ⟨d', hd', hdlabel⟩ := hold d hd
  obtain ⟨g', hg', hglabel⟩ := hold g hg
  have hne := h d' hd' ((congrArg SlotLabel.kind hdlabel).trans hdiversity)
    g' hg' ((congrArg SlotLabel.kind hglabel).trans hgreedy)
  have hdreferrer : d'.referrerId = d.referrerId := congrArg SlotLabel.referrerId hdlabel
  have hgreferrer : g'.referrerId = g.referrerId := congrArg SlotLabel.referrerId hglabel
  rw [← hdreferrer, ← hgreferrer]
  exact hne

/-- **The step.**  An operation keeps the rule exactly when it is no clash.
The clash is read off the table before the operation. -/
theorem diverse_step_iff {t u : PeerTable} {op : Op} (hstep : t.Step op u) (h : t.Diverse) :
    u.Diverse ↔ ¬ t.Clash op := by
  subst hstep
  constructor
  · intro hafter hclash
    cases op with
    | tryInsert entry =>
        obtain ⟨hkind, hadmits, d, hd, hdiversity, hsame⟩ := hclash
        obtain ⟨hin, hstays⟩ := tryInsert_of_admits hkind hadmits
        have hd' := hstays d hd (by rw [hdiversity]; decide)
        exact hafter d hd' hdiversity entry hin hkind hsame
    | _ => exact hclash
  · intro hclash
    obtain ⟨_, hsub | ⟨entry, rfl, hadmitted⟩⟩ := perform_cases t op
    · exact h.of_subset hsub.subset
    · intro d hd hdiversity g hg hgreedy hsame
      rcases mem_tryInsert hd with hdold | rfl
      · rcases mem_tryInsert hg with hgold | rfl
        · exact h d hdold hdiversity g hgold hgreedy hsame
        · by_cases hadmits : t.AdmitsGreedy g
          · exact hclash ⟨hgreedy, hadmits, d, hdold, hdiversity, hsame⟩
          · rw [perform, tryInsert_of_not_admits hgreedy hadmits] at hg
            exact h d hdold hdiversity g hg hgreedy hsame
      · rcases mem_tryInsert hg with hgold | rfl
        · refine hadmitted.diverse hdiversity ?_
          rw [hsame]
          exact List.mem_map_of_mem (List.mem_filter.mpr ⟨hgold, decide_eq_true hgreedy⟩)
        · rw [hdiversity] at hgreedy
          cases hgreedy

/-- **Diversity slots stay diverse** along a run exactly when none of its
operations is a clash. -/
theorem diverse_iff {selfId : NodeId} {maxGreedy : Nat} {t : PeerTable}
    {es : List (Transition PeerTable Op)} (run : Trace Step (new selfId maxGreedy) es t) :
    (∀ e ∈ es, e.after.Diverse) ↔ ∀ e ∈ es, ¬ e.before.Clash e.label := by
  have hstart : (new selfId maxGreedy).Diverse := by
    intro d hd
    cases hd
  induction run with
  | nil => simp
  | @snoc t u op es init last ih =>
      simp only [List.mem_append, List.mem_singleton, or_imp, forall_and, forall_eq]
      refine (and_congr_left' ih).trans (and_congr_right ?_)
      intro hclear
      have hbefore : t.Diverse :=
        @Trace.invariant_of_all _ _ Step _ t es Diverse (fun e => ¬ e.before.Clash e.label)
          (fun _ he h hgood => (diverse_step_iff he h).mpr hgood) init hstart hclear
      exact diverse_step_iff last hbefore

/-- The rule stays when the diversity slot comes second. -/
theorem diverse_in_one_order :
    (∃ e ∈ Trace.record perform (new ⟨Bytes.replicate 32 0⟩ 3)
      [.tryInsert (sampleSlot .greedy 1 1), .tryInsert (sampleSlot .diversity 2 2)],
      ∃ d ∈ e.after.slots, d.kind = .diversity) ∧
    ∀ e ∈ Trace.record perform (new ⟨Bytes.replicate 32 0⟩ 3)
      [.tryInsert (sampleSlot .greedy 1 1), .tryInsert (sampleSlot .diversity 2 2)],
      e.after.Diverse := by
  refine ⟨by decide +kernel, (diverse_iff (sampleTable_trace 3
    [.tryInsert (sampleSlot .greedy 1 1), .tryInsert (sampleSlot .diversity 2 2)])).mpr ?_⟩
  intro e he
  rcases List.mem_cons.mp he with rfl | he
  · rintro ⟨_, _, d, hd, _⟩
    cases hd
  · rw [List.mem_singleton.mp he]
    rintro ⟨hkind, _⟩
    cases hkind

/-- **A diversity slot that is none.**  The same referrer comes to stand behind
a greedy slot later. -/
theorem diversity_shared :
    ¬ ∀ es t, Trace Step (new ⟨Bytes.replicate 32 0⟩ 3) es t →
      (∀ e ∈ es, e.label.IsStructural) → t.Diverse := by
  intro h
  have hrun := sampleTable_trace 3
    [.tryInsert (sampleSlot .diversity 1 9), .tryInsert (sampleSlot .greedy 2 9)]
  have hops : ∀ e ∈ Trace.record perform (new ⟨Bytes.replicate 32 0⟩ 3)
      [.tryInsert (sampleSlot .diversity 1 9), .tryInsert (sampleSlot .greedy 2 9)],
      e.label.IsStructural := by
    intro e he
    rcases List.mem_cons.mp he with rfl | he
    · trivial
    · rw [List.mem_singleton.mp he]
      trivial
  have hslots : (sampleTable 3
      [.tryInsert (sampleSlot .diversity 1 9), .tryInsert (sampleSlot .greedy 2 9)]).slots =
      [sampleSlot .diversity 1 9, sampleSlot .greedy 2 9] := by
    rfl
  refine h _ _ hrun hops (sampleSlot .diversity 1 9) ?_ rfl (sampleSlot .greedy 2 9) ?_ rfl rfl
  · rw [hslots]
    exact List.mem_cons_self
  · rw [hslots]
    exact List.mem_cons_of_mem _ List.mem_cons_self

end PeerTable

end Zona
