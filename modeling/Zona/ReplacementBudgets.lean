import Zona.RankedRuns
import Zona.TableRuns
import Mathlib.Data.List.MinMax

/-!
# The replacement budget of a tick

Between two ticks a table is offered entries, whatever they are.  The budget of
one replacement is a potential that the first replacement takes: at most one
greedy or diversity slot changes hands (`one_replacement_a_tick`).

The greedy slot that does is the farthest one, and its new occupant is strictly
closer.  So once the greedy slots are full the largest greedy distance never
grows.
-/

namespace Zona

namespace PeerTable

/-- An offer of an entry, rather than a tick or an eviction. -/
def Op.IsInsertion : Op → Prop
  | .tryInsert _ => True
  | _ => False

/-- How many greedy and diversity slots have another occupant in the second
table. -/
def displaced (t u : PeerTable) : Nat :=
  (t.slots.zip u.slots).countP fun p => p.1.kind ≠ .longJump ∧ p.1.peerId ≠ p.2.peerId

/-- The largest distance of a greedy slot from the node. -/
def farthest (t : PeerTable) : WithBot (Bytes 32) :=
  (t.greedySlots.map t.slotDistance).maximum

/-- All greedy slots are taken. -/
def GreedyFull (t : PeerTable) : Prop :=
  t.maxGreedy ≤ t.greedySlots.length

/-- Adding slots at the end displaces none of those that were there. -/
theorem countP_zip_append {α : Type} {f : α × α → Bool} (hf : ∀ a, f (a, a) = false)
    (l m : List α) : (l.zip (l ++ m)).countP f = 0 := by
  induction l with
  | nil => simp
  | cons x l ih =>
      rw [List.cons_append, List.zip_cons_cons, List.countP_cons, ih, hf]
      rfl

/-- A list with one element replaced differs from the list in that element. -/
theorem countP_zip_set {α : Type} {f : α × α → Bool} (hf : ∀ a, f (a, a) = false)
    {l : List α} {i : Nat} {a : α} (hget : l[i]? = some a) (b : α) :
    (l.zip (l.set i b)).countP f = if f (a, b) then 1 else 0 := by
  induction l generalizing i with
  | nil => simp at hget
  | cons x l ih =>
      cases i with
      | zero =>
          have hrest := countP_zip_append hf l []
          rw [List.append_nil] at hrest
          rw [List.getElem?_cons_zero, Option.some.injEq] at hget
          rw [List.set_cons_zero, List.zip_cons_cons, List.countP_cons, hrest, hget, Nat.zero_add]
      | succ i =>
          rw [List.getElem?_cons_succ] at hget
          rw [List.set_cons_succ, List.zip_cons_cons, List.countP_cons, ih hget, hf]
          rfl

variable {t u : PeerTable} {entry : SlotEntry}

/-- An insertion in a run of table operations has one of the outcomes that an
insertion may have. -/
theorem outcome_of_step {op : Op} (hstep : t.Step op u) (hop : op.IsInsertion) :
    ∃ entry, op = .tryInsert entry ∧ t.Outcome entry u := by
  cases op with
  | tryInsert entry =>
      rw [hstep]
      exact ⟨entry, rfl, tryInsert_outcome t entry⟩
  | _ => exact hop.elim

theorem Outcome.displaced_le (h : t.Outcome entry u) :
    t.displaced u + (1 - u.replacementsThisTick) ≤ 1 - t.replacementsThisTick := by
  unfold displaced
  cases h with
  | kept =>
      have hnone := countP_zip_append (f := fun p : SlotEntry × SlotEntry =>
        decide (p.1.kind ≠ .longJump ∧ p.1.peerId ≠ p.2.peerId)) (by simp) t.slots []
      rw [List.append_nil] at hnone
      rw [hnone, Nat.zero_add]
  | added _ _ _ =>
      rw [countP_zip_append (by simp)]
      dsimp only
      omega
  | @replaced idx old _ hget hkind _ hbudget =>
      rw [countP_zip_set (by simp) hget]
      by_cases hlong : entry.kind = .longJump
      · simp [hkind, hlong]
      · have hzero := hbudget hlong
        simp only [if_neg hlong]
        split
        · omega
        · omega

theorem Outcome.one_slot (h : t.Outcome entry u) :
    ∃ idx, ∀ i : Nat, i ≠ idx → u.slots[i]? = t.slots[i]? := by
  cases h with
  | kept => exact ⟨0, fun _ _ => rfl⟩
  | added _ _ _ =>
      refine ⟨t.slots.length, ?_⟩
      intro i hi
      rcases Nat.lt_or_ge i t.slots.length with hlt | hge
      · exact List.getElem?_append_left hlt
      · have hpast : t.slots.length + 1 ≤ i := by omega
        rw [List.getElem?_eq_none hge, List.getElem?_eq_none]
        simpa using hpast
  | @replaced idx old _ _ _ _ _ =>
      refine ⟨idx, ?_⟩
      intro i hi
      exact List.getElem?_set_ne hi.symm

/-- Peers at one distance are one peer, so the farthest slot is unique. -/
theorem slotDistance_inj {s r : SlotEntry} :
    t.slotDistance s = t.slotDistance r ↔ s.peerId = r.peerId := by
  rw [slotDistance, slotDistance, NodeId.xorDistance, NodeId.xorDistance, Bytes.xor_left_inj]
  exact ⟨fun h => congrArg NodeId.mk h, fun h => congrArg NodeId.bytes h⟩

/-- Every other greedy slot is closer than the one at a position. -/
def FarthestAt (t : PeerTable) (i : Nat) : Prop :=
  ∀ old, t.slots[i]? = some old → ∀ j s, j ≠ i → t.slots[j]? = some s → s.kind = .greedy →
    t.slotDistance s < t.slotDistance old

/-- The slot that the source picks for replacement is the farthest one, in a
table without repeated peers. -/
theorem worstGreedy_farthestAt {worst : SlotEntry} {idx : Nat} (hpeers : t.allPeers.Nodup)
    (h : t.worstGreedy = some (worst, idx)) : t.FarthestAt idx := by
  obtain ⟨hget, _, hmax⟩ := worstGreedy_spec h
  intro old hold j s hj hs hkind
  rw [hget, Option.some.injEq] at hold
  subst hold
  have hle := hmax s (List.mem_filter.mpr ⟨List.mem_of_getElem? hs, decide_eq_true hkind⟩)
  refine lt_of_le_of_ne hle ?_
  intro heq
  -- two positions would hold one peer
  have hpeer : t.allPeers[j]? = t.allPeers[idx]? := by
    rw [allPeers, List.getElem?_map, List.getElem?_map, hs, hget, Option.map_some,
      Option.map_some, slotDistance_inj.mp heq]
  have hlt : j < t.allPeers.length := by
    rw [allPeers, List.length_map]
    exact (List.getElem?_eq_some_iff.mp hs).1
  exact hj ((List.getElem?_inj hlt hpeers).mp hpeer)

/-- A slot stays, or the entry takes it; a greedy slot it takes was the
farthest one, and the entry is closer. -/
theorem Outcome.slot_cases (h : t.Outcome entry u) (hpeers : t.allPeers.Nodup) {i : Nat}
    {old : SlotEntry} (hget : t.slots[i]? = some old) :
    u.slots[i]? = some old ∨
      (u.slots[i]? = some entry ∧ entry.kind = old.kind ∧
        (old.kind = .greedy →
          t.slotDistance entry < t.slotDistance old ∧ t.FarthestAt i)) := by
  cases h with
  | kept => exact Or.inl hget
  | added _ _ _ =>
      have hlt := (List.getElem?_eq_some_iff.mp hget).1
      exact Or.inl ((List.getElem?_append_left hlt).trans hget)
  | @replaced idx worst _ hworst hkind hgreedy _ =>
      by_cases hi : idx = i
      · subst hi
        rw [hget, Option.some.injEq] at hworst
        subst hworst
        refine Or.inr ⟨List.getElem?_set_self (List.getElem?_eq_some_iff.mp hget).1,
          hkind.symm, ?_⟩
        intro hold
        obtain ⟨hfound, hcloser⟩ := hgreedy (hkind ▸ hold)
        exact ⟨hcloser, worstGreedy_farthestAt hpeers hfound⟩
      · exact Or.inl ((List.getElem?_set_ne hi).trans hget)

/-- **Full greedy slots** stay full and come no farther away, as only the
farthest is replaced, and by a closer one. -/
theorem Outcome.farthest_le (h : t.Outcome entry u) (hfull : t.GreedyFull) :
    u.GreedyFull ∧ u.farthest ≤ t.farthest := by
  cases h with
  | kept => exact ⟨hfull, le_refl _⟩
  | added _ hroom _ =>
      have hkind : entry.kind ≠ .greedy := by
        intro heq
        rw [heq] at hroom
        exact Nat.not_lt.mpr hfull hroom
      have hsame : (t.slots ++ [entry]).filter (fun s => s.kind = .greedy) = t.greedySlots := by
        rw [greedySlots, List.filter_append, List.filter_cons_of_neg (by simpa using hkind),
          List.filter_nil, List.append_nil]
      unfold GreedyFull farthest greedySlots
      dsimp only
      rw [hsame]
      exact ⟨hfull, le_refl _⟩
  | @replaced idx old _ hget hkind hworst _ =>
      obtain ⟨hlt, hold⟩ := List.getElem?_eq_some_iff.mp hget
      constructor
      · unfold GreedyFull greedySlots at hfull ⊢
        rw [← List.countP_eq_length_filter] at hfull ⊢
        dsimp only
        rw [List.countP_set hlt, hold, hkind]
        by_cases hgreedy : entry.kind = .greedy
        · have hpos : 0 < t.slots.countP fun s => s.kind = .greedy :=
            List.countP_pos_iff.mpr ⟨old, List.mem_of_getElem? hget, by simpa [hkind] using hgreedy⟩
          rw [if_pos (decide_eq_true hgreedy)]
          omega
        · rw [if_neg (by simpa using hgreedy)]
          omega
      · refine List.maximum_le_of_forall_le ?_
        intro d hd
        obtain ⟨s, hs, rfl⟩ := List.mem_map.mp hd
        obtain ⟨hslot, hgreedy⟩ := List.mem_filter.mp hs
        rcases List.mem_or_eq_of_mem_set hslot with hearlier | rfl
        · exact List.le_maximum_of_mem' (List.mem_map.mpr
            ⟨s, List.mem_filter.mpr ⟨hearlier, hgreedy⟩, rfl⟩)
        · have hcloser := (hworst (of_decide_eq_true hgreedy)).2
          have hmem : old ∈ t.greedySlots :=
            List.mem_filter.mpr ⟨List.mem_of_getElem? hget, by rw [hkind]; exact hgreedy⟩
          exact le_trans (WithBot.coe_le_coe.mpr (le_of_lt hcloser))
            (List.le_maximum_of_mem' (List.mem_map.mpr ⟨old, hmem, rfl⟩))

/-- Offers keep peers apart, since a peer that is known is not inserted again. -/
theorem nodup_allPeers_step {op : Op} (hstep : t.Step op u) (hop : op.IsInsertion)
    (hpeers : t.allPeers.Nodup) : u.allPeers.Nodup := by
  rw [hstep]
  cases op with
  | tryInsert entry =>
      rcases tryInsert_admitted t entry with hsame | hadmitted
      · rw [perform, hsame]
        exact hpeers
      · exact hadmitted.nodup_allPeers hpeers
  | _ => exact hop.elim

/-- From full greedy slots on, offers bring them closer only. -/
theorem farthest_le_of_run {es : List (Transition PeerTable Op)} (run : Trace Step t es u)
    (hops : ∀ e ∈ es, e.label.IsInsertion) (hfull : t.GreedyFull) : u.farthest ≤ t.farthest := by
  have hkept := @Trace.invariant_of_all _ _ Step t u es
    (fun v => v.GreedyFull ∧ v.farthest ≤ t.farthest) (fun e => e.label.IsInsertion)
    (by
      rintro e hstep ⟨hfull, hle⟩ hop
      obtain ⟨entry, _, houtcome⟩ := outcome_of_step hstep hop
      obtain ⟨hafter, hcloser⟩ := houtcome.farthest_le hfull
      exact ⟨hafter, le_trans hcloser hle⟩)
    run ⟨hfull, le_refl _⟩ hops
  exact hkept.2

/-- **One replacement a tick, and for the better.**  Whatever entries a table of
distinct peers is offered: at most one greedy or diversity slot changes hands;
each offer touches one slot at most; a slot stays or goes to the entry offered,
one of its kind, and a greedy slot that goes was the farthest one, the entry
being closer; from full greedy slots on the largest greedy distance never
grows. -/
theorem one_replacement_a_tick {t u : PeerTable} {es : List (Transition PeerTable Op)}
    (run : Trace Step t es u) (hops : ∀ e ∈ es, e.label.IsInsertion)
    (hpeers : t.allPeers.Nodup) :
    (es.map fun e => e.before.displaced e.after).sum ≤ 1 ∧
      ∀ e ∈ es, ∃ entry, e.label = .tryInsert entry ∧
        (∃ idx, ∀ i : Nat, i ≠ idx → e.after.slots[i]? = e.before.slots[i]?) ∧
        (∀ (i : Nat) old, e.before.slots[i]? = some old →
          e.after.slots[i]? = some old ∨
            (e.after.slots[i]? = some entry ∧ entry.kind = old.kind ∧
              (old.kind = .greedy →
                e.before.slotDistance entry < e.before.slotDistance old ∧
                  e.before.FarthestAt i))) ∧
        (e.before.GreedyFull → u.farthest ≤ e.before.farthest) := by
  constructor
  · have hpaid := run.sum_cost_le (fun e => e.before.displaced e.after)
      (fun t => 1 - t.replacementsThisTick) (by
        intro e he
        obtain ⟨entry, _, houtcome⟩ := outcome_of_step (run.step_of_mem he) (hops e he)
        exact houtcome.displaced_le)
    omega
  · intro e he
    obtain ⟨pre, post, rfl, hpre, hstep, hpost⟩ := run.split he
    have hbefore := @Trace.invariant_of_all _ _ Step t e.before pre (fun t => t.allPeers.Nodup) _
      (fun e hstep hnodup hop => nodup_allPeers_step hstep hop hnodup) hpre hpeers
      (fun e' he' => hops e' (List.mem_append_left _ he'))
    obtain ⟨entry, hlabel, houtcome⟩ := outcome_of_step hstep (hops e he)
    refine ⟨entry, hlabel, houtcome.one_slot, fun i old => houtcome.slot_cases hbefore, ?_⟩
    intro hfull
    exact farthest_le_of_run (hpost.cons hstep)
      (fun e' he' => hops e' (List.mem_append_right _ he')) hfull

/-- Three greedy entries, each closer to the node 0 than the one before. -/
def closerAndCloser : List Op :=
  [sampleSlot .greedy 6 6, sampleSlot .greedy 5 5, sampleSlot .greedy 4 4].map .tryInsert

/-- A table of one greedy slot is offered the three. -/
theorem one_replacement_of_three :
    ((Trace.record perform (new ⟨Bytes.replicate 32 0⟩ 1) closerAndCloser).map fun e =>
      e.before.displaced e.after).sum ≤ 1 :=
  (one_replacement_a_tick (sampleTable_trace 1 closerAndCloser)
    (by
      intro e he
      obtain ⟨entry, _, hop⟩ := List.mem_map.mp (Trace.label_of_record he)
      rw [← hop]
      trivial)
    List.nodup_nil).1

end PeerTable

end Zona
