import Zona.CriticalRouting
import Zona.RepairTargets
import Zona.TableRuns
import Mathlib.Data.List.Destutter

/-!
# Independent peers

Two neighbours are independent when different referrers recommended them.  The
node relies on independence twice: it is healthy when it has two independent
live greedy slots, and it sends a critical message over two independent live
hops.  Both functions look at dead slots as well.

`evaluateRecovery_eq_healthy` says what is evaluated, and `healthy_sound_iff`
when that is what the state stands for.  `pickForkHops_outcome` says which of
its three stages a choice of hops comes from, and `forkSound_iff` at which of
them the promise of the choice is kept.
-/

namespace Zona

/-- Two of the slots have different referrers. -/
def HasTwoReferrers (slots : List SlotEntry) : Prop :=
  ∃ a ∈ slots, ∃ b ∈ slots, a.referrerId ≠ b.referrerId

instance (slots : List SlotEntry) : Decidable (HasTwoReferrers slots) :=
  inferInstanceAs (Decidable (∃ a ∈ slots, ∃ b ∈ slots, a.referrerId ≠ b.referrerId))

/-- Slots lack two referrers exactly if all of them have the same one, the
empty list included. -/
theorem not_hasTwoReferrers_iff {slots : List SlotEntry} :
    ¬ HasTwoReferrers slots ↔
      ∀ a ∈ slots, ∀ b ∈ slots, a.referrerId = b.referrerId := by
  simp [HasTwoReferrers]

/-- A list with two different elements is not shorter than that. -/
theorem two_le_length_of_ne {α : Type} {l : List α} {a b : α} (ha : a ∈ l) (hb : b ∈ l)
    (hne : a ≠ b) : 2 ≤ l.length := by
  match l with
  | [] => exact absurd ha List.not_mem_nil
  | [x] =>
      rw [List.mem_singleton] at ha hb
      exact absurd (ha.trans hb.symm) hne
  | _ :: _ :: _ => simp

namespace PeerTable

/-- The greedy slots that are not due for eviction. -/
def liveGreedy (t : PeerTable) : List SlotEntry :=
  t.greedySlots.filter fun s => !s.shouldEvict

/-- A slot is live exactly if it is in the table and not marked for eviction. -/
theorem mem_liveSlots {t : PeerTable} {s : SlotEntry} :
    s ∈ t.liveSlots ↔ s ∈ t.slots ∧ s.shouldEvict = false := by
  simp [liveSlots]

/-- A live greedy slot is a greedy slot of the table that is not marked for
eviction. -/
theorem mem_liveGreedy {t : PeerTable} {s : SlotEntry} :
    s ∈ t.liveGreedy ↔ s ∈ t.slots ∧ s.kind = .greedy ∧ s.shouldEvict = false := by
  simp [liveGreedy, greedySlots, and_comm]

/-- The table is in recovery exactly if it has fewer than two live greedy
slots. -/
theorem length_liveGreedy (t : PeerTable) : t.inRecovery = decide (t.liveGreedy.length < 2) := by
  have hfilter : (t.slots.filter fun s => s.kind = .greedy ∧ s.shouldEvict = false) =
      t.liveGreedy := by
    rw [liveGreedy, greedySlots, List.filter_filter]
    congr 1
    funext s
    cases s.shouldEvict with
    | _ => simp
  rw [inRecovery, hfilter]

end PeerTable

section Recovery

open PeerTable

/-- Dropping repetitions leaves a single element exactly when there is nothing
but repetitions. -/
theorem length_destutter'_lt_two_iff {α : Type} [DecidableEq α] (a : α) (l : List α) :
    (l.destutter' (· ≠ ·) a).length < 2 ↔ ∀ b ∈ l, b = a := by
  induction l with
  | nil => simp
  | cons b rest ih =>
      by_cases hsame : b = a
      · subst hsame
        rw [List.destutter'_cons_neg (h := fun h => h rfl), ih]
        simp
      · have hne : a ≠ b := fun h => hsame h.symm
        have hrest : 0 < (rest.destutter' (· ≠ ·) b).length :=
          List.length_pos_iff.mpr (List.destutter'_ne_nil _ _)
        have hkept : (b :: rest).destutter' (· ≠ ·) a = a :: rest.destutter' (· ≠ ·) b :=
          if_pos hne
        rw [hkept, List.length_cons]
        constructor
        · intro hshort
          omega
        · intro hall
          exact absurd (hall b List.mem_cons_self) hsame

/-- Repetitions are dropped where they stand next to each other; still, fewer
than two elements are left exactly when all are equal. -/
theorem length_destutter_lt_two_iff {α : Type} [DecidableEq α] (l : List α) :
    (l.destutter (· ≠ ·)).length < 2 ↔ ∀ a ∈ l, ∀ b ∈ l, a = b := by
  cases l with
  | nil => simp
  | cons a rest =>
      rw [List.destutter_cons', length_destutter'_lt_two_iff]
      constructor
      · intro h
        have hall : ∀ b ∈ a :: rest, b = a := by
          intro b hb
          rcases List.mem_cons.mp hb with hhead | htail
          · exact hhead
          · exact h b htail
        intro b hb c hc
        rw [hall b hb, hall c hc]
      · intro h b hb
        exact h b (List.mem_cons_of_mem a hb) a List.mem_cons_self

/-- **What is evaluated**: there are two live greedy slots, and the greedy
slots, live or not, have two referrers. -/
theorem evaluateRecovery_eq_healthy (t : PeerTable) :
    evaluateRecovery t = .healthy ↔ 2 ≤ t.liveGreedy.length ∧ HasTwoReferrers t.greedySlots := by
  have hreferrers : (t.greedyReferrers.destutter (· ≠ ·)).length < 2 ↔
      ¬ HasTwoReferrers t.greedySlots := by
    rw [length_destutter_lt_two_iff, not_hasTwoReferrers_iff, greedyReferrers]
    simp only [List.forall_mem_map]
  unfold evaluateRecovery
  rw [length_liveGreedy]
  by_cases hfew : t.liveGreedy.length < 2
  · rw [if_pos (decide_eq_true hfew)]
    exact iff_of_false (fun h => nomatch h) (fun h => absurd h.1 (Nat.not_le.mpr hfew))
  · rw [if_neg (fun h => hfew (of_decide_eq_true h))]
    by_cases htwo : HasTwoReferrers t.greedySlots
    · rw [if_neg (fun h => hreferrers.mp h htwo)]
      exact iff_of_true rfl ⟨Nat.not_lt.mp hfew, htwo⟩
    · rw [if_pos (hreferrers.mpr htwo)]
      exact iff_of_false (fun h => nomatch h) (fun h => htwo h.2)

/-- Two or more live greedy slots have one referrer between them, and a dead
greedy slot has another one. -/
structure DeadReferrer (t : PeerTable) : Prop where
  two : 2 ≤ t.liveGreedy.length
  one : ∀ a ∈ t.liveGreedy, ∀ b ∈ t.liveGreedy, a.referrerId = b.referrerId
  dead : ∃ s ∈ t.greedySlots, s.shouldEvict = true ∧
    ∀ a ∈ t.liveGreedy, s.referrerId ≠ a.referrerId

/-- **Recovery.**  A node is healthy exactly when two live greedy slots have
different referrers, unless the second referrer is that of a dead slot. -/
theorem healthy_sound_iff (t : PeerTable) :
    (evaluateRecovery t = .healthy ↔
        ∃ a ∈ t.slots, ∃ b ∈ t.slots, a.kind = .greedy ∧ b.kind = .greedy ∧
          a.shouldEvict = false ∧ b.shouldEvict = false ∧ a.referrerId ≠ b.referrerId) ↔
      ¬ DeadReferrer t := by
  have hspread : (∃ a ∈ t.slots, ∃ b ∈ t.slots, a.kind = .greedy ∧ b.kind = .greedy ∧
      a.shouldEvict = false ∧ b.shouldEvict = false ∧ a.referrerId ≠ b.referrerId) ↔
      HasTwoReferrers t.liveGreedy := by
    constructor
    · intro hgiven
      obtain ⟨a, ha, b, hb, hka, hkb, hla, hlb, hne⟩ := hgiven
      exact ⟨a, mem_liveGreedy.mpr ⟨ha, hka, hla⟩, b, mem_liveGreedy.mpr ⟨hb, hkb, hlb⟩, hne⟩
    · intro hgiven
      obtain ⟨a, ha, b, hb, hne⟩ := hgiven
      obtain ⟨ha, hka, hla⟩ := mem_liveGreedy.mp ha
      obtain ⟨hb, hkb, hlb⟩ := mem_liveGreedy.mp hb
      exact ⟨a, ha, b, hb, hka, hkb, hla, hlb, hne⟩
  have hgreedy : ∀ s ∈ t.liveGreedy, s ∈ t.greedySlots := fun s hs => (List.mem_filter.mp hs).1
  rw [hspread, evaluateRecovery_eq_healthy]
  constructor
  · intro h hdead
    obtain ⟨s, hs, _, hother⟩ := hdead.dead
    have hsome : t.liveGreedy ≠ [] := by
      intro hnil
      have htwo := hdead.two
      rw [hnil] at htwo
      exact absurd htwo (by decide)
    obtain ⟨a, ha⟩ := List.exists_mem_of_ne_nil _ hsome
    have hlive := h.mp ⟨hdead.two, s, hs, a, hgreedy a ha, hother a ha⟩
    exact not_hasTwoReferrers_iff.mpr hdead.one hlive
  · intro hsound
    constructor
    · intro hgiven
      obtain ⟨htwo, a, ha, b, hb, hne⟩ := hgiven
      apply Classical.byContradiction
      intro hone
      have hsame := not_hasTwoReferrers_iff.mp hone
      refine hsound ⟨htwo, hsame, ?_⟩
      -- of two different referrers, one is not the one of the live slots
      have hdead : ∀ s ∈ t.greedySlots, (∃ l ∈ t.liveGreedy, s.referrerId ≠ l.referrerId) →
          ∃ s ∈ t.greedySlots, s.shouldEvict = true ∧
            ∀ a ∈ t.liveGreedy, s.referrerId ≠ a.referrerId := by
        rintro s hs ⟨l, hl, hother⟩
        refine ⟨s, hs, ?_, fun a ha => hsame l hl a ha ▸ hother⟩
        cases hevict : s.shouldEvict with
        | true => rfl
        | false =>
            have hin : s ∈ t.liveGreedy := List.mem_filter.mpr ⟨hs, by simp [hevict]⟩
            exact absurd (hsame s hin l hl) hother
      have hsome : t.liveGreedy ≠ [] := by
        intro hnil
        rw [hnil] at htwo
        exact absurd htwo (by decide)
      obtain ⟨l, hl⟩ := List.exists_mem_of_ne_nil _ hsome
      by_cases hal : a.referrerId = l.referrerId
      · exact hdead b hb ⟨l, hl, fun hbl => hne (hal.trans hbl.symm)⟩
      · exact hdead a ha ⟨l, hl, hal⟩
    · intro hgiven
      obtain ⟨a, ha, b, hb, hne⟩ := hgiven
      refine ⟨?_, a, hgreedy a ha, b, hgreedy b hb, hne⟩
      exact two_le_length_of_ne ha hb fun h => hne (congrArg SlotEntry.referrerId h)

/-- Two greedy slots under one referrer and a third under another, whose peer
answers none of nine probes. -/
def oneDeadReferrer : List Op :=
  [.tryInsert (sampleSlot .greedy 1 1), .tryInsert (sampleSlot .greedy 2 1),
    .tryInsert (sampleSlot .greedy 3 2)] ++ List.replicate 9 (.recordProbe 2 false)

/-- The node counts as healthy on the strength of the dead slot. -/
theorem healthy_by_dead_slot :
    evaluateRecovery (sampleTable 3 oneDeadReferrer) = .healthy ∧
      ¬ ∃ a ∈ (sampleTable 3 oneDeadReferrer).slots,
        ∃ b ∈ (sampleTable 3 oneDeadReferrer).slots, a.kind = .greedy ∧ b.kind = .greedy ∧
          a.shouldEvict = false ∧ b.shouldEvict = false ∧ a.referrerId ≠ b.referrerId := by
  decide +kernel

end Recovery

section Forks

open PeerTable

/-- No live greedy slot has another referrer than the diversity slot. -/
def NoDiversityFork (t : PeerTable) : Prop :=
  ∀ d, t.diversitySlot = some d → ∀ g ∈ t.liveGreedy, g.referrerId = d.referrerId

/-- There is no live greedy slot, or no long-jump slot for another peer. -/
def NoLongJumpFork (t : PeerTable) : Prop :=
  ∀ g l, t.liveGreedy.head? = some g → t.longJumpSlot = some l → l.peerId = g.peerId

/-- What a choice of two first hops comes to. -/
inductive ForkOutcome (t : PeerTable) : Option (NodeId × NodeId) → Prop
  | diversity {d g : SlotEntry} (hd : t.diversitySlot = some d)
      (hg : (t.liveGreedy.find? fun s => s.referrerId ≠ d.referrerId) = some g) :
      ForkOutcome t (some (g.peerId, d.peerId))
  | longJump {g l : SlotEntry} (hno : NoDiversityFork t) (hg : t.liveGreedy.head? = some g)
      (hl : t.longJumpSlot = some l) (hne : l.peerId ≠ g.peerId) :
      ForkOutcome t (some (g.peerId, l.peerId))
  | anyTwo {a c : SlotEntry} {rest : List SlotEntry} (hno : NoDiversityFork t)
      (hnone : NoLongJumpFork t) (hlive : t.liveSlots = a :: c :: rest) :
      ForkOutcome t (some (a.peerId, c.peerId))
  | nothing (hno : NoDiversityFork t) (hnone : NoLongJumpFork t)
      (hfew : t.liveSlots.length < 2) : ForkOutcome t none

/-- The first stage: the diversity slot and a live greedy one. -/
def diversityFork (t : PeerTable) : Option (NodeId × NodeId) := do
  let d ← t.diversitySlot
  let g ← t.liveGreedy.find? fun s => s.referrerId ≠ d.referrerId
  pure (g.peerId, d.peerId)

/-- The second stage: the first live greedy slot and the long-jump slot. -/
def longJumpFork (t : PeerTable) : Option (NodeId × NodeId) := do
  let g ← t.liveGreedy.head?
  let l ← t.longJumpSlot
  if l.peerId ≠ g.peerId then pure (g.peerId, l.peerId) else none

/-- The third stage: the first two live slots. -/
def anyTwo (t : PeerTable) : Option (NodeId × NodeId) :=
  match t.liveSlots with
  | a :: c :: _ => some (a.peerId, c.peerId)
  | _ => none

/-- Picking the hops of a fork goes through three stages, and the first that
finds a pair decides. -/
theorem pickForkHops_eq (t : PeerTable) :
    pickForkHops t = (diversityFork t <|> longJumpFork t <|> anyTwo t) :=
  rfl

/-- The first stage finds the diversity slot and a greedy slot with another
referrer, or it does not find any. -/
theorem diversityFork_cases (t : PeerTable) :
    (∃ d g, t.diversitySlot = some d ∧
        (t.liveGreedy.find? fun s => s.referrerId ≠ d.referrerId) = some g ∧
        diversityFork t = some (g.peerId, d.peerId)) ∨
      (NoDiversityFork t ∧ diversityFork t = none) := by
  unfold diversityFork
  cases hd : t.diversitySlot with
  | none => exact Or.inr ⟨fun d h => (nomatch hd.symm.trans h), rfl⟩
  | some d =>
      cases hfirst : t.liveGreedy.find? fun s => s.referrerId ≠ d.referrerId with
      | none =>
          refine Or.inr ⟨?_, by simp only [Option.bind_eq_bind, Option.bind_some, hfirst]; rfl⟩
          intro d' hd' g hg
          rw [hd, Option.some.injEq] at hd'
          rw [← hd']
          exact not_not.mp fun h => List.find?_eq_none.mp hfirst g hg (decide_eq_true h)
      | some g =>
          refine Or.inl ⟨d, g, rfl, hfirst, ?_⟩
          simp only [Option.bind_eq_bind, Option.bind_some, hfirst]
          rfl

/-- The second stage takes the first live greedy slot and the long jump, or
fails for lack of one or because they name one peer. -/
theorem longJumpFork_cases (t : PeerTable) :
    (∃ g l, t.liveGreedy.head? = some g ∧ t.longJumpSlot = some l ∧ l.peerId ≠ g.peerId ∧
        longJumpFork t = some (g.peerId, l.peerId)) ∨
      (NoLongJumpFork t ∧ longJumpFork t = none) := by
  unfold longJumpFork NoLongJumpFork
  cases t.liveGreedy.head? with
  | none => exact Or.inr ⟨fun g l h => (nomatch h), rfl⟩
  | some g =>
      cases t.longJumpSlot with
      | none => exact Or.inr ⟨fun g l _ h => (nomatch h), rfl⟩
      | some l =>
          by_cases hne : l.peerId = g.peerId
          · refine Or.inr ⟨?_, if_neg (not_not.mpr hne)⟩
            intro g' l' hg hl
            rw [← Option.some.inj hg, ← Option.some.inj hl]
            exact hne
          · exact Or.inl ⟨g, l, rfl, rfl, hne, if_pos hne⟩

/-- The last stage takes the first two live slots, or fails because there are
fewer. -/
theorem anyTwo_cases (t : PeerTable) :
    (∃ a c rest, t.liveSlots = a :: c :: rest ∧ anyTwo t = some (a.peerId, c.peerId)) ∨
      (t.liveSlots.length < 2 ∧ anyTwo t = none) := by
  unfold anyTwo
  match t.liveSlots with
  | [] => exact Or.inr ⟨by simp, rfl⟩
  | [a] => exact Or.inr ⟨by simp, rfl⟩
  | a :: c :: rest => exact Or.inl ⟨a, c, rest, rfl, rfl⟩

/-- **What is chosen**, stage by stage: each later choice is made only where
the earlier stages found nothing. -/
theorem pickForkHops_outcome (t : PeerTable) : ForkOutcome t (pickForkHops t) := by
  rw [pickForkHops_eq]
  rcases diversityFork_cases t with ⟨d, g, hd, hg, hfork⟩ | ⟨hno, hfork⟩
  · rw [hfork]
    exact .diversity hd hg
  · rw [hfork]
    rcases longJumpFork_cases t with ⟨g, l, hg, hl, hne, hjump⟩ | ⟨hnone, hjump⟩
    · rw [hjump]
      exact .longJump hno hg hl hne
    · rw [hjump]
      rcases anyTwo_cases t with ⟨a, c, rest, hlive, htwo⟩ | ⟨hfew, htwo⟩
      · rw [htwo]
        exact .anyTwo hno hnone hlive
      · rw [htwo]
        exact .nothing hno hnone hfew

/-- What the choice promises: it fails exactly when fewer than two slots are
live, and otherwise names two live peers, under different referrers whenever
two live slots have them. -/
structure ForkSound (t : PeerTable) (hops : Option (NodeId × NodeId)) : Prop where
  none_iff : hops = none ↔ t.liveSlots.length < 2
  independent : ∀ a b, hops = some (a, b) → a ≠ b ∧ ∃ s ∈ t.liveSlots, ∃ r ∈ t.liveSlots,
    s.peerId = a ∧ r.peerId = b ∧
      (HasTwoReferrers t.liveSlots → s.referrerId ≠ r.referrerId)

/-- What each stage needs of the slots it looks at: a diversity slot that is
used is live, a long-jump slot that is used is live and under a referrer of its
own, and two slots that are used for want of others are under two referrers,
both as far as there are two. -/
structure ForkReady (t : PeerTable) : Prop where
  diversity : ∀ d, t.diversitySlot = some d →
    (∃ g ∈ t.liveGreedy, g.referrerId ≠ d.referrerId) → d.shouldEvict = false
  longJump : NoDiversityFork t → ∀ g l, t.liveGreedy.head? = some g → t.longJumpSlot = some l →
    l.shouldEvict = false ∧ (HasTwoReferrers t.liveSlots → g.referrerId ≠ l.referrerId)
  anyTwo : NoDiversityFork t → t.liveGreedy = [] ∨ t.longJumpSlot = none →
    ∀ a c rest, t.liveSlots = a :: c :: rest →
      HasTwoReferrers t.liveSlots → a.referrerId ≠ c.referrerId

variable {t : PeerTable}

/-- The diversity slot is a slot of the table with that kind. -/
theorem diversitySlot_eq_some {d : SlotEntry} (h : t.diversitySlot = some d) :
    d ∈ t.slots ∧ d.kind = .diversity :=
  ⟨List.mem_of_find?_eq_some h, by simpa using List.find?_some h⟩

/-- The long-jump slot is a slot of the table with that kind. -/
theorem longJumpSlot_eq_some {l : SlotEntry} (h : t.longJumpSlot = some l) :
    l ∈ t.slots ∧ l.kind = .longJump :=
  ⟨List.mem_of_find?_eq_some h, by simpa using List.find?_some h⟩

/-- What the search for another referrer finds is a live greedy slot whose
referrer differs. -/
theorem of_find_other {d g : SlotEntry}
    (h : (t.liveGreedy.find? fun s => s.referrerId ≠ d.referrerId) = some g) :
    g ∈ t.liveGreedy ∧ g.referrerId ≠ d.referrerId :=
  ⟨List.mem_of_find?_eq_some h, by simpa using List.find?_some h⟩

/-- Without a fork of the first stage, no live greedy slot is independent of the
diversity slot. -/
theorem NoDiversityFork.not_exists (hno : NoDiversityFork t) {d : SlotEntry}
    (hd : t.diversitySlot = some d) : ¬ ∃ g ∈ t.liveGreedy, g.referrerId ≠ d.referrerId := by
  intro hgiven
  obtain ⟨g, hg, hother⟩ := hgiven
  exact hother (hno d hd g hg)

theorem eq_of_peerId (hpeers : t.allPeers.Nodup) {s r : SlotEntry} (hs : s ∈ t.slots)
    (hr : r ∈ t.slots) (h : s.peerId = r.peerId) : s = r :=
  List.inj_on_of_nodup_map hpeers hs hr h

/-- With distinct peers, slots of different kinds are for different peers. -/
theorem peerId_ne_of_kind (hpeers : t.allPeers.Nodup) {s r : SlotEntry} (hs : s ∈ t.slots)
    (hr : r ∈ t.slots) (h : s.kind ≠ r.kind) : s.peerId ≠ r.peerId :=
  fun heq => h (congrArg SlotEntry.kind (eq_of_peerId hpeers hs hr heq))

/-- With distinct peers, the second stage only fails for want of a slot. -/
theorem NoLongJumpFork.not_both (hnone : NoLongJumpFork t) (hpeers : t.allPeers.Nodup)
    {g l : SlotEntry} (hg : t.liveGreedy.head? = some g) : t.longJumpSlot ≠ some l := by
  intro hl
  obtain ⟨hgs, hgk, _⟩ := mem_liveGreedy.mp (List.mem_of_head? hg)
  obtain ⟨hls, hlk⟩ := longJumpSlot_eq_some hl
  have hne : l.kind ≠ g.kind := by
    rw [hlk, hgk]
    decide
  exact peerId_ne_of_kind hpeers hls hgs hne (hnone g l hg hl)

/-- The second stage fails exactly if there is no live greedy slot or no long
jump, as distinct slots have distinct peers. -/
theorem noLongJumpFork_iff (hpeers : t.allPeers.Nodup) :
    NoLongJumpFork t ↔ t.liveGreedy = [] ∨ t.longJumpSlot = none := by
  constructor
  · intro h
    cases hg : t.liveGreedy.head? with
    | none => exact Or.inl (List.head?_eq_none_iff.mp hg)
    | some g =>
        cases hl : t.longJumpSlot with
        | none => exact Or.inr rfl
        | some l => exact absurd hl (h.not_both hpeers hg)
  · rintro (hnil | hnone) g l hg hl
    · rw [hnil] at hg
      cases hg
    · rw [hnone] at hl
      cases hl

/-- Two slots with the right peers make a sound choice exactly when they are
live and, if possible, independent. -/
theorem forkSound_pair_iff (hpeers : t.allPeers.Nodup) {s r : SlotEntry} (hs : s ∈ t.slots)
    (hr : r ∈ t.slots) (hne : s.peerId ≠ r.peerId) :
    ForkSound t (some (s.peerId, r.peerId)) ↔
      s.shouldEvict = false ∧ r.shouldEvict = false ∧
        (HasTwoReferrers t.liveSlots → s.referrerId ≠ r.referrerId) := by
  constructor
  · intro h
    obtain ⟨_, s', hs', r', hr', hsp, hrp, hreferrers⟩ := h.independent _ _ rfl
    obtain rfl := eq_of_peerId hpeers (mem_liveSlots.mp hs').1 hs hsp
    obtain rfl := eq_of_peerId hpeers (mem_liveSlots.mp hr').1 hr hrp
    exact ⟨(mem_liveSlots.mp hs').2, (mem_liveSlots.mp hr').2, hreferrers⟩
  · intro hgiven
    obtain ⟨hlive, hlive', hreferrers⟩ := hgiven
    have hs' := mem_liveSlots.mpr ⟨hs, hlive⟩
    have hr' := mem_liveSlots.mpr ⟨hr, hlive'⟩
    refine ⟨?_, ?_⟩
    · have htwo := two_le_length_of_ne hs' hr' fun h => hne (congrArg SlotEntry.peerId h)
      exact iff_of_false (fun h => nomatch h) (Nat.not_lt.mpr htwo)
    · intro a b hab
      obtain ⟨rfl, rfl⟩ := Prod.mk.injEq _ _ _ _ ▸ Option.some.inj hab
      exact ⟨hne, s, hs', r, hr', rfl, rfl, hreferrers⟩

/-- **Forks.**  In a table with distinct peers, the two first hops are as
promised exactly when the slots that the stages look at are as they need. -/
theorem forkSound_iff (hpeers : t.allPeers.Nodup) :
    ForkSound t (pickForkHops t) ↔ ForkReady t := by
  have houtcome := pickForkHops_outcome t
  generalize pickForkHops t = hops at houtcome
  cases houtcome with
  | @diversity d g hd hg =>
      obtain ⟨hmem, hother⟩ := of_find_other hg
      obtain ⟨hgs, hgk, hglive⟩ := mem_liveGreedy.mp hmem
      obtain ⟨hds, hdk⟩ := diversitySlot_eq_some hd
      have hkinds : g.kind ≠ d.kind := by
        rw [hgk, hdk]
        decide
      have hfork : ¬ NoDiversityFork t := fun hno => hno.not_exists hd ⟨g, hmem, hother⟩
      rw [forkSound_pair_iff hpeers hgs hds (peerId_ne_of_kind hpeers hgs hds hkinds)]
      constructor
      · intro hgiven
        obtain ⟨_, hdlive, _⟩ := hgiven
        refine ⟨?_, fun hno => absurd hno hfork, fun hno => absurd hno hfork⟩
        intro d' hd' _
        rw [hd, Option.some.injEq] at hd'
        exact hd' ▸ hdlive
      · intro h
        exact ⟨hglive, h.diversity d hd ⟨g, hmem, hother⟩, fun _ => hother⟩
  | @longJump g l hno hg hl hne =>
      obtain ⟨hgs, hgk, hglive⟩ := mem_liveGreedy.mp (List.mem_of_head? hg)
      have hls := (longJumpSlot_eq_some hl).1
      rw [forkSound_pair_iff hpeers hgs hls (Ne.symm hne)]
      constructor
      · intro hgiven
        obtain ⟨_, hllive, hreferrers⟩ := hgiven
        refine ⟨?_, ?_, ?_⟩
        · intro d hd hfork
          exact absurd hfork (hno.not_exists hd)
        · intro _ g' l' hg' hl'
          rw [hg, Option.some.injEq] at hg'
          rw [hl, Option.some.injEq] at hl'
          exact hg' ▸ hl' ▸ ⟨hllive, hreferrers⟩
        · rintro _ (hnil | hnone)
          · rw [hnil] at hg
            cases hg
          · rw [hnone] at hl
            cases hl
      · intro h
        obtain ⟨hllive, hreferrers⟩ := h.longJump hno g l hg hl
        exact ⟨hglive, hllive, hreferrers⟩
  | @anyTwo a c rest hno hnone hlive =>
      have ha : a ∈ t.liveSlots := by simp [hlive]
      have hc : c ∈ t.liveSlots := by simp [hlive]
      obtain ⟨has, halive⟩ := mem_liveSlots.mp ha
      obtain ⟨hcs, hclive⟩ := mem_liveSlots.mp hc
      have hne : a.peerId ≠ c.peerId := by
        have hsub : (t.liveSlots.map SlotEntry.peerId).Nodup :=
          List.Nodup.sublist (List.filter_sublist.map _) hpeers
        rw [hlive, List.map_cons, List.nodup_cons] at hsub
        exact fun heq => hsub.1 (heq ▸ List.mem_map_of_mem List.mem_cons_self)
      rw [forkSound_pair_iff hpeers has hcs hne]
      constructor
      · intro hgiven
        obtain ⟨_, _, hreferrers⟩ := hgiven
        refine ⟨?_, ?_, ?_⟩
        · intro d hd hfork
          exact absurd hfork (hno.not_exists hd)
        · intro _ g l hg hl
          exact absurd hl (hnone.not_both hpeers hg)
        · intro _ _ a' c' rest' hlive'
          rw [hlive, List.cons.injEq, List.cons.injEq] at hlive'
          rw [← hlive'.1, ← hlive'.2.1]
          exact hreferrers
      · intro h
        exact ⟨halive, hclive,
          h.anyTwo hno ((noLongJumpFork_iff hpeers).mp hnone) a c rest hlive⟩
  | nothing hno hnone hfew =>
      have hsound : ForkSound t none :=
        ⟨iff_of_true rfl hfew, fun _ _ h => (nomatch h)⟩
      refine iff_of_true hsound ⟨?_, ?_, ?_⟩
      · intro d hd hfork
        exact absurd hfork (hno.not_exists hd)
      · intro _ g l hg hl
        exact absurd hl (hnone.not_both hpeers hg)
      · intro _ _ a c rest hlive
        rw [hlive, List.length_cons, List.length_cons] at hfew
        omega

/-- A greedy and a diversity slot under two referrers. -/
def twoReferrers : PeerTable :=
  sampleTable 3 [.tryInsert (sampleSlot .greedy 1 1), .tryInsert (sampleSlot .diversity 2 2)]

/-- The two are what a message is forked over. -/
theorem twoReferrers_forkSound : ForkSound twoReferrers (pickForkHops twoReferrers) := by
  refine (forkSound_iff (t := twoReferrers) (by decide)).mpr ⟨?_, ?_, ?_⟩
  · intro d hd _
    have hslot : some (sampleSlot .diversity 2 2) = some d := hd
    rw [← Option.some.inj hslot]
    decide +kernel
  · intro _ g l _ hl
    have hnone : none = some l := hl
    cases hnone
  · intro hno
    have hgreedy : sampleSlot .greedy 1 1 ∈ twoReferrers.liveGreedy := by decide +kernel
    exact absurd (hno (sampleSlot .diversity 2 2) rfl _ hgreedy) (by decide)

/-- Two live greedy slots under one referrer, and a diversity slot whose peer
answers none of nine probes. -/
def deadDiversity : PeerTable :=
  sampleTable 3 ([.tryInsert (sampleSlot .greedy 1 1), .tryInsert (sampleSlot .greedy 2 1),
    .tryInsert (sampleSlot .diversity 3 3)] ++ List.replicate 9 (.recordProbe 2 false))

/-- A message is forked over the dead slot, though there are two live ones. -/
theorem fork_over_dead_slot :
    deadDiversity.allPeers.Nodup ∧ deadDiversity.liveSlots.length = 2 ∧
      ¬ ForkSound deadDiversity (pickForkHops deadDiversity) := by
  have hfacts : deadDiversity.allPeers.Nodup ∧ deadDiversity.liveSlots.length = 2 ∧
      pickForkHops deadDiversity =
        some ((sampleSlot .greedy 1 1).peerId, (sampleSlot .diversity 3 3).peerId) ∧
      ∀ s ∈ deadDiversity.liveSlots, s.peerId ≠ (sampleSlot .diversity 3 3).peerId := by
    decide +kernel
  obtain ⟨hpeers, htwo, hhops, hdead⟩ := hfacts
  refine ⟨hpeers, htwo, fun hsound => ?_⟩
  obtain ⟨_, _, _, r, hr, _, hpeer, _⟩ := hsound.independent _ _ hhops
  exact hdead r hr hpeer

end Forks

end Zona
