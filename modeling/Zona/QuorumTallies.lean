import Zona.CriticalRouting
import Mathlib.Data.List.Duplicate

/-!
# What a quorum tracker makes of its copies

A tracker is a ledger: for every message id a `Tally` of the copies that came
in.  The first copy waits, a second one that matches it is accepted and clears
the tally, and one that differs spoils it for good.  `verdicts_eq` says that the
tracker behaves as this ledger, and `reports_of_id` that the verdicts on the
copies of one id depend on these copies alone.

From this the two laws of a quorum follow exactly as far as they go: a message
is accepted twice when its copies begin with two matching pairs
(`accepted_once_iff`), and the order of its copies is of no matter only when
they are all different or all the same (`order_independent_iff`).
-/

namespace Zona

/-- What a tracker is told of a copy. -/
structure QuorumCopy where
  messageId : UInt64
  payload : List UInt8
  deriving DecidableEq

/-- The results of recording copies one after the other. -/
def QuorumTracker.verdicts (q : QuorumTracker) : List QuorumCopy → List QuorumResult
  | [] => []
  | c :: rest =>
      (q.record c.messageId c.payload).1 ::
        QuorumTracker.verdicts (q.record c.messageId c.payload).2 rest

/-- The copies of one message and what became of it. -/
inductive Tally (κ : Type)
  | fresh
  | held (c : κ)
  | spoilt (c : κ)

/-- A tally for every message id. -/
abbrev Ledger (κ : Type) := UInt64 → Tally κ

section Tallies

variable {κ : Type} (copy : κ → QuorumCopy)

namespace Tally

/-- Count one more copy. -/
def record (t : Tally κ) (c : κ) : QuorumResult × Tally κ :=
  match t with
  | fresh => (.pending, held c)
  | held b =>
      if (copy b).payload = (copy c).payload then (.accepted, fresh)
      else (.inconsistent, spoilt b)
  | spoilt b => (.inconsistent, spoilt b)

def verdicts (t : Tally κ) : List κ → List QuorumResult
  | [] => []
  | c :: rest => (t.record copy c).1 :: verdicts (t.record copy c).2 rest

/-- The tracker's entry for a tally. -/
def entry : Tally κ → Option PendingEntry
  | fresh => none
  | held c => some ⟨(copy c).payload, 1, false⟩
  | spoilt c => some ⟨(copy c).payload, 1, true⟩

end Tally

namespace Ledger

def empty : Ledger κ := fun _ => .fresh

def record (L : Ledger κ) (c : κ) : QuorumResult × Ledger κ :=
  (((L (copy c).messageId).record copy c).1,
    Function.update L (copy c).messageId ((L (copy c).messageId).record copy c).2)

def verdicts (L : Ledger κ) : List κ → List QuorumResult
  | [] => []
  | c :: rest => (L.record copy c).1 :: verdicts (L.record copy c).2 rest

/-- The ledger after some copies. -/
def after (L : Ledger κ) (cs : List κ) : Ledger κ :=
  cs.foldl (fun L c => (L.record copy c).2) L

end Ledger

/-- The tracker holds an entry for every tally of a ledger. -/
def QuorumTracker.Keeps (q : QuorumTracker) (L : Ledger κ) : Prop :=
  ∀ m, q.pending.lookup m = (L m).entry copy

variable {copy}

namespace Tally

/-- A first copy is held, and the verdict is still open. -/
@[simp]
theorem record_fresh (c : κ) : (fresh : Tally κ).record copy c = (.pending, held c) :=
  rfl

/-- A spoilt tally takes no copy any more, not even one that matches the held
payload. -/
@[simp]
theorem record_spoilt (b c : κ) : (spoilt b).record copy c = (.inconsistent, spoilt b) :=
  rfl

/-- A second copy with the held payload is accepted, and the tally is fresh
again. -/
theorem record_held_of_eq {b c : κ} (h : (copy b).payload = (copy c).payload) :
    (held b).record copy c = (.accepted, fresh) := by
  rw [record, if_pos h]

/-- A second copy with another payload spoils the tally. -/
theorem record_held_of_ne {b c : κ} (h : (copy b).payload ≠ (copy c).payload) :
    (held b).record copy c = (.inconsistent, spoilt b) := by
  rw [record, if_neg h]

end Tally

/-- One copy, seen at its own tally: the tracker gives the verdict of the tally
and keeps its new state. -/
theorem QuorumTracker.record_tally {q : QuorumTracker} {t : Tally κ} {c : κ}
    (h : q.pending.lookup (copy c).messageId = t.entry copy) :
    (q.record (copy c).messageId (copy c).payload).1 = (t.record copy c).1 ∧
      (q.record (copy c).messageId (copy c).payload).2.pending.lookup (copy c).messageId =
        (t.record copy c).2.entry copy := by
  unfold QuorumTracker.record QuorumTracker.compare
  cases t with
  | fresh => simp [h, Tally.entry]
  | held b =>
      by_cases hpayload : (copy b).payload = (copy c).payload
      · simp [h, Tally.entry, hpayload, Tally.record_held_of_eq hpayload]
      · simp [h, Tally.entry, hpayload, Tally.record_held_of_ne hpayload]
  | spoilt b =>
      by_cases hpayload : (copy b).payload = (copy c).payload
      · simp [h, Tally.entry, hpayload]
      · simp [h, Tally.entry, hpayload]

/-- Recording a copy changes the tally of its id as recording it there does. -/
theorem Ledger.record_self (L : Ledger κ) (c : κ) :
    (L.record copy c).2 (copy c).messageId = ((L (copy c).messageId).record copy c).2 :=
  Function.update_self _ _ _

/-- Recording a copy leaves the tallies of other ids alone. -/
theorem Ledger.record_of_ne (L : Ledger κ) {c : κ} {m : UInt64} (h : m ≠ (copy c).messageId) :
    (L.record copy c).2 m = L m :=
  Function.update_of_ne h _ _

/-- **One copy.**  Tracker and ledger come to the same result, and the tracker
goes on keeping the ledger. -/
theorem QuorumTracker.Keeps.record {q : QuorumTracker} {L : Ledger κ} (h : q.Keeps copy L)
    (c : κ) :
    (q.record (copy c).messageId (copy c).payload).1 = (L.record copy c).1 ∧
      (q.record (copy c).messageId (copy c).payload).2.Keeps copy (L.record copy c).2 := by
  obtain ⟨hresult, hown⟩ := QuorumTracker.record_tally (h (copy c).messageId)
  refine ⟨hresult, ?_⟩
  intro m
  by_cases hm : m = (copy c).messageId
  · rw [hm, Ledger.record_self]
    exact hown
  · rw [QuorumTracker.record_other q _ hm, Ledger.record_of_ne L hm]
    exact h m

/-- A new tracker keeps the empty ledger, as it has no entries. -/
theorem QuorumTracker.keeps_new : QuorumTracker.new.Keeps copy Ledger.empty :=
  fun _ => rfl

/-- **The tracker is a ledger**: on any list of copies both give the same
verdicts, by induction on the list. -/
theorem QuorumTracker.Keeps.verdicts_eq {q : QuorumTracker} {L : Ledger κ} (h : q.Keeps copy L)
    (cs : List κ) : q.verdicts (cs.map copy) = L.verdicts copy cs := by
  induction cs generalizing q L with
  | nil => rfl
  | cons c rest ih =>
      obtain ⟨hresult, hkeeps⟩ := h.record c
      rw [List.map_cons, QuorumTracker.verdicts, Ledger.verdicts, hresult, ih hkeeps]

theorem Ledger.length_verdicts (L : Ledger κ) (cs : List κ) :
    (L.verdicts copy cs).length = cs.length := by
  induction cs generalizing L with
  | nil => rfl
  | cons c rest ih => rw [Ledger.verdicts, List.length_cons, List.length_cons, ih]

/-- The verdicts on two lists in a row: those on the first, and those on the
second from the ledger that the first leaves. -/
theorem Ledger.verdicts_append (L : Ledger κ) (xs ys : List κ) :
    L.verdicts copy (xs ++ ys) = L.verdicts copy xs ++ (L.after copy xs).verdicts copy ys := by
  induction xs generalizing L with
  | nil => rfl
  | cons x xs ih =>
      rw [List.cons_append, verdicts, verdicts, ih, List.cons_append]
      rfl

/-- **The copies of one message.**  The results on them are those of its tally,
whatever other copies come between. -/
theorem Ledger.reports_of_id (L : Ledger κ) (cs : List κ) (m : UInt64) :
    ((cs.zip (L.verdicts copy cs)).filter fun r => (copy r.1).messageId = m) =
      (cs.filter fun c => (copy c).messageId = m).zip
        ((L m).verdicts copy (cs.filter fun c => (copy c).messageId = m)) := by
  induction cs generalizing L with
  | nil => rfl
  | cons c rest ih =>
      rw [Ledger.verdicts, List.zip_cons_cons]
      by_cases hm : (copy c).messageId = m
      · subst hm
        rw [List.filter_cons_of_pos (by simp), List.filter_cons_of_pos (by simp), ih,
          Ledger.record_self, Tally.verdicts, List.zip_cons_cons]
        rfl
      · rw [List.filter_cons_of_neg (by simpa using hm),
          List.filter_cons_of_neg (by simpa using hm), ih, Ledger.record_of_ne L (Ne.symm hm)]

/-- The copies with which a quorum was reached. -/
def accepted (cs : List κ) (results : List QuorumResult) : List κ :=
  ((cs.zip results).filter fun r => r.2 = .accepted).map Prod.fst

/-- The accepted copies, one verdict at a time: the first copy is listed if it
was accepted. -/
theorem accepted_cons (c : κ) (cs : List κ) (r : QuorumResult) (results : List QuorumResult) :
    accepted (c :: cs) (r :: results) =
      if r = .accepted then c :: accepted cs results else accepted cs results := by
  rw [accepted, List.zip_cons_cons, List.filter_cons]
  by_cases hr : r = .accepted
  · simp [hr, accepted]
  · simp [hr, accepted]

/-- A quorum for one message is reached with its own copies. -/
theorem Ledger.accepted_of_id (L : Ledger κ) (cs : List κ) (m : UInt64) :
    ((accepted cs (L.verdicts copy cs)).filter fun c => (copy c).messageId = m) =
      accepted (cs.filter fun c => (copy c).messageId = m)
        ((L m).verdicts copy (cs.filter fun c => (copy c).messageId = m)) := by
  unfold accepted
  rw [← Ledger.reports_of_id, List.filter_map, List.filter_filter, List.filter_filter]
  congr 1
  refine List.filter_congr ?_
  intro r _
  exact Bool.and_comm _ _

namespace Tally

theorem accepted_spoilt (b : κ) (cs : List κ) :
    accepted cs ((spoilt b).verdicts copy cs) = [] := by
  induction cs with
  | nil => rfl
  | cons c rest ih =>
      rw [verdicts, accepted_cons, record_spoilt, if_neg (fun h => nomatch h)]
      exact ih

/-- **Two by two.**  A matching pair is accepted and forgotten; a pair that
differs is the end of it. -/
theorem accepted_pair (b c : κ) (cs : List κ) :
    accepted (b :: c :: cs) (fresh.verdicts copy (b :: c :: cs)) =
      if (copy b).payload = (copy c).payload then c :: accepted cs (fresh.verdicts copy cs)
      else [] := by
  rw [verdicts, accepted_cons, record_fresh, if_neg (fun h => nomatch h), verdicts,
    accepted_cons]
  by_cases hpayload : (copy b).payload = (copy c).payload
  · rw [record_held_of_eq hpayload, if_pos rfl, if_pos hpayload]
  · rw [record_held_of_ne hpayload, if_neg (fun h => nomatch h), if_neg hpayload]
    exact accepted_spoilt b cs

end Tally

end Tallies

/-- The payloads of the copies of one message, in the order of arrival. -/
def payloadsOf (m : UInt64) (cs : List QuorumCopy) : List (List UInt8) :=
  (cs.filter fun c => c.messageId = m).map QuorumCopy.payload

/-- The copies with which a new tracker, fed with copies, reaches a quorum. -/
def quorums (cs : List QuorumCopy) : List QuorumCopy :=
  accepted cs (QuorumTracker.new.verdicts cs)

section Pairs

variable {α : Type} [DecidableEq α]

/-- The matching pairs that a list begins with. -/
def matchedPairs : List α → List α
  | a :: b :: rest => if a = b then b :: matchedPairs rest else []
  | _ => []

/-- A list has two matched pairs exactly if it begins with a pair of equal
items and then another one. -/
theorem two_le_matchedPairs_iff (l : List α) :
    2 ≤ (matchedPairs l).length ↔ ∃ a b rest, l = a :: a :: b :: b :: rest := by
  constructor
  · intro h
    match l with
    | [] => simp [matchedPairs] at h
    | [_] => simp [matchedPairs] at h
    | a :: b :: rest =>
        rw [matchedPairs] at h
        by_cases hab : a = b
        · rw [if_pos hab, List.length_cons] at h
          match rest with
          | [] => simp [matchedPairs] at h
          | [_] => simp [matchedPairs] at h
          | c :: d :: rest =>
              rw [matchedPairs] at h
              by_cases hcd : c = d
              · exact ⟨a, c, rest, by rw [← hab, ← hcd]⟩
              · rw [if_neg hcd] at h
                simp at h
        · rw [if_neg hab] at h
          simp at h
  · rintro ⟨a, b, rest, rfl⟩
    simp [matchedPairs]

/-- What is matched occurs twice in the list, so an accepted payload has two
copies. -/
theorem mem_of_mem_matchedPairs {l : List α} {a : α} (h : a ∈ matchedPairs l) :
    l.Duplicate a := by
  fun_induction matchedPairs l with
  | case1 b rest ih =>
      rcases List.mem_cons.mp h with rfl | hrest
      · exact List.duplicate_cons_self_iff.mpr List.mem_cons_self
      · exact ((ih hrest).duplicate_cons _).duplicate_cons _
  | case2 => cases h
  | case3 => cases h

/-- An element that comes twice and one that differs from it can be moved to the
front. -/
theorem exists_perm_pair {l : List α} {a b : α} (ha : l.Duplicate a) (hb : b ∈ l) (hne : b ≠ a) :
    ∃ rest, (a :: a :: b :: rest).Perm l := by
  have hcount := List.duplicate_iff_two_le_count.mp ha
  have hagain : a ∈ l.erase a := by
    rw [← List.count_pos_iff, List.count_erase_self]
    omega
  have hother : b ∈ (l.erase a).erase a := by
    rw [List.mem_erase_of_ne hne, List.mem_erase_of_ne hne]
    exact hb
  refine ⟨((l.erase a).erase a).erase b, ?_⟩
  calc List.Perm (a :: a :: b :: ((l.erase a).erase a).erase b) (a :: a :: (l.erase a).erase a) :=
        ((List.perm_cons_erase hother).symm.cons a).cons a
    List.Perm _ (a :: l.erase a) := (List.perm_cons_erase hagain).symm.cons a
    List.Perm _ l := (List.perm_cons_erase ha.mem).symm

/-- **Order.**  Which pairs a list begins with is a matter of its order, unless
its elements are all different or all the same. -/
theorem matchedPairs_perm_iff (l : List α) :
    (∀ l₁ l₂, l₁.Perm l → l₂.Perm l → ∀ a, a ∈ matchedPairs l₁ ↔ a ∈ matchedPairs l₂) ↔
      l.Nodup ∨ ∀ a ∈ l, ∀ b ∈ l, a = b := by
  constructor
  · intro h
    by_contra hmixed
    rw [not_or] at hmixed
    obtain ⟨htwice, hsame⟩ := hmixed
    obtain ⟨a, ha⟩ := List.exists_duplicate_iff_not_nodup.mpr htwice
    obtain ⟨b, hb, hne⟩ : ∃ b ∈ l, b ≠ a := by
      by_contra hnone
      have hall : ∀ x ∈ l, x = a := fun x hx => by_contra fun hne => hnone ⟨x, hx, hne⟩
      exact hsame fun x hx y hy => (hall x hx).trans (hall y hy).symm
    obtain ⟨rest, hperm⟩ := exists_perm_pair ha hb hne
    -- the pair may come first, or the other element may come between
    have hfirst : a ∈ matchedPairs (a :: a :: b :: rest) := by
      rw [matchedPairs, if_pos rfl]
      exact List.mem_cons_self
    have hbetween : (a :: b :: a :: rest).Perm l :=
      ((List.Perm.swap a b rest).cons a).trans hperm
    have hnone := (h _ _ hperm hbetween a).mp hfirst
    rw [matchedPairs, if_neg (Ne.symm hne)] at hnone
    cases hnone
  · rintro (hnodup | hsame) l₁ l₂ h₁ h₂ a
    · have hnone : ∀ l', l'.Perm l → a ∉ matchedPairs l' := fun l' hperm hmem =>
        (mem_of_mem_matchedPairs hmem).not_nodup (hperm.nodup_iff.mpr hnodup)
      exact iff_of_false (hnone l₁ h₁) (hnone l₂ h₂)
    · have hequal : l₁ = l₂ := by
        cases l with
        | nil => rw [h₁.eq_nil, h₂.eq_nil]
        | cons x rest =>
            have hall : x :: rest = List.replicate (x :: rest).length x :=
              List.eq_replicate_of_mem fun b hb => hsame b hb x List.mem_cons_self
            rw [hall] at h₁ h₂
            rw [List.perm_replicate.mp h₁, List.perm_replicate.mp h₂]
      rw [hequal]

end Pairs

/-- The accepted payloads of one id are the matched pairs of the payloads that
arrived, taken from the front while they match. -/
theorem map_payload_accepted (cs : List QuorumCopy) :
    (accepted cs ((Tally.fresh : Tally QuorumCopy).verdicts id cs)).map QuorumCopy.payload =
      matchedPairs (cs.map QuorumCopy.payload) := by
  match cs with
  | [] => rfl
  | [_] => rfl
  | b :: c :: rest =>
      rw [Tally.accepted_pair, List.map_cons, List.map_cons, matchedPairs]
      dsimp only [id_eq]
      by_cases hpayload : b.payload = c.payload
      · rw [if_pos hpayload, if_pos hpayload, List.map_cons, map_payload_accepted rest]
      · rw [if_neg hpayload, if_neg hpayload, List.map_nil]

/-- **What is accepted.**  The matching pairs that the copies of a message
begin with, until two in a row differ. -/
theorem quorums_of_id (cs : List QuorumCopy) (m : UInt64) :
    ((quorums cs).filter fun c => c.messageId = m).map QuorumCopy.payload =
      matchedPairs (payloadsOf m cs) := by
  have hledger := (QuorumTracker.keeps_new : QuorumTracker.new.Keeps id Ledger.empty).verdicts_eq cs
  rw [List.map_id] at hledger
  rw [quorums, hledger, payloadsOf, ← map_payload_accepted]
  exact congrArg _ (Ledger.accepted_of_id Ledger.empty cs m)

/-- **Accepted once.**  A message is accepted once at most, unless its copies
begin with two matching pairs. -/
theorem accepted_once_iff (cs : List QuorumCopy) (m : UInt64) :
    ((quorums cs).filter fun c => c.messageId = m).length ≤ 1 ↔
      ¬ ∃ a b rest, payloadsOf m cs = a :: a :: b :: b :: rest := by
  rw [← two_le_matchedPairs_iff, ← quorums_of_id, List.length_map, Nat.not_le, Nat.lt_succ_iff]

/-- Two copies, and the same two again. -/
def replayed : List QuorumCopy :=
  List.replicate 4 ⟨1, [0x68, 0x69]⟩

/-- **Accepted twice.**  Copies of a message that is delivered already make a
new quorum, as the entry was removed with the first one. -/
theorem replayed_accepted_twice :
    ¬ ∀ (cs : List QuorumCopy) (m : UInt64),
      ((quorums cs).filter fun c => c.messageId = m).length ≤ 1 := by
  intro h
  exact absurd (h replayed 1) (by decide)

/-- The tracker reaches a quorum for a payload. -/
def Accepts (cs : List QuorumCopy) (m : UInt64) (payload : List UInt8) : Prop :=
  ⟨m, payload⟩ ∈ quorums cs

/-- A payload is accepted under an id exactly if it is one of the matched pairs
among the copies with that id. -/
theorem accepts_iff {cs : List QuorumCopy} {m : UInt64} {payload : List UInt8} :
    Accepts cs m payload ↔ payload ∈ matchedPairs (payloadsOf m cs) := by
  rw [← quorums_of_id, List.mem_map, Accepts]
  constructor
  · intro h
    exact ⟨_, List.mem_filter.mpr ⟨h, by simp⟩, rfl⟩
  · rintro ⟨c, hc, rfl⟩
    obtain ⟨hmem, hid⟩ := List.mem_filter.mp hc
    rw [← of_decide_eq_true hid]
    exact hmem

/-- Every order of some payloads is the order of the copies of a message. -/
theorem payloadsOf_map (m : UInt64) (ps : List (List UInt8)) :
    payloadsOf m (ps.map fun p => ⟨m, p⟩) = ps := by
  rw [payloadsOf, List.filter_eq_self.mpr, List.map_map]
  · exact List.map_id ps
  · intro c hc
    obtain ⟨p, _, rfl⟩ := List.mem_map.mp hc
    simp

/-- **Order.**  What is accepted of a message does not depend on the order in
which some copies arrive, among copies of any other messages, exactly when the
copies are all different or all the same. -/
theorem order_independent_iff (m : UInt64) (ps : List (List UInt8)) :
    (∀ cs cs', (payloadsOf m cs).Perm ps → (payloadsOf m cs').Perm ps →
      ∀ payload, Accepts cs m payload ↔ Accepts cs' m payload) ↔
      ps.Nodup ∨ ∀ a ∈ ps, ∀ b ∈ ps, a = b := by
  rw [← matchedPairs_perm_iff]
  constructor
  · intro h l₁ l₂ h₁ h₂ payload
    have hequal := h (l₁.map fun p => ⟨m, p⟩) (l₂.map fun p => ⟨m, p⟩)
      (by rw [payloadsOf_map]; exact h₁) (by rw [payloadsOf_map]; exact h₂) payload
    rw [accepts_iff, accepts_iff, payloadsOf_map, payloadsOf_map] at hequal
    exact hequal
  · intro h cs cs' h₁ h₂ payload
    rw [accepts_iff, accepts_iff]
    exact h _ _ h₁ h₂ payload

/-- **Two of three.**  When two of three copies agree, the message is accepted if
they come first, and is not if the third comes between them. -/
theorem two_of_three_depends_on_order :
    ¬ ∀ (m : UInt64) (cs cs' : List QuorumCopy), (payloadsOf m cs).Perm (payloadsOf m cs') →
      ∀ payload, Accepts cs m payload ↔ Accepts cs' m payload := by
  intro h
  have hequal := h 1 [⟨1, [0]⟩, ⟨1, [0]⟩, ⟨1, [1]⟩] [⟨1, [0]⟩, ⟨1, [1]⟩, ⟨1, [0]⟩]
    (by decide) [0]
  rw [accepts_iff, accepts_iff] at hequal
  exact absurd hequal (by decide)

end Zona
