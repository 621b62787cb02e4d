import Zona.CriticalForks
import Zona.QuorumTallies

/-!
# Which copies make a quorum

A node records every copy of a critical message that it takes, whoever sent the
message and whoever handed the copy over.  Message ids are counters of their
originators, so copies of different originators meet in one tally, and one
neighbour may deliver both copies of a pair.

`separate_iff` is about ledgers in general: the copies of every originator get
the results they would get alone exactly when each copy comes to a tally of its
own originator.  Alone, the copies of one originator under one id are taken in
twos, and `held_after_iff` says which of them completes a quorum: the second of
two, as long as all twos so far match.  `quorum_justified_iff` carries both over
to the runs of a node.
-/

namespace Zona

section Separation

variable {κ ο : Type} {copy : κ → QuorumCopy} {origin : κ → ο}

namespace Tally

/-- The copy that a tally started with. -/
def opener : Tally κ → Option κ
  | fresh => none
  | held c => some c
  | spoilt c => some c

/-- The copy comes to a tally of its own originator. -/
def OwnedBy (origin : κ → ο) (t : Tally κ) (o : ο) : Prop :=
  ∀ b ∈ t.opener, origin b = o

/-- A fresh tally belongs to everybody, as it holds no copy. -/
theorem ownedBy_fresh (o : ο) : (fresh : Tally κ).OwnedBy origin o :=
  fun _ hb => nomatch hb

/-- Counting a copy of its originator leaves the tally to it. -/
theorem OwnedBy.record {t : Tally κ} {c : κ} (h : t.OwnedBy origin (origin c)) :
    (t.record copy c).2.OwnedBy origin (origin c) := by
  cases t with
  | fresh =>
      intro b hb
      rw [← Option.some_inj.mp hb]
  | held b =>
      by_cases hpayload : (copy b).payload = (copy c).payload
      · rw [record_held_of_eq hpayload]
        exact ownedBy_fresh _
      · rw [record_held_of_ne hpayload]
        exact h
  | spoilt b => exact h

/-- A copy that comes to a tally of another originator does not wait. -/
theorem record_not_pending {t : Tally κ} {c : κ} (h : ¬ t.OwnedBy origin (origin c)) :
    (t.record copy c).1 ≠ .pending := by
  cases t with
  | fresh => exact (h (ownedBy_fresh _)).elim
  | held b =>
      by_cases hpayload : (copy b).payload = (copy c).payload
      · rw [record_held_of_eq hpayload]
        exact fun heq => nomatch heq
      · rw [record_held_of_ne hpayload]
        exact fun heq => nomatch heq
  | spoilt b => exact fun heq => nomatch heq

end Tally

/-- Copies taken in twos, in their order: the two of each two carry one payload. -/
def PairsMatch (copy : κ → QuorumCopy) : List κ → Prop
  | [] => True
  | [_] => True
  | a :: b :: rest => (copy a).payload = (copy b).payload ∧ PairsMatch copy rest

namespace Tally

/-- The tally after some copies. -/
def after (copy : κ → QuorumCopy) (t : Tally κ) (cs : List κ) : Tally κ :=
  cs.foldl (fun t c => (t.record copy c).2) t

/-- A tally that is spoilt stays so, whatever copies come. -/
theorem after_spoilt (a : κ) (cs : List κ) : after copy (spoilt a) cs = spoilt a := by
  induction cs with
  | nil => rfl
  | cons c cs ih => exact ih

/-- **Who completes a quorum.**  A tally waits for the very payload of a copy
exactly when an odd number of copies came in before it and, with it, all of
them match two by two. -/
theorem held_after_iff (c : κ) : ∀ cs : List κ,
    (∃ b, after copy fresh cs = held b ∧ (copy b).payload = (copy c).payload) ↔
      cs.length % 2 = 1 ∧ PairsMatch copy (cs ++ [c])
  | [] => by simp [after]
  | [a] => by simp [after, PairsMatch]
  | a :: b :: rest => by
      have hrest := held_after_iff c rest
      have hlength : (a :: b :: rest).length % 2 = rest.length % 2 := by
        simp only [List.length_cons]
        omega
      change _ ↔ _ ∧ (copy a).payload = (copy b).payload ∧ PairsMatch copy (rest ++ [c])
      rw [hlength]
      by_cases hpayload : (copy a).payload = (copy b).payload
      · have hafter : after copy fresh (a :: b :: rest) = after copy fresh rest := by
          change after copy ((held a).record copy b).2 rest = _
          rw [record_held_of_eq hpayload]
        rw [hafter, hrest, and_iff_right hpayload]
      · have hafter : after copy fresh (a :: b :: rest) = spoilt a := by
          change after copy ((held a).record copy b).2 rest = _
          rw [record_held_of_ne hpayload, after_spoilt]
        rw [hafter]
        constructor
        · rintro ⟨_, hheld, _⟩
          cases hheld
        · rintro ⟨_, hsame, _⟩
          exact absurd hsame hpayload

end Tally

namespace Ledger

/-- What a ledger has under one id comes of the copies with this id alone. -/
theorem after_at (L : Ledger κ) (cs : List κ) (m : UInt64) :
    L.after copy cs m =
      Tally.after copy (L m) (cs.filter fun c => (copy c).messageId = m) := by
  induction cs generalizing L with
  | nil => rfl
  | cons c cs ih =>
      change (L.record copy c).2.after copy cs m = _
      rw [ih]
      by_cases hm : (copy c).messageId = m
      · subst hm
        rw [record_self, List.filter_cons_of_pos (by simp)]
        rfl
      · rw [record_of_ne L (fun h => hm h.symm), List.filter_cons_of_neg (by simpa using hm)]

/-- Each copy comes to a tally of its own originator. -/
def Separate (copy : κ → QuorumCopy) (origin : κ → ο) (L : Ledger κ) : List κ → Prop
  | [] => True
  | c :: rest => (L (copy c).messageId).OwnedBy origin (origin c) ∧
      Separate copy origin (L.record copy c).2 rest

/-- Copy by copy: a list is separate exactly if each copy finds the tally of
its id fresh or owned by its originator. -/
theorem separate_iff_forall (L : Ledger κ) (cs : List κ) :
    L.Separate copy origin cs ↔ ∀ pre c post, cs = pre ++ c :: post →
      (L.after copy pre (copy c).messageId).OwnedBy origin (origin c) := by
  induction cs generalizing L with
  | nil => exact iff_of_true trivial fun pre c post h => by simp at h
  | cons x rest ih =>
      rw [Separate, ih]
      constructor
      · rintro ⟨hown, hrest⟩ pre c post h
        cases pre with
        | nil =>
            obtain ⟨rfl, rfl⟩ := List.cons.inj h
            exact hown
        | cons y pre =>
            obtain ⟨rfl, hpost⟩ := List.cons.inj h
            exact hrest pre c post hpost
      · intro h
        refine ⟨h [] x rest rfl, ?_⟩
        intro pre c post hpost
        exact h (x :: pre) c post (by rw [hpost]; rfl)

end Ledger

variable [DecidableEq ο]

namespace Tally

instance (t : Tally κ) (o : ο) : Decidable (t.OwnedBy origin o) :=
  inferInstanceAs (Decidable (∀ b ∈ t.opener, origin b = o))

/-- What one originator sees of a tally. -/
def view (origin : κ → ο) (o : ο) (t : Tally κ) : Tally κ :=
  if t.OwnedBy origin o then t else fresh

/-- The owner of a tally sees it as it is. -/
theorem view_of_owned {t : Tally κ} {o : ο} (h : t.OwnedBy origin o) : t.view origin o = t :=
  if_pos h

/-- A tally of one originator is invisible to another. -/
theorem view_of_other {t : Tally κ} {o o' : ο} (h : t.OwnedBy origin o) (hne : o ≠ o') :
    t.view origin o' = fresh := by
  cases t with
  | fresh => exact view_of_owned (fun b hb => nomatch hb)
  | held b => exact if_neg fun h' => hne ((h b rfl).symm.trans (h' b rfl))
  | spoilt b => exact if_neg fun h' => hne ((h b rfl).symm.trans (h' b rfl))

end Tally

namespace Ledger

/-- What one originator sees of a ledger. -/
def view (origin : κ → ο) (o : ο) (L : Ledger κ) : Ledger κ :=
  fun m => (L m).view origin o

theorem view_empty (o : ο) : (empty : Ledger κ).view origin o = empty := by
  funext m
  exact Tally.view_of_owned (Tally.ownedBy_fresh o)

variable {L : Ledger κ} {c : κ}

theorem record_view_own (h : (L (copy c).messageId).OwnedBy origin (origin c)) :
    ((L.view origin (origin c)).record copy c).1 = (L.record copy c).1 ∧
      ((L.view origin (origin c)).record copy c).2 = (L.record copy c).2.view origin (origin c) := by
  have hown : L.view origin (origin c) (copy c).messageId = L (copy c).messageId :=
    Tally.view_of_owned h
  refine ⟨by rw [record, record, hown], ?_⟩
  funext m
  by_cases hm : m = (copy c).messageId
  · rw [hm, record_self, hown, view, record_self, Tally.view_of_owned h.record]
  · rw [record_of_ne _ hm, view, view, record_of_ne _ hm]

/-- Any other originator sees nothing of a copy that was recorded in a tally
which it does not own. -/
theorem record_view_other (h : (L (copy c).messageId).OwnedBy origin (origin c)) {o : ο}
    (hne : origin c ≠ o) : (L.record copy c).2.view origin o = L.view origin o := by
  funext m
  by_cases hm : m = (copy c).messageId
  · rw [hm, view, view, record_self, Tally.view_of_other h hne,
      Tally.view_of_other h.record hne]
  · rw [view, view, record_of_ne _ hm]

/-- **Alone.**  As long as the originators are apart, one of them sees what its
own copies would have left. -/
theorem view_after {L : Ledger κ} {cs : List κ} (h : L.Separate copy origin cs) (o : ο) :
    (L.after copy cs).view origin o =
      (L.view origin o).after copy (cs.filter fun c => origin c = o) := by
  induction cs generalizing L with
  | nil => rfl
  | cons c cs ih =>
      obtain ⟨hown, hrest⟩ := h
      change ((L.record copy c).2.after copy cs).view origin o = _
      rw [ih hrest]
      by_cases horigin : origin c = o
      · subst horigin
        rw [List.filter_cons_of_pos (by simp), ← (record_view_own hown).2]
        rfl
      · rw [List.filter_cons_of_neg (by simpa using horigin), record_view_other hown horigin]

/-- The results on the copies of one originator. -/
def resultsOf (copy : κ → QuorumCopy) (origin : κ → ο) (o : ο) (L : Ledger κ) (cs : List κ) :
    List QuorumResult :=
  ((cs.zip (L.verdicts copy cs)).filter fun r => origin r.1 = o).map Prod.snd

/-- The results on an originator's copies, one copy at a time: the first is
listed if it is one of them. -/
theorem resultsOf_cons (o : ο) (L : Ledger κ) (c : κ) (rest : List κ) :
    L.resultsOf copy origin o (c :: rest) =
      if origin c = o then (L.record copy c).1 :: (L.record copy c).2.resultsOf copy origin o rest
      else (L.record copy c).2.resultsOf copy origin o rest := by
  rw [resultsOf, verdicts, List.zip_cons_cons, List.filter_cons]
  by_cases horigin : origin c = o
  · simp [horigin, resultsOf]
  · simp [horigin, resultsOf]

/-- **Originators apart.**  The copies of every originator get the results that
they would get alone, exactly when each comes to a tally of its own. -/
theorem separate_iff (L : Ledger κ) (cs : List κ) :
    L.Separate copy origin cs ↔
      ∀ o, L.resultsOf copy origin o cs =
        (L.view origin o).verdicts copy (cs.filter fun c => origin c = o) := by
  induction cs generalizing L with
  | nil => exact iff_of_true trivial fun _ => rfl
  | cons c rest ih =>
      rw [Separate, ih]
      by_cases hown : (L (copy c).messageId).OwnedBy origin (origin c)
      · rw [and_iff_right hown]
        obtain ⟨hresult, hview⟩ := record_view_own hown
        refine forall_congr' fun o => ?_
        rw [resultsOf_cons]
        by_cases horigin : origin c = o
        · subst horigin
          rw [if_pos rfl, List.filter_cons_of_pos (by simp), verdicts, hresult, hview,
            List.cons_inj_right]
        · rw [if_neg horigin, List.filter_cons_of_neg (by simpa using horigin),
            record_view_other hown horigin]
      · -- alone the copy would wait, and here it does not
        refine iff_of_false (fun h => hown h.1) ?_
        intro h
        have halone := h (origin c)
        have hfresh : L.view origin (origin c) (copy c).messageId = .fresh := if_neg hown
        rw [resultsOf_cons, if_pos rfl, List.filter_cons_of_pos (by simp), verdicts,
          List.cons.injEq, record, record, hfresh] at halone
        exact Tally.record_not_pending hown halone.1

end Ledger

end Separation

/-- A copy of a critical message as its destination gets it. -/
structure CriticalCopy extends QuorumCopy where
  neighbour : NodeId
  originator : NodeId
  deriving DecidableEq

/-- Two copies of one message of its originator came in, the copy itself being
one of them maybe, over two neighbours. -/
def CriticalCopy.Justified (past : List CriticalCopy) (c : CriticalCopy) : Prop :=
  ∃ b ∈ past ++ [c], ∃ b' ∈ past ++ [c], b.neighbour ≠ b'.neighbour ∧
    (b.toQuorumCopy = c.toQuorumCopy ∧ b.originator = c.originator) ∧
      b'.toQuorumCopy = c.toQuorumCopy ∧ b'.originator = c.originator

/-- The earlier copies of the originator of a copy under its message id. -/
def CriticalCopy.prior (past : List CriticalCopy) (c : CriticalCopy) : List CriticalCopy :=
  past.filter fun b => b.messageId = c.messageId ∧ b.originator = c.originator

/-- How a copy should come in.  While its message id is taken, the copy that took
it is of the same originator.  And of the copies of this originator under this
id, taken in twos that match so far, it is the second of two only if some
earlier one with its payload came over another neighbour. -/
structure CriticalCopy.Orderly (past : List CriticalCopy) (c : CriticalCopy) : Prop where
  owner : ((Ledger.empty.after CriticalCopy.toQuorumCopy past) c.messageId).OwnedBy
    CriticalCopy.originator c.originator
  attested : (c.prior past).length % 2 = 1 →
    PairsMatch CriticalCopy.toQuorumCopy (c.prior past ++ [c]) →
      ∃ b ∈ c.prior past, b.payload = c.payload ∧ b.neighbour ≠ c.neighbour

/-- With a copy of its own at hand, it takes one more of another neighbour. -/
theorem CriticalCopy.justified_iff {past : List CriticalCopy} {c : CriticalCopy} :
    c.Justified past ↔ ∃ b ∈ past, b.toQuorumCopy = c.toQuorumCopy ∧
      b.originator = c.originator ∧ b.neighbour ≠ c.neighbour := by
  constructor
  · rintro ⟨b, hb, b', hb', hne, ⟨hcopy, horigin⟩, hcopy', horigin'⟩
    -- one of the two neighbours is another than that of the copy itself
    have hearlier : ∀ d ∈ past ++ [c], d.neighbour ≠ c.neighbour → d ∈ past := by
      intro d hd hother
      rcases List.mem_append.mp hd with hin | hlast
      · exact hin
      · exact (hother (congrArg neighbour (List.mem_singleton.mp hlast))).elim
    by_cases hsame : b.neighbour = c.neighbour
    · have hother : b'.neighbour ≠ c.neighbour := fun h => hne (hsame.trans h.symm)
      exact ⟨b', hearlier b' hb' hother, hcopy', horigin', hother⟩
    · exact ⟨b, hearlier b hb hsame, hcopy, horigin, hsame⟩
  · rintro ⟨b, hb, hcopy, horigin, hne⟩
    exact ⟨b, List.mem_append_left _ hb, c, List.mem_append_right _ (List.mem_singleton.mpr rfl),
      hne, ⟨hcopy, horigin⟩, rfl, rfl⟩

/-- A copy completes a quorum when it matches the one that is held. -/
theorem Tally.record_accepted_iff {t : Tally CriticalCopy} {c : CriticalCopy} :
    (t.record CriticalCopy.toQuorumCopy c).1 = .accepted ↔
      ∃ b, t = .held b ∧ b.payload = c.payload := by
  cases t with
  | fresh => simp
  | held b =>
      by_cases hpayload : b.payload = c.payload
      · simp [@record_held_of_eq _ CriticalCopy.toQuorumCopy b c hpayload, hpayload]
      · simp [@record_held_of_ne _ CriticalCopy.toQuorumCopy b c hpayload, hpayload]
  | spoilt b => simp

namespace Node

variable [Crypto]

/-- The critical copy that a call reports, with its result. -/
def critical (n : Node) : Call → Option (CriticalCopy × QuorumResult)
  | .handleEnvelope now peer env =>
      match (n.handleEnvelope now peer env).event, env.body with
      | some (.critical messageId result), .userData payload =>
          some (⟨⟨messageId, payload⟩, peer, env.fromId⟩, result)
      | _, _ => none
  | _ => none

/-- The critical copies of a run, with their results. -/
def reports (es : List (Transition Node Call)) : List (CriticalCopy × QuorumResult) :=
  es.filterMap fun e => e.before.critical e.label

/-- **One call.**  It records the copy that it reports, and nothing else: any
other call leaves the tracker alone. -/
theorem critical_step {n m : Node} {call : Call} (hstep : n.Step call m) :
    (n.critical call = none ∧ m.quorum = n.quorum) ∨
      ∃ c : CriticalCopy,
        n.critical call = some (c, (n.quorum.record c.messageId c.payload).1) ∧
          m.quorum = (n.quorum.record c.messageId c.payload).2 := by
  rcases step_cases hstep with
    ⟨now, peer, env, rfl, rfl⟩ | ⟨table, store, rfl, rfl⟩ | ⟨hother, counter, metrics, rfl⟩
  · by_cases hcritical : n.Takes peer env ∧ env.messageClass = .criticalUser
    · obtain ⟨⟨hadmits, huser, hdest⟩, hclass⟩ := hcritical
      obtain ⟨payload, hbody⟩ := eq_userData_of_isUserData huser
      obtain ⟨hevent, hquorum⟩ := @handleEnvelope_critical _ n now peer env env.messageId payload
        hadmits ⟨hdest, rfl, hclass, hbody⟩
      refine Or.inr ⟨⟨⟨env.messageId, payload⟩, peer, env.fromId⟩, ?_, hquorum⟩
      rw [critical, hevent, hbody]
    · refine Or.inl ⟨?_, handleEnvelope_quorum hcritical⟩
      rw [critical]
      by_cases htakes : n.Takes peer env
      · obtain ⟨hadmits, huser, hdest⟩ := htakes
        obtain ⟨payload, hbody⟩ := eq_userData_of_isUserData huser
        have hclass : env.messageClass ≠ .criticalUser :=
          fun h => hcritical ⟨⟨hadmits, huser, hdest⟩, h⟩
        rw [handleEnvelope_admitted hadmits]
        simp only [dispatch, hbody]
        rw [handleUserData_normal hdest hclass]
      · have hnone : (n.handleEnvelope now peer env).event = none :=
          Option.not_isSome_iff_eq_none.mp fun h => htakes (event_isSome_iff.mp h)
        rw [hnone]
  · exact Or.inl ⟨rfl, rfl⟩
  · refine Or.inl ⟨?_, rfl⟩
    cases call with
    | handleEnvelope now peer env => exact (hother now peer env rfl).elim
    | _ => rfl

/-- **A run.**  The results are those of a ledger of the copies, which the
tracker keeps from the beginning to the end. -/
theorem reports_of_run {n m : Node} {es : List (Transition Node Call)} (run : Trace Step n es m)
    {L : Ledger CriticalCopy} (h : n.quorum.Keeps CriticalCopy.toQuorumCopy L) :
    (reports es).map Prod.snd =
        L.verdicts CriticalCopy.toQuorumCopy ((reports es).map Prod.fst) ∧
      m.quorum.Keeps CriticalCopy.toQuorumCopy
        (L.after CriticalCopy.toQuorumCopy ((reports es).map Prod.fst)) := by
  induction run with
  | nil => exact ⟨rfl, h⟩
  | @snoc t u call es init last ih =>
      obtain ⟨hresults, hkeeps⟩ := ih
      have hsplit : reports (es ++ [⟨t, call, u⟩]) = reports es ++ (t.critical call).toList := by
        rw [reports, List.filterMap_append]
        congr 1
      rcases critical_step last with ⟨hnone, hquorum⟩ | ⟨c, hsome, hquorum⟩
      · rw [hsplit, hnone, Option.toList_none, List.append_nil, hquorum]
        exact ⟨hresults, hkeeps⟩
      · obtain ⟨hresult, hafter⟩ := hkeeps.record c
        rw [hsplit, hsome, Option.toList_some, List.map_append, List.map_append, hresults, hquorum,
          Ledger.verdicts_append, hresult]
        refine ⟨rfl, ?_⟩
        rw [Ledger.after, List.foldl_append]
        exact hafter

/-- The copies that reach a node, in the order of arrival. -/
def arrivals (es : List (Transition Node Call)) : List CriticalCopy :=
  (reports es).map Prod.fst

/-- Every quorum is justified, and the copies of every originator get the
results that they would get alone. -/
def QuorumsJustified (es : List (Transition Node Call)) : Prop :=
  (∀ pre c post, reports es = pre ++ (c, .accepted) :: post →
      c.Justified (pre.map Prod.fst)) ∧
    ∀ o, ((reports es).filter fun r => r.1.originator = o).map Prod.snd =
      QuorumTracker.new.verdicts
        (((arrivals es).filter fun c => c.originator = o).map CriticalCopy.toQuorumCopy)

/-- Every copy comes in orderly. -/
def ArrivalsOrderly (es : List (Transition Node Call)) : Prop :=
  ∀ pre c post, arrivals es = pre ++ c :: post → c.Orderly pre

section Start

variable {keypair : NodeKeypair} {config : NodeConfig} {n : Node}
  {es : List (Transition Node Call)}

/-- A node starts with an empty ledger, so what it reports on its critical
copies are the verdicts of that ledger. -/
theorem reports_of_start (run : Trace Step (Node.new keypair config) es n) :
    (reports es).map Prod.snd =
      Ledger.empty.verdicts CriticalCopy.toQuorumCopy (arrivals es) :=
  (reports_of_run run QuorumTracker.keeps_new).1

/-- The result of one copy, by the copies before it. -/
theorem result_of_split (run : Trace Step (Node.new keypair config) es n)
    {pre post : List (CriticalCopy × QuorumResult)} {r : CriticalCopy × QuorumResult}
    (hsplit : reports es = pre ++ r :: post) :
    r.2 = ((Ledger.empty.after CriticalCopy.toQuorumCopy (pre.map Prod.fst) r.1.messageId).record
      CriticalCopy.toQuorumCopy r.1).1 := by
  have hresults := reports_of_start run
  rw [arrivals, hsplit, List.map_append, List.map_append, List.map_cons, List.map_cons,
    Ledger.verdicts_append] at hresults
  have hlength : (pre.map Prod.snd).length =
      (Ledger.empty.verdicts CriticalCopy.toQuorumCopy (pre.map Prod.fst)).length := by
    rw [Ledger.length_verdicts, List.length_map, List.length_map]
  exact (List.cons.inj (List.append_inj hresults hlength).2).1

/-- Quorums are justified as far as matching copies come over two neighbours. -/
theorem justified_iff_attested (run : Trace Step (Node.new keypair config) es n) :
    (∀ pre c post, reports es = pre ++ (c, .accepted) :: post → c.Justified (pre.map Prod.fst)) ↔
      ∀ pre c post, arrivals es = pre ++ c :: post →
        ∀ b, (Ledger.empty.after CriticalCopy.toQuorumCopy pre) c.messageId = .held b →
          b.payload = c.payload →
            ∃ b' ∈ pre, b'.toQuorumCopy = c.toQuorumCopy ∧ b'.originator = c.originator ∧
              b'.neighbour ≠ c.neighbour := by
  constructor
  · intro h pre c post hsplit b hheld hpayload
    obtain ⟨pre', rest, hreports, hpre, hrest⟩ := List.map_eq_append_iff.mp hsplit
    obtain ⟨⟨c', result⟩, post', rfl, rfl, _⟩ := List.map_eq_cons_iff.mp hrest
    subst hpre
    have haccepted := Tally.record_accepted_iff.mpr ⟨b, hheld, hpayload⟩
    rw [← result_of_split run hreports] at haccepted
    dsimp only at haccepted
    rw [haccepted] at hreports
    exact CriticalCopy.justified_iff.mp (h pre' c' post' hreports)
  · intro h pre c post hreports
    obtain ⟨b, hheld, hpayload⟩ :=
      Tally.record_accepted_iff.mp (result_of_split run hreports).symm
    refine CriticalCopy.justified_iff.mpr
      (h (pre.map Prod.fst) c (post.map Prod.fst) ?_ b hheld hpayload)
    rw [arrivals, hreports, List.map_append, List.map_cons]

/-- Originators are apart as far as copies come to tallies of their own. -/
theorem apart_iff_owned (run : Trace Step (Node.new keypair config) es n) :
    (∀ o, ((reports es).filter fun r => r.1.originator = o).map Prod.snd =
      QuorumTracker.new.verdicts
        (((arrivals es).filter fun c => c.originator = o).map CriticalCopy.toQuorumCopy)) ↔
      ∀ pre c post, arrivals es = pre ++ c :: post →
        ((Ledger.empty.after CriticalCopy.toQuorumCopy pre) c.messageId).OwnedBy
          CriticalCopy.originator c.originator := by
  rw [← Ledger.separate_iff_forall, Ledger.separate_iff]
  refine forall_congr' fun o => ?_
  have hzip : reports es = (arrivals es).zip
      (Ledger.empty.verdicts CriticalCopy.toQuorumCopy (arrivals es)) :=
    List.zip_of_prod rfl (reports_of_start run)
  rw [QuorumTracker.keeps_new.verdicts_eq, Ledger.view_empty, Ledger.resultsOf, ← hzip]

omit [Crypto] in
/-- **The second of two.**  Where originators are apart, the tally of a copy waits
for its payload exactly when it is the second of two of its originator. -/
theorem completes_iff {past : List CriticalCopy} {c : CriticalCopy}
    (hapart : Ledger.empty.Separate CriticalCopy.toQuorumCopy CriticalCopy.originator past)
    (hown : ((Ledger.empty.after CriticalCopy.toQuorumCopy past) c.messageId).OwnedBy
      CriticalCopy.originator c.originator) :
    (∃ b, (Ledger.empty.after CriticalCopy.toQuorumCopy past) c.messageId = .held b ∧
        b.payload = c.payload) ↔
      (c.prior past).length % 2 = 1 ∧
        PairsMatch CriticalCopy.toQuorumCopy (c.prior past ++ [c]) := by
  have hview := congrFun (Ledger.view_after hapart c.originator) c.messageId
  have hsame : (Ledger.empty.after CriticalCopy.toQuorumCopy past) c.messageId =
      Tally.after CriticalCopy.toQuorumCopy .fresh (c.prior past) := by
    rw [← Tally.view_of_owned hown]
    refine hview.trans ?_
    rw [Ledger.view_empty, Ledger.after_at, List.filter_filter]
    rw [CriticalCopy.prior]
    simp only [Bool.decide_and]
    rfl
  rw [hsame]
  exact Tally.held_after_iff c (c.prior past)

omit [Crypto] in
/-- The witness that a quorum needs is one of the earlier copies of its own. -/
theorem attested_iff {past : List CriticalCopy} {c : CriticalCopy} :
    (∃ b ∈ past, b.toQuorumCopy = c.toQuorumCopy ∧ b.originator = c.originator ∧
        b.neighbour ≠ c.neighbour) ↔
      ∃ b ∈ c.prior past, b.payload = c.payload ∧ b.neighbour ≠ c.neighbour := by
  constructor
  · rintro ⟨b, hb, hcopy, horigin, hne⟩
    have hid : b.messageId = c.messageId := congrArg QuorumCopy.messageId hcopy
    exact ⟨b, List.mem_filter.mpr ⟨hb, by simp [hid, horigin]⟩,
      congrArg QuorumCopy.payload hcopy, hne⟩
  · rintro ⟨b, hb, hpayload, hne⟩
    obtain ⟨hin, hprior⟩ := List.mem_filter.mp hb
    obtain ⟨hid, horigin⟩ := of_decide_eq_true hprior
    refine ⟨b, hin, ?_, horigin, hne⟩
    obtain ⟨⟨id, payload⟩, _, _⟩ := b
    obtain rfl : id = c.messageId := hid
    obtain rfl : payload = c.payload := hpayload
    rfl

/-- **When quorums are justified.**  In a run of a node from its start every
quorum is justified, and no originator interferes with another, exactly when
the copies come in orderly. -/
theorem quorum_justified_iff (run : Trace Step (Node.new keypair config) es n) :
    QuorumsJustified es ↔ ArrivalsOrderly es := by
  rw [QuorumsJustified, justified_iff_attested run, apart_iff_owned run]
  -- up to a copy, the originators are apart where each copy comes to its own tally
  have hapart : (∀ pre c post, arrivals es = pre ++ c :: post →
      ((Ledger.empty.after CriticalCopy.toQuorumCopy pre) c.messageId).OwnedBy
        CriticalCopy.originator c.originator) → ∀ pre c post, arrivals es = pre ++ c :: post →
      Ledger.empty.Separate CriticalCopy.toQuorumCopy CriticalCopy.originator pre := by
    intro howned pre c post hsplit
    refine (Ledger.separate_iff_forall _ _).mpr ?_
    intro pre' c' post' hpre
    apply howned pre' c' (post' ++ c :: post)
    rw [hsplit, hpre, List.append_assoc, List.cons_append]
  constructor
  · rintro ⟨hattested, howned⟩ pre c post hsplit
    refine ⟨howned pre c post hsplit, ?_⟩
    intro hodd hmatch
    obtain ⟨b, hheld, hpayload⟩ := (completes_iff (hapart howned pre c post hsplit)
      (howned pre c post hsplit)).mpr ⟨hodd, hmatch⟩
    exact attested_iff.mp (hattested pre c post hsplit b hheld hpayload)
  · intro h
    have howned := fun pre c post hsplit => (h pre c post hsplit).owner
    refine ⟨?_, howned⟩
    intro pre c post hsplit b hheld hpayload
    obtain ⟨hodd, hmatch⟩ := (completes_iff (hapart howned pre c post hsplit)
      (howned pre c post hsplit)).mp ⟨b, hheld, hpayload⟩
    exact attested_iff.mpr ((h pre c post hsplit).attested hodd hmatch)

end Start

end Node

/-- A critical message of the sample node that repeats `k`, its first one, to
the seventh sample node. -/
def firstCritical (k : UInt8) : Envelope where
  toId := (Node.sample 7).id
  fromId := (Node.sample k).id
  messageId := 1
  ttl := 20
  messageClass := .criticalUser
  routeFork := true
  body := .userData [0x68, 0x69]
  signature := []

/-- The calls that deliver such messages, each as a neighbour and an originator. -/
def deliver (copies : List (UInt8 × UInt8)) : List Node.Call :=
  copies.map fun c => .handleEnvelope 0 (Node.sample c.1).id (firstCritical c.2)

/-- The run of the seventh sample node that is delivered some messages. -/
def deliveryRun (copies : List (UInt8 × UInt8)) : List (Transition Node Node.Call) :=
  Trace.record (@Node.perform checksumCrypto) (Node.sample 7) (deliver copies)

/-- Delivering some copies to the sample node makes a run. -/
theorem deliveryRun_trace (copies : List (UInt8 × UInt8)) :
    Trace (@Node.Step checksumCrypto) (Node.sample 7) (deliveryRun copies)
      ((deliver copies).foldl (@Node.perform checksumCrypto) (Node.sample 7)) :=
  @Trace.of_record _ _ (@Node.Step checksumCrypto) (@Node.perform checksumCrypto)
    (fun _ _ => rfl) (deliver copies) (Node.sample 7)

/-- The copy that a delivery brings. -/
def deliveredCopy (neighbour originator : UInt8) : CriticalCopy :=
  ⟨⟨1, [0x68, 0x69]⟩, (Node.sample neighbour).id, (Node.sample originator).id⟩

/-- Two copies of one originator, over two neighbours, make a justified quorum. -/
theorem fork_justified : @Node.QuorumsJustified checksumCrypto (deliveryRun [(8, 10), (9, 10)]) :=
  (@Node.quorum_justified_iff checksumCrypto _ _ _ _ (deliveryRun_trace [(8, 10), (9, 10)])).mpr (by
    have harrivals : @Node.arrivals checksumCrypto (deliveryRun [(8, 10), (9, 10)]) =
        [deliveredCopy 8 10, deliveredCopy 9 10] := by
      decide +kernel
    intro pre c post hsplit
    rw [harrivals] at hsplit
    match pre with
    | [] =>
        exact ⟨fun b hb => (nomatch hb), fun hodd => (nomatch hodd)⟩
    | [first] =>
        obtain ⟨rfl, hrest⟩ := List.cons.inj hsplit
        obtain ⟨rfl, _⟩ := List.cons.inj hrest
        refine ⟨?_, fun _ _ => ⟨deliveredCopy 8 10, by decide +kernel, rfl, by decide +kernel⟩⟩
        intro b hb
        obtain rfl : deliveredCopy 8 10 = b := Option.some_inj.mp hb
        rfl
    | first :: second :: rest => simp at hsplit)

/-- **A quorum of strangers.**  The first messages of two originators, in one copy
each, make a quorum. -/
theorem strangers_make_quorum :
    ¬ ∀ (es : List (Transition Node Node.Call)) (n : Node),
      Trace (@Node.Step checksumCrypto) (Node.sample 7) es n →
        (∀ e ∈ es, ∃ now peer env, e.label = .handleEnvelope now peer env) →
          @Node.QuorumsJustified checksumCrypto es := by
  intro hclaim
  have hjustified := hclaim _ _ (deliveryRun_trace [(8, 10), (9, 11)]) (by
    intro e he
    obtain ⟨c, _, hlabel⟩ := List.mem_map.mp (Trace.label_of_record he)
    exact ⟨_, _, _, hlabel.symm⟩)
  have hreports : @Node.reports checksumCrypto (deliveryRun [(8, 10), (9, 11)]) =
      [(deliveredCopy 8 10, .pending)] ++ (deliveredCopy 9 11, .accepted) :: [] := by
    decide +kernel
  obtain ⟨b, hb, _, horigin, _⟩ := CriticalCopy.justified_iff.mp (hjustified.1 _ _ _ hreports)
  rw [List.mem_singleton.mp hb] at horigin
  exact absurd horigin (by decide +kernel)

end Zona
