import Zona.RankedRuns
import Zona.UserDataRelays
import Mathlib.Algebra.Order.Ring.Nat
import Mathlib.Logic.Function.Basic

/-!
# How often a message is forwarded

The time to live bounds the copies of a user envelope, wherever they go.  The
bypass over the long-jump slot may lead away from the destination and messages
may go round in circles, so the bound cannot come from distances: it is a
potential of what is in flight, one less than the time to live for each copy.

Every copy in flight remembers which injection it stems from.  Handling takes
the copy out of flight, and copies may be lost, but they are not doubled on the
way.
-/

namespace Zona

/-- A copy of an envelope in flight: the peer it is handed to, the peer that
hands it over, and the number of the injection it stems from. -/
structure Copy where
  hop : NodeId
  sender : NodeId
  env : Envelope
  source : Nat
  deriving DecidableEq

/-- Nodes, the copies in flight between them, and how many envelopes have been
injected. -/
structure Traffic (ι : Type) where
  nodes : ι → Node
  flight : List Copy
  injections : Nat

namespace Traffic

/-- What may happen: an envelope is injected, a copy in flight is handled or
lost, or a node becomes another one under the same identity. -/
inductive Action (ι : Type)
  | inject (hop sender : NodeId) (env : Envelope)
  | deliver (i : ι) (now : Nat) (c : Copy)
  | lose (c : Copy)
  | change (i : ι) (n : Node)

variable {ι : Type} [DecidableEq ι] [Crypto]

/-- Nothing is in flight yet. -/
def start (nodes : ι → Node) : Traffic ι :=
  ⟨nodes, [], 0⟩

/-- The copies that handling `c` at `n` puts in flight. -/
def emitted (n : Node) (now : Nat) (c : Copy) : List Copy :=
  (n.handleEnvelope now c.sender c.env).out.map fun sent => ⟨sent.1, n.id, sent.2, c.source⟩

/-- One action. -/
inductive Step : Traffic ι → Action ι → Traffic ι → Prop
  | inject {net : Traffic ι} {hop sender : NodeId} {env : Envelope} :
      Step net (.inject hop sender env)
        { net with
          flight := net.flight ++ [⟨hop, sender, env, net.injections⟩]
          injections := net.injections + 1 }
  | deliver {net : Traffic ι} {i : ι} {now : Nat} {c : Copy} (hflight : c ∈ net.flight)
      (hhop : (net.nodes i).id = c.hop) :
      Step net (.deliver i now c)
        { net with
          nodes := Function.update net.nodes i
            ((net.nodes i).handleEnvelope now c.sender c.env).node
          flight := net.flight.erase c ++ emitted (net.nodes i) now c }
  | lose {net : Traffic ι} {c : Copy} (hflight : c ∈ net.flight) :
      Step net (.lose c) { net with flight := net.flight.erase c }
  | change {net : Traffic ι} {i : ι} {n : Node} (hid : n.id = (net.nodes i).id) :
      Step net (.change i n) { net with nodes := Function.update net.nodes i n }

/-- The copies of user data that stem from an injection. -/
def userCopies (source : Nat) (copies : List Copy) : List Copy :=
  copies.filter fun c => c.source = source && c.env.body.isUserData

/-- How many copies of what was injected a transition forwards. -/
def forwarded (source : Nat) (e : Transition (Traffic ι) (Action ι)) : Nat :=
  match e.label with
  | .deliver i now c => (userCopies source (emitted (e.before.nodes i) now c)).length
  | _ => 0

/-- How often the copies in flight may still be forwarded. -/
def debt (source : Nat) (copies : List Copy) : Nat :=
  ((userCopies source copies).map fun c => c.env.ttl.toNat - 1).sum

section Debt

omit [DecidableEq ι] [Crypto]

/-- The debt of two lists of copies is the sum of their debts. -/
theorem debt_append (source : Nat) (copies more : List Copy) :
    debt source (copies ++ more) = debt source copies + debt source more := by
  rw [debt, userCopies, List.filter_append, List.map_append, List.sum_append_nat]
  rfl

/-- One copy owes as many forwards as its life leaves after this hop, if it is
user data from that source. -/
theorem debt_single (source : Nat) (c : Copy) :
    debt source [c] =
      if c.source = source ∧ c.env.body.isUserData = true then c.env.ttl.toNat - 1 else 0 := by
  by_cases h : c.source = source ∧ c.env.body.isUserData = true
  · rw [if_pos h, debt, userCopies, List.filter_cons_of_pos (by simp [h])]
    simp
  · rw [if_neg h, debt, userCopies, List.filter_cons_of_neg (by simpa using h)]
    simp

/-- Taking one copy out of flight takes its debt out of the total. -/
theorem debt_erase {source : Nat} {copies : List Copy} {c : Copy} (h : c ∈ copies) :
    debt source copies = debt source [c] + debt source (copies.erase c) := by
  have hperm := ((List.perm_cons_erase h).filter
    fun c => c.source = source && c.env.body.isUserData).map fun c : Copy => c.env.ttl.toNat - 1
  have hsum := hperm.sum_nat
  rw [← debt_append]
  exact hsum

/-- Copies from other sources owe nothing for this one. -/
theorem debt_eq_zero {source : Nat} {copies : List Copy} (h : ∀ c ∈ copies, c.source ≠ source) :
    debt source copies = 0 := by
  have hnone : userCopies source copies = [] := by
    refine List.filter_eq_nil_iff.mpr ?_
    intro c hc
    simp [h c hc]
  rw [debt, hnone, List.map_nil, List.sum_nil]

end Debt

section Handling

omit [DecidableEq ι]

/-- What a node emits has the source of the copy that caused it. -/
theorem source_of_mem_emitted {n : Node} {now : Nat} {c sent : Copy}
    (h : sent ∈ emitted n now c) : sent.source = c.source := by
  obtain ⟨_, _, rfl⟩ := List.mem_map.mp h
  rfl

/-- The copies of user data among what handling a copy emits. -/
theorem userCopies_emitted (source : Nat) (n : Node) (now : Nat) (c : Copy) :
    userCopies source (emitted n now c) =
      if c.source = source then
        ((n.handleEnvelope now c.sender c.env).out.filter
          fun sent => sent.2.body.isUserData).map fun sent => ⟨sent.1, n.id, sent.2, c.source⟩
      else [] := by
  by_cases h : c.source = source
  · rw [if_pos h, userCopies, emitted, List.filter_map]
    congr 2
    funext sent
    simp [h]
  · rw [if_neg h]
    refine List.filter_eq_nil_iff.mpr ?_
    intro sent hsent
    simp [source_of_mem_emitted hsent, h]

omit [Crypto] in
/-- The time to live of a copy is one less, and not zero. -/
theorem ttl_pred {ttl : UInt8} (h : 1 < ttl) : (ttl - 1).toNat = ttl.toNat - 1 := by
  have hle : (1 : UInt8) ≤ ttl := UInt8.le_of_lt h
  rw [UInt8.toNat_sub_of_le ttl 1 hle]
  rfl

/-- **Handling a copy.**  At most one copy of user data comes out of a copy of
user data; its time to live is smaller, and at least one. -/
theorem userCopies_of_handling (source : Nat) (n : Node) (now : Nat) (c : Copy) :
    userCopies source (emitted n now c) = [] ∨
      ∃ copy, userCopies source (emitted n now c) = [copy] ∧ c.source = source ∧
        c.env.body.isUserData = true ∧ 1 < c.env.ttl ∧ copy.env.ttl = c.env.ttl - 1 := by
  rw [userCopies_emitted]
  by_cases h : c.source = source
  · rw [if_pos h]
    rcases n.filter_handleEnvelope now c.sender c.env with hnone | ⟨hop, hrelays, hone⟩
    · exact Or.inl (by rw [hnone, List.map_nil])
    · refine Or.inr ⟨⟨hop, n.id, n.relayedCopy c.env hop, c.source⟩, ?_, h, hrelays.2.1,
        hrelays.2.2.2.1, rfl⟩
      rw [hone, List.map_singleton]
  · exact Or.inl (if_neg h)

/-- What is forwarded is paid for by the copy that is handled. -/
theorem emitted_pays (source : Nat) (n : Node) (now : Nat) (c : Copy) :
    (userCopies source (emitted n now c)).length + debt source (emitted n now c) ≤
      debt source [c] := by
  rcases userCopies_of_handling source n now c with hnone | ⟨copy, hone, hsource, huser, httl, hcopy⟩
  · rw [debt, hnone]
    simp
  · have hlt : 1 < c.env.ttl.toNat := UInt8.lt_iff_toNat_lt.mp httl
    rw [debt_single, if_pos ⟨hsource, huser⟩, debt, hone, List.map_singleton,
      List.sum_singleton, List.length_singleton, hcopy, ttl_pred httl]
    omega

end Handling

/-- What is in flight stems from an injection. -/
def Sourced (net : Traffic ι) : Prop :=
  ∀ c ∈ net.flight, c.source < net.injections

/-- One step keeps every copy in flight at a source that was injected. -/
theorem sourced_step {net net' : Traffic ι} {a : Action ι} (hstep : Step net a net')
    (h : net.Sourced) : net'.Sourced := by
  cases hstep with
  | inject =>
      intro c hc
      rcases List.mem_append.mp hc with hold | hnew
      · exact Nat.lt_succ_of_lt (h c hold)
      · rw [List.mem_singleton.mp hnew]
        exact Nat.lt_succ_self net.injections
  | @deliver i now c hflight hhop =>
      intro sent hsent
      rcases List.mem_append.mp hsent with hold | hnew
      · exact h sent (List.mem_of_mem_erase hold)
      · rw [source_of_mem_emitted hnew]
        exact h c hflight
  | lose hflight => exact fun sent hsent => h sent (List.mem_of_mem_erase hsent)
  | change hid => exact h

/-- The number of injections never decreases in a step. -/
theorem injections_step {net net' : Traffic ι} {a : Action ι} (hstep : Step net a net') :
    net.injections ≤ net'.injections := by
  cases hstep with
  | inject => exact Nat.le_succ net.injections
  | deliver hflight hhop => exact Nat.le_refl _
  | lose hflight => exact Nat.le_refl _
  | change hid => exact Nat.le_refl _

/-- **Before the injection** nothing that stems from it is forwarded, since
every copy in flight has a source that was injected before. -/
theorem forwarded_before {e : Transition (Traffic ι) (Action ι)} {source : Nat}
    (hstep : Step e.before e.label e.after) (h : e.before.Sourced)
    (hle : e.before.injections ≤ source) : forwarded source e = 0 := by
  rcases e with ⟨net, a, net'⟩
  dsimp only at hstep h hle
  cases hstep with
  | inject => rfl
  | @deliver i now c hflight hhop =>
      have hne : c.source ≠ source := by
        have hlt : c.source < net.injections := h c hflight
        omega
      rw [forwarded]
      dsimp only
      rw [userCopies_emitted, if_neg hne, List.length_nil]
  | lose hflight => rfl
  | change hid => rfl

/-- **After the injection** every forwarded copy is paid for by what is in
flight: the life of the copy that caused it was longer by one. -/
theorem forwarded_after {e : Transition (Traffic ι) (Action ι)} {source : Nat}
    (hstep : Step e.before e.label e.after) (hlt : source < e.before.injections) :
    forwarded source e + debt source e.after.flight ≤ debt source e.before.flight := by
  rcases e with ⟨net, a, net'⟩
  dsimp only at hstep hlt ⊢
  cases hstep with
  | @inject hop sender env =>
      have hother : debt source [⟨hop, sender, env, net.injections⟩] = 0 := by
        refine debt_eq_zero ?_
        intro c hc
        rw [List.mem_singleton.mp hc]
        exact Nat.ne_of_gt hlt
      dsimp only [forwarded]
      rw [debt_append, hother]
      omega
  | @deliver i now c hflight hhop =>
      have hpays := emitted_pays source (net.nodes i) now c
      have herase := @debt_erase source net.flight c hflight
      dsimp only [forwarded]
      rw [debt_append]
      omega
  | @lose c hflight =>
      have herase := @debt_erase source net.flight c hflight
      dsimp only [forwarded]
      omega
  | change hid =>
      dsimp only [forwarded]
      omega

omit [DecidableEq ι] [Crypto] in
/-- At the start nothing is in flight, so every copy has its source. -/
theorem sourced_start (nodes : ι → Node) : (start nodes).Sourced := by
  intro c hc
  cases hc

/-- The number of injections never decreases along a run. -/
theorem injections_of_trace {net final : Traffic ι} {es : List (Transition (Traffic ι) (Action ι))}
    (run : Trace Step net es final) : net.injections ≤ final.injections := by
  induction run with
  | nil => exact Nat.le_refl _
  | snoc init last ih => exact ih.trans (injections_step last)

/-- After the injection of an envelope no more is forwarded than its time to
live pays for. -/
theorem forwarded_since {net final : Traffic ι} {es : List (Transition (Traffic ι) (Action ι))}
    {source : Nat} (run : Trace Step net es final) (hlt : source < net.injections) :
    (es.map (forwarded source)).sum ≤ debt source net.flight := by
  have hpays := run.sum_cost_le (forwarded source) (fun s => debt source s.flight) (by
    intro e he
    obtain ⟨_, _, _, hpre, hstep, _⟩ := run.split he
    exact forwarded_after hstep (Nat.lt_of_lt_of_le hlt (injections_of_trace hpre)))
  exact Nat.le_trans (Nat.le_add_right _ _) hpays

/-- **One injection.**  What is forwarded of it, over the whole run, is bounded
by the life that it was injected with. -/
theorem forwarded_of_injection {nodes : ι → Node} {final : Traffic ι}
    {es : List (Transition (Traffic ι) (Action ι))} (run : Trace Step (start nodes) es final)
    {e : Transition (Traffic ι) (Action ι)} (he : e ∈ es) {hop sender : NodeId} {env : Envelope}
    (hlabel : e.label = .inject hop sender env) :
    (es.map (forwarded e.before.injections)).sum ≤ env.ttl.toNat - 1 := by
  obtain ⟨pre, post, rfl, hpre, hstep, hpost⟩ := run.split he
  rw [hlabel] at hstep
  generalize hafter : e.after = net' at hstep hpost
  have hsourced : e.before.Sourced :=
    hpre.invariant (fun _ _ _ => sourced_step) (sourced_start nodes)
  -- nothing is forwarded before the injection, nor by it
  have hearly : (pre.map (forwarded e.before.injections)).sum = 0 := by
    have hnone : ∀ k ∈ pre.map (forwarded e.before.injections), k = 0 := by
      intro k hk
      obtain ⟨e', he', rfl⟩ := List.mem_map.mp hk
      obtain ⟨_, _, rfl, hpre', hstep', hpost'⟩ := hpre.split he'
      refine forwarded_before hstep' ?_ ?_
      · exact hpre'.invariant (fun _ _ _ => sourced_step) (sourced_start nodes)
      · exact (injections_step hstep').trans (injections_of_trace hpost')
    exact List.sum_eq_zero_iff_forall_eq_nat.mpr hnone
  have hnow : forwarded e.before.injections e = 0 := by
    rw [forwarded, hlabel]
  cases hstep with
  | inject =>
      have hlate := forwarded_since hpost (Nat.lt_succ_self e.before.injections)
      have hold : debt e.before.injections e.before.flight = 0 :=
        debt_eq_zero fun c hc => Nat.ne_of_lt (hsourced c hc)
      rw [debt_append, hold, debt_single] at hlate
      dsimp only at hlate
      rw [List.map_append, List.map_cons, List.sum_append_nat, List.sum_cons, hearly, hnow]
      split at hlate <;> omega

/-- **The time to live bounds forwarding.**  In every network and every run, an
envelope that is injected with some time to live gives rise to fewer forwarded
copies than that, none for zero; and of what handling a copy sends, at most one
envelope is user data, with a smaller time to live that is not zero. -/
theorem ttl_bounds_forwarding :
    (∀ (nodes : ι → Node) (es : List (Transition (Traffic ι) (Action ι))) (final : Traffic ι),
      Trace Step (start nodes) es final →
        ∀ e ∈ es, ∀ hop sender env, e.label = .inject hop sender env →
          (es.map (forwarded e.before.injections)).sum ≤ env.ttl.toNat - 1) ∧
    ∀ (n : Node) (now : Nat) (c : Copy),
      ((emitted n now c).filter fun sent => sent.env.body.isUserData).length ≤ 1 ∧
        ∀ sent ∈ emitted n now c, sent.env.body.isUserData = true →
          sent.env.ttl < c.env.ttl ∧ 1 ≤ sent.env.ttl := by
  refine ⟨?_, ?_⟩
  · intro nodes es final run e he hop sender env hlabel
    exact forwarded_of_injection run he hlabel
  · intro n now c
    have hsame : (emitted n now c).filter (fun sent => sent.env.body.isUserData) =
        userCopies c.source (emitted n now c) := by
      refine List.filter_congr ?_
      intro sent hsent
      simp [source_of_mem_emitted hsent]
    have hmem : ∀ sent ∈ emitted n now c, sent.env.body.isUserData = true →
        sent ∈ userCopies c.source (emitted n now c) := by
      intro sent hsent huser
      rw [← hsame]
      exact List.mem_filter.mpr ⟨hsent, huser⟩
    rw [hsame]
    rcases userCopies_of_handling c.source n now c with
      hnone | ⟨copy, hone, _, _, httl, hcopy⟩
    · rw [hnone] at hmem ⊢
      exact ⟨Nat.zero_le 1, fun sent hsent huser => absurd (hmem sent hsent huser) List.not_mem_nil⟩
    · rw [hone] at hmem ⊢
      refine ⟨Nat.le_refl 1, ?_⟩
      intro sent hsent huser
      rw [List.mem_singleton.mp (hmem sent hsent huser), hcopy, UInt8.lt_iff_toNat_lt,
        UInt8.le_iff_toNat_le, ttl_pred httl]
      have hlt : 1 < c.env.ttl.toNat := UInt8.lt_iff_toNat_lt.mp httl
      have hone : (1 : UInt8).toNat = 1 := rfl
      omega

end Traffic

end Zona
