import Zona.SlotOrigins
import Zona.StoreConvergence

/-!
# Who stands behind a slot

The quota of the routing table counts referrers, and a referrer is whatever
the message said: only a hello files the sender itself.  A slot's **owner** is
the neighbour whose message brought the slot about (`InsertedBy`), which a run
determines.

`referrers_attributed` gives the condition under which labels and owners
agree: every candidate that is tried names its sender.  Then the quota of two
greedy slots for a referrer is one for a neighbour.
-/

namespace Zona

namespace Node

variable [Crypto]

/-- A slot came in with an envelope from this neighbour, and has been there
ever since. -/
def InsertedBy (es : List (Transition Node Call)) (l : SlotLabel) (neighbour : NodeId) : Prop :=
  ∃ pre e post now env, es = pre ++ e :: post ∧ e.label = .handleEnvelope now neighbour env ∧
    l ∉ e.before.table.labels ∧ l ∈ e.after.table.labels ∧
      ∀ e' ∈ post, l ∈ e'.after.table.labels

/-- Every slot was inserted by its referrer, and by nobody else. -/
def Attributed (es : List (Transition Node Call)) (n : Node) : Prop :=
  ∀ s ∈ n.table.slots, ∀ neighbour, InsertedBy es s.label neighbour ↔ neighbour = s.referrerId

/-- No neighbour inserted more than two of the greedy slots. -/
def OwnersBounded (es : List (Transition Node Call)) (n : Node) : Prop :=
  ∀ (neighbour : NodeId) (owned : List SlotLabel), owned.Sublist n.table.labels →
    (∀ l ∈ owned, l.kind = .greedy ∧ InsertedBy es l neighbour) → owned.length ≤ 2

/-- Each peer that an envelope makes the node try is filed under the sender. -/
def OffersOwned (n : Node) : Call → Prop
  | .handleEnvelope _ peer env => ∀ o ∈ n.offers peer env, o.referrerId = peer
  | _ => True

/-- A slot comes in with an envelope, and is filed under one of its offers. -/
theorem inserted_step {n m : Node} {call : Call} (hstep : n.Step call m)
    (hcall : call.IsOperation) {l : SlotLabel} (hbefore : l ∉ n.table.labels)
    (hafter : l ∈ m.table.labels) :
    ∃ now peer env, call = .handleEnvelope now peer env ∧
      ∃ o ∈ n.offers peer env, l.FiledUnder o := by
  rcases label_origin_step hstep hcall hafter with hold | ⟨o, ho, hfiled⟩
  · exact (hbefore hold).elim
  · cases call with
    | handleEnvelope now peer env => exact ⟨now, peer, env, rfl, o, ho, hfiled⟩
    | _ => cases ho

/-- One call keeps the quota: a referrer has as many greedy slots as it may
have, and no more. -/
theorem quotaKept_step {n m : Node} {call : Call} (hstep : n.Step call m)
    (hcall : call.IsOperation) (h : n.table.QuotaKept) : m.table.QuotaKept := by
  rcases operation_cases hstep hcall with ⟨now, peer, env, rfl, rfl⟩ | ⟨htable, _⟩
  · exact quotaKept_handleEnvelope h now peer env
  · rw [htable]
    exact h

section Runs

variable {keypair : NodeKeypair} {config : NodeConfig} {n : Node}
  {es : List (Transition Node Call)}

/-- When candidates name their senders, the neighbour that inserted a slot is
its referrer. -/
theorem insertedBy_referrer {s : Node} (run : Trace Step s es n)
    (hcalls : ∀ e ∈ es, e.label.IsOperation)
    (howned : ∀ e ∈ es, e.before.OffersOwned e.label) {l : SlotLabel} {neighbour : NodeId}
    (h : InsertedBy es l neighbour) : neighbour = l.referrerId := by
  obtain ⟨pre, e, post, now, env, rfl, hlabel, hbefore, hafter, _⟩ := h
  have he : e ∈ pre ++ e :: post := by simp
  obtain ⟨now', peer, env', hcall, o, ho, hfiled⟩ :=
    inserted_step (run.step_of_mem he) (hcalls e he) hbefore hafter
  have hown := howned e he
  rw [hcall] at hown
  have hpeer : peer = neighbour := by
    rw [hcall] at hlabel
    cases hlabel
    rfl
  rw [hfiled.2, hown o ho, hpeer]

/-- A slot of a node that started without slots was inserted by somebody. -/
theorem exists_insertedBy (run : Trace Step (Node.new keypair config) es n)
    (hcalls : ∀ e ∈ es, e.label.IsOperation) {l : SlotLabel} (hl : l ∈ n.table.labels) :
    ∃ neighbour, InsertedBy es l neighbour := by
  have hstart : l ∉ (Node.new keypair config).table.labels := by
    intro h
    cases h
  obtain ⟨pre, e, post, rfl, hbefore, hafter, hlasts⟩ :=
    @Trace.exists_rise _ _ Step _ n es (fun m : Node => l ∈ m.table.labels) run hstart hl
  have he : e ∈ pre ++ e :: post := by simp
  obtain ⟨now, peer, env, hcall, _⟩ :=
    inserted_step (run.step_of_mem he) (hcalls e he) hbefore hafter
  exact ⟨peer, pre, e, post, now, env, rfl, hcall, hbefore, hafter, hlasts⟩

/-- A run from the start keeps the quota, if its host uses the operations only. -/
theorem quotaKept_of_run (run : Trace Step (Node.new keypair config) es n)
    (hcalls : ∀ e ∈ es, e.label.IsOperation) : n.table.QuotaKept :=
  @Trace.invariant_of_all _ _ Step _ n es (fun m : Node => m.table.QuotaKept)
    (fun e => e.label.IsOperation)
    (fun _ he h hcall => quotaKept_step he hcall h)
    run (fun _ => Nat.zero_le 2) hcalls

/-- **Referrers and owners.**  In every run of a node from its start in which
every candidate it tries names the sender, each slot was inserted by its
referrer and by nobody else, and no neighbour inserted more than two of the
greedy slots. -/
theorem referrers_attributed (run : Trace Step (Node.new keypair config) es n)
    (hcalls : ∀ e ∈ es, e.label.IsOperation)
    (howned : ∀ e ∈ es, e.before.OffersOwned e.label) :
    Attributed es n ∧ OwnersBounded es n := by
  refine ⟨?_, ?_⟩
  · intro s hs neighbour
    obtain ⟨inserter, hinserted⟩ := exists_insertedBy run hcalls (List.mem_map_of_mem hs)
    have hreferrer : inserter = s.referrerId := insertedBy_referrer run hcalls howned hinserted
    constructor
    · exact insertedBy_referrer run hcalls howned
    · intro heq
      rw [heq, ← hreferrer]
      exact hinserted
  · intro neighbour owned hsub hall
    have hbehind : ∀ l ∈ owned,
        decide (l.kind = .greedy ∧ l.referrerId = neighbour) = true := by
      intro l hl
      obtain ⟨hkind, hinserted⟩ := hall l hl
      exact decide_eq_true
        ⟨hkind, (insertedBy_referrer run hcalls howned hinserted).symm⟩
    calc owned.length
        = owned.countP (fun l => decide (l.kind = .greedy ∧ l.referrerId = neighbour)) :=
          (List.countP_eq_length.mpr hbehind).symm
      _ ≤ PeerTable.greedyBehind neighbour n.table.labels := hsub.countP_le
      _ ≤ 2 := quotaKept_of_run run hcalls neighbour

end Runs

end Node

/-- A lookup answer that names its sender leads to a slot with that sender as
its referrer, and no referrer owns too many. -/
theorem answer_attributed :
    Node.Attributed (oneEnvelopeRun (.foundNodes [⟨sampleDescriptor 9 1, (Node.sample 8).id⟩]))
        (@Node.handleEnvelope checksumCrypto (Node.sample 7) 0 (Node.sample 8).id
          (unsignedTo7 (.foundNodes [⟨sampleDescriptor 9 1, (Node.sample 8).id⟩]))).node ∧
      Node.OwnersBounded (oneEnvelopeRun (.foundNodes [⟨sampleDescriptor 9 1, (Node.sample 8).id⟩]))
        (@Node.handleEnvelope checksumCrypto (Node.sample 7) 0 (Node.sample 8).id
          (unsignedTo7 (.foundNodes [⟨sampleDescriptor 9 1, (Node.sample 8).id⟩]))).node :=
  @Node.referrers_attributed checksumCrypto _ _ _ _
    (oneEnvelopeRun_trace (.foundNodes [⟨sampleDescriptor 9 1, (Node.sample 8).id⟩]))
    (oneEnvelopeRun_operations _)
    (by
      intro e he
      rw [List.mem_singleton.mp he]
      intro o ho
      rw [List.mem_singleton.mp ho]
      rfl)

/-- Three candidates under three made-up referrers. -/
def madeUpReferrers : List PexCandidate :=
  [⟨sampleDescriptor 9 1, (Node.sample 1).id⟩, ⟨sampleDescriptor 10 1, (Node.sample 2).id⟩,
    ⟨sampleDescriptor 11 1, (Node.sample 3).id⟩]

/-- **One neighbour, three greedy slots.**  A single answer that names three
other referrers gives its sender three greedy slots, under three labels. -/
theorem quota_evaded :
    ¬ (∀ (es : List (Transition Node Node.Call)) (n : Node),
        Trace (@Node.Step checksumCrypto) (Node.sample 7) es n →
          (∀ e ∈ es, e.label.IsOperation) → Node.Attributed es n) ∧
      ¬ (∀ (es : List (Transition Node Node.Call)) (n : Node),
        Trace (@Node.Step checksumCrypto) (Node.sample 7) es n →
          (∀ e ∈ es, e.label.IsOperation) → Node.OwnersBounded es n) := by
  have hcalls : ∀ e ∈ oneEnvelopeRun (.foundNodes madeUpReferrers), e.label.IsOperation :=
    oneEnvelopeRun_operations _
  have hlabels : (@Node.handleEnvelope checksumCrypto (Node.sample 7) 0 (Node.sample 8).id
      (unsignedTo7 (.foundNodes madeUpReferrers))).node.table.labels =
        [⟨.greedy, (Node.sample 9).id, (Node.sample 1).id⟩,
          ⟨.greedy, (Node.sample 10).id, (Node.sample 2).id⟩,
          ⟨.greedy, (Node.sample 11).id, (Node.sample 3).id⟩] := by
    decide +kernel
  have hinserted : ∀ l ∈ (@Node.handleEnvelope checksumCrypto (Node.sample 7) 0
      (Node.sample 8).id (unsignedTo7 (.foundNodes madeUpReferrers))).node.table.labels,
        Node.InsertedBy (oneEnvelopeRun (.foundNodes madeUpReferrers)) l (Node.sample 8).id := by
    intro l hl
    exact ⟨[], _, [], 0, _, rfl, rfl, List.not_mem_nil, hl, by simp⟩
  refine ⟨?_, ?_⟩
  · intro hclaim
    have hattributed := hclaim _ _ (oneEnvelopeRun_trace (.foundNodes madeUpReferrers)) hcalls
    have hfirst := (hattributed
      (SlotEntry.new .greedy (Node.sample 9).id (Node.sample 1).id)
      (by decide +kernel) (Node.sample 8).id).mp
      (hinserted _ (by rw [hlabels]; exact List.mem_cons_self))
    exact absurd hfirst (by decide +kernel)
  · intro hclaim
    have hbounded := hclaim _ _ (oneEnvelopeRun_trace (.foundNodes madeUpReferrers)) hcalls
    have htwo := hbounded (Node.sample 8).id _ (List.Sublist.refl _)
      (fun l hl => ⟨by
        rw [hlabels] at hl
        simp only [List.mem_cons, List.not_mem_nil, or_false] at hl
        rcases hl with rfl | rfl | rfl
        all_goals rfl, hinserted l hl⟩)
    rw [hlabels] at htwo
    exact absurd htwo (by decide)

end Zona
