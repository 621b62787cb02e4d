import Zona.SlotOrigins
import Zona.TableRuns

/-!
# The routing table behind a node

Seen through its routing table, a node that handles envelopes and repairs
itself is a routing table that is offered greedy and diversity entries and
notes probes: `handleEnvelope_table` says it of one envelope, and
`table_of_run` of a run.  Nothing else reaches the table: no tick begins, no
slot is evicted, and no entry is meant for the long-jump slot.
-/

namespace Zona

namespace PeerTable

/-- The operations that envelopes bring about. -/
def Op.FromEnvelope : Op → Prop
  | .tryInsert entry => entry.kind ≠ .longJump
  | .recordProbe _ _ => True
  | _ => False

def EnvelopeStep (t : PeerTable) (op : Op) (u : PeerTable) : Prop :=
  op.FromEnvelope ∧ t.Step op u

/-- An insertion of a slot that is no long jump is one of the operations that
envelopes may set off. -/
theorem reachable_tryInsert (t : PeerTable) {entry : SlotEntry} (hkind : entry.kind ≠ .longJump) :
    Reachable EnvelopeStep t (t.tryInsert entry).2 :=
  .single (i := .tryInsert entry) ⟨hkind, rfl⟩

/-- The probe of a peer is noted at some position, past the slots if it has
none. -/
theorem recordFirst_eq_modify (peer : NodeId) (success : Bool) (slots : List SlotEntry) :
    ∃ idx, recordFirst peer success slots =
      slots.modify idx fun s => s.recordProbe success := by
  induction slots with
  | nil => exact ⟨0, by simp [recordFirst]⟩
  | cons s rest ih =>
      by_cases hpeer : s.peerId = peer
      · refine ⟨0, ?_⟩
        rw [recordFirst, if_pos hpeer, List.modify_zero_cons]
      · obtain ⟨idx, hidx⟩ := ih
        refine ⟨idx + 1, ?_⟩
        rw [recordFirst, if_neg hpeer, hidx, List.modify_succ_cons]

/-- A probe is one of the operations that envelopes may set off. -/
theorem reachable_recordProbe (t : PeerTable) (peer : NodeId) (success : Bool) :
    Reachable EnvelopeStep t (t.recordProbe peer success) := by
  obtain ⟨idx, hidx⟩ := recordFirst_eq_modify peer success t.slots
  refine .single (i := .recordProbe idx success) ⟨trivial, ?_⟩
  rw [Step, perform, recordProbe, hidx]

/-- The node, the bound on greedy slots and the tick stay as they are. -/
structure SameTick (t u : PeerTable) : Prop where
  self : u.selfId = t.selfId
  bound : u.maxGreedy = t.maxGreedy
  spent : t.replacementsThisTick ≤ u.replacementsThisTick

theorem SameTick.refl (t : PeerTable) : t.SameTick t :=
  ⟨rfl, rfl, Nat.le_refl _⟩

theorem SameTick.trans {t u v : PeerTable} (h : t.SameTick u) (h' : u.SameTick v) :
    t.SameTick v :=
  ⟨h'.self.trans h.self, h'.bound.trans h.bound, Nat.le_trans h.spent h'.spent⟩

/-- An insertion stays within a tick, as it does not reset the budget. -/
theorem Outcome.sameTick {t u : PeerTable} {entry : SlotEntry} (h : t.Outcome entry u) :
    t.SameTick u := by
  cases h with
  | kept => exact .refl t
  | added _ _ _ => exact ⟨rfl, rfl, Nat.le_add_right _ _⟩
  | replaced _ _ _ _ _ => exact ⟨rfl, rfl, Nat.le_add_right _ _⟩

/-- One operation that an envelope sets off stays within a tick. -/
theorem sameTick_step {t u : PeerTable} {op : Op} (h : t.EnvelopeStep op u) : t.SameTick u := by
  obtain ⟨hop, rfl⟩ := h
  cases op with
  | tryInsert entry => exact (tryInsert_outcome t entry).sameTick
  | recordProbe idx success => exact ⟨rfl, rfl, Nat.le_refl _⟩
  | _ => exact hop.elim

/-- **Envelopes stay within a tick**, however many of them are handled: only a
repair begins a new one. -/
theorem sameTick_of_reachable {t u : PeerTable} (h : Reachable EnvelopeStep t u) : t.SameTick u :=
  @Reachable.invariant _ _ EnvelopeStep t u (fun v => t.SameTick v)
    (fun _ _ _ hstep hsame => hsame.trans (sameTick_step hstep)) h (.refl t)

/-- No slot is a long-jump slot. -/
def NoLongJump (t : PeerTable) : Prop :=
  ∀ s ∈ t.slots, s.kind ≠ .longJump

/-- A table has no long jump exactly if the search for one fails. -/
theorem noLongJump_iff {t : PeerTable} : t.NoLongJump ↔ t.longJumpSlot = none := by
  rw [longJumpSlot, List.find?_eq_none]
  simp only [decide_eq_true_eq]
  rfl

/-- A table has no long jump exactly if none of its labels says so. -/
theorem noLongJump_iff_labels {t : PeerTable} :
    t.NoLongJump ↔ ∀ l ∈ t.labels, l.kind ≠ .longJump := by
  rw [labels, List.forall_mem_map]
  rfl

/-- One operation that an envelope sets off puts no long jump into the table. -/
theorem noLongJump_step {t u : PeerTable} {op : Op} (hstep : t.EnvelopeStep op u)
    (h : t.NoLongJump) : u.NoLongJump := by
  obtain ⟨hop, rfl⟩ := hstep
  cases op with
  | tryInsert entry =>
      intro s hs
      rcases mem_tryInsert hs with hold | hnew
      · exact h s hold
      · rw [hnew]
        exact hop
  | recordProbe idx success =>
      rw [noLongJump_iff_labels] at h ⊢
      rw [labels, perform, map_label_modify t.slots idx fun s => recordProbe_label s success]
      exact h
  | _ => exact hop.elim

/-- **Envelopes seed no long-jump slot**, however many of them are handled: no
arm of the handler inserts one. -/
theorem noLongJump_of_reachable {t u : PeerTable} (h : Reachable EnvelopeStep t u)
    (ht : t.NoLongJump) : u.NoLongJump :=
  h.invariant (fun _ _ _ => noLongJump_step) ht

end PeerTable

namespace PexManager

/-- A candidate of a peer exchange is classified as greedy or diversity, and
never as a long jump. -/
theorem classifyCandidate_kind (c : PexCandidate) (table : PeerTable) :
    (classifyCandidate c table).kind ≠ .longJump := by
  unfold classifyCandidate
  by_cases hreferrer : c.referrerId ∈ table.greedyReferrers
  · simp [hreferrer, SlotEntry.new]
  · simp [hreferrer, SlotEntry.new]

/-- Taking up candidates is a sequence of insertions, seen through the table. -/
theorem applyCandidates_table (m : PexManager) (candidates : List PexCandidate)
    (table : PeerTable) :
    Reachable PeerTable.EnvelopeStep table (m.applyCandidates candidates table).2 := by
  have hfold : ∀ (cs : List PexCandidate) (acc : Nat × PeerTable),
      Reachable PeerTable.EnvelopeStep acc.2 (cs.foldl m.applyCandidate acc).2 := by
    intro cs
    induction cs with
    | nil => exact fun acc => .refl _ acc.2
    | cons c rest ih =>
        intro acc
        rw [List.foldl_cons]
        refine .trans ?_ (ih (m.applyCandidate acc c))
        rw [applyCandidate_snd]
        by_cases hself : c.descriptor.nodeId = m.selfId
        · rw [if_pos hself]
          exact .refl _ acc.2
        · rw [if_neg hself]
          exact acc.2.reachable_tryInsert (classifyCandidate_kind c acc.2)
  exact hfold (candidates.take pexQ) (0, table)

end PexManager

namespace Node

variable [Crypto]

/-- Integrating found peers offers the table a greedy entry for each. -/
theorem foldl_integrate_table (peers : List PexCandidate) (n : Node) :
    Reachable PeerTable.EnvelopeStep n.table (peers.foldl integrate n).table := by
  induction peers generalizing n with
  | nil => exact .refl _ n.table
  | cons c rest ih =>
      refine .trans ?_ (ih (n.integrate c))
      exact n.table.reachable_tryInsert (fun h => nomatch h)

/-- A greeting is one insertion or none, seen through the table. -/
theorem handleHello_table (n : Node) (peer : NodeId) (d : Descriptor) :
    Reachable PeerTable.EnvelopeStep n.table (n.handleHello peer d).node.table := by
  cases hverify : verifyDescriptor d with
  | ok u =>
      rw [(handleHello_ok hverify).1]
      exact n.table.reachable_tryInsert (fun h => nomatch h)
  | error e =>
      rw [(handleHello_error hverify).1]
      exact .refl _ n.table

/-- **An envelope**, seen through the routing table, is a sequence of
insertions and probes. -/
theorem handleEnvelope_table (n : Node) (now : Nat) (peer : NodeId) (env : Envelope) :
    Reachable PeerTable.EnvelopeStep n.table (n.handleEnvelope now peer env).node.table := by
  cases hadmits : n.admits peer env with
  | false =>
      rw [handleEnvelope_refused hadmits]
      exact .refl _ n.table
  | true =>
      have htried := handleEnvelope_tried n now peer env
      rw [offers, if_pos hadmits] at htried
      rw [handleEnvelope_admitted hadmits] at htried ⊢
      unfold dispatch at htried ⊢
      cases hbody : env.body with
      | hello d => exact n.handleHello_table peer d
      | foundNodes peers => exact foldl_integrate_table peers n
      | pex candidates => exact n.pex.applyCandidates_table candidates n.table
      | _ =>
          -- nothing is offered, so the table stays but for a probe
          rw [hbody] at htried
          rcases htried with hnone | hprobe
          · rw [PeerTable.Tried.eq_of_nil hnone]
            exact .refl _ n.table
          · rw [hprobe]
            exact n.table.reachable_recordProbe peer true

/-- One operation of a node, seen through its routing table. -/
theorem table_step {n m : Node} {call : Call} (hstep : n.Step call m)
    (hcall : call.IsOperation) : Reachable PeerTable.EnvelopeStep n.table m.table := by
  rcases operation_cases hstep hcall with ⟨now, peer, env, rfl, rfl⟩ | ⟨htable, _⟩
  · exact handleEnvelope_table n now peer env
  · rw [htable]
    exact .refl _ n.table

/-- **A run**, seen through the routing table, is a sequence of insertions and
probes as well. -/
theorem table_of_run {n m : Node} {es : List (Transition Node Call)} (run : Trace Step n es m)
    (hcalls : ∀ e ∈ es, e.label.IsOperation) :
    Reachable PeerTable.EnvelopeStep n.table m.table :=
  @Trace.invariant_of_all _ _ Step n m es
    (fun k => Reachable PeerTable.EnvelopeStep n.table k.table) (fun e => e.label.IsOperation)
    (fun _ hstep h hcall => h.trans (table_step hstep hcall)) run (.refl _ n.table) hcalls

end Node

end Zona
