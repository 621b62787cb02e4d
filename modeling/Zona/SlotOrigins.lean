import Zona.NodeRuns
import Zona.TableInsertions

/-!
# Where the slots of a node come from

`Node.offers` are the peers that an envelope makes a node try, each with the
referrer it is filed under: the sender of a hello whose descriptor verifies,
the peers that were found, and the first candidates of an exchange but for the
node itself.  `handleEnvelope_tried` is the one statement about the routing
table that the invariants of its slots follow from; `handleEnvelope_files`
says what becomes of the store beside it.

The other calls of a node leave both alone.
-/

namespace Zona

/-- The offer that a candidate makes. -/
def PexCandidate.offer (c : PexCandidate) : SlotOffer :=
  ⟨c.descriptor.nodeId, c.referrerId⟩

namespace PexManager

/-- The candidates of an exchange that are tried. -/
def eligible (m : PexManager) (candidates : List PexCandidate) : List PexCandidate :=
  (candidates.take pexQ).filter fun c => c.descriptor.nodeId ≠ m.selfId

/-- The node itself is skipped, and any other candidate is tried. -/
theorem applyCandidate_snd (m : PexManager) (acc : Nat × PeerTable) (c : PexCandidate) :
    (m.applyCandidate acc c).2 =
      if c.descriptor.nodeId = m.selfId then acc.2
      else (acc.2.tryInsert (classifyCandidate c acc.2)).2 := by
  unfold applyCandidate
  by_cases hself : c.descriptor.nodeId = m.selfId
  · rw [if_pos hself, if_pos hself]
  · rw [if_neg hself, if_neg hself]
    rcases acc.2.tryInsert (classifyCandidate c acc.2) with ⟨admitted, table⟩
    cases admitted with
    | _ => rfl

/-- Taking up candidates tries an insertion for each eligible one, in their
order. -/
theorem applyCandidates_tried (m : PexManager) (candidates : List PexCandidate)
    (table : PeerTable) :
    PeerTable.Tried table ((m.eligible candidates).map PexCandidate.offer)
      (m.applyCandidates candidates table).2 := by
  have hfold : ∀ (cs : List PexCandidate) (acc : Nat × PeerTable),
      PeerTable.Tried acc.2
        ((cs.filter fun c => c.descriptor.nodeId ≠ m.selfId).map PexCandidate.offer)
        (cs.foldl m.applyCandidate acc).2 := by
    intro cs
    induction cs with
    | nil => exact fun acc => PeerTable.Tried.nil
    | cons c rest ih =>
        intro acc
        rw [List.foldl_cons]
        have hrest := ih (m.applyCandidate acc c)
        rw [applyCandidate_snd] at hrest
        by_cases hself : c.descriptor.nodeId = m.selfId
        · rw [List.filter_cons_of_neg (by simp [hself])]
          rw [if_pos hself] at hrest
          exact hrest
        · rw [List.filter_cons_of_pos (by simp [hself]), List.map_cons]
          rw [if_neg hself] at hrest
          exact PeerTable.Tried.cons (classifyCandidate c acc.2).kind hrest
  exact hfold (candidates.take pexQ) (0, table)

end PexManager

/-- The descriptors a message makes a node file, apart from announcements. -/
def MessageKind.carried : MessageKind → List Descriptor
  | .hello d => [d]
  | .foundNodes peers => peers.map PexCandidate.descriptor
  | _ => []

namespace DescriptorStore

variable [Crypto]

/-- What a store has under an identifier it still has, in some version, after
an improvement. -/
theorem Improves.isSome {s t : DescriptorStore} (h : s.Improves t) {id : NodeId}
    (hid : (s.get id).isSome) : (t.get id).isSome := by
  obtain ⟨c, hget⟩ := Option.isSome_iff_exists.mp hid
  obtain ⟨c', hget', _⟩ := h id c hget
  rw [hget']
  rfl

/-- The store has an entry for a peer once a descriptor of it has verified. -/
theorem get_upsert_isSome {d : Descriptor} (hverify : verifyDescriptor d = .ok ())
    (s : DescriptorStore) (height : Option UInt64) :
    ((s.upsert d height).2.get d.nodeId).isSome := by
  unfold upsert
  rw [hverify]
  dsimp only
  by_cases hwins : s.wins ⟨d, height⟩ = true
  · rw [if_pos hwins]
    simp [get]
  · rw [if_neg hwins]
    unfold wins at hwins
    cases hget : s.get d.nodeId with
    | none => simp [hget] at hwins
    | some existing => rfl

/-- What becomes of a store that is offered some descriptors: its entries
improve and stay authentic, and each peer whose descriptor verifies has one. -/
structure Files (s t : DescriptorStore) (offered : List Descriptor) : Prop where
  improves : s.Improves t
  authentic : s.Authentic → t.Authentic
  filed : ∀ d ∈ offered, verifyDescriptor d = .ok () → (t.get d.nodeId).isSome

namespace Files

theorem nil (s : DescriptorStore) : s.Files s [] :=
  ⟨improves_refl s, fun h => h, by simp⟩

/-- Filing descriptors one after the other is filing the list of them. -/
theorem cons {s t u : DescriptorStore} {d : Descriptor} {rest : List Descriptor}
    (hfirst : s.Files t [d]) (hrest : t.Files u rest) : s.Files u (d :: rest) := by
  refine ⟨hfirst.improves.trans hrest.improves, fun h => hrest.authentic (hfirst.authentic h), ?_⟩
  intro e he hverify
  rcases List.mem_cons.mp he with rfl | he
  · exact hrest.improves.isSome (hfirst.filed e (List.mem_singleton_self e) hverify)
  · exact hrest.filed e he hverify

/-- Offering less asks for less: a store with all of them has filed the fewer
ones. -/
theorem subset {s t : DescriptorStore} {offered fewer : List Descriptor}
    (h : s.Files t offered) (hsub : fewer ⊆ offered) : s.Files t fewer :=
  ⟨h.improves, h.authentic, fun d hd => h.filed d (hsub hd)⟩

end Files

/-- An update files the descriptor that it offers, or has a better one. -/
theorem files_upsert (s : DescriptorStore) (d : Descriptor) (height : Option UInt64) :
    s.Files (s.upsert d height).2 [d] := by
  refine ⟨upsert_improves s d height, fun h => authentic_upsert h d height, ?_⟩
  intro e he hverify
  rw [List.mem_singleton.mp he] at hverify ⊢
  exact get_upsert_isSome hverify s height

end DescriptorStore

namespace Node

variable [Crypto]

/-- The peers that a message makes a node try. -/
def offersOf (n : Node) (peer : NodeId) : MessageKind → List SlotOffer
  | .hello d =>
      match verifyDescriptor d with
      | .ok _ => [⟨peer, peer⟩]
      | .error _ => []
  | .foundNodes peers => peers.map PexCandidate.offer
  | .pex candidates => (n.pex.eligible candidates).map PexCandidate.offer
  | _ => []

/-- The peers that an envelope makes a node try. -/
def offers (n : Node) (peer : NodeId) (env : Envelope) : List SlotOffer :=
  if n.admits peer env then n.offersOf peer env.body else []

/-- A call that offers anything is an admitted envelope. -/
theorem admits_of_offer {n : Node} {peer : NodeId} {env : Envelope} {o : SlotOffer}
    (h : o ∈ n.offers peer env) : n.admits peer env = true := by
  by_contra hrefused
  rw [offers, if_neg hrefused] at h
  cases h

/-- An update is accepted or ignored, but not refused, exactly if the
descriptor verifies. -/
theorem upsert_ok_iff (s : DescriptorStore) (d : Descriptor) (height : Option UInt64) :
    (∃ updated, (s.upsert d height).1 = .ok updated) ↔ verifyDescriptor d = .ok () := by
  unfold DescriptorStore.upsert
  cases hverify : verifyDescriptor d with
  | error e => simp
  | ok u =>
      dsimp only
      split
      · simp
      · simp

/-- A greeting with a valid descriptor tries a slot for its sender and offers
the descriptor to the store. -/
theorem handleHello_ok {n : Node} {peer : NodeId} {d : Descriptor}
    (h : verifyDescriptor d = .ok ()) :
    (n.handleHello peer d).node.table = (n.table.tryInsert (SlotEntry.new .greedy peer peer)).2 ∧
      (n.handleHello peer d).node.store = (n.store.upsert d none).2 := by
  obtain ⟨updated, hok⟩ := (upsert_ok_iff n.store d none).mpr h
  unfold handleHello
  rcases hupsert : n.store.upsert d none with ⟨verdict, store⟩
  rw [hupsert] at hok
  dsimp only at hok
  subst hok
  exact ⟨rfl, rfl⟩

/-- A greeting with an invalid descriptor leaves table and store alone. -/
theorem handleHello_error {n : Node} {peer : NodeId} {d : Descriptor} {e : ProtocolError}
    (h : verifyDescriptor d = .error e) :
    (n.handleHello peer d).node.table = n.table ∧
      (n.handleHello peer d).node.store = n.store := by
  unfold handleHello DescriptorStore.upsert
  rw [h]
  exact ⟨rfl, rfl⟩

/-- Taking up found peers tries an insertion for each of them, in their order. -/
theorem foldl_integrate_tried (peers : List PexCandidate) (n : Node) :
    PeerTable.Tried n.table (peers.map PexCandidate.offer) (peers.foldl integrate n).table := by
  induction peers generalizing n with
  | nil => exact PeerTable.Tried.nil
  | cons c rest ih => exact PeerTable.Tried.cons .greedy (ih (n.integrate c))

/-- **What an envelope does to the routing table.**  Its offers are tried one
by one, or a probe is noted. -/
theorem handleEnvelope_tried (n : Node) (now : Nat) (peer : NodeId) (env : Envelope) :
    PeerTable.Tried n.table (n.offers peer env) (n.handleEnvelope now peer env).node.table ∨
      (n.handleEnvelope now peer env).node.table = n.table.recordProbe peer true := by
  unfold offers
  cases hadmits : n.admits peer env with
  | false =>
      rw [handleEnvelope_refused hadmits]
      exact Or.inl PeerTable.Tried.nil
  | true =>
      rw [handleEnvelope_admitted hadmits, if_pos rfl]
      unfold dispatch
      cases env.body with
      | hello d =>
          dsimp only [offersOf]
          cases hverify : verifyDescriptor d with
          | ok u =>
              rw [(handleHello_ok hverify).1]
              exact Or.inl (PeerTable.Tried.cons .greedy PeerTable.Tried.nil)
          | error e =>
              rw [(handleHello_error hverify).1]
              exact Or.inl PeerTable.Tried.nil
      | ping nonce => exact Or.inl PeerTable.Tried.nil
      | pong nonce => exact Or.inr rfl
      | findNode target count =>
          dsimp only
          obtain ⟨find, checked, hchecked, hdropped | hanswered⟩ :=
            handleFindNode_cases n now peer target count
          · rw [hdropped, hchecked]
            exact Or.inl PeerTable.Tried.nil
          · rw [hanswered, hchecked]
            exact Or.inl PeerTable.Tried.nil
      | foundNodes peers => exact Or.inl (foldl_integrate_tried peers n)
      | pex candidates => exact Or.inl (n.pex.applyCandidates_tried candidates n.table)
      | announceDescriptor d => exact Or.inl PeerTable.Tried.nil
      | userData payload =>
          obtain ⟨counter, metrics, hnode⟩ := handleUserData_frame n env payload
          dsimp only
          rw [hnode]
          exact Or.inl PeerTable.Tried.nil
      | invite token => exact Or.inl PeerTable.Tried.nil

/-- The slots after an envelope were there before, or are filed under one of
its offers. -/
theorem handleEnvelope_labels {n : Node} {now : Nat} {peer : NodeId} {env : Envelope}
    {l : SlotLabel} (hl : l ∈ (n.handleEnvelope now peer env).node.table.labels) :
    l ∈ n.table.labels ∨ ∃ o ∈ n.offers peer env, l.FiledUnder o := by
  rcases handleEnvelope_tried n now peer env with htried | hprobe
  · exact htried.label_origin hl
  · rw [hprobe, PeerTable.labels_recordProbe] at hl
    exact Or.inl hl

/-- An envelope keeps the quota of every referrer, as all it does to the table
is trying insertions and probing. -/
theorem quotaKept_handleEnvelope {n : Node} (h : n.table.QuotaKept) (now : Nat) (peer : NodeId)
    (env : Envelope) : (n.handleEnvelope now peer env).node.table.QuotaKept := by
  rcases handleEnvelope_tried n now peer env with htried | hprobe
  · exact htried.quotaKept h
  · intro referrer
    rw [hprobe, PeerTable.labels_recordProbe]
    exact h referrer

/-- Taking up found peers files their descriptors, in their order. -/
theorem foldl_integrate_files (peers : List PexCandidate) (n : Node) :
    n.store.Files (peers.foldl integrate n).store (peers.map PexCandidate.descriptor) := by
  induction peers generalizing n with
  | nil => exact DescriptorStore.Files.nil n.store
  | cons c rest ih => exact (n.store.files_upsert c.descriptor none).cons (ih (n.integrate c))

theorem handleHello_files (n : Node) (peer : NodeId) (d : Descriptor) :
    n.store.Files (n.handleHello peer d).node.store [d] := by
  have hstore : (n.handleHello peer d).node.store = (n.store.upsert d none).2 := by
    cases hverify : verifyDescriptor d with
    | ok u => exact (handleHello_ok hverify).2
    | error e => rw [(handleHello_error hverify).2, DescriptorStore.upsert, hverify]
  rw [hstore]
  exact n.store.files_upsert d none

/-- **What a message does to the store**: it files the descriptors that it
carries, and nothing else. -/
theorem dispatch_files (n : Node) (now : Nat) (peer : NodeId) (env : Envelope) :
    n.store.Files (n.dispatch now peer env).node.store env.body.carried := by
  unfold dispatch
  cases env.body with
  | hello d => exact n.handleHello_files peer d
  | ping nonce => exact DescriptorStore.Files.nil n.store
  | pong nonce => exact DescriptorStore.Files.nil n.store
  | findNode target count =>
      dsimp only
      obtain ⟨find, checked, hchecked, hdropped | hanswered⟩ :=
        handleFindNode_cases n now peer target count
      · rw [hdropped, hchecked]
        exact DescriptorStore.Files.nil n.store
      · rw [hanswered, hchecked]
        exact DescriptorStore.Files.nil n.store
  | foundNodes peers => exact foldl_integrate_files peers n
  | pex candidates => exact DescriptorStore.Files.nil n.store
  | announceDescriptor d => exact (n.store.files_upsert d none).subset (List.nil_subset _)
  | userData payload =>
      obtain ⟨counter, metrics, hnode⟩ := handleUserData_frame n env payload
      dsimp only
      rw [hnode]
      exact DescriptorStore.Files.nil n.store
  | invite token => exact DescriptorStore.Files.nil n.store

/-- **What an envelope does to the store**: it files what it carries if it was
admitted, and otherwise nothing. -/
theorem handleEnvelope_files (n : Node) (now : Nat) (peer : NodeId) (env : Envelope) :
    n.store.Files (n.handleEnvelope now peer env).node.store
      (if n.admits peer env then env.body.carried else []) := by
  cases hadmits : n.admits peer env with
  | false =>
      rw [handleEnvelope_refused hadmits]
      exact DescriptorStore.Files.nil n.store
  | true =>
      rw [handleEnvelope_admitted hadmits]
      exact n.dispatch_files now peer env

/-- Calls of the node's own operations, as opposed to what its host puts in
place. -/
def Call.IsOperation : Call → Prop
  | .host _ _ => False
  | _ => True

/-- An operation handles an envelope or leaves the table and the store alone. -/
theorem operation_cases {n m : Node} {call : Call} (hstep : n.Step call m)
    (hcall : call.IsOperation) :
    (∃ now peer env, call = .handleEnvelope now peer env ∧
      m = (n.handleEnvelope now peer env).node) ∨
    (m.table = n.table ∧ m.store = n.store) := by
  rcases step_cases hstep with
    hhandled | ⟨table, store, rfl, _⟩ | ⟨_, counter, metrics, rfl⟩
  · exact Or.inl hhandled
  · exact hcall.elim
  · exact Or.inr ⟨rfl, rfl⟩

/-- What a call offers to the routing table. -/
def callOffers (n : Node) : Call → List SlotOffer
  | .handleEnvelope _ peer env => n.offers peer env
  | _ => []

/-- **Where the slots come from, call by call**: a label was in the table
before, or the call offers an entry that it is filed under. -/
theorem label_origin_step {n m : Node} {call : Call} (hstep : n.Step call m)
    (hcall : call.IsOperation) {l : SlotLabel} (hl : l ∈ m.table.labels) :
    l ∈ n.table.labels ∨ ∃ o ∈ n.callOffers call, l.FiledUnder o := by
  rcases operation_cases hstep hcall with ⟨now, peer, env, rfl, rfl⟩ | ⟨htable, _⟩
  · exact handleEnvelope_labels hl
  · rw [htable] at hl
    exact Or.inl hl

/-- The peers of the slots come from the slots before or from the offers. -/
theorem slot_origin_step {n m : Node} {call : Call} (hstep : n.Step call m)
    (hcall : call.IsOperation) {s : SlotEntry} (hs : s ∈ m.table.slots) :
    (∃ s' ∈ n.table.slots, s'.peerId = s.peerId) ∨
      ∃ o ∈ n.callOffers call, o.peerId = s.peerId := by
  have hlabel : s.label ∈ m.table.labels := List.mem_map_of_mem hs
  rcases label_origin_step hstep hcall hlabel with hbefore | ⟨o, ho, hfiled⟩
  · obtain ⟨s', hs', hsame⟩ := List.mem_map.mp hbefore
    exact Or.inl ⟨s', hs', congrArg SlotLabel.peerId hsame⟩
  · exact Or.inr ⟨o, ho, hfiled.1.symm⟩

/-- No call of the node takes an entry out of the store. -/
theorem store_improves_step {n m : Node} {call : Call} (hstep : n.Step call m)
    (hcall : call.IsOperation) :
    n.store.Improves m.store ∧ (n.store.Authentic → m.store.Authentic) := by
  rcases operation_cases hstep hcall with ⟨now, peer, env, rfl, rfl⟩ | ⟨_, hstore⟩
  · have hfiles := handleEnvelope_files n now peer env
    exact ⟨hfiles.improves, hfiles.authentic⟩
  · rw [hstore]
    exact ⟨DescriptorStore.improves_refl _, fun h => h⟩

end Node

/-- An unsigned envelope for the seventh sample node. -/
def unsignedTo7 (body : MessageKind) : Envelope where
  toId := (Node.sample 7).id
  fromId := (Node.sample 8).id
  messageId := 1
  ttl := 20
  messageClass := .normal
  routeFork := false
  body := body
  signature := []

/-- The run of the seventh sample node that handles one envelope of the eighth. -/
def oneEnvelopeRun (body : MessageKind) : List (Transition Node Node.Call) :=
  [⟨Node.sample 7, .handleEnvelope 0 (Node.sample 8).id (unsignedTo7 body),
    (@Node.handleEnvelope checksumCrypto (Node.sample 7) 0 (Node.sample 8).id
      (unsignedTo7 body)).node⟩]

/-- Handling one envelope is a run of the sample node. -/
theorem oneEnvelopeRun_trace (body : MessageKind) :
    Trace (@Node.Step checksumCrypto) (Node.sample 7) (oneEnvelopeRun body)
      (@Node.handleEnvelope checksumCrypto (Node.sample 7) 0 (Node.sample 8).id
        (unsignedTo7 body)).node :=
  Trace.single rfl

theorem oneEnvelopeRun_operations (body : MessageKind) :
    ∀ e ∈ oneEnvelopeRun body, e.label.IsOperation := by
  intro e he
  rw [List.mem_singleton.mp he]
  trivial

end Zona
