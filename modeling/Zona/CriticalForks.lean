import Zona.UserDataRelays

/-!
# Forked critical messages

`sendCritical` hands a critical message to one or two first hops.  Its receiver
counts the copies, and with two of them it acts on the message
(`second_copy_accepted`), however its other traffic interleaves with them, as
long as that traffic does not use the same message id.

The copies only ever reach a receiver that takes them when they still name it.
`fork_keeps_destination_iff` says when they do: when every first hop is the
destination.
-/

namespace Zona

/-- A critical message to `toId` under an id, with its payload. -/
def Envelope.IsCritical (e : Envelope) (toId : NodeId) (messageId : UInt64)
    (payload : List UInt8) : Prop :=
  e.toId = toId ∧ e.messageId = messageId ∧ e.messageClass = .criticalUser ∧
    e.body = .userData payload

/-- A copy of a critical message is one, with the same number and payload,
since a hop changes neither. -/
theorem Envelope.SameMessage.isCritical {copy original : Envelope} {toId : NodeId}
    {messageId : UInt64} {payload : List UInt8} (h : copy.SameMessage original)
    (horiginal : original.IsCritical toId messageId payload) :
    copy.IsCritical toId messageId payload := by
  unfold SameMessage at h
  rw [h]
  exact horiginal

namespace Node

/-- The first hops of a critical message. -/
def firstHops (n : Node) : List NodeId :=
  match pickForkHops n.table with
  | some (hopA, hopB) => [hopA, hopB]
  | none => (n.table.slots.head?.map SlotEntry.peerId).toList

variable [Crypto]

/-- Every copy names the hop that it is handed to, and every first hop gets a
copy. -/
theorem sendCritical_hops (n : Node) (toId : NodeId) (payload : List UInt8) :
    (n.sendCritical toId payload).1.map Prod.fst = n.firstHops ∧
      ∀ sent ∈ (n.sendCritical toId payload).1, sent.2.toId = sent.1 := by
  unfold sendCritical firstHops
  dsimp only
  rcases pickForkHops n.table with _ | ⟨hopA, hopB⟩
  · dsimp only
    cases n.table.slots.head? with
    | none => simp
    | some slot => simp [signEnvelope]
  · simp [signEnvelope, forkEnvelopes]

/-- **What every copy carries**, forked or single: the number, the sender, the
class and the payload, and a mark for the fork if there is one. -/
theorem sendCritical_copy {n : Node} {toId : NodeId} {payload : List UInt8}
    {sent : NodeId × Envelope} (h : sent ∈ (n.sendCritical toId payload).1) :
    sent.2.messageId = n.msgCounter + 1 ∧ sent.2.fromId = n.id ∧
      sent.2.messageClass = .criticalUser ∧ sent.2.body = .userData payload ∧
        sent.2.routeFork = (pickForkHops n.table).isSome := by
  unfold sendCritical at h
  dsimp only at h
  rcases hhops : pickForkHops n.table with _ | ⟨hopA, hopB⟩
  · rw [hhops] at h
    dsimp only at h
    cases hslot : n.table.slots.head? with
    | none =>
        rw [hslot] at h
        cases h
    | some slot =>
        rw [hslot] at h
        rw [List.mem_singleton.mp h]
        exact ⟨rfl, rfl, rfl, rfl, rfl⟩
  · rw [hhops] at h
    rcases List.mem_pair.mp h with hcopy | hcopy
    · rw [hcopy]
      exact ⟨rfl, rfl, rfl, rfl, rfl⟩
    · rw [hcopy]
      exact ⟨rfl, rfl, rfl, rfl, rfl⟩

/-- The call has the node record a copy under the message id. -/
def Records (messageId : UInt64) (e : Transition Node Call) : Prop :=
  match e.label with
  | .handleEnvelope _ peer env =>
      e.before.Takes peer env ∧ env.messageClass = .criticalUser ∧ env.messageId = messageId
  | _ => False

/-- A taken critical message is recorded, and the result is reported. -/
theorem handleEnvelope_critical {n : Node} {now : Nat} {peer : NodeId} {env : Envelope}
    {messageId : UInt64} {payload : List UInt8} (hadmits : n.admits peer env = true)
    (h : env.IsCritical n.id messageId payload) :
    (n.handleEnvelope now peer env).event =
        some (.critical messageId (n.quorum.record messageId payload).1) ∧
      (n.handleEnvelope now peer env).node.quorum = (n.quorum.record messageId payload).2 := by
  obtain ⟨hdest, hid, hclass, hbody⟩ := h
  rw [handleEnvelope_admitted hadmits, ← hid]
  simp only [dispatch, hbody]
  rw [handleUserData_critical hdest hclass]
  refine ⟨rfl, ?_⟩
  dsimp only
  split
  · rfl
  · rfl

/-- The tracker moves only when a critical message is taken. -/
theorem handleEnvelope_quorum {n : Node} {now : Nat} {peer : NodeId} {env : Envelope}
    (h : ¬ (n.Takes peer env ∧ env.messageClass = .criticalUser)) :
    (n.handleEnvelope now peer env).node.quorum = n.quorum := by
  obtain ⟨store, table, counter, metrics, find, hnode⟩ := handleEnvelope_frame n now peer env
  rw [hnode]
  dsimp only
  cases hadmits : n.admits peer env with
  | false => rfl
  | true =>
      rw [if_pos rfl]
      unfold quorumAfter
      cases hbody : env.body with
      | userData payload =>
          refine if_neg fun hrecords => h ⟨⟨hadmits, ?_, hrecords.1⟩, hrecords.2⟩
          rw [hbody, MessageKind.isUserData]
      | _ => rfl

/-- A call that records nothing under the id keeps what is known of it. -/
theorem lookup_quorum_step {messageId : UInt64} {entry : PendingEntry}
    (e : Transition Node Call) (hstep : Step e.before e.label e.after)
    (h : e.before.quorum.pending.lookup messageId = some entry)
    (hquiet : ¬ Records messageId e) :
    e.after.quorum.pending.lookup messageId = some entry := by
  rcases e with ⟨n, call, m⟩
  dsimp only at hstep h ⊢
  rcases step_cases hstep with
    ⟨now, peer, env, rfl, rfl⟩ | ⟨table, store, _, rfl⟩ | ⟨_, counter, metrics, rfl⟩
  · by_cases hcritical : n.Takes peer env ∧ env.messageClass = .criticalUser
    · obtain ⟨⟨hadmits, huser, hdest⟩, hclass⟩ := hcritical
      obtain ⟨payload, hbody⟩ := eq_userData_of_isUserData huser
      have hother : messageId ≠ env.messageId :=
        fun heq => hquiet ⟨⟨hadmits, huser, hdest⟩, hclass, heq.symm⟩
      rw [(handleEnvelope_critical hadmits ⟨hdest, rfl, hclass, hbody⟩).2,
        n.quorum.record_other payload hother]
      exact h
    · rw [handleEnvelope_quorum hcritical]
      exact h
  · exact h
  · exact h

/-- **Two copies suffice.**  A node that takes a copy of a critical message it
knows nothing about, and later a second one, accepts it: what it handles in
between does not matter as long as nothing of it is recorded under the id. -/
theorem second_copy_accepted {n m : Node} {es : List (Transition Node Call)} {now later : Nat}
    {peerA peerB : NodeId} {copyA copyB : Envelope} {messageId : UInt64} {payload : List UInt8}
    (hA : copyA.IsCritical n.id messageId payload)
    (hB : copyB.IsCritical m.id messageId payload)
    (hfresh : n.quorum.pending.lookup messageId = none)
    (hadmitsA : n.admits peerA copyA = true)
    (run : Trace Step (n.handleEnvelope now peerA copyA).node es m)
    (hquiet : ∀ e ∈ es, ¬ Records messageId e)
    (hadmitsB : m.admits peerB copyB = true) :
    (m.handleEnvelope later peerB copyB).event = some (.critical messageId .accepted) := by
  have hfirst := (@handleEnvelope_critical _ n now peerA copyA messageId payload hadmitsA hA).2
  rw [QuorumTracker.record_first payload hfresh] at hfirst
  have hpending : (n.handleEnvelope now peerA copyA).node.quorum.pending.lookup messageId =
      some ⟨payload, 1, false⟩ := by
    rw [hfirst]
    exact HashMap.lookup_put_self
  have hkept : m.quorum.pending.lookup messageId = some ⟨payload, 1, false⟩ :=
    @Trace.invariant_of_all _ _ _ _ _ _
      (fun k : Node => k.quorum.pending.lookup messageId = some ⟨payload, 1, false⟩)
      (fun e => ¬ Records messageId e) lookup_quorum_step run hpending hquiet
  rw [(handleEnvelope_critical hadmitsB hB).1, QuorumTracker.record_second hkept]

/-- A receiver at `toId` accepts the message with its second copy: the copies
come over honest relays and pass the receiver's guard, the first one finds no
entry under its id, and nothing else is recorded under it in between. -/
def AcceptedAt (n : Node) (toId : NodeId) (payload : List UInt8) : Prop :=
  ∀ (receiver receiver' : Node) (es : List (Transition Node Call)) (now later : Nat)
    (peerA peerB : NodeId) (copyA copyB : Envelope),
    receiver.id = toId →
    (∃ sent ∈ (n.sendCritical toId payload).1, copyA.SameMessage sent.2) →
    (∃ sent ∈ (n.sendCritical toId payload).1, copyB.SameMessage sent.2) →
    receiver.quorum.pending.lookup (n.msgCounter + 1) = none →
    receiver.admits peerA copyA = true →
    Trace Step (receiver.handleEnvelope now peerA copyA).node es receiver' →
    (∀ e ∈ es, ¬ Records (n.msgCounter + 1) e) →
    receiver'.admits peerB copyB = true →
    (receiver'.handleEnvelope later peerB copyB).event =
      some (.critical (n.msgCounter + 1) .accepted)

/-- The copies of a critical message to `toId` are handed to the first hops,
still name `toId`, agree in everything a forked copy carries, and are accepted
at `toId`. -/
structure ForkKeepsDestination (n : Node) (toId : NodeId) (payload : List UInt8) : Prop where
  handed : (n.sendCritical toId payload).1.map Prod.fst = n.firstHops
  addressed : ∀ sent ∈ (n.sendCritical toId payload).1, sent.2.toId = toId
  copies : ∀ sent ∈ (n.sendCritical toId payload).1,
    sent.2.messageId = n.msgCounter + 1 ∧ sent.2.fromId = n.id ∧
      sent.2.messageClass = .criticalUser ∧ sent.2.body = .userData payload ∧
        sent.2.routeFork = (pickForkHops n.table).isSome
  accepted : n.AcceptedAt toId payload

/-- Relayed copies that still name the destination are accepted there. -/
theorem acceptedAt_of_addressed {n : Node} {toId : NodeId} {payload : List UInt8}
    (h : ∀ sent ∈ (n.sendCritical toId payload).1, sent.2.toId = toId) :
    n.AcceptedAt toId payload := by
  have hcritical : ∀ sent ∈ (n.sendCritical toId payload).1, ∀ copy : Envelope,
      copy.SameMessage sent.2 → copy.IsCritical toId (n.msgCounter + 1) payload := by
    intro sent hsent copy hsame
    obtain ⟨hid, _, hclass, hbody, _⟩ := sendCritical_copy hsent
    exact hsame.isCritical ⟨h sent hsent, hid, hclass, hbody⟩
  intro receiver receiver' es now later peerA peerB copyA copyB hplace
    ⟨sentA, hsentA, hsameA⟩ ⟨sentB, hsentB, hsameB⟩ hfresh hadmitsA run hquiet hadmitsB
  have hplace' : receiver'.id = toId := by
    have hid : (receiver.handleEnvelope now peerA copyA).node.id = receiver.id :=
      @id_step _ receiver _ (.handleEnvelope now peerA copyA) rfl
    rw [id_of_trace run, hid, hplace]
  have hA : copyA.IsCritical receiver.id (n.msgCounter + 1) payload := by
    rw [hplace]
    exact hcritical sentA hsentA copyA hsameA
  have hB : copyB.IsCritical receiver'.id (n.msgCounter + 1) payload := by
    rw [hplace']
    exact hcritical sentB hsentB copyB hsameB
  exact second_copy_accepted hA hB hfresh hadmitsA run hquiet hadmitsB

/-- **A fork keeps its destination** exactly when every first hop is the
destination, because each copy is addressed to the hop that it is sent to. -/
theorem fork_keeps_destination_iff (n : Node) (toId : NodeId) (payload : List UInt8) :
    n.ForkKeepsDestination toId payload ↔ ∀ hop ∈ n.firstHops, hop = toId := by
  obtain ⟨hhanded, hnamed⟩ := sendCritical_hops n toId payload
  constructor
  · intro h hop hhop
    rw [← hhanded] at hhop
    obtain ⟨sent, hsent, heq⟩ := List.mem_map.mp hhop
    rw [← heq, ← hnamed sent hsent]
    exact h.addressed sent hsent
  · intro h
    have haddressed : ∀ sent ∈ (n.sendCritical toId payload).1, sent.2.toId = toId := by
      intro sent hsent
      rw [hnamed sent hsent]
      apply h
      rw [← hhanded]
      exact List.mem_map_of_mem hsent
    exact ⟨hhanded, haddressed, fun _ => sendCritical_copy, acceptedAt_of_addressed haddressed⟩

omit [Crypto] in
/-- A sender with two neighbours. -/
def sampleSender : Node :=
  { sample 1 with
    table := (((sample 1).table.tryInsert (.new .greedy (sample 2).id (sample 2).id)).2.tryInsert
      (.new .greedy (sample 3).id (sample 3).id)).2 }

omit [Crypto] in
/-- **A forked message to a third party names the two neighbours** and nobody
else, so neither of them has a reason to pass it on. -/
theorem forked_copies_name_hops :
    (sample 4).id ≠ sampleSender.id ∧
      (@sendCritical checksumCrypto sampleSender (sample 4).id [0x41]).1.map
          (fun sent => (sent.1, sent.2.toId)) =
        [((sample 2).id, (sample 2).id), ((sample 3).id, (sample 3).id)] ∧
      ¬ @ForkKeepsDestination checksumCrypto sampleSender (sample 4).id [0x41] := by
  have hcopies : (@sendCritical checksumCrypto sampleSender (sample 4).id [0x41]).1.map
      (fun sent => (sent.1, sent.2.toId)) =
        [((sample 2).id, (sample 2).id), ((sample 3).id, (sample 3).id)] := by
    decide +kernel
  have hother : (sample 2).id ≠ (sample 4).id := by
    decide +kernel
  refine ⟨by decide +kernel, hcopies, ?_⟩
  intro h
  have hmem : ((sample 2).id, (sample 2).id) ∈
      (@sendCritical checksumCrypto sampleSender (sample 4).id [0x41]).1.map
        (fun sent => (sent.1, sent.2.toId)) := by
    rw [hcopies]
    exact List.mem_cons_self
  obtain ⟨sent, hsent, heq⟩ := List.mem_map.mp hmem
  have hnamed : sent.2.toId = (sample 2).id := congrArg Prod.snd heq
  have haddressed : sent.2.toId = (sample 4).id :=
    @ForkKeepsDestination.addressed checksumCrypto _ _ _ h sent hsent
  exact hother (hnamed.symm.trans haddressed)

end Node

end Zona
