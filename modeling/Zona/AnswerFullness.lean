import Zona.AuthenticAdverts
import Zona.IterationOrders
import Zona.NodeTables

/-!
# How full the answers are

A node answers a lookup with the closest of its live peers, and an exchange
with the first of them.  It takes as many peers as may be named, and only then
leaves out those that it holds no descriptor of; the places of these stay
empty.

`length_filter_take_iff` is the general fact: truncating first costs nothing
exactly when nothing is left out, or nothing was cut off.  `lookup_full_iff`
and `exchange_full_iff` say what that means for the two answers.
-/

section Truncation

variable {α β : Type}

/-- A list that is truncated and then filtered is as long as it can be exactly
when the filter keeps all that was taken, or nothing of what was cut off. -/
theorem length_filter_take_iff (p : α → Bool) (n : Nat) (l : List α) :
    ((l.take n).filter p).length = min n (l.filter p).length ↔
      (∀ x ∈ l.take n, p x = true) ∨ ∀ x ∈ l.drop n, p x = false := by
  have hsplit : (l.filter p).length =
      ((l.take n).filter p).length + ((l.drop n).filter p).length := by
    rw [← List.length_append, ← List.filter_append, List.take_append_drop]
  have htaken : ((l.take n).filter p).length ≤ (l.take n).length := List.length_filter_le p _
  have hlength : (l.take n).length = min n l.length := List.length_take
  have hall : ((l.take n).filter p).length = (l.take n).length ↔ ∀ x ∈ l.take n, p x = true :=
    List.length_filter_eq_length_iff
  have hnone : ((l.drop n).filter p).length = 0 ↔ ∀ x ∈ l.drop n, p x = false := by
    rw [List.length_eq_zero_iff, List.filter_eq_nil_iff]
    simp
  have hcut : ((l.drop n).filter p).length ≤ l.length - n :=
    le_of_le_of_eq (List.length_filter_le p _) List.length_drop
  rw [← hall, ← hnone]
  omega

variable [LinearOrder β]

/-- In a list in strictly increasing order, an element is among the first `n`
exactly when fewer than `n` elements are below it. -/
theorem mem_take_iff_countP_lt (f : α → β) {l : List α}
    (hsorted : l.Pairwise fun a b => f a < f b) (n : Nat) {a : α} (ha : a ∈ l) :
    a ∈ l.take n ↔ l.countP (fun b => f b < f a) < n := by
  induction l generalizing n with
  | nil => cases ha
  | cons b rest ih =>
      obtain ⟨hbelow, hrest⟩ := List.pairwise_cons.mp hsorted
      cases n with
      | zero => simp
      | succ n =>
          rw [List.take_succ_cons, List.mem_cons, List.countP_cons]
          rcases List.mem_cons.mp ha with rfl | hin
          · have hleast : rest.countP (fun b => f b < f a) = 0 := by
              rw [List.countP_eq_zero]
              intro c hc hlt
              exact lt_asymm (hbelow c hc) (of_decide_eq_true hlt)
            simp [hleast]
          · have hlt := hbelow a hin
            have hne : a ≠ b := by
              rintro rfl
              exact lt_irrefl _ hlt
            rw [or_iff_right hne, ih hrest n hin, if_pos (decide_eq_true hlt)]
            omega

end Truncation

namespace Zona

/-- The live slots for whose peers there is a descriptor. -/
def knownSlots (table : PeerTable) (descriptors : List Descriptor) : List SlotEntry :=
  table.liveSlots.filter fun s => (descriptorOf descriptors s.peerId).isSome

/-- **An exchange** names as many peers as it may exactly when the first three
live slots are for known peers, or no other live slot is. -/
theorem exchange_full_iff (m : PexManager) (table : PeerTable) (descriptors : List Descriptor) :
    (m.buildResponse table descriptors).length = min pexQ (knownSlots table descriptors).length ↔
      (∀ s ∈ table.liveSlots.take pexQ, (descriptorOf descriptors s.peerId).isSome = true) ∨
        ∀ s ∈ table.liveSlots.drop pexQ, (descriptorOf descriptors s.peerId).isSome = false := by
  have hlength : (m.buildResponse table descriptors).length =
      ((table.liveSlots.take pexQ).filter fun s =>
        (descriptorOf descriptors s.peerId).isSome).length := by
    rw [PexManager.buildResponse, List.length_filterMap_eq_countP, List.countP_eq_length_filter]
    simp only [Option.isSome_map]
  rw [hlength]
  exact length_filter_take_iff (fun s => (descriptorOf descriptors s.peerId).isSome) pexQ
    table.liveSlots

/-- The peers of the live slots. -/
def PeerTable.livePeers (t : PeerTable) : List NodeId :=
  t.liveSlots.map SlotEntry.peerId

/-- Fewer than `n` live peers are closer to the target than this one. -/
def AmongClosest (target : NodeId) (t : PeerTable) (n : Nat) (peer : NodeId) : Prop :=
  t.livePeers.countP (fun p => p.xorDistance target < peer.xorDistance target) < n

/-- The live peers by distance from the target. -/
def byDistance (target : NodeId) (t : PeerTable) : List NodeId :=
  t.livePeers.insertionSort fun p q => p.xorDistance target ≤ q.xorDistance target

/-- The closest peers are the first ones of the live peers in order of
distance, so an answer is a prefix of one fixed list. -/
theorem closestPeers_eq (target : NodeId) (t : PeerTable) (n : Nat) :
    closestPeers target t n = (byDistance target t).take n :=
  rfl

/-- Ordering the live peers by distance keeps them all and adds none. -/
theorem mem_byDistance {target : NodeId} {t : PeerTable} {peer : NodeId} :
    peer ∈ byDistance target t ↔ peer ∈ t.livePeers :=
  List.mem_insertionSort _

/-- Different peers are at different distances from a target, so the order of
the peers has no ties to break. -/
theorem xorDistance_injective {target p q : NodeId}
    (h : p.xorDistance target = q.xorDistance target) : p = q :=
  congrArg NodeId.mk (Bytes.xor_left_inj.mp h)

theorem byDistance_increasing {t : PeerTable} (hpeers : t.allPeers.Nodup) (target : NodeId) :
    (byDistance target t).Pairwise fun p q => p.xorDistance target < q.xorDistance target := by
  have hlive : t.livePeers.Nodup := List.Nodup.sublist (List.filter_sublist.map _) hpeers
  have hnodup : (byDistance target t).Pairwise (· ≠ ·) :=
    (List.perm_insertionSort _ t.livePeers).nodup_iff.mpr hlive
  have hsorted : (byDistance target t).Pairwise fun p q =>
      p.xorDistance target ≤ q.xorDistance target := List.pairwise_insertionSort _ _
  refine (hsorted.and hnodup).imp ?_
  rintro p q ⟨hle, hne⟩
  exact lt_of_le_of_ne hle fun heq => hne (xorDistance_injective heq)

/-- **The closest peers** are those than which fewer than `n` are closer.  This
characterises the selection without an order of the list, so answers can be
compared with what the table holds. -/
theorem mem_closestPeers {t : PeerTable} (hpeers : t.allPeers.Nodup) {target peer : NodeId}
    {n : Nat} :
    peer ∈ closestPeers target t n ↔ peer ∈ t.livePeers ∧ AmongClosest target t n peer := by
  have hcount : ∀ p : NodeId → Bool,
      (byDistance target t).countP p = t.livePeers.countP p :=
    fun p => (List.perm_insertionSort _ t.livePeers).countP_eq p
  unfold AmongClosest
  rw [closestPeers_eq, ← hcount]
  constructor
  · intro hmem
    have hin := List.mem_of_mem_take hmem
    exact ⟨mem_byDistance.mp hin, (mem_take_iff_countP_lt (fun p => p.xorDistance target)
      (byDistance_increasing hpeers target) n hin).mp hmem⟩
  · rintro ⟨hlive, hcloser⟩
    exact (mem_take_iff_countP_lt (fun p => p.xorDistance target)
      (byDistance_increasing hpeers target) n (mem_byDistance.mpr hlive)).mpr hcloser

/-- A live peer is among the closest, or cut off. -/
theorem mem_closestPeers_or_drop {t : PeerTable} {peer : NodeId} (h : peer ∈ t.livePeers)
    (target : NodeId) (n : Nat) :
    peer ∈ closestPeers target t n ∨ peer ∈ (byDistance target t).drop n := by
  have hin : peer ∈ byDistance target t := mem_byDistance.mpr h
  rw [← List.take_append_drop n (byDistance target t)] at hin
  exact List.mem_append.mp hin

/-- Who is cut off is farther away than the closest. -/
theorem closest_lt_drop {t : PeerTable} (hpeers : t.allPeers.Nodup) {target p q : NodeId} {n : Nat}
    (hp : p ∈ closestPeers target t n) (hq : q ∈ (byDistance target t).drop n) :
    p.xorDistance target < q.xorDistance target := by
  have hsorted := byDistance_increasing hpeers target
  rw [← List.take_append_drop n (byDistance target t)] at hsorted
  exact (List.pairwise_append.mp hsorted).2.2 p hp q hq

namespace Node

/-- The live peers that the node holds a descriptor of. -/
def answerable (n : Node) : List NodeId :=
  n.table.livePeers.filter fun p => (n.store.get p).isSome

/-- An answer to a lookup that is as full as it can be: in increasing distance
from the target, as many answerable peers as asked for or as there are, and
none of the others is closer. -/
structure FullAnswer (n : Node) (target : NodeId) (count : Nat) (ids : List NodeId) : Prop where
  increasing : ids.Pairwise fun p q => p.xorDistance target < q.xorDistance target
  answerable : ∀ p ∈ ids, p ∈ n.answerable
  length : ids.length = min count n.answerable.length
  closest : ∀ p ∈ ids, ∀ q ∈ n.answerable, q ∉ ids → p.xorDistance target < q.xorDistance target

/-- Every one of the closest live peers is answerable, or none of the others
is. -/
def NoPlaceLost (n : Node) (target : NodeId) (count : Nat) : Prop :=
  (∀ p ∈ n.table.livePeers, AmongClosest target n.table count p → (n.store.get p).isSome = true) ∨
    ∀ p ∈ n.table.livePeers, (n.store.get p).isSome = true → AmongClosest target n.table count p

/-- When no place is lost to a peer without a descriptor: all selected peers
have one, or no further peer has. -/
theorem noPlaceLost_iff {n : Node} (hpeers : n.table.allPeers.Nodup) (target : NodeId)
    (count : Nat) :
    n.NoPlaceLost target count ↔
      (∀ p ∈ closestPeers target n.table count, (n.store.get p).isSome = true) ∨
        ∀ p ∈ (byDistance target n.table).drop count, (n.store.get p).isSome = false := by
  unfold NoPlaceLost
  refine or_congr ?_ ?_
  · simp only [mem_closestPeers hpeers, and_imp]
  · constructor
    · intro hclose p hp
      have hlive := mem_byDistance.mp (List.mem_of_mem_drop hp)
      cases hknown : (n.store.get p).isSome with
      | false => rfl
      | true =>
          have htaken := (mem_closestPeers hpeers).mpr ⟨hlive, hclose p hlive hknown⟩
          exact absurd (closest_lt_drop hpeers htaken hp) (lt_irrefl _)
    · intro hcut p hp hknown
      rcases mem_closestPeers_or_drop hp target count with htaken | hdropped
      · exact ((mem_closestPeers hpeers).mp htaken).2
      · rw [hcut p hdropped] at hknown
        exact absurd hknown Bool.false_ne_true

/-- What is left of the closest peers without the unknown ones is in order,
answerable, and closer than the other answerable peers; so it is a full answer
as soon as it is long enough. -/
theorem fullAnswer_iff_length {n : Node} (hpeers : n.table.allPeers.Nodup) (target : NodeId)
    (count : Nat) :
    n.FullAnswer target count
        ((closestPeers target n.table count).filter fun p => (n.store.get p).isSome) ↔
      ((closestPeers target n.table count).filter fun p => (n.store.get p).isSome).length =
        min count n.answerable.length := by
  constructor
  · intro h
    exact h.length
  · intro hlength
    refine ⟨?_, ?_, hlength, ?_⟩
    · exact List.Pairwise.sublist (List.filter_sublist.trans (List.take_sublist _ _))
        (byDistance_increasing hpeers target)
    · intro p hp
      obtain ⟨htaken, hknown⟩ := List.mem_filter.mp hp
      exact List.mem_filter.mpr ⟨((mem_closestPeers hpeers).mp htaken).1, hknown⟩
    · intro p hp q hq hother
      obtain ⟨hlive, hknown⟩ := List.mem_filter.mp hq
      rcases mem_closestPeers_or_drop hlive target count with htaken | hdropped
      · exact absurd (List.mem_filter.mpr ⟨htaken, hknown⟩) hother
      · exact closest_lt_drop hpeers (List.mem_filter.mp hp).1 hdropped

variable [Crypto]

/-- The peers that an answer names: those among the closest ones that have a
descriptor, in the order of the selection. -/
theorem foundCandidates_ids {n : Node} (hstore : n.store.Authentic) (target : NodeId)
    (count : UInt8) :
    (n.foundCandidates target count).map (fun c => c.descriptor.nodeId) =
      (closestPeers target n.table count.toNat).filter fun p => (n.store.get p).isSome := by
  unfold foundCandidates
  induction closestPeers target n.table count.toNat with
  | nil => rfl
  | cons p rest ih =>
      have hfind := DescriptorStore.descriptorOf_allDescriptors hstore p
      cases hget : n.store.get p with
      | none =>
          rw [hget] at hfind
          rw [List.filterMap_cons_none (by rw [hfind]; rfl), ih,
            List.filter_cons_of_neg (by rw [hget]; exact Bool.false_ne_true)]
      | some c =>
          rw [hget] at hfind
          rw [List.filterMap_cons_some (by rw [hfind]; rfl), List.map_cons, ih,
            List.filter_cons_of_pos (by rw [hget]; rfl)]
          exact congrArg (· :: _) (hstore p c hget).1

/-- **Lookups.**  The answer is as full as it can be exactly when no place in
it is lost. -/
theorem lookup_full_iff {n : Node} (hpeers : n.table.allPeers.Nodup)
    (hstore : n.store.Authentic) (target : NodeId) (count : UInt8) :
    n.FullAnswer target count.toNat
        ((n.foundCandidates target count).map fun c => c.descriptor.nodeId) ↔
      n.NoPlaceLost target count.toNat := by
  have hanswerable : n.answerable.length =
      ((byDistance target n.table).filter fun p => (n.store.get p).isSome).length :=
    ((List.perm_insertionSort _ n.table.livePeers).filter _).length_eq.symm
  rw [foundCandidates_ids hstore, fullAnswer_iff_length hpeers, noPlaceLost_iff hpeers,
    hanswerable]
  exact length_filter_take_iff (fun p => (n.store.get p).isSome) count.toNat
    (byDistance target n.table)

/-- What a host does to a node's table and store: it uses their own
operations. -/
def Call.IsFaithful (n : Node) : Call → Prop
  | .host table store =>
      Reachable PeerTable.Step n.table table ∧ ∃ updates, store = n.store.upsertAll updates
  | _ => True

/-- Updates keep the store authentic, as each of them verifies the descriptor
before it is stored. -/
theorem authentic_upsertAll {s : DescriptorStore} (h : s.Authentic)
    (updates : List CachedDescriptor) : (s.upsertAll updates).Authentic := by
  induction updates generalizing s with
  | nil => exact h
  | cons u rest ih => exact ih (DescriptorStore.authentic_upsert h u.descriptor u.finalisedHeight)

/-- The table is well formed and the store authentic. -/
structure Ordered (n : Node) : Prop where
  table : ∃ maxGreedy, n.table.WellFormed maxGreedy
  store : n.store.Authentic

/-- One call keeps a node ordered: its table stays well formed, and its store
holds authentic descriptors only. -/
theorem ordered_step {n m : Node} {call : Call} (hstep : n.Step call m)
    (hcall : call.IsFaithful n) (h : n.Ordered) : m.Ordered := by
  obtain ⟨maxGreedy, hwell⟩ := h.table
  cases call with
  | host table store =>
      obtain ⟨htable, updates, rfl⟩ := hcall
      rw [Step, perform] at hstep
      subst hstep
      have hkept : table.WellFormed maxGreedy :=
        htable.invariant (fun _ _ _ hop hinv => PeerTable.wellFormed_step hop hinv) hwell
      exact ⟨⟨maxGreedy, hkept⟩, authentic_upsertAll h.store updates⟩
  | _ =>
      have hkept : m.table.WellFormed maxGreedy :=
        (table_step hstep trivial).invariant
          (fun _ _ _ hop hinv => PeerTable.wellFormed_step hop.2 hinv) hwell
      exact ⟨⟨maxGreedy, hkept⟩, (store_improves_step hstep trivial).2 h.store⟩

/-- A run from the start keeps a node ordered, if its host uses the operations
of the table and of the store. -/
theorem ordered_of_run {seed : Bytes 32} {config : NodeConfig} {n : Node}
    {es : List (Transition Node Call)}
    (run : Trace Step (Node.new (NodeKeypair.fromSeed seed) config) es n)
    (hcalls : ∀ e ∈ es, e.label.IsFaithful e.before) : n.Ordered :=
  @Trace.invariant_of_all _ _ Step _ n es Ordered (fun e => e.label.IsFaithful e.before)
    (fun _ hstep h hcall => ordered_step hstep hcall h) run
    ⟨⟨config.maxGreedy, PeerTable.wellFormed_new _ _⟩, DescriptorStore.authentic_new⟩ hcalls

/-- A lookup that passes the rate limit is answered. -/
theorem handleEnvelope_findNode {n : Node} {now : Nat} {peer target : NodeId} {env : Envelope}
    {count : UInt8} (hbody : env.body = .findNode target count)
    (hadmits : n.admits peer env = true)
    (hlimit : (n.limits.checkFind peer true now).1 = .ok ()) :
    ∃ reply, (n.handleEnvelope now peer env).out = [(peer, reply)] ∧
      reply.body = .foundNodes (n.foundCandidates target count) := by
  have hhandled : n.handleEnvelope now peer env = n.handleFindNode now peer target count := by
    rw [handleEnvelope_admitted hadmits]
    simp only [dispatch, hbody]
  rw [hhandled]
  unfold handleFindNode
  rcases hcheck : n.limits.checkFind peer true now with ⟨verdict, limits⟩
  rw [hcheck] at hlimit
  dsimp only at hlimit
  subst hlimit
  exact ⟨_, rfl, rfl⟩

/-- **Answers.**  For every reachable node and every lookup that passes the
rate limit, the answer is as full as it can be exactly when every one of the
closest live peers is answerable or no other live peer is; and every exchange
names as many peers as it may exactly when the first three live slots are for
known peers or no other live slot is. -/
theorem answers_full_iff {seed : Bytes 32} {config : NodeConfig} {n : Node}
    {es : List (Transition Node Call)}
    (run : Trace Step (Node.new (NodeKeypair.fromSeed seed) config) es n)
    (hcalls : ∀ e ∈ es, e.label.IsFaithful e.before) :
    (∀ now peer env target count, env.body = .findNode target count →
      n.admits peer env = true → (n.limits.checkFind peer true now).1 = .ok () →
        ∃ reply candidates, (n.handleEnvelope now peer env).out = [(peer, reply)] ∧
          reply.body = .foundNodes candidates ∧
            (n.FullAnswer target count.toNat (candidates.map fun c => c.descriptor.nodeId) ↔
              n.NoPlaceLost target count.toNat)) ∧
      ∀ (m : PexManager) (table : PeerTable) (descriptors : List Descriptor),
        (m.buildResponse table descriptors).length =
            min pexQ (knownSlots table descriptors).length ↔
          (∀ s ∈ table.liveSlots.take pexQ, (descriptorOf descriptors s.peerId).isSome = true) ∨
            ∀ s ∈ table.liveSlots.drop pexQ,
              (descriptorOf descriptors s.peerId).isSome = false := by
  have hordered := ordered_of_run run hcalls
  obtain ⟨maxGreedy, hwell⟩ := hordered.table
  refine ⟨?_, fun m table descriptors => exchange_full_iff m table descriptors⟩
  intro now peer env target count hbody hadmits hlimit
  obtain ⟨reply, hout, hreply⟩ := handleEnvelope_findNode hbody hadmits hlimit
  exact ⟨reply, _, hout, hreply, lookup_full_iff hwell.peers hordered.store target count⟩

end Node

/-- After a hello from the eighth node, a lookup toward it is answered in
full. -/
theorem hello_answered_in_full :
    ∃ reply candidates,
      (@Node.handleEnvelope checksumCrypto greetedBy8 1 (Node.sample 9).id
          (unsignedTo7 (.findNode (Node.sample 8).id 3))).out = [((Node.sample 9).id, reply)] ∧
        reply.body = .foundNodes candidates ∧
          greetedBy8.FullAnswer (Node.sample 8).id (3 : UInt8).toNat
            (candidates.map fun c => c.descriptor.nodeId) := by
  have hcalls : ∀ e ∈ oneEnvelopeRun (.hello (sampleDescriptor 8 1)),
      @Node.Call.IsFaithful checksumCrypto e.before e.label := by
    intro e he
    rw [List.mem_singleton.mp he]
    trivial
  have hlive : greetedBy8.table.livePeers = [(Node.sample 8).id] ∧
      (greetedBy8.store.get (Node.sample 8).id).isSome = true := by decide +kernel
  obtain ⟨reply, candidates, hout, hreply, hfull⟩ :=
    (@Node.answers_full_iff checksumCrypto (Bytes.replicate 32 7) ⟨8, 0⟩ greetedBy8 _
      (oneEnvelopeRun_trace (.hello (sampleDescriptor 8 1))) hcalls).1 1 (Node.sample 9).id
        (unsignedTo7 (.findNode (Node.sample 8).id 3)) (Node.sample 8).id 3 rfl rfl
        (by decide +kernel)
  refine ⟨reply, candidates, hout, hreply, hfull.mpr (Or.inl ?_)⟩
  intro p hp _
  rw [hlive.1, List.mem_singleton] at hp
  rw [hp]
  exact hlive.2

/-- Two hellos with the descriptor of the ninth sample node, the first of them
from the eighth. -/
def twoHellos : List Node.Call :=
  [.handleEnvelope 0 (Node.sample 8).id (unsignedTo7 (.hello (sampleDescriptor 9 1))),
    .handleEnvelope 1 (Node.sample 9).id (unsignedTo7 (.hello (sampleDescriptor 9 1)))]

/-- The seventh sample node after some calls. -/
def sevenAfter (calls : List Node.Call) : Node :=
  calls.foldl (@Node.perform checksumCrypto) (Node.sample 7)

/-- The calls on the sample node make a run from its start. -/
theorem sevenAfter_trace (calls : List Node.Call) :
    Trace (@Node.Step checksumCrypto) (Node.sample 7)
      (Trace.record (@Node.perform checksumCrypto) (Node.sample 7) calls) (sevenAfter calls) :=
  @Trace.of_record _ _ (@Node.Step checksumCrypto) (@Node.perform checksumCrypto)
    (fun _ _ => rfl) calls _

/-- Asked for the one peer closest to the eighth node, the node names none,
though it has a live peer whose descriptor it holds. -/
theorem closest_place_lost :
    Trace (@Node.Step checksumCrypto) (Node.sample 7)
        (Trace.record (@Node.perform checksumCrypto) (Node.sample 7) twoHellos)
        (sevenAfter twoHellos) ∧
      (@Node.handleEnvelope checksumCrypto (sevenAfter twoHellos) 2 (Node.sample 10).id
        (unsignedTo7 (.findNode (Node.sample 8).id 1))).out.map
          (fun sent => sent.2.body.descriptors) = [[]] ∧
      (sevenAfter twoHellos).answerable = [(Node.sample 9).id] ∧
      ¬ (sevenAfter twoHellos).FullAnswer (Node.sample 8).id 1 [] := by
  have hanswerable : (sevenAfter twoHellos).answerable = [(Node.sample 9).id] := by decide +kernel
  refine ⟨sevenAfter_trace twoHellos, by decide +kernel, hanswerable, fun hfull => ?_⟩
  have hlength := hfull.length
  rw [hanswerable] at hlength
  exact absurd hlength (by decide)

end Zona
