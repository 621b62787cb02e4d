import Zona.AuthenticAdverts

/-!
# Publishing a reach list again

A node signs its own descriptor anew whenever its reach list changes, but every
such descriptor carries version 1.  Two publications of one node are therefore
told apart by their content hashes only, and the hash knows nothing of the
order in which they were made.

`get_upsertAll_concat_iff` says when the last of a list of updates is what the
store ends up with.  `latest_publication_held_iff` applies it to what one node
publishes in a run: the later publication takes the place of the earlier one
exactly when its content hash is smaller.
-/

namespace Zona

namespace DescriptorStore

variable [Crypto]

/-- The records that an update of a peer has to stand against: what the store
held, and what it was offered since. -/
def rivals (s : DescriptorStore) (id : NodeId) (updates : List CachedDescriptor) :
    List CachedDescriptor :=
  (s.get id).toList ++ offersFor id updates

/-- The last update is what the store ends up with, exactly when the best of
its rivals is that record already or ranks below it. -/
theorem get_upsertAll_concat_iff (s : DescriptorStore) (updates : List CachedDescriptor)
    {u : CachedDescriptor} (hverify : verifyDescriptor u.descriptor = .ok ()) :
    (s.upsertAll (updates ++ [u])).get u.descriptor.nodeId = some u ↔
      ∀ best ∈ (s.rivals u.descriptor.nodeId updates).argmax CachedDescriptor.rank,
        best = u ∨ best.rank < u.rank := by
  have hone : offersFor u.descriptor.nodeId [u] = [u] :=
    List.filter_cons_of_pos (decide_eq_true ⟨rfl, hverify⟩)
  have hoffers : offersFor u.descriptor.nodeId (updates ++ [u]) =
      offersFor u.descriptor.nodeId updates ++ [u] := by
    calc offersFor u.descriptor.nodeId (updates ++ [u])
        = offersFor u.descriptor.nodeId updates ++ offersFor u.descriptor.nodeId [u] :=
          List.filter_append _ _
      _ = offersFor u.descriptor.nodeId updates ++ [u] := by rw [hone]
  rw [get_upsertAll_from, hoffers, ← List.append_assoc, List.argmax_concat]
  unfold rivals
  cases ((s.get u.descriptor.nodeId).toList ++
      offersFor u.descriptor.nodeId updates).argmax CachedDescriptor.rank with
  | none => simp
  | some best =>
      by_cases hbelow : best.rank < u.rank
      · simp [hbelow]
      · simp [hbelow]

end DescriptorStore

namespace Node

variable [Crypto]

theorem keypair_of_trace {n m : Node} {es : List (Transition Node Call)}
    (run : Trace Step n es m) : m.keypair = n.keypair :=
  @Trace.invariant _ _ Step n m es (fun k : Node => k.keypair = n.keypair)
    (fun _ _ _ hstep h => (identity_step hstep).2.1.trans h) run rfl

/-- **A publication depends on the reach list alone**: whatever happened to the
node, it signs what a node made afresh with its keys would sign. -/
theorem ownDescriptor_of_trace {n m : Node} {es : List (Transition Node Call)}
    (run : Trace Step n es m) (reach : ReachList) :
    m.ownDescriptor reach = n.ownDescriptor reach := by
  unfold ownDescriptor
  rw [id_of_trace run, keypair_of_trace run]

@[simp]
theorem ownDescriptor_nodeId (n : Node) (reach : ReachList) :
    (n.ownDescriptor reach).nodeId = n.id := rfl

/-- Every descriptor of a node has version 1: the source writes a constant,
where the store expects a number that grows. -/
@[simp]
theorem ownDescriptor_version (n : Node) (reach : ReachList) :
    (n.ownDescriptor reach).version = 1 := rfl

/-- A descriptor says how the node can be reached. -/
@[simp]
theorem ownDescriptor_reach (n : Node) (reach : ReachList) :
    (n.ownDescriptor reach).reach = reach := rfl

/-- Two publications at one height are ranked by their content hashes. -/
theorem ownDescriptor_rank_lt_iff (n : Node) (r₁ r₂ : ReachList) (height : Option UInt64) :
    (CachedDescriptor.mk (n.ownDescriptor r₁) height).rank <
        (CachedDescriptor.mk (n.ownDescriptor r₂) height).rank ↔
      contentHash (n.ownDescriptor r₂) < contentHash (n.ownDescriptor r₁) := by
  rw [← preferIncoming_iff]
  cases height with
  | none => simp [preferIncoming]
  | some height => simp [preferIncoming]

/-- The store after the publication of `r₁`, further updates, and the
publication of `r₂`, both with the same finalised height. -/
def republished (n m : Node) (r₁ r₂ : ReachList) (height : Option UInt64) (s : DescriptorStore)
    (between : List CachedDescriptor) : DescriptorStore :=
  (((s.upsert (n.ownDescriptor r₁) height).2.upsertAll between).upsert
    (m.ownDescriptor r₂) height).2

/-- Publishing twice with updates in between is one list of updates, so the
results on lists apply to it. -/
theorem republished_eq (n m : Node) (r₁ r₂ : ReachList) (height : Option UInt64)
    (s : DescriptorStore) (between : List CachedDescriptor) :
    republished n m r₁ r₂ height s between =
      s.upsertAll ((⟨n.ownDescriptor r₁, height⟩ :: between) ++
        [⟨m.ownDescriptor r₂, height⟩]) := by
  unfold republished DescriptorStore.upsertAll
  rw [List.foldl_append]
  rfl

/-- **Republishing.**  A node publishes `r₁`, and at a later moment of its run
`r₂`.  A store that takes both at one height ends up with the second exactly
when, of what it held of the node and was offered before the second arrived,
the best is that publication itself or ranks below it.  If it had nothing else
of the node, that is when the content hash of the second is the smaller one. -/
theorem latest_publication_held_iff (hsound : Crypto.Sound ‹Crypto›) {seed : Bytes 32}
    {config : NodeConfig} {n m : Node} {es later : List (Transition Node Call)}
    (run : Trace Step (Node.new (NodeKeypair.fromSeed seed) config) es n)
    (rest : Trace Step n later m) {r₁ r₂ : ReachList} (hne : r₁ ≠ r₂) (height : Option UInt64)
    (s : DescriptorStore) (between : List CachedDescriptor) :
    ((republished n m r₁ r₂ height s between).get n.id = some ⟨m.ownDescriptor r₂, height⟩ ↔
        ∀ best ∈ (s.rivals n.id (⟨n.ownDescriptor r₁, height⟩ :: between)).argmax
            CachedDescriptor.rank,
          best = ⟨m.ownDescriptor r₂, height⟩ ∨
            best.rank < (CachedDescriptor.mk (m.ownDescriptor r₂) height).rank) ∧
      (s.get n.id = none → DescriptorStore.offersFor n.id between = [] →
        ((republished n m r₁ r₂ height s between).get n.id = some ⟨m.ownDescriptor r₂, height⟩ ↔
          contentHash (n.ownDescriptor r₂) < contentHash (n.ownDescriptor r₁))) := by
  have hverify : ∀ reach, verifyDescriptor (n.ownDescriptor reach) = .ok () := by
    intro reach
    rw [ownDescriptor_of_trace run]
    exact (madeFor_new seed config).ownDescriptor_verifies hsound reach
  have hsecond : m.ownDescriptor r₂ = n.ownDescriptor r₂ := ownDescriptor_of_trace rest r₂
  have hheld : (republished n m r₁ r₂ height s between).get n.id =
        some ⟨n.ownDescriptor r₂, height⟩ ↔
      ∀ best ∈ (s.rivals n.id (⟨n.ownDescriptor r₁, height⟩ :: between)).argmax
          CachedDescriptor.rank,
        best = ⟨n.ownDescriptor r₂, height⟩ ∨
          best.rank < (CachedDescriptor.mk (n.ownDescriptor r₂) height).rank := by
    rw [republished_eq, hsecond]
    exact DescriptorStore.get_upsertAll_concat_iff s _ (hverify r₂)
  rw [hsecond]
  refine ⟨hheld, ?_⟩
  intro hnothing hsilent
  rw [hheld]
  have hfirst : s.rivals n.id (⟨n.ownDescriptor r₁, height⟩ :: between) =
      [⟨n.ownDescriptor r₁, height⟩] := by
    have hcons : DescriptorStore.offersFor n.id (⟨n.ownDescriptor r₁, height⟩ :: between) =
        ⟨n.ownDescriptor r₁, height⟩ :: DescriptorStore.offersFor n.id between :=
      List.filter_cons_of_pos (decide_eq_true ⟨rfl, hverify r₁⟩)
    rw [DescriptorStore.rivals, hnothing, hcons, hsilent]
    rfl
  have hdiffer : CachedDescriptor.mk (n.ownDescriptor r₁) height ≠
      ⟨n.ownDescriptor r₂, height⟩ := by
    intro h
    exact hne (congrArg (fun c => c.descriptor.reach) h)
  rw [hfirst, List.argmax_singleton, ← ownDescriptor_rank_lt_iff n r₁ r₂ height]
  constructor
  · intro h
    exact (h _ rfl).resolve_left hdiffer
  · intro h best hbest
    obtain rfl := Option.some.inj hbest
    exact Or.inr h

end Node

/-- A reach list with one address. -/
def sampleReach (port : UInt16) : ReachList :=
  [.direct (.v4 (Bytes.replicate 4 10) port)]

/-- A node that publishes an empty list and then an address: the store keeps
the empty list, and does not hold the address. -/
theorem address_never_arrives :
    ([] : ReachList) ≠ sampleReach 1 ∧
      (@Node.republished checksumCrypto (Node.sample 1) (Node.sample 1) [] (sampleReach 1)
          none .new []).get (Node.sample 1).id =
        some ⟨@Node.ownDescriptor checksumCrypto (Node.sample 1) [], none⟩ ∧
      (@Node.republished checksumCrypto (Node.sample 1) (Node.sample 1) [] (sampleReach 1)
          none .new []).get (Node.sample 1).id ≠
        some ⟨@Node.ownDescriptor checksumCrypto (Node.sample 1) (sampleReach 1), none⟩ := by
  decide +kernel

/-- In the other order the later publication is held. -/
theorem empty_list_arrives :
    (@Node.republished checksumCrypto (Node.sample 1) (Node.sample 1) (sampleReach 1) [] none
        .new []).get (Node.sample 1).id =
      some ⟨@Node.ownDescriptor checksumCrypto (Node.sample 1) [], none⟩ :=
  ((@Node.latest_publication_held_iff checksumCrypto checksumCrypto_sound (Bytes.replicate 32 1)
    ⟨8, 0⟩ (Node.sample 1) (Node.sample 1) [] [] .nil .nil (sampleReach 1) []
    (by decide) none .new []).2 rfl rfl).mpr (by decide +kernel)

end Zona
