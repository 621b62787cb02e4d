import Zona.DescriptorStores
import Mathlib.Data.List.MinMax

/-!
# Convergence of the descriptor store

Starting empty, a store holds for every peer the best of the verified updates
it was given: `get_upsertAll` says that it computes their maximum under the
rank of the preference, the earliest one among equals.  The maximum depends on
which updates occur, so stores that were given the same ones hold records of
the same rank; and records of one rank have the same signed fields, unless the
content hash collides.
-/

namespace Zona

namespace DescriptorStore

variable [Crypto]

/-- Push an incoming descriptor into the local store. -/
def pushDescriptor (s : DescriptorStore) (d : Descriptor) (height : Option UInt64) :
    Except ProtocolError Bool × DescriptorStore :=
  match s.upsert d height with
  | (.error e, store) => (.error e, store)
  | (.ok updated, store) => (.ok updated, store)

/-- The store after a list of updates. -/
def upsertAll (s : DescriptorStore) (updates : List CachedDescriptor) : DescriptorStore :=
  updates.foldl (fun s u => (s.upsert u.descriptor u.finalisedHeight).2) s

/-- The updates that concern a peer: verified and under its identifier. -/
def offersFor (id : NodeId) (updates : List CachedDescriptor) : List CachedDescriptor :=
  updates.filter fun u => u.descriptor.nodeId = id ∧ verifyDescriptor u.descriptor = .ok ()

/-- A push is an update, as far as the store is concerned. -/
theorem pushDescriptor_snd (s : DescriptorStore) (d : Descriptor) (height : Option UInt64) :
    (s.pushDescriptor d height).2 = (s.upsert d height).2 := by
  unfold pushDescriptor
  rcases s.upsert d height with ⟨verdict, store⟩
  cases verdict <;> rfl

theorem get_upsert (s : DescriptorStore) (u : CachedDescriptor) (id : NodeId) :
    (s.upsert u.descriptor u.finalisedHeight).2.get id =
      if u.descriptor.nodeId = id ∧ verifyDescriptor u.descriptor = .ok () ∧ s.wins u = true then
        some u
      else s.get id := by
  rcases upsert_cases s u.descriptor u.finalisedHeight with
    ⟨hrefused, hsame⟩ | ⟨hverify, hwins, hrun⟩
  · have hidle : ¬ (u.descriptor.nodeId = id ∧ verifyDescriptor u.descriptor = .ok () ∧
        s.wins u = true) := by
      rintro ⟨_, hverify, hwins⟩
      apply hrefused
      rw [upsert, hverify]
      dsimp only
      rw [if_pos hwins]
    rw [hsame, if_neg hidle]
  · rw [hrun]
    by_cases hid : u.descriptor.nodeId = id
    · subst hid
      rw [if_pos ⟨rfl, hverify, hwins⟩, get]
      exact HashMap.lookup_put_self
    · rw [if_neg (fun h => hid h.1), get]
      exact HashMap.lookup_put_of_ne (Ne.symm hid)

/-- **The store computes a maximum.**  For every peer it ends up with the best
of what it held and of the offers made to it. -/
theorem get_upsertAll_from (s : DescriptorStore) (updates : List CachedDescriptor) (id : NodeId) :
    (s.upsertAll updates).get id =
      ((s.get id).toList ++ offersFor id updates).argmax CachedDescriptor.rank := by
  induction updates using List.reverseRecOn with
  | nil =>
      have hnone : offersFor id [] = [] := rfl
      rw [hnone, List.append_nil]
      cases hheld : s.get id with
      | none => exact hheld
      | some held => exact hheld
  | append_singleton updates u ih =>
      have hsplit : s.upsertAll (updates ++ [u]) =
          ((s.upsertAll updates).upsert u.descriptor u.finalisedHeight).2 := by
        rw [upsertAll, List.foldl_append]
        rfl
      have hoffers : offersFor id (updates ++ [u]) =
          offersFor id updates ++ offersFor id [u] := List.filter_append _ _
      rw [hsplit, get_upsert, hoffers, ← List.append_assoc]
      by_cases hoffer : u.descriptor.nodeId = id ∧ verifyDescriptor u.descriptor = .ok ()
      · have hone : offersFor id [u] = [u] := List.filter_cons_of_pos (decide_eq_true hoffer)
        rw [hone, List.argmax_concat, ← ih]
        have hwins : (s.upsertAll updates).wins u = true ↔
            ∀ c, (s.upsertAll updates).get u.descriptor.nodeId = some c → c.rank < u.rank :=
          wins_iff
        rw [hoffer.1] at hwins
        cases hheld : (s.upsertAll updates).get id with
        | none =>
            rw [hheld] at hwins
            rw [if_pos ⟨hoffer.1, hoffer.2, hwins.mpr (fun c h => by cases h)⟩]
        | some held =>
            rw [hheld] at hwins
            by_cases hbetter : held.rank < u.rank
            · have hwon : (s.upsertAll updates).wins u = true := by
                apply hwins.mpr
                intro c hc
                obtain rfl := Option.some.inj hc
                exact hbetter
              rw [if_pos ⟨hoffer.1, hoffer.2, hwon⟩]
              exact (if_pos hbetter).symm
            · rw [if_neg (fun h => hbetter (hwins.mp h.2.2 held rfl))]
              exact (if_neg hbetter).symm
      · have hnone : offersFor id [u] = [] :=
          List.filter_cons_of_neg fun h => hoffer (of_decide_eq_true h)
        rw [if_neg (fun h => hoffer ⟨h.1, h.2.1⟩), hnone, List.append_nil]
        exact ih

/-- Starting empty, only the offers count: the store has the first of those
with the highest rank. -/
theorem get_upsertAll (updates : List CachedDescriptor) (id : NodeId) :
    (new.upsertAll updates).get id = (offersFor id updates).argmax CachedDescriptor.rank :=
  get_upsertAll_from new updates id

omit [Crypto] in
/-- Different heights have different ranks, and no height is below them all. -/
theorem heightRank_injective : Function.Injective heightRank := by
  intro a b h
  cases a with
  | none =>
      cases b with
      | none => rfl
      | some b => simp [heightRank] at h
  | some a =>
      cases b with
      | none => simp [heightRank] at h
      | some b =>
          have hnat : a.toNat = b.toNat := by simpa [heightRank] using h
          rw [UInt64.toNat_inj.mp hnat]

/-- What the owner signed of a record, and the height it was finalised at. -/
def signedRecord (c : CachedDescriptor) : SignedFields × Option UInt64 :=
  (c.descriptor.signedFields, c.finalisedHeight)

/-- The content hash separates the signing payloads of the updates. -/
def CollisionFree (updates : List CachedDescriptor) : Prop :=
  ∀ u ∈ updates, ∀ v ∈ updates, contentHash u.descriptor = contentHash v.descriptor →
    u.descriptor.signingPayload = v.descriptor.signingPayload

/-- Records of one rank were signed over the same fields. -/
theorem signedRecord_of_rank_eq {updates : List CachedDescriptor} (h : CollisionFree updates)
    {u v : CachedDescriptor} (hu : u ∈ updates) (hv : v ∈ updates) (hrank : u.rank = v.rank) :
    signedRecord u = signedRecord v := by
  have hparts := Prod.ext_iff.mp (congrArg ofLex hrank)
  have hheight : u.finalisedHeight = v.finalisedHeight := heightRank_injective hparts.1
  have hcontent : contentHash u.descriptor = contentHash v.descriptor :=
    (Prod.ext_iff.mp (congrArg ofLex hparts.2)).2
  unfold signedRecord
  rw [hheight, Descriptor.signedFields_of_payload (h u hu v hv hcontent)]

/-- A greatest offer: it is one of them, and none ranks above it. -/
def IsBestOffer (id : NodeId) (updates : List CachedDescriptor) (c : CachedDescriptor) : Prop :=
  c ∈ offersFor id updates ∧ ∀ u ∈ offersFor id updates, u.rank ≤ c.rank

/-- What the store has after some updates is a best offer among them. -/
theorem isBestOffer_of_get {updates : List CachedDescriptor} {id : NodeId} {c : CachedDescriptor}
    (h : (new.upsertAll updates).get id = some c) : IsBestOffer id updates c := by
  rw [get_upsertAll] at h
  exact ⟨List.argmax_mem h, fun u hu => List.le_of_mem_argmax hu h⟩

/-- The offers of two lists with the same updates are the same. -/
theorem mem_offersFor_congr {updates arrivals : List CachedDescriptor}
    (hsame : ∀ u, u ∈ arrivals ↔ u ∈ updates) (id : NodeId) (u : CachedDescriptor) :
    u ∈ offersFor id arrivals ↔ u ∈ offersFor id updates := by
  unfold offersFor
  rw [List.mem_filter, List.mem_filter, hsame u]

/-- Being a best offer does not depend on the order or the number of the
updates. -/
theorem IsBestOffer.congr {updates arrivals : List CachedDescriptor}
    (hsame : ∀ u, u ∈ arrivals ↔ u ∈ updates) {id : NodeId} {c : CachedDescriptor}
    (h : IsBestOffer id arrivals c) : IsBestOffer id updates c := by
  refine ⟨(mem_offersFor_congr hsame id c).mp h.1, ?_⟩
  intro u hu
  exact h.2 u ((mem_offersFor_congr hsame id u).mpr hu)

theorem IsBestOffer.signedRecord_eq {updates : List CachedDescriptor} (h : CollisionFree updates)
    {id : NodeId} {c c' : CachedDescriptor} (hc : IsBestOffer id updates c)
    (hc' : IsBestOffer id updates c') : signedRecord c = signedRecord c' :=
  signedRecord_of_rank_eq h (List.mem_filter.mp hc.1).1 (List.mem_filter.mp hc'.1).1
    (le_antisymm (hc'.2 c hc.1) (hc.2 c' hc'.1))

/-- The store has nothing exactly if there was no valid offer. -/
theorem get_upsertAll_eq_none {updates : List CachedDescriptor} {id : NodeId} :
    (new.upsertAll updates).get id = none ↔ offersFor id updates = [] := by
  rw [get_upsertAll, List.argmax_eq_none]

/-- Updates only improve the store, however many of them there are. -/
theorem upsertAll_improves (s : DescriptorStore) (updates : List CachedDescriptor) :
    s.Improves (s.upsertAll updates) := by
  induction updates generalizing s with
  | nil => exact improves_refl s
  | cons u rest ih => exact (upsert_improves s u.descriptor u.finalisedHeight).trans (ih _)

/-- A record of at least the rank has at least the height, and at the same
height at least the version. -/
theorem height_version_of_rank_le {c c' : CachedDescriptor} (h : c.rank ≤ c'.rank) :
    heightRank c.finalisedHeight ≤ heightRank c'.finalisedHeight ∧
      (c.finalisedHeight = c'.finalisedHeight → c.descriptor.version ≤ c'.descriptor.version) := by
  rcases Prod.Lex.toLex_le_toLex.mp h with hlower | ⟨hsame, hrest⟩
  · refine ⟨le_of_lt hlower, ?_⟩
    intro heq
    rw [heq] at hlower
    exact (lt_irrefl _ hlower).elim
  · refine ⟨le_of_eq hsame, fun _ => ?_⟩
    rcases Prod.Lex.toLex_le_toLex.mp hrest with hversion | ⟨hversion, _⟩
    · exact UInt64.le_iff_toNat_le.mpr (le_of_lt hversion)
    · exact UInt64.le_iff_toNat_le.mpr (le_of_eq hversion)

/-- A gossip copy, which carries no height, leaves a finalised record alone. -/
theorem pushDescriptor_of_finalised {s : DescriptorStore} {d : Descriptor} {c : CachedDescriptor}
    (hget : s.get d.nodeId = some c) (hfinal : c.finalisedHeight ≠ none) :
    (s.pushDescriptor d none).2 = s := by
  rw [pushDescriptor_snd]
  rcases upsert_cases s d none with ⟨_, hsame⟩ | ⟨_, hwins, _⟩
  · exact hsame
  · have hheight := (height_version_of_rank_le (le_of_lt (wins_iff.mp hwins c hget))).1
    have hnone : c.finalisedHeight = none := by
      apply heightRank_injective
      exact Nat.le_zero.mp hheight
    exact (hfinal hnone).elim

/-- **Convergence.**  Whatever the order in which a list of updates arrives, and
however often each of them does, the store ends up with the same signed fields
and the same finalised height for every peer: those of the greatest verified
update.  Later updates never lower the height, nor the version at one height,
and a gossip copy never touches a finalised record. -/
theorem upsertAll_converges (updates arrivals : List CachedDescriptor)
    (hsame : ∀ u, u ∈ arrivals ↔ u ∈ updates) (hfree : CollisionFree updates) (id : NodeId) :
    ((new.upsertAll arrivals).get id = none ↔ offersFor id updates = []) ∧
      (∀ c, (new.upsertAll arrivals).get id = some c → IsBestOffer id updates c ∧
        ∀ best, IsBestOffer id updates best → signedRecord c = signedRecord best) ∧
      ((new.upsertAll arrivals).get id).map signedRecord =
        ((new.upsertAll updates).get id).map signedRecord ∧
      (∀ c later, (new.upsertAll arrivals).get id = some c →
        ∃ c', (new.upsertAll (arrivals ++ later)).get id = some c' ∧
          heightRank c.finalisedHeight ≤ heightRank c'.finalisedHeight ∧
          (c.finalisedHeight = c'.finalisedHeight →
            c.descriptor.version ≤ c'.descriptor.version)) ∧
      ∀ c d, (new.upsertAll arrivals).get id = some c → c.finalisedHeight ≠ none →
        d.nodeId = id →
          ((new.upsertAll arrivals).pushDescriptor d none).2 = new.upsertAll arrivals := by
  have hnone : ∀ list : List CachedDescriptor, (∀ u, u ∈ list ↔ u ∈ updates) →
      ((new.upsertAll list).get id = none ↔ offersFor id updates = []) := by
    intro list hlist
    rw [get_upsertAll_eq_none, List.eq_nil_iff_forall_not_mem, List.eq_nil_iff_forall_not_mem]
    simp only [mem_offersFor_congr hlist id]
  have hbest : ∀ c, (new.upsertAll arrivals).get id = some c → IsBestOffer id updates c :=
    fun c hget => (isBestOffer_of_get hget).congr hsame
  refine ⟨hnone arrivals hsame, ?_, ?_, ?_, ?_⟩
  · intro c hget
    exact ⟨hbest c hget, fun best h => (hbest c hget).signedRecord_eq hfree h⟩
  · cases hget : (new.upsertAll arrivals).get id with
    | none =>
        have hempty := (hnone arrivals hsame).mp hget
        rw [(hnone updates fun _ => Iff.rfl).mpr hempty]
    | some c =>
        cases hget' : (new.upsertAll updates).get id with
        | none =>
            have hempty := (hnone updates fun _ => Iff.rfl).mp hget'
            rw [(hnone arrivals hsame).mpr hempty] at hget
            cases hget
        | some c' =>
            exact congrArg some ((hbest c hget).signedRecord_eq hfree (isBestOffer_of_get hget'))
  · intro c later hget
    have hsplit : new.upsertAll (arrivals ++ later) =
        (new.upsertAll arrivals).upsertAll later := List.foldl_append
    obtain ⟨c', hget', hrank⟩ := upsertAll_improves (new.upsertAll arrivals) later id c hget
    rw [hsplit]
    exact ⟨c', hget', height_version_of_rank_le hrank⟩
  · intro c d hget hfinal hid
    subst hid
    exact pushDescriptor_of_finalised hget hfinal

end DescriptorStore

/-- A descriptor of the key that repeats the byte `k`, signed with it. -/
def sampleDescriptor (k : UInt8) (version : UInt64) : Descriptor :=
  @signDescriptor checksumCrypto
    { nodeId := @deriveNodeId checksumCrypto (Bytes.replicate 32 k)
      pubkey := Bytes.replicate 32 k
      reach := []
      version := version
      provisional := false
      signature := [] }
    (Bytes.replicate 32 k)

/-- A finalised record and a newer gossip copy of it. -/
def sampleUpdates : List CachedDescriptor :=
  [⟨sampleDescriptor 1 1, some 5⟩, ⟨sampleDescriptor 1 2, none⟩]

/-- In either order the finalised record stays, as a height outranks a newer
version without one. -/
theorem sample_updates_converge :
    ((@DescriptorStore.upsertAll checksumCrypto .new sampleUpdates.reverse).get
        (sampleDescriptor 1 1).nodeId).map DescriptorStore.signedRecord =
      ((@DescriptorStore.upsertAll checksumCrypto .new sampleUpdates).get
        (sampleDescriptor 1 1).nodeId).map DescriptorStore.signedRecord :=
  (@DescriptorStore.upsertAll_converges checksumCrypto sampleUpdates sampleUpdates.reverse
    (fun _ => List.mem_reverse)
    (by unfold DescriptorStore.CollisionFree; decide +kernel) (sampleDescriptor 1 1).nodeId).2.2.1

end Zona
