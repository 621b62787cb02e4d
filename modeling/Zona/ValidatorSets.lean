import Zona.CheckedArithmetic
import Zona.NodeIdentity
import Zona.WeightedQuorum

/-!
# Validator sets

`ValidatorSet` is the weighted committee of an epoch.  Its `setHash` is a
stored field next to the entries it summarises; only the constructor `new`
computes it.  `verifyQuorum` walks a list of signatures, counts every signer
once, and compares the weight found with the threshold `⌊2·total/3⌋ + 1`.

The weights are `u64` values added on `u64`.  `verifyQuorum_ok` is the
specification of a successful walk when the total fits: every listed signer
is a member whose signature verifies, and their exact weight reaches the
exact threshold.
-/

namespace Zona

/-- Why the consensus layer refuses something. -/
inductive BftError
  | invalidSignature (nodeId : String)
  | unknownValidator (nodeId : String)
  | insufficientQuorum (accumulated required : UInt64)
  | epochMismatch (certEpoch setEpoch : UInt64)
  | validatorSetHashMismatch (expected got : Bytes 32)
  | nonConsecutiveEpoch (expected got : UInt64)
  | noNextEpochCommitment
  | finalityPaused
  deriving DecidableEq

/-- A single entry in the validator set. -/
structure ValidatorEntry where
  nodeId : NodeId
  pubkey : Bytes 32
  weight : UInt64
  deriving DecidableEq

/-- The complete validator set for an epoch. -/
structure ValidatorSet where
  epoch : UInt64
  entries : List ValidatorEntry
  setHash : Bytes 32
  deriving DecidableEq

/-- The bincode layout of an entry. -/
def ValidatorEntry.encode : Bincode.Encoder ValidatorEntry := fun e =>
  Bincode.array e.nodeId.bytes ++ (Bincode.array e.pubkey ++ Bincode.u64 e.weight)

/-- The bytes that `computeSetHash` hashes: the pair of epoch and entries. -/
def setPayload (epoch : UInt64) (entries : List ValidatorEntry) : List UInt8 :=
  Bincode.u64 epoch ++ Bincode.seq ValidatorEntry.encode entries

/-- Entries are self-delimiting, so the bytes that are hashed determine the
list of members. -/
theorem ValidatorEntry.encode_selfDelimiting :
    Bincode.SelfDelimiting ValidatorEntry.encode Set.univ := by
  have hfields := (Bincode.array_selfDelimiting (n := 32)).prod
    ((Bincode.array_selfDelimiting (n := 32)).prod Bincode.u64_selfDelimiting)
  have hinj : Function.Injective
      (fun e : ValidatorEntry => (e.nodeId.bytes, e.pubkey, e.weight)) := by
    rintro ⟨⟨id⟩, pk, w⟩ ⟨⟨id'⟩, pk', w'⟩ h
    simp only [Prod.mk.injEq] at h
    obtain ⟨rfl, rfl, rfl⟩ := h
    rfl
  intro x _ y _ r t h
  exact hfields.comap hinj x (by simp) y (by simp) r t h

/-- The hashed bytes determine the epoch and the entries. -/
theorem setPayload_inj {epoch epoch' : UInt64} {entries entries' : List ValidatorEntry}
    (hlen : entries.length < 2 ^ 64) (hlen' : entries'.length < 2 ^ 64)
    (h : setPayload epoch entries = setPayload epoch' entries') :
    epoch = epoch' ∧ entries = entries' := by
  have hpair := Bincode.u64_selfDelimiting.prod
    (Bincode.seq_selfDelimiting ValidatorEntry.encode_selfDelimiting)
  have hmem : (epoch, entries) ∈ Set.univ ×ˢ {xs : List ValidatorEntry | xs.length < 2 ^ 64} :=
    ⟨trivial, hlen⟩
  have hmem' : (epoch', entries') ∈ Set.univ ×ˢ {xs : List ValidatorEntry | xs.length < 2 ^ 64} :=
    ⟨trivial, hlen'⟩
  simpa using hpair.injOn hmem hmem' h

namespace ValidatorSet

/-- The sum of the weights, on `u64`. -/
def totalWeight (b : Build) (vs : ValidatorSet) : Outcome BftError UInt64 :=
  sumU64 b (vs.entries.map ValidatorEntry.weight)

/-- Quorum threshold: `⌊2·total / 3⌋ + 1`, on `u64`. -/
def quorumThreshold (b : Build) (vs : ValidatorSet) : Outcome BftError UInt64 := do
  let total ← vs.totalWeight b
  let doubled ← mulU64 b 2 total
  addU64 b (doubled / 3) 1

/-- Look up a validator: the first entry with the identifier. -/
def get (vs : ValidatorSet) (nodeId : NodeId) : Option ValidatorEntry :=
  vs.entries.find? (fun e => e.nodeId = nodeId)

/-- The total weight as an exact integer. -/
def exactWeight (vs : ValidatorSet) : Nat :=
  WeightedQuorum.totalWeight (fun e => e.weight.toNat) vs.entries

/-- The exact weight of a set of identifiers, each counted once with the
weight that `get` finds. -/
def weightOf (vs : ValidatorSet) (ids : Finset NodeId) : Nat :=
  ∑ id ∈ ids, ((vs.get id).map (fun e => e.weight.toNat)).getD 0

/-- The weight of some members is that of their keys in the list of entries,
which the library on quorums is about. -/
theorem weightOf_eq (vs : ValidatorSet) (ids : Finset NodeId) :
    vs.weightOf ids = WeightedQuorum.keysWeight ValidatorEntry.nodeId
      (fun e => e.weight.toNat) vs.entries ids :=
  rfl

theorem weightOf_le (vs : ValidatorSet) (ids : Finset NodeId) :
    vs.weightOf ids ≤ vs.exactWeight :=
  WeightedQuorum.sum_keyWeight_le _ _ _ ids

/-- One more member adds the weight of its first entry, the one that the source
finds. -/
theorem weightOf_insert {vs : ValidatorSet} {ids : Finset NodeId} {id : NodeId}
    {entry : ValidatorEntry} (hid : id ∉ ids) (hget : vs.get id = some entry) :
    vs.weightOf (insert id ids) = entry.weight.toNat + vs.weightOf ids := by
  simp [weightOf, Finset.sum_insert hid, hget]

/-- When the doubled total fits, the threshold is exact in both profiles. -/
theorem quorumThreshold_of_doubled_lt {b : Build} {vs : ValidatorSet}
    (h : 2 * vs.exactWeight < 2 ^ 64) :
    ∃ threshold, vs.quorumThreshold b = .ok threshold ∧
      threshold.toNat = 2 * vs.exactWeight / 3 + 1 := by
  have hsum : ((vs.entries.map ValidatorEntry.weight).map UInt64.toNat).sum
      = vs.exactWeight := by
    simp [exactWeight, WeightedQuorum.totalWeight, List.map_map, Function.comp_def]
  obtain ⟨total, htotal, htotalNat⟩ :=
    sumU64_of_lt (E := BftError) (b := b) (vs.entries.map ValidatorEntry.weight) (by omega)
  rw [hsum] at htotalNat
  have htwo : (2 : UInt64).toNat * total.toNat < 2 ^ 64 := by
    simp only [UInt64.reduceToNat]
    omega
  have hdoubled := toNat_mul_of_lt htwo
  have hthird : ((2 * total) / 3 : UInt64).toNat = 2 * vs.exactWeight / 3 := by
    rw [UInt64.toNat_div, hdoubled, htotalNat]
    rfl
  have hone : ((2 * total) / 3 : UInt64).toNat + (1 : UInt64).toNat < 2 ^ 64 := by
    rw [hthird]
    simp only [UInt64.reduceToNat]
    omega
  refine ⟨(2 * total) / 3 + 1, ?_, ?_⟩
  · simp [quorumThreshold, totalWeight, htotal, mulU64_of_lt htwo, addU64_of_lt hone]
  · rw [toNat_add_of_lt hone, hthird]
    rfl

/-- When the exact total fits with room for the doubling, the threshold is
exact in both profiles. -/
theorem quorumThreshold_of_lt {b : Build} {vs : ValidatorSet}
    (h : 2 * vs.exactWeight + 3 < 2 ^ 64) :
    ∃ threshold, vs.quorumThreshold b = .ok threshold ∧
      threshold.toNat = 2 * vs.exactWeight / 3 + 1 :=
  quorumThreshold_of_doubled_lt (by omega)

/-- The weights of the set are counted exactly: a debug build panics where they
do not fit, and in a release build they fit with room for the doubling. -/
def CountsExactly (b : Build) (vs : ValidatorSet) : Prop :=
  b = .debug ∨ 2 * vs.exactWeight + 3 < 2 ^ 64

/-- Then a threshold that is returned is the exact one. -/
theorem CountsExactly.threshold {b : Build} {vs : ValidatorSet} (h : vs.CountsExactly b)
    {threshold : UInt64} (hok : vs.quorumThreshold b = .ok threshold) :
    threshold.toNat = 2 * vs.exactWeight / 3 + 1 ∧ vs.exactWeight < 2 ^ 64 := by
  rcases h with hdebug | hfit
  · subst hdebug
    have hsum : ((vs.entries.map ValidatorEntry.weight).map UInt64.toNat).sum
        = vs.exactWeight := by
      simp [exactWeight, WeightedQuorum.totalWeight, List.map_map, Function.comp_def]
    obtain ⟨total, htotal, hrest⟩ := Outcome.bind_eq_ok.mp hok
    obtain ⟨doubled, hdoubled, hadd⟩ := Outcome.bind_eq_ok.mp hrest
    have htotalNat : total.toNat = vs.exactWeight := by
      rw [← hsum]
      exact toNat_of_sumU64_debug htotal
    have hdoubledNat : doubled.toNat = 2 * vs.exactWeight := by
      rw [toNat_of_mulU64_debug hdoubled, htotalNat]
      rfl
    have hthreshold : threshold.toNat = doubled.toNat / 3 + 1 := by
      rw [toNat_of_addU64_debug hadd, UInt64.toNat_div]
      rfl
    have hfit := UInt64.toNat_lt total
    rw [hthreshold, hdoubledNat]
    exact ⟨rfl, by omega⟩
  · obtain ⟨required, hrequired, hexact⟩ := quorumThreshold_of_lt (b := b) hfit
    obtain rfl : required = threshold := by
      simpa using hrequired.symm.trans hok
    exact ⟨hexact, by omega⟩

variable [Crypto]

/-- The hash of an epoch and its entries. -/
def computeSetHash (epoch : UInt64) (entries : List ValidatorEntry) : Bytes 32 :=
  Crypto.sha256 (setPayload epoch entries)

/-- Build a `ValidatorSet` from entries, computing `setHash`. -/
def new (epoch : UInt64) (entries : List ValidatorEntry) : ValidatorSet where
  epoch := epoch
  entries := entries
  setHash := computeSetHash epoch entries

/-- The loop over the signatures, with the accumulated weight and the signers
already seen. -/
def verifySignatures (b : Build) (vs : ValidatorSet) (message : List UInt8) :
    List (NodeId × List UInt8) → UInt64 → Finset NodeId → Outcome BftError UInt64
  | [], weightAccumulated, _ => .ok weightAccumulated
  | (signerId, sigBytes) :: rest, weightAccumulated, seen =>
      if signerId ∈ seen then verifySignatures b vs message rest weightAccumulated seen
      else do
        let entry ← Outcome.ofOption (.unknownValidator signerId.display) (vs.get signerId)
        if signatureValid entry.pubkey message sigBytes then
          let next ← addU64 b weightAccumulated entry.weight
          verifySignatures b vs message rest next (insert signerId seen)
        else .err (.invalidSignature signerId.display)

/-- Verify that the signatures form a quorum over `message`. -/
def verifyQuorum (b : Build) (vs : ValidatorSet) (message : List UInt8)
    (signatures : List (NodeId × List UInt8)) : Outcome BftError Unit := do
  let weightAccumulated ← verifySignatures b vs message signatures 0 ∅
  let required ← vs.quorumThreshold b
  if weightAccumulated < required then
    .err (.insufficientQuorum weightAccumulated required)
  else .ok ()

/-- `id` is a member that signed `message` in the list `signatures`. -/
def SignedBy (vs : ValidatorSet) (message : List UInt8)
    (signatures : List (NodeId × List UInt8)) (id : NodeId) : Prop :=
  ∃ entry sig, vs.get id = some entry ∧ (id, sig) ∈ signatures ∧
    signatureValid entry.pubkey message sig = true

/-- The distinct identifiers of a signature list. -/
def signers (signatures : List (NodeId × List UInt8)) : Finset NodeId :=
  (signatures.map Prod.fst).toFinset

/-- One signature the loop accepts: its signer is new, a member, and the
signature verifies. -/
theorem verifySignatures_cons_ok {b : Build} {vs : ValidatorSet}
    {message sig : List UInt8} {id : NodeId} {rest : List (NodeId × List UInt8)}
    {acc total : UInt64} {seen : Finset NodeId} (hid : id ∉ seen)
    (h : vs.verifySignatures b message ((id, sig) :: rest) acc seen = .ok total) :
    ∃ entry next, vs.get id = some entry ∧
      signatureValid entry.pubkey message sig = true ∧
      addU64 (E := BftError) b acc entry.weight = .ok next ∧
      vs.verifySignatures b message rest next (insert id seen) = .ok total := by
  simp only [verifySignatures, if_neg hid] at h
  obtain ⟨entry, hget, h⟩ := Outcome.bind_eq_ok.mp h
  split at h
  · rename_i hvalid
    obtain ⟨next, hnext, hrest⟩ := Outcome.bind_eq_ok.mp h
    exact ⟨entry, next, Outcome.ofOption_eq_ok.mp hget, hvalid, hnext, hrest⟩
  · simp at h

/-- **What a successful walk over the signatures has established**, given that
the total weight of the set fits in a `u64`. -/
theorem verifySignatures_ok {b : Build} {vs : ValidatorSet} {message : List UInt8}
    (hfit : vs.exactWeight < 2 ^ 64) {signatures : List (NodeId × List UInt8)}
    {acc total : UInt64} {seen : Finset NodeId} (hacc : acc.toNat = vs.weightOf seen)
    (h : vs.verifySignatures b message signatures acc seen = .ok total) :
    total.toNat = vs.weightOf (seen ∪ signers signatures) ∧
      ∀ id ∈ signers signatures, id ∉ seen → vs.SignedBy message signatures id := by
  induction signatures generalizing acc seen with
  | nil =>
      obtain rfl : acc = total := by simpa [verifySignatures] using h
      exact ⟨by simpa [signers] using hacc, by simp [signers]⟩
  | cons pair rest ih =>
      obtain ⟨id, sig⟩ := pair
      have hsigners : signers ((id, sig) :: rest) = insert id (signers rest) := by
        simp [signers]
      have hweaken : ∀ k, vs.SignedBy message rest k →
          vs.SignedBy message ((id, sig) :: rest) k := by
        rintro k ⟨entry, s, hget, hmem, hvalid⟩
        exact ⟨entry, s, hget, List.mem_cons_of_mem _ hmem, hvalid⟩
      by_cases hid : id ∈ seen
      · have hrest : vs.verifySignatures b message rest acc seen = .ok total := by
          simpa only [verifySignatures, if_pos hid] using h
        obtain ⟨htotal, hsigned⟩ := ih hacc hrest
        refine ⟨?_, ?_⟩
        · rw [htotal, hsigners, Finset.union_insert, Finset.insert_eq_of_mem
            (Finset.mem_union_left _ hid)]
        · intro k hk hseen
          rw [hsigners, Finset.mem_insert] at hk
          rcases hk with rfl | hk
          · exact (hseen hid).elim
          · exact hweaken k (hsigned k hk hseen)
      · obtain ⟨entry, next, hget, hvalid, hadd, hrest⟩ :=
          verifySignatures_cons_ok hid h
        have hinsert := weightOf_insert hid hget
        have hle := vs.weightOf_le (insert id seen)
        have hnext : next.toNat = vs.weightOf (insert id seen) := by
          rw [addU64_eq_ok hadd, toNat_add_of_lt (by omega)]
          omega
        obtain ⟨htotal, hsigned⟩ := ih hnext hrest
        refine ⟨?_, ?_⟩
        · rw [htotal, hsigners, Finset.union_insert, Finset.insert_union]
        · intro k hk hseen
          rw [hsigners, Finset.mem_insert] at hk
          by_cases hkid : k = id
          · subst hkid
            exact ⟨entry, sig, hget, List.mem_cons_self, hvalid⟩
          · exact hweaken k (hsigned k (hk.resolve_left hkid) (by simp [hkid, hseen]))

/-- **Specification of a verified quorum.**  The listed signers are members
whose signatures verify, and their exact weight reaches the exact threshold. -/
theorem verifyQuorum_ok {b : Build} {vs : ValidatorSet} {message : List UInt8}
    {signatures : List (NodeId × List UInt8)}
    (hexact : vs.CountsExactly b)
    (h : vs.verifyQuorum b message signatures = .ok ()) :
    2 * vs.exactWeight / 3 + 1 ≤ vs.weightOf (signers signatures) ∧
      ∀ id ∈ signers signatures, vs.SignedBy message signatures id := by
  obtain ⟨total, hwalk, h⟩ := Outcome.bind_eq_ok.mp h
  obtain ⟨required, hrequired, h⟩ := Outcome.bind_eq_ok.mp h
  obtain ⟨hthreshold, hfit⟩ := hexact.threshold hrequired
  obtain ⟨htotal, hsigned⟩ :=
    verifySignatures_ok hfit (by simp [weightOf]) hwalk
  rw [Finset.empty_union] at htotal
  have hreached : ¬ total < required := by
    intro hlt
    simp [hlt] at h
  rw [UInt64.lt_iff_toNat_lt] at hreached
  exact ⟨by omega, fun id hid => hsigned id hid (by simp)⟩

end ValidatorSet

end Zona
