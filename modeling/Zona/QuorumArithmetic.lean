import Zona.Certificates

/-!
# The arithmetic of quorums

A quorum is meant to be more than two thirds of the total weight.  Three
computations on `u64` decide whether it is one: the sum over the entries, the
doubling of the total, and the weight accumulated over the signers.  The code
bounds neither the weights nor their number.

`quorum_arithmetic_iff` says that all three are exact, and an accepted quorum
is one, exactly when the doubled total fits.
-/

namespace Zona

namespace ValidatorSet

/-- The sum over the entries is exact when it fits. -/
theorem totalWeight_of_lt {b : Build} {vs : ValidatorSet} (h : vs.exactWeight < 2 ^ 64) :
    ∃ total, vs.totalWeight b = .ok total ∧ total.toNat = vs.exactWeight := by
  have hsum : ((vs.entries.map ValidatorEntry.weight).map UInt64.toNat).sum
      = vs.exactWeight := by
    simp [exactWeight, WeightedQuorum.totalWeight, List.map_map, Function.comp_def]
  obtain ⟨total, htotal, hnat⟩ :=
    sumU64_of_lt (E := BftError) (b := b) (vs.entries.map ValidatorEntry.weight) (by omega)
  exact ⟨total, htotal, hnat.trans hsum⟩

/-- A threshold that is exact was not computed from a doubled total that
wrapped around: such a one is even, and too small. -/
theorem doubled_lt_of_threshold {b : Build} {vs : ValidatorSet} {threshold : UInt64}
    (h : vs.quorumThreshold b = .ok threshold)
    (hexact : threshold.toNat = 2 * vs.exactWeight / 3 + 1) : 2 * vs.exactWeight < 2 ^ 64 := by
  obtain ⟨total, htotal, hrest⟩ := Outcome.bind_eq_ok.mp h
  obtain ⟨doubled, hdoubled, hadd⟩ := Outcome.bind_eq_ok.mp hrest
  have heven : doubled.toNat = 2 * total.toNat % 2 ^ 64 := by
    have hmul : doubled = 2 * total := by
      unfold mulU64 at hdoubled
      split at hdoubled
      · simpa using hdoubled.symm
      · cases b with
        | debug => cases hdoubled
        | release => simpa using hdoubled.symm
    rw [hmul, UInt64.toNat_mul]
    rfl
  have hlt := doubled.toNat_lt
  have hfit : (doubled / 3).toNat + (1 : UInt64).toNat < 2 ^ 64 := by
    rw [UInt64.toNat_div]
    simp only [UInt64.reduceToNat]
    omega
  have hthreshold : threshold.toNat = doubled.toNat / 3 + 1 := by
    rw [addU64_eq_ok hadd, toNat_add_of_lt hfit, UInt64.toNat_div]
    rfl
  omega

variable [Crypto]

/-- The walk over the signatures cannot panic when the total fits. -/
theorem verifySignatures_no_panic {b : Build} {vs : ValidatorSet} {message : List UInt8}
    (hfit : vs.exactWeight < 2 ^ 64) {signatures : List (NodeId × List UInt8)} {acc : UInt64}
    {seen : Finset NodeId} (hacc : acc.toNat = vs.weightOf seen) :
    vs.verifySignatures b message signatures acc seen ≠ .panic := by
  induction signatures generalizing acc seen with
  | nil => exact fun h => by cases h
  | cons pair rest ih =>
      obtain ⟨id, sig⟩ := pair
      rw [verifySignatures]
      by_cases hid : id ∈ seen
      · rw [if_pos hid]
        exact ih hacc
      · rw [if_neg hid]
        cases hget : vs.get id with
        | none => exact fun h => by cases h
        | some entry =>
            have hinsert := weightOf_insert hid hget
            have hle := vs.weightOf_le (insert id seen)
            have hadd : acc.toNat + entry.weight.toNat < 2 ^ 64 := by omega
            rw [Outcome.ofOption, Outcome.ok_bind]
            split
            · rw [addU64_of_lt hadd, Outcome.ok_bind]
              refine ih ?_
              rw [toNat_add_of_lt hadd, hinsert, hacc, Nat.add_comm]
            · exact fun h => by cases h

/-- The quorums of the set are computed exactly: no sum, threshold or
accumulated weight overflows, and what is accepted is more than two thirds. -/
structure ExactQuorums (b : Build) (vs : ValidatorSet) : Prop where
  total : ∃ total, vs.totalWeight b = .ok total ∧ total.toNat = vs.exactWeight
  threshold : ∃ threshold, vs.quorumThreshold b = .ok threshold ∧
    threshold.toNat = 2 * vs.exactWeight / 3 + 1
  accumulated : ∀ message signatures,
    vs.verifySignatures b message signatures 0 ∅ ≠ .panic ∧
      ∀ total, vs.verifySignatures b message signatures 0 ∅ = .ok total →
        total.toNat = vs.weightOf (signers signatures)
  quorum : ∀ message signatures, vs.verifyQuorum b message signatures = .ok () →
    2 * vs.exactWeight < 3 * vs.weightOf (signers signatures)

/-- **Exact quorums.**  The arithmetic of a set is exact exactly when twice its
total weight fits in a `u64`. -/
theorem quorum_arithmetic_iff (b : Build) (vs : ValidatorSet) :
    vs.ExactQuorums b ↔ 2 * vs.exactWeight < 2 ^ 64 := by
  constructor
  · intro h
    obtain ⟨threshold, hthreshold, hexact⟩ := h.threshold
    exact doubled_lt_of_threshold hthreshold hexact
  · intro hdoubled
    have hfit : vs.exactWeight < 2 ^ 64 := by omega
    have hzero : (0 : UInt64).toNat = vs.weightOf ∅ := by simp [weightOf]
    have hwalk : ∀ message signatures total,
        vs.verifySignatures b message signatures 0 ∅ = .ok total →
          total.toNat = vs.weightOf (signers signatures) := by
      intro message signatures total hok
      rw [(verifySignatures_ok hfit hzero hok).1, Finset.empty_union]
    refine ⟨totalWeight_of_lt hfit, quorumThreshold_of_doubled_lt hdoubled,
      fun message signatures => ⟨verifySignatures_no_panic hfit hzero, hwalk message signatures⟩,
      ?_⟩
    intro message signatures hok
    obtain ⟨total, htotal, hrest⟩ := Outcome.bind_eq_ok.mp hok
    obtain ⟨required, hrequired, hcompare⟩ := Outcome.bind_eq_ok.mp hrest
    obtain ⟨threshold, hthreshold, hexact⟩ := quorumThreshold_of_doubled_lt (b := b) hdoubled
    obtain rfl : threshold = required := by simpa using hthreshold.symm.trans hrequired
    have hreached : ¬ total < threshold := by
      intro hlt
      simp [hlt] at hcompare
    rw [UInt64.lt_iff_toNat_lt, hwalk message signatures total htotal, hexact] at hreached
    omega

end ValidatorSet

/-- Two members: one holds all but one part of the weight. -/
def lopsidedSet : ValidatorSet :=
  @ValidatorSet.new checksumCrypto 1 [sampleEntry 1 0x8000000000000000, sampleEntry 2 1]

/-- **A minority of one.**  In a release build the doubled total wraps around to
two, and the member with one part of the weight is a quorum. -/
theorem minority_accepted :
    ¬ ∀ (b : Build) (vs : ValidatorSet), @ValidatorSet.ExactQuorums checksumCrypto b vs := by
  intro h
  have hquorum := (@ValidatorSet.ExactQuorums.quorum checksumCrypto _ _ (h .release lopsidedSet))
    [] [((sampleEntry 2 1).nodeId,
      (@Crypto.sign checksumCrypto (Bytes.replicate 32 2) []).toList)] (by decide +kernel)
  revert hquorum
  decide +kernel

end Zona
