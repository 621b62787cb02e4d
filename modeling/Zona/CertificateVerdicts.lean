import Zona.QuorumArithmetic

/-!
# The verdict on a certificate

The loop of `verifyQuorum` skips a pair whose signer it has seen, before it
looks at the signature.  So it checks the first pair of every signer
(`checked`), and whether a certificate verifies may depend on the order of its
pairs.

`verify_ok_iff` is the exact verdict, and `exactVerdict_iff` compares it with
the documented one, that each signature is valid.  They are the same unless the
signers hold a quorum, each with a valid signature, next to an invalid pair.
-/

namespace Zona

namespace ValidatorSet

/-- The pairs that the loop checks: the first of every signer not yet seen. -/
def checked : List (NodeId × List UInt8) → Finset NodeId → List (NodeId × List UInt8)
  | [], _ => []
  | pair :: rest, seen =>
      if pair.1 ∈ seen then checked rest seen
      else pair :: checked rest (insert pair.1 seen)

/-- The signers of a list are the first one and those of the rest, each counted
once. -/
theorem signers_cons (pair : NodeId × List UInt8) (rest : List (NodeId × List UInt8)) :
    signers (pair :: rest) = insert pair.1 (signers rest) := by
  simp [signers]

/-- Whoever has a pair in the list is a signer. -/
theorem mem_signers {pair : NodeId × List UInt8} {signatures : List (NodeId × List UInt8)}
    (h : pair ∈ signatures) : pair.1 ∈ signers signatures := by
  rw [signers, List.mem_toFinset]
  exact List.mem_map_of_mem h

/-- The set of signers does not depend on the order of the list. -/
theorem signers_perm {signatures signatures' : List (NodeId × List UInt8)}
    (h : signatures'.Perm signatures) : signers signatures' = signers signatures :=
  List.toFinset_eq_of_perm _ _ (h.map Prod.fst)

/-- Pairs that are checked come from the list.  Those of a signer who was seen
before are not checked. -/
theorem mem_of_mem_checked {pair : NodeId × List UInt8}
    {signatures : List (NodeId × List UInt8)} {seen : Finset NodeId}
    (h : pair ∈ checked signatures seen) : pair ∈ signatures := by
  induction signatures generalizing seen with
  | nil => exact h
  | cons first rest ih =>
      rw [checked] at h
      split at h
      · exact List.mem_cons_of_mem first (ih h)
      · rcases List.mem_cons.mp h with rfl | hrest
        · exact List.mem_cons_self
        · exact List.mem_cons_of_mem first (ih hrest)

theorem checked_of_subset {signatures : List (NodeId × List UInt8)} {seen : Finset NodeId}
    (h : signers signatures ⊆ seen) : checked signatures seen = [] := by
  induction signatures with
  | nil => rfl
  | cons first rest ih =>
      rw [signers_cons, Finset.insert_subset_iff] at h
      rw [checked, if_pos h.1]
      exact ih h.2

/-- The checked pairs of two lists in a row: those of the first, and those of
the second whose signers are new by then. -/
theorem checked_append (xs ys : List (NodeId × List UInt8)) (seen : Finset NodeId) :
    checked (xs ++ ys) seen = checked xs seen ++ checked ys (seen ∪ signers xs) := by
  induction xs generalizing seen with
  | nil => simp [checked, signers]
  | cons first rest ih =>
      rw [List.cons_append, checked, checked, signers_cons]
      by_cases hseen : first.1 ∈ seen
      · rw [if_pos hseen, if_pos hseen, ih, Finset.union_insert,
          Finset.insert_eq_of_mem (Finset.mem_union_left _ hseen)]
      · rw [if_neg hseen, if_neg hseen, ih, List.cons_append, Finset.union_insert,
          Finset.insert_union]

variable [Crypto]

/-- The pair names a member and carries a signature of 64 bytes on the message
that verifies under the key of that member. -/
def PairValid (vs : ValidatorSet) (message : List UInt8) (pair : NodeId × List UInt8) : Prop :=
  ∃ entry, vs.get pair.1 = some entry ∧ signatureValid entry.pubkey message pair.2 = true

instance (vs : ValidatorSet) (message : List UInt8) (pair : NodeId × List UInt8) :
    Decidable (vs.PairValid message pair) :=
  decidable_of_iff ((vs.get pair.1).any fun entry => signatureValid entry.pubkey message pair.2)
    (by simp [PairValid, Option.any_eq_true])

/-- A member has signed if some pair of the list is its own and valid, whether
or not the loop gets to see that pair. -/
theorem signedBy_iff {vs : ValidatorSet} {message : List UInt8}
    {signatures : List (NodeId × List UInt8)} {id : NodeId} :
    vs.SignedBy message signatures id ↔
      ∃ pair ∈ signatures, pair.1 = id ∧ vs.PairValid message pair := by
  constructor
  · rintro ⟨entry, sig, hget, hmem, hvalid⟩
    exact ⟨(id, sig), hmem, rfl, entry, hget, hvalid⟩
  · rintro ⟨⟨_, sig⟩, hmem, rfl, entry, hget, hvalid⟩
    exact ⟨entry, sig, hget, hmem, hvalid⟩

/-- The walk succeeds exactly when the pairs it checks are valid. -/
theorem verifySignatures_ok_iff {b : Build} {vs : ValidatorSet} {message : List UInt8}
    (hfit : vs.exactWeight < 2 ^ 64) {signatures : List (NodeId × List UInt8)}
    {acc : UInt64} {seen : Finset NodeId} (hacc : acc.toNat = vs.weightOf seen) :
    (∃ total, vs.verifySignatures b message signatures acc seen = .ok total) ↔
      ∀ pair ∈ checked signatures seen, vs.PairValid message pair := by
  induction signatures generalizing acc seen with
  | nil => exact iff_of_true ⟨acc, rfl⟩ (by simp [checked])
  | cons first rest ih =>
      obtain ⟨id, sig⟩ := first
      by_cases hid : id ∈ seen
      · rw [verifySignatures, if_pos hid, checked, if_pos hid]
        exact ih hacc
      · have hsum : ∀ entry, vs.get id = some entry →
            acc.toNat + entry.weight.toNat < 2 ^ 64 ∧
              (acc + entry.weight).toNat = vs.weightOf (insert id seen) := by
          intro entry hget
          have hinsert := weightOf_insert hid hget
          have hle := vs.weightOf_le (insert id seen)
          have hlt : acc.toNat + entry.weight.toNat < 2 ^ 64 := by omega
          refine ⟨hlt, ?_⟩
          rw [toNat_add_of_lt hlt]
          omega
        rw [checked, if_neg hid, List.forall_mem_cons]
        constructor
        · rintro ⟨total, hok⟩
          obtain ⟨entry, next, hget, hvalid, hadd, hrest⟩ := verifySignatures_cons_ok hid hok
          refine ⟨⟨entry, hget, hvalid⟩, (ih ?_).mp ⟨total, hrest⟩⟩
          rw [addU64_eq_ok hadd]
          exact (hsum entry hget).2
        · rintro ⟨⟨entry, hget, hvalid⟩, hrest⟩
          obtain ⟨total, hok⟩ := (ih (hsum entry hget).2).mpr hrest
          refine ⟨total, ?_⟩
          rw [verifySignatures, if_neg hid, hget, Outcome.ofOption, Outcome.ok_bind, if_pos hvalid,
            addU64_of_lt (hsum entry hget).1, Outcome.ok_bind]
          exact hok

/-- The verdict on a list of signatures: the checked pairs are valid, and the
signers hold a quorum. -/
theorem verifyQuorum_ok_iff {b : Build} {vs : ValidatorSet} {message : List UInt8}
    {signatures : List (NodeId × List UInt8)} (hfit : 2 * vs.exactWeight < 2 ^ 64) :
    vs.verifyQuorum b message signatures = .ok () ↔
      (∀ pair ∈ checked signatures ∅, vs.PairValid message pair) ∧
        2 * vs.exactWeight / 3 + 1 ≤ vs.weightOf (signers signatures) := by
  have htotal : vs.exactWeight < 2 ^ 64 := by omega
  have hzero : (0 : UInt64).toNat = vs.weightOf ∅ := by simp [weightOf]
  obtain ⟨threshold, hthreshold, hexact⟩ := quorumThreshold_of_doubled_lt (b := b) hfit
  rw [← verifySignatures_ok_iff (b := b) htotal hzero]
  have hcompare : ∀ total, vs.verifySignatures b message signatures 0 ∅ = .ok total →
      (vs.verifyQuorum b message signatures = .ok () ↔
        2 * vs.exactWeight / 3 + 1 ≤ vs.weightOf (signers signatures)) := by
    intro total hok
    obtain ⟨hweight, _⟩ := verifySignatures_ok htotal hzero hok
    rw [Finset.empty_union] at hweight
    rw [verifyQuorum, hok, Outcome.ok_bind, hthreshold, Outcome.ok_bind, ← hexact, ← hweight,
      ← UInt64.le_iff_toNat_le, ← UInt64.not_lt]
    by_cases hlt : total < threshold <;> simp [hlt]
  constructor
  · intro hok
    obtain ⟨total, hwalk, _⟩ := Outcome.bind_eq_ok.mp hok
    exact ⟨⟨total, hwalk⟩, (hcompare total hwalk).mp hok⟩
  · rintro ⟨⟨total, hwalk⟩, hreached⟩
    exact (hcompare total hwalk).mpr hreached

end ValidatorSet

namespace BftCertificate

variable [Crypto]

/-- The documented verdict: the epochs match, each signature is valid, and the
weight of the signers reaches the quorum threshold. -/
structure Exact (cert : BftCertificate) (vs : ValidatorSet) : Prop where
  epoch : cert.payload.epoch = vs.epoch
  valid : ∀ pair ∈ cert.signatures, vs.PairValid cert.payload.toBytes pair
  weight : 2 * vs.exactWeight / 3 + 1 ≤ vs.weightOf cert.signers

/-- The verdict is the documented one, in whatever order the pairs are listed. -/
structure ExactVerdict (b : Build) (cert : BftCertificate) (vs : ValidatorSet) : Prop where
  exact : cert.verify b vs = .ok () ↔ cert.Exact vs
  perm : ∀ signatures', signatures'.Perm cert.signatures →
    ({ cert with signatures := signatures' }.verify b vs = .ok () ↔ cert.verify b vs = .ok ())

/-- The signers hold a quorum and each has a valid pair, next to an invalid one. -/
structure Shadowed (cert : BftCertificate) (vs : ValidatorSet) : Prop where
  epoch : cert.payload.epoch = vs.epoch
  weight : 2 * vs.exactWeight / 3 + 1 ≤ vs.weightOf cert.signers
  signed : ∀ id ∈ cert.signers, cert.SignedBy vs id
  invalid : ∃ pair ∈ cert.signatures, ¬ vs.PairValid cert.payload.toBytes pair

/-- When every signer is listed once, no pair is shadowed. -/
theorem not_shadowed_of_nodup {cert : BftCertificate} {vs : ValidatorSet}
    (h : (cert.signatures.map Prod.fst).Nodup) : ¬ cert.Shadowed vs := by
  intro hshadowed
  obtain ⟨pair, hmem, hinvalid⟩ := hshadowed.invalid
  obtain ⟨pair', hmem', hsame, hvalid⟩ :=
    ValidatorSet.signedBy_iff.mp (hshadowed.signed pair.1 (ValidatorSet.mem_signers hmem))
  obtain rfl : pair' = pair := List.inj_on_of_nodup_map h hmem' hmem hsame
  exact hinvalid hvalid

/-- The verdict: the epochs match, the first pair of every signer is valid, and
the signers hold a quorum. -/
theorem verify_ok_iff {b : Build} {cert : BftCertificate} {vs : ValidatorSet}
    (hfit : 2 * vs.exactWeight < 2 ^ 64) :
    cert.verify b vs = .ok () ↔ cert.payload.epoch = vs.epoch ∧
      (∀ pair ∈ ValidatorSet.checked cert.signatures ∅,
        vs.PairValid cert.payload.toBytes pair) ∧
      2 * vs.exactWeight / 3 + 1 ≤ vs.weightOf cert.signers := by
  rw [verify_ok, ValidatorSet.verifyQuorum_ok_iff hfit]
  rfl

/-- A certificate that meets the documentation verifies, provided that the
arithmetic of the weights does not overflow. -/
theorem Exact.verify {b : Build} {cert : BftCertificate} {vs : ValidatorSet}
    (hfit : 2 * vs.exactWeight < 2 ^ 64) (h : cert.Exact vs) : cert.verify b vs = .ok () := by
  rw [verify_ok_iff hfit]
  exact ⟨h.epoch, fun pair hpair => h.valid pair (ValidatorSet.mem_of_mem_checked hpair), h.weight⟩

/-- Meeting the documentation does not depend on the order of the pairs. -/
theorem Exact.perm {cert : BftCertificate} {vs : ValidatorSet}
    {signatures' : List (NodeId × List UInt8)} (hperm : signatures'.Perm cert.signatures)
    (h : cert.Exact vs) : Exact { cert with signatures := signatures' } vs where
  epoch := h.epoch
  valid pair hpair := h.valid pair (hperm.mem_iff.mp hpair)
  weight := by
    rw [signers, ValidatorSet.signers_perm hperm]
    exact h.weight

/-- Where a certificate verifies in some order, it meets the documentation or is
shadowed. -/
theorem exact_or_shadowed {b : Build} {cert : BftCertificate} {vs : ValidatorSet}
    (hfit : 2 * vs.exactWeight < 2 ^ 64) {signatures' : List (NodeId × List UInt8)}
    (hperm : signatures'.Perm cert.signatures)
    (hok : { cert with signatures := signatures' }.verify b vs = .ok ()) :
    cert.Exact vs ∨ cert.Shadowed vs := by
  obtain ⟨hepoch, hquorum⟩ := verify_ok.mp hok
  obtain ⟨_, _, hweight⟩ := (verify_ok_iff hfit).mp hok
  have htotal : vs.exactWeight < 2 ^ 64 := by omega
  obtain ⟨total, hwalk, _⟩ := Outcome.bind_eq_ok.mp hquorum
  obtain ⟨_, hsigned⟩ :=
    ValidatorSet.verifySignatures_ok htotal (by simp [ValidatorSet.weightOf]) hwalk
  have hsigners : ValidatorSet.signers signatures' = cert.signers :=
    ValidatorSet.signers_perm hperm
  rw [signers, hsigners] at hweight
  have hvalid : ∀ id ∈ cert.signers, cert.SignedBy vs id := by
    intro id hid
    rw [← hsigners] at hid
    obtain ⟨pair, hpair, hsame⟩ := ValidatorSet.signedBy_iff.mp (hsigned id hid (by simp))
    exact ValidatorSet.signedBy_iff.mpr ⟨pair, hperm.mem_iff.mp hpair, hsame⟩
  by_cases hall : ∀ pair ∈ cert.signatures, vs.PairValid cert.payload.toBytes pair
  · exact Or.inl ⟨hepoch, hall, hweight⟩
  · push Not at hall
    exact Or.inr ⟨hepoch, hweight, hvalid, hall⟩

/-- With the valid pairs in front, a shadowed certificate verifies. -/
theorem Shadowed.verify_sorted {b : Build} {cert : BftCertificate} {vs : ValidatorSet}
    (hfit : 2 * vs.exactWeight < 2 ^ 64) (h : cert.Shadowed vs) :
    ∃ signatures', signatures'.Perm cert.signatures ∧
      { cert with signatures := signatures' }.verify b vs = .ok () := by
  let valid := cert.signatures.filter fun pair => vs.PairValid cert.payload.toBytes pair
  let invalid := cert.signatures.filter fun pair => !vs.PairValid cert.payload.toBytes pair
  have hperm : (valid ++ invalid).Perm cert.signatures := List.filter_append_perm _ _
  refine ⟨valid ++ invalid, hperm, (verify_ok_iff hfit).mpr ⟨h.epoch, ?_, ?_⟩⟩
  · have hseen : ValidatorSet.signers invalid ⊆ ∅ ∪ ValidatorSet.signers valid := by
      intro id hid
      rw [ValidatorSet.signers, List.mem_toFinset, List.mem_map] at hid
      obtain ⟨pair, hpair, rfl⟩ := hid
      have hmem := ValidatorSet.mem_signers (List.mem_of_mem_filter hpair)
      obtain ⟨pair', hpair', hsame, hvalid⟩ := ValidatorSet.signedBy_iff.mp (h.signed _ hmem)
      rw [Finset.empty_union, ← hsame]
      exact ValidatorSet.mem_signers (List.mem_filter.mpr ⟨hpair', by simpa using hvalid⟩)
    rw [ValidatorSet.checked_append, ValidatorSet.checked_of_subset hseen, List.append_nil]
    intro pair hpair
    simpa using (List.mem_filter.mp (ValidatorSet.mem_of_mem_checked hpair)).2
  · rw [signers, ValidatorSet.signers_perm hperm]
    exact h.weight

/-- **The verdict on a certificate.**  It is the documented one, in every order
of the pairs, exactly when no invalid pair stands next to a valid quorum. -/
theorem exactVerdict_iff (b : Build) (vs : ValidatorSet) (cert : BftCertificate)
    (hfit : 2 * vs.exactWeight < 2 ^ 64) :
    cert.ExactVerdict b vs ↔ ¬ cert.Shadowed vs := by
  constructor
  · intro h hshadowed
    obtain ⟨signatures', hperm, hok⟩ := hshadowed.verify_sorted (b := b) hfit
    obtain ⟨pair, hmem, hinvalid⟩ := hshadowed.invalid
    have hexact := h.exact.mp ((h.perm signatures' hperm).mp hok)
    exact hinvalid (hexact.valid pair hmem)
  · intro hclear
    have hexact : ∀ signatures', signatures'.Perm cert.signatures →
        ({ cert with signatures := signatures' }.verify b vs = .ok () ↔ cert.Exact vs) := by
      intro signatures' hperm
      constructor
      · intro hok
        exact (exact_or_shadowed hfit hperm hok).resolve_right hclear
      · intro h
        exact (h.perm hperm).verify hfit
    exact ⟨hexact cert.signatures (List.Perm.refl _), fun signatures' hperm =>
      (hexact signatures' hperm).trans (hexact cert.signatures (List.Perm.refl _)).symm⟩

end BftCertificate

/-- A committee of one whose member signs, and is listed again without a
signature. -/
def shadowingCert : BftCertificate :=
  let payload : CertPayload := ⟨1, 42, Bytes.replicate 32 0xAB⟩
  ⟨payload, (sampleCert payload [1]).signatures ++ [((sampleEntry 1 1).nodeId, [])]⟩

/-- A certificate with each member listed once has the documented verdict. -/
theorem exactVerdict_of_three :
    @BftCertificate.ExactVerdict checksumCrypto .release
      (sampleCert ⟨1, 42, Bytes.replicate 32 0xAB⟩ [1, 2, 3]) (sampleSet 1 [1, 2, 3, 4]) :=
  (@BftCertificate.exactVerdict_iff checksumCrypto .release (sampleSet 1 [1, 2, 3, 4])
    (sampleCert ⟨1, 42, Bytes.replicate 32 0xAB⟩ [1, 2, 3]) (by decide)).mpr
    (@BftCertificate.not_shadowed_of_nodup checksumCrypto _ _ (by decide +kernel))

/-- **An unchecked signature.**  The second pair of the member carries no
signature at all, and the certificate verifies. -/
theorem empty_signature_accepted :
    ¬ ∀ (b : Build) (cert : BftCertificate) (vs : ValidatorSet),
      2 * vs.exactWeight < 2 ^ 64 → @BftCertificate.ExactVerdict checksumCrypto b cert vs := by
  intro h
  have hexact := (@BftCertificate.ExactVerdict.exact checksumCrypto _ _ _
    (h .release shadowingCert (sampleSet 1 [1]) (by decide))).mp (by decide +kernel)
  have hvalid := @BftCertificate.Exact.valid checksumCrypto _ _ hexact
    ((sampleEntry 1 1).nodeId, []) (by decide +kernel)
  revert hvalid
  decide +kernel

end Zona
