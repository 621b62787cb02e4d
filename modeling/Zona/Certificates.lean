import Zona.ValidatorSets

/-!
# Certificates and quorum intersection

A certificate is a list of signatures over one payload, verified against the
committee of the payload's epoch.  Two certificates that verify against one
committee share signers of more than one third of its weight: this is the
fact every agreement argument about this chain rests on.
-/

namespace Zona

/-- The payload that validators sign in each round. -/
structure CertPayload where
  epoch : UInt64
  height : UInt64
  blockHash : Bytes 32
  deriving DecidableEq

def CertPayload.toBytes (p : CertPayload) : List UInt8 :=
  Bincode.u64 p.epoch ++ (Bincode.u64 p.height ++ Bincode.array p.blockHash)

/-- A certificate: signatures over a payload. -/
structure BftCertificate where
  payload : CertPayload
  signatures : List (NodeId × List UInt8)
  deriving DecidableEq

namespace BftCertificate

/-- The distinct identifiers listed as signers. -/
def signers (cert : BftCertificate) : Finset NodeId :=
  ValidatorSet.signers cert.signatures

variable [Crypto]

/-- Verify a certificate against a validator set. -/
def verify (b : Build) (cert : BftCertificate) (vs : ValidatorSet) : Outcome BftError Unit :=
  if cert.payload.epoch ≠ vs.epoch then
    .err (.epochMismatch cert.payload.epoch vs.epoch)
  else vs.verifyQuorum b cert.payload.toBytes cert.signatures

/-- `id` is a member of `vs` whose signature on the payload is listed. -/
def SignedBy (cert : BftCertificate) (vs : ValidatorSet) (id : NodeId) : Prop :=
  vs.SignedBy cert.payload.toBytes cert.signatures id

/-- A certificate verifies exactly if it names the epoch of the set and its
signatures make a quorum over its payload. -/
theorem verify_ok {b : Build} {cert : BftCertificate} {vs : ValidatorSet} :
    cert.verify b vs = .ok () ↔
      cert.payload.epoch = vs.epoch ∧
        vs.verifyQuorum b cert.payload.toBytes cert.signatures = .ok () := by
  unfold verify
  by_cases h : cert.payload.epoch = vs.epoch <;> simp [h]

/-- The signers that two certificates verified against one committee have in
common hold more than one third of its weight, and signed both payloads. -/
theorem common_signers {b : Build} {vs : ValidatorSet} (hexact : vs.CountsExactly b)
    {cert₁ cert₂ : BftCertificate} (h₁ : cert₁.verify b vs = .ok ())
    (h₂ : cert₂.verify b vs = .ok ()) :
    vs.exactWeight < 3 * vs.weightOf (cert₁.signers ∩ cert₂.signers) ∧
      ∀ id ∈ cert₁.signers ∩ cert₂.signers, cert₁.SignedBy vs id ∧ cert₂.SignedBy vs id := by
  obtain ⟨hweight₁, hsigned₁⟩ := ValidatorSet.verifyQuorum_ok hexact (verify_ok.mp h₁).2
  obtain ⟨hweight₂, hsigned₂⟩ := ValidatorSet.verifyQuorum_ok hexact (verify_ok.mp h₂).2
  constructor
  · rw [ValidatorSet.weightOf_eq] at hweight₁ hweight₂ ⊢
    exact WeightedQuorum.quorum_inter hweight₁ hweight₂
  · intro id hid
    obtain ⟨hid₁, hid₂⟩ := Finset.mem_inter.mp hid
    exact ⟨hsigned₁ id hid₁, hsigned₂ id hid₂⟩

/-- **Quorum intersection.**  The signers that two certificates verified
against one committee have in common hold more than one third of its weight;
each of them is a member that signed both payloads. -/
theorem quorum_intersection (b : Build) (vs : ValidatorSet) (cert₁ cert₂ : BftCertificate)
    (hfit : 2 * vs.exactWeight + 3 < 2 ^ 64)
    (h₁ : cert₁.verify b vs = .ok ()) (h₂ : cert₂.verify b vs = .ok ()) :
    vs.exactWeight < 3 * vs.weightOf (cert₁.signers ∩ cert₂.signers) ∧
      ∀ id ∈ cert₁.signers ∩ cert₂.signers, cert₁.SignedBy vs id ∧ cert₂.SignedBy vs id :=
  common_signers (Or.inr hfit) h₁ h₂

end BftCertificate

/-- The member whose seed repeats the byte `k`. -/
def sampleEntry (k : UInt8) (weight : UInt64) : ValidatorEntry where
  nodeId := @deriveNodeId checksumCrypto (Bytes.replicate 32 k)
  pubkey := Bytes.replicate 32 k
  weight := weight

/-- A committee of members of weight one, built by the constructor. -/
def sampleSet (epoch : UInt64) (ks : List UInt8) : ValidatorSet :=
  @ValidatorSet.new checksumCrypto epoch (ks.map (fun k => sampleEntry k 1))

/-- A payload signed by the members with the given seeds. -/
def sampleCert (payload : CertPayload) (ks : List UInt8) : BftCertificate where
  payload := payload
  signatures := ks.map fun k => ((sampleEntry k 1).nodeId,
    (@Crypto.sign checksumCrypto (Bytes.replicate 32 k) payload.toBytes).toList)

/-- Three of four members sign one block and another three a conflicting one:
the two in common hold more than a third. -/
theorem quorum_intersection_of_four :
    4 < 3 * (sampleSet 1 [1, 2, 3, 4]).weightOf
      ((sampleCert ⟨1, 42, Bytes.replicate 32 0xAB⟩ [1, 2, 3]).signers ∩
        (sampleCert ⟨1, 42, Bytes.replicate 32 0xCD⟩ [2, 3, 4]).signers) :=
  (@BftCertificate.quorum_intersection checksumCrypto .debug (sampleSet 1 [1, 2, 3, 4])
    (sampleCert ⟨1, 42, Bytes.replicate 32 0xAB⟩ [1, 2, 3])
    (sampleCert ⟨1, 42, Bytes.replicate 32 0xCD⟩ [2, 3, 4])
    (by decide) (by decide +kernel) (by decide +kernel)).1

end Zona
