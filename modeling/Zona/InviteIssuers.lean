import Zona.Invites

/-!
# Who issued an invite

A token carries the key that verifies it, next to the identifier of its issuer.
`verifyDescriptor` compares such an identifier with the hash of the key;
`verifyInvite` does not, so the owner of any key signs for any issuer
(`verifyInvite_assumed`).

`invite_bound_iff` says for which tokens acceptance nevertheless means that the issuer
has signed.
-/

namespace Zona

variable [Crypto]

/-- What an accepted token should stand for: it has not expired, its issuer is
the hash of its key, and its signature verifies under that key. -/
structure InviteToken.Bound (token : InviteToken) (nowUnix : UInt64) : Prop where
  unexpired : nowUnix ≤ token.expiresAt
  issuer : token.issuerId = deriveNodeId token.issuerPk
  signed : signatureValid token.issuerPk token.signedPayload token.signature = true

/-- Only holders of a key of the issuer can have made the token: whoever holds
every key that the signature verifies under also holds each key of the issuer,
or that key and the token's are a collision of the hash. -/
def InviteToken.MadeByIssuer (token : InviteToken) : Prop :=
  ∀ held : Set (Bytes 32),
    (∀ pk, signatureValid pk token.signedPayload token.signature = true → pk ∈ held) →
      ∀ key, deriveNodeId key = token.issuerId →
        key ∈ held ∨ key ≠ token.issuerPk ∧ deriveNodeId key = deriveNodeId token.issuerPk

/-- A token that is bound to its issuer was made by the issuer, given that
nobody else can sign for the issuer's key. -/
theorem InviteToken.Bound.madeByIssuer {token : InviteToken} {nowUnix : UInt64}
    (h : token.Bound nowUnix) : token.MadeByIssuer := by
  intro held hunforged key hkey
  by_cases hsame : key = token.issuerPk
  · rw [hsame]
    exact Or.inl (hunforged _ h.signed)
  · exact Or.inr ⟨hsame, hkey.trans h.issuer⟩

/-- The owner of a key makes a token in the name of another node. -/
def assumeIssuer (attacker : NodeKeypair) (issuerId inviteeId : NodeId) (expiresAt : UInt64) :
    InviteToken :=
  createInvite { attacker with nodeId := issuerId } inviteeId expiresAt

/-- **Any issuer.**  Such a token is accepted, whoever it names: the check
never compares the named issuer with the key that signed. -/
theorem verifyInvite_assumed (h : Crypto.Sound ‹Crypto›) (seed : Bytes 32)
    (issuerId inviteeId : NodeId) {expiresAt nowUnix : UInt64} (hnow : nowUnix ≤ expiresAt) :
    verifyInvite (assumeIssuer (NodeKeypair.fromSeed seed) issuerId inviteeId expiresAt) nowUnix
      = .ok () :=
  verifyInvite_ok.mpr ⟨hnow, signatureValid_sign h seed _⟩

/-- **Invites and their issuers.**  Acceptance means that the token is bound to
its issuer exactly when the issuer is the hash of the token's key, or the token
has expired, or its signature does not verify. -/
theorem invite_bound_iff (token : InviteToken) (nowUnix : UInt64) :
    (verifyInvite token nowUnix = .ok () → token.Bound nowUnix ∧ token.MadeByIssuer) ↔
      token.issuerId = deriveNodeId token.issuerPk ∨ token.expiresAt < nowUnix ∨
        signatureValid token.issuerPk token.signedPayload token.signature = false := by
  rw [verifyInvite_ok]
  constructor
  · intro h
    by_cases hissuer : token.issuerId = deriveNodeId token.issuerPk
    · exact Or.inl hissuer
    · refine Or.inr ?_
      by_cases hexpired : token.expiresAt < nowUnix
      · exact Or.inl hexpired
      · refine Or.inr (Bool.eq_false_iff.mpr fun hvalid => ?_)
        exact hissuer (h ⟨UInt64.not_lt.mp hexpired, hvalid⟩).1.issuer
  · rintro (hissuer | hexpired | hinvalid) ⟨hunexpired, hvalid⟩
    · have hbound : token.Bound nowUnix := ⟨hunexpired, hissuer, hvalid⟩
      exact ⟨hbound, hbound.madeByIssuer⟩
    · exact absurd hunexpired (UInt64.not_le.mpr hexpired)
    · exact absurd hvalid (Bool.eq_false_iff.mp hinvalid)

omit [Crypto] in
/-- **An assumed issuer.**  The owner of one key signs for the node of another,
and the token verifies until it expires. -/
theorem assumed_issuer_accepted :
    ¬ ∀ (token : InviteToken) (nowUnix : UInt64),
      @verifyInvite checksumCrypto token nowUnix = .ok () →
        @InviteToken.Bound checksumCrypto token nowUnix ∧
          @InviteToken.MadeByIssuer checksumCrypto token := by
  intro h
  let attacker := @NodeKeypair.fromSeed checksumCrypto (Bytes.replicate 32 1)
  let victim := @NodeKeypair.fromSeed checksumCrypto (Bytes.replicate 32 2)
  have haccepted : @verifyInvite checksumCrypto
      (@assumeIssuer checksumCrypto attacker victim.nodeId NodeId.zero 1000) 0 = .ok () :=
    @verifyInvite_assumed checksumCrypto checksumCrypto_sound (Bytes.replicate 32 1)
      victim.nodeId NodeId.zero 1000 0 (by decide)
  have hissuer := (@InviteToken.Bound.issuer checksumCrypto _ _ (h _ _ haccepted).1)
  have hkeys := checksumCrypto_injective hissuer
  exact absurd hkeys (by decide)

end Zona
