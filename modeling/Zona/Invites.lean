import Zona.WireMessages

/-!
# Invites

A node invites another one with a token that names the invited identifier and
an expiry, signed with the key that the token carries.
-/

namespace Zona

/-- A signed invite. -/
structure InviteToken where
  inviteeId : NodeId
  expiresAt : UInt64
  issuerId : NodeId
  issuerPk : Bytes 32
  signature : List UInt8
  deriving DecidableEq

def invitePayload (inviteeId : NodeId) (expiresAt : UInt64) (issuerId : NodeId) : List UInt8 :=
  inviteeId.encode ++ (Bincode.u64 expiresAt ++ issuerId.encode)

/-- What the signature of a token covers. -/
def InviteToken.signedPayload (token : InviteToken) : List UInt8 :=
  invitePayload token.inviteeId token.expiresAt token.issuerId

section Signing

variable [Crypto]

/-- Create a signed invite for a new node. -/
def createInvite (issuer : NodeKeypair) (inviteeId : NodeId) (expiresAt : UInt64) :
    InviteToken where
  inviteeId := inviteeId
  expiresAt := expiresAt
  issuerId := issuer.nodeId
  issuerPk := issuer.rawPublic
  signature :=
    (Crypto.sign issuer.signing (invitePayload inviteeId expiresAt issuer.nodeId)).toList

/-- Verify the signature of an invite that has not expired. -/
def verifyInvite (token : InviteToken) (nowUnix : UInt64) : Except ProtocolError Unit :=
  if token.expiresAt < nowUnix then .error (.invalidSignature token.inviteeId.display)
  else if signatureValid token.issuerPk token.signedPayload token.signature then .ok ()
  else .error (.invalidSignature token.issuerId.display)

/-- A token verifies exactly if it has not expired and its signature is one of
the issuer's key over its fields. -/
theorem verifyInvite_ok {token : InviteToken} {nowUnix : UInt64} :
    verifyInvite token nowUnix = .ok () ↔
      nowUnix ≤ token.expiresAt ∧
        signatureValid token.issuerPk token.signedPayload token.signature = true := by
  unfold verifyInvite
  by_cases hexpired : token.expiresAt < nowUnix
  · simp [hexpired, UInt64.not_le.mpr hexpired]
  · by_cases hvalid : signatureValid token.issuerPk token.signedPayload token.signature = true
    · simp [hexpired, hvalid, UInt64.not_lt.mp hexpired]
    · simp [hexpired, hvalid]

/-- **A created invite** verifies until it expires, and not after that. -/
theorem verifyInvite_createInvite (h : Crypto.Sound ‹Crypto›) (seed : Bytes 32)
    (inviteeId : NodeId) (expiresAt nowUnix : UInt64) :
    verifyInvite (createInvite (NodeKeypair.fromSeed seed) inviteeId expiresAt) nowUnix = .ok () ↔
      nowUnix ≤ expiresAt := by
  rw [verifyInvite_ok]
  exact and_iff_left (signatureValid_sign h seed _)

end Signing

end Zona
