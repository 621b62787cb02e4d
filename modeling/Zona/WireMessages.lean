import Zona.NodeIdentity

/-!
# Messages on the wire

Descriptors, envelopes and the nine kinds of message, with the bytes that
their signatures cover.  A descriptor is signed with the key it carries; an
envelope is signed by whoever sends it on, so a relay puts its own signature
in the place of the one it received.

`verifyEnvelope` lets an envelope without a signature pass: whether unsigned
messages are acceptable is left to the caller.
-/

namespace Zona

/-- An internet socket address. -/
inductive SocketAddr
  | v4 (ip : Bytes 4) (port : UInt16)
  | v6 (ip : Bytes 16) (port : UInt16) (flowinfo scopeId : UInt32)
  deriving DecidableEq

/-- How to establish a session with a node. -/
inductive ReachSpec
  | direct (addr : SocketAddr)
  | relayed (relay : NodeId) (circuitHandle : UInt64)
  deriving DecidableEq

/-- Ways to reach a node, the first one preferred. -/
abbrev ReachList := List ReachSpec

/-- A signed node descriptor. -/
structure Descriptor where
  nodeId : NodeId
  pubkey : Bytes 32
  reach : ReachList
  version : UInt64
  provisional : Bool
  signature : List UInt8
  deriving DecidableEq

/-- A peer recommended by `referrerId`. -/
structure PexCandidate where
  descriptor : Descriptor
  referrerId : NodeId
  deriving DecidableEq

/-- Priority class of a message. -/
inductive MessageClass
  | normal
  | criticalUser
  deriving DecidableEq

/-- All protocol message types. -/
inductive MessageKind
  | hello (descriptor : Descriptor)
  | findNode (target : NodeId) (count : UInt8)
  | foundNodes (peers : List PexCandidate)
  | pex (candidates : List PexCandidate)
  | ping (nonce : UInt64)
  | pong (nonce : UInt64)
  | announceDescriptor (descriptor : Descriptor)
  | userData (payload : List UInt8)
  | invite (token : List UInt8)
  deriving DecidableEq

/-- `matches!(body, MessageKind::Hello { .. })`. -/
def MessageKind.isHello : MessageKind → Bool
  | .hello _ => true
  | _ => false

/-- `matches!(body, MessageKind::UserData { .. })`. -/
def MessageKind.isUserData : MessageKind → Bool
  | .userData _ => true
  | _ => false

/-- The envelope around every message. -/
structure Envelope where
  toId : NodeId
  fromId : NodeId
  messageId : UInt64
  ttl : UInt8
  messageClass : MessageClass
  routeFork : Bool
  body : MessageKind
  signature : List UInt8
  deriving DecidableEq

def NodeId.encode : Bincode.Encoder NodeId := fun id => Bincode.array id.bytes

def SocketAddr.encode : Bincode.Encoder SocketAddr
  | .v4 ip port => Bincode.variant 0 ++ (Bincode.array ip ++ Bincode.u16 port)
  | .v6 ip port _ _ => Bincode.variant 1 ++ (Bincode.array ip ++ Bincode.u16 port)

def ReachSpec.encode : Bincode.Encoder ReachSpec
  | .direct addr => Bincode.variant 0 ++ addr.encode
  | .relayed relay circuitHandle =>
      Bincode.variant 1 ++ (relay.encode ++ Bincode.u64 circuitHandle)

/-- Bytes to sign: everything except the signature. -/
def Descriptor.signingPayload (d : Descriptor) : List UInt8 :=
  d.nodeId.encode ++ (Bincode.array d.pubkey ++ (Bincode.seq ReachSpec.encode d.reach ++
    (Bincode.u64 d.version ++ Bincode.bool d.provisional)))

def Descriptor.encode : Bincode.Encoder Descriptor := fun d =>
  d.signingPayload ++ Bincode.bytes d.signature

def PexCandidate.encode : Bincode.Encoder PexCandidate := fun c =>
  c.descriptor.encode ++ c.referrerId.encode

def MessageClass.encode : Bincode.Encoder MessageClass
  | .normal => Bincode.variant 0
  | .criticalUser => Bincode.variant 1

def MessageKind.encode : Bincode.Encoder MessageKind
  | .hello descriptor => Bincode.variant 0 ++ descriptor.encode
  | .findNode target count => Bincode.variant 1 ++ (target.encode ++ Bincode.u8 count)
  | .foundNodes peers => Bincode.variant 2 ++ Bincode.seq PexCandidate.encode peers
  | .pex candidates => Bincode.variant 3 ++ Bincode.seq PexCandidate.encode candidates
  | .ping nonce => Bincode.variant 4 ++ Bincode.u64 nonce
  | .pong nonce => Bincode.variant 5 ++ Bincode.u64 nonce
  | .announceDescriptor descriptor => Bincode.variant 6 ++ descriptor.encode
  | .userData payload => Bincode.variant 7 ++ Bincode.bytes payload
  | .invite token => Bincode.variant 8 ++ Bincode.bytes token

/-- Fields covered by the signature: everything except the signature. -/
def Envelope.signingPayload (e : Envelope) : List UInt8 :=
  e.toId.encode ++ (e.fromId.encode ++ (Bincode.u64 e.messageId ++ (Bincode.u8 e.ttl ++
    (e.messageClass.encode ++ (Bincode.bool e.routeFork ++ e.body.encode)))))

/-- An address as it is on the wire, without its flow label and its scope.  Every
other field of a descriptor but the signature can be recovered from the signed
bytes. -/
def SocketAddr.onWire : SocketAddr → SocketAddr
  | .v4 ip port => .v4 ip port
  | .v6 ip port _ _ => .v6 ip port 0 0

def ReachSpec.onWire : ReachSpec → ReachSpec
  | .direct addr => .direct addr.onWire
  | .relayed relay circuitHandle => .relayed relay circuitHandle

/-- The fields of a descriptor that its signature covers. -/
structure SignedFields where
  nodeId : NodeId
  pubkey : Bytes 32
  reach : ReachList
  version : UInt64
  provisional : Bool
  deriving DecidableEq

def Descriptor.signedFields (d : Descriptor) : SignedFields where
  nodeId := d.nodeId
  pubkey := d.pubkey
  reach := d.reach.map ReachSpec.onWire
  version := d.version
  provisional := d.provisional

/-- Identifiers are self-delimiting, as they all have the same length. -/
theorem NodeId.encode_selfDelimiting : Bincode.SelfDelimiting NodeId.encode Set.univ := by
  rintro ⟨x⟩ _ ⟨y⟩ _ r t h
  obtain ⟨rfl, hrt⟩ := Bincode.array_selfDelimiting x trivial y trivial r t h
  exact ⟨rfl, hrt⟩

/-- An address is cut off the front of some bytes in one way only, up to the
fields that are not on the wire. -/
theorem SocketAddr.encode_append_inj {x y : SocketAddr} {r t : List UInt8}
    (h : x.encode ++ r = y.encode ++ t) : x.onWire = y.onWire ∧ r = t := by
  have hfields : ∀ {n : Nat} {ip ip' : Bytes n} {port port' : UInt16},
      (Bincode.array ip ++ Bincode.u16 port) ++ r = (Bincode.array ip' ++ Bincode.u16 port') ++ t →
      ip = ip' ∧ port = port' ∧ r = t := by
    intro n ip ip' port port' heq
    rw [List.append_assoc, List.append_assoc] at heq
    obtain ⟨hip, hrest⟩ := Bincode.array_selfDelimiting ip trivial ip' trivial _ _ heq
    obtain ⟨hport, hrt⟩ := Bincode.u16_selfDelimiting port trivial port' trivial _ _ hrest
    exact ⟨hip, hport, hrt⟩
  cases x with
  | v4 ip port =>
      cases y with
      | v4 ip' port' =>
          simp only [encode, List.append_assoc] at h
          obtain ⟨_, hrest⟩ := Bincode.variant_append_inj (by omega) (by omega) h
          rw [← List.append_assoc, ← List.append_assoc] at hrest
          obtain ⟨rfl, rfl, hrt⟩ := hfields hrest
          exact ⟨rfl, hrt⟩
      | v6 ip' port' flowinfo' scopeId' =>
          simp only [encode, List.append_assoc] at h
          exact absurd (Bincode.variant_append_inj (by omega) (by omega) h).1 (by omega)
  | v6 ip port flowinfo scopeId =>
      cases y with
      | v4 ip' port' =>
          simp only [encode, List.append_assoc] at h
          exact absurd (Bincode.variant_append_inj (by omega) (by omega) h).1 (by omega)
      | v6 ip' port' flowinfo' scopeId' =>
          simp only [encode, List.append_assoc] at h
          obtain ⟨_, hrest⟩ := Bincode.variant_append_inj (by omega) (by omega) h
          rw [← List.append_assoc, ← List.append_assoc] at hrest
          obtain ⟨rfl, rfl, hrt⟩ := hfields hrest
          exact ⟨rfl, hrt⟩

/-- The same for ways to reach a node, whose variant comes first. -/
theorem ReachSpec.encode_append_inj {x y : ReachSpec} {r t : List UInt8}
    (h : x.encode ++ r = y.encode ++ t) : x.onWire = y.onWire ∧ r = t := by
  cases x with
  | direct addr =>
      cases y with
      | direct addr' =>
          simp only [encode, List.append_assoc] at h
          obtain ⟨_, hrest⟩ := Bincode.variant_append_inj (by omega) (by omega) h
          obtain ⟨haddr, hrt⟩ := SocketAddr.encode_append_inj hrest
          exact ⟨congrArg ReachSpec.direct haddr, hrt⟩
      | relayed relay' circuitHandle' =>
          simp only [encode, List.append_assoc] at h
          exact absurd (Bincode.variant_append_inj (by omega) (by omega) h).1 (by omega)
  | relayed relay circuitHandle =>
      cases y with
      | direct addr' =>
          simp only [encode, List.append_assoc] at h
          exact absurd (Bincode.variant_append_inj (by omega) (by omega) h).1 (by omega)
      | relayed relay' circuitHandle' =>
          simp only [encode, List.append_assoc] at h
          obtain ⟨_, hrest⟩ := Bincode.variant_append_inj (by omega) (by omega) h
          obtain ⟨rfl, hhandle⟩ := NodeId.encode_selfDelimiting relay trivial relay' trivial _ _ hrest
          obtain ⟨rfl, hrt⟩ := Bincode.u64_selfDelimiting circuitHandle trivial circuitHandle'
            trivial _ _ hhandle
          exact ⟨rfl, hrt⟩

/-- A way to reach a node takes at least one byte. -/
theorem ReachSpec.encode_ne_nil (x : ReachSpec) : x.encode ≠ [] := by
  intro hempty
  have hlength := congrArg List.length hempty
  cases x <;> simp [encode, Bincode.variant] at hlength

/-- **The signed bytes determine the signed fields**, as every field of the
layout is self-delimiting. -/
theorem Descriptor.signedFields_of_payload {d e : Descriptor}
    (h : d.signingPayload = e.signingPayload) : d.signedFields = e.signedFields := by
  obtain ⟨hid, hrest⟩ := NodeId.encode_selfDelimiting d.nodeId trivial e.nodeId trivial _ _ h
  obtain ⟨hkey, hrest⟩ := Bincode.array_selfDelimiting d.pubkey trivial e.pubkey trivial _ _ hrest
  -- version and flag are nine bytes, whatever comes before them
  obtain ⟨hreach, htail⟩ := List.append_inj' hrest (by simp [Bincode.u64, Bincode.bool])
  obtain ⟨hversion, hflag⟩ := Bincode.u64_selfDelimiting d.version trivial e.version trivial _ _ htail
  obtain ⟨_, hlist⟩ := List.append_inj hreach (by simp)
  have hwire : d.reach.map ReachSpec.onWire = e.reach.map ReachSpec.onWire :=
    Bincode.map_eq_of_flatMap_eq (fun _ _ _ _ => ReachSpec.encode_append_inj)
      ReachSpec.encode_ne_nil hlist
  unfold signedFields
  rw [hid, hkey, hwire, hversion, Bincode.bool_injective hflag]

/-- Why the overlay refuses something. -/
inductive ProtocolError
  | invalidSignature (nodeId : String)
  | envelopeSignatureInvalid (senderId : String)
  | inviteQuotaExceeded
  | rateLimitExceeded (op : String)
  deriving DecidableEq

section Signing

variable [Crypto]

/-- Sign a descriptor's canonical payload. -/
def signDescriptor (d : Descriptor) (signing : Bytes 32) : Descriptor :=
  { d with signature := (Crypto.sign signing d.signingPayload).toList }

/-- Verify a descriptor against its embedded key. -/
def verifyDescriptor (d : Descriptor) : Except ProtocolError Unit :=
  if Crypto.keyDecodes d.pubkey = false then .error (.invalidSignature d.nodeId.display)
  else if deriveNodeId d.pubkey ≠ d.nodeId then .error (.invalidSignature d.nodeId.display)
  else if signatureValid d.pubkey d.signingPayload d.signature then .ok ()
  else .error (.invalidSignature d.nodeId.display)

/-- Sign an envelope's canonical payload. -/
def signEnvelope (e : Envelope) (signing : Bytes 32) : Envelope :=
  { e with signature := (Crypto.sign signing e.signingPayload).toList }

/-- Verify an envelope's signature under the key of its sender; an unsigned
envelope passes. -/
def verifyEnvelope (e : Envelope) (senderPubkey : Bytes 32) : Except ProtocolError Unit :=
  if e.signature = [] then .ok ()
  else if signatureValid senderPubkey e.signingPayload e.signature then .ok ()
  else .error (.envelopeSignatureInvalid e.fromId.display)

/-- The envelope carries a valid signature under the key. -/
def Envelope.AuthenticBy (e : Envelope) (pubkey : Bytes 32) : Prop :=
  signatureValid pubkey e.signingPayload e.signature = true

/-- An envelope verifies exactly if it has no signature or one of the given
key.  The first case is what lets unsigned envelopes in. -/
theorem verifyEnvelope_ok {e : Envelope} {pubkey : Bytes 32} :
    verifyEnvelope e pubkey = .ok () ↔ e.signature = [] ∨ e.AuthenticBy pubkey := by
  unfold verifyEnvelope Envelope.AuthenticBy
  by_cases hempty : e.signature = []
  · simp [hempty]
  · by_cases hvalid : signatureValid pubkey e.signingPayload e.signature = true
    · simp [hempty, hvalid]
    · simp [hempty, hvalid]

theorem not_authenticBy_of_unsigned {e : Envelope} (h : e.signature = []) (pubkey : Bytes 32) :
    ¬ e.AuthenticBy pubkey := by
  unfold Envelope.AuthenticBy
  rw [h, signatureValid_nil]
  exact Bool.false_ne_true

/-- **A descriptor that verifies** is filed under the hash of its key and
signed with that key. -/
theorem verifyDescriptor_ok {d : Descriptor} :
    verifyDescriptor d = .ok () ↔
      deriveNodeId d.pubkey = d.nodeId ∧
        signatureValid d.pubkey d.signingPayload d.signature = true := by
  unfold verifyDescriptor
  by_cases hkey : Crypto.keyDecodes d.pubkey = false
  · simp [hkey, signatureValid]
  · by_cases hid : deriveNodeId d.pubkey = d.nodeId
    · by_cases hvalid : signatureValid d.pubkey d.signingPayload d.signature = true
      · simp [hkey, hid, hvalid]
      · simp [hkey, hid, hvalid]
    · simp [hkey, hid]

theorem signEnvelope_authentic (h : Crypto.Sound ‹Crypto›) (e : Envelope) (seed : Bytes 32) :
    (signEnvelope e seed).AuthenticBy (Crypto.verifyingKey seed) :=
  signatureValid_sign h seed e.signingPayload

end Signing

end Zona
