import Zona.BincodeDecoding
import Zona.Certificates
import Zona.Invites

/-!
# The types of signed bytes

Four types of objects are signed with the key of a node: descriptors,
envelopes, invites and certificate payloads.  None of the signed bytes say of
which type they are.

The fixed lengths of invites and certificate payloads keep these two apart from
everything else.  A descriptor and an envelope start with two identifiers and a
number each, and the same bytes can be both; `signed_types_apart` says how such
a pair has to look.
-/

namespace Zona

theorem length_nodeId_encode (id : NodeId) : id.encode.length = 32 :=
  id.bytes.length_eq

theorem length_u64 (x : UInt64) : (Bincode.u64 x).length = 8 :=
  Bincode.littleEndian_length 8 _

/-- What is signed of a token has 72 bytes, whatever is in it. -/
theorem InviteToken.length_signedPayload (token : InviteToken) :
    token.signedPayload.length = 72 := by
  rw [signedPayload, invitePayload, List.length_append, List.length_append,
    length_nodeId_encode, length_nodeId_encode, length_u64]

/-- What is signed of a certificate has 48 bytes, whatever is in it. -/
theorem CertPayload.length_toBytes (p : CertPayload) : p.toBytes.length = 48 := by
  rw [toBytes, List.length_append, List.length_append, length_u64, length_u64, Bincode.array,
    p.blockHash.length_eq]

/-- What is signed of a descriptor has 81 bytes and those of its ways to be
reached, so it is longer than a token or a certificate. -/
theorem Descriptor.length_signingPayload (d : Descriptor) :
    d.signingPayload.length = 81 + (d.reach.flatMap ReachSpec.encode).length := by
  simp only [signingPayload, List.length_append, length_nodeId_encode, length_u64, Bincode.array,
    d.pubkey.length_eq, Bincode.seq, Bincode.littleEndian_length, Bincode.bool,
    List.length_singleton]
  omega

theorem MessageClass.length_encode (c : MessageClass) : c.encode.length = 4 := by
  cases c with
  | _ => exact Bincode.littleEndian_length 4 _

/-- The number of the variant comes first, so a body takes at least four bytes. -/
theorem MessageKind.le_length_encode (body : MessageKind) : 4 ≤ body.encode.length := by
  have hvariant : ∀ (tag : Nat) (fields : List UInt8),
      4 ≤ (Bincode.variant tag ++ fields).length := by
    intro tag fields
    rw [List.length_append, Bincode.variant, Bincode.littleEndian_length]
    exact Nat.le_add_right 4 _
  cases body with
  | _ => exact hvariant _ _

/-- What is signed of an envelope has 78 bytes and those of its body, so it is
longer than a token or a certificate. -/
theorem Envelope.length_signingPayload (e : Envelope) :
    e.signingPayload.length = 78 + e.body.encode.length := by
  simp only [signingPayload, List.length_append, length_nodeId_encode, length_u64, Bincode.u8,
    MessageClass.length_encode, Bincode.bool, List.length_singleton]
  omega

/-- An entry of a reach list starts with a small number and a zero. -/
theorem ReachSpec.encode_head (spec : ReachSpec) :
    ∃ tag rest, tag ≤ 1 ∧ spec.encode = tag :: 0 :: rest := by
  cases spec with
  | direct addr => exact ⟨0, _, by decide, rfl⟩
  | relayed relay circuitHandle => exact ⟨1, _, by decide, rfl⟩

/-- The first byte of a class tells whether it is the normal one. -/
theorem MessageClass.encode_head (c : MessageClass) :
    ∃ tag rest, c.encode = tag :: rest ∧ (tag = 0 → c = .normal) := by
  cases c with
  | normal => exact ⟨0, _, rfl, fun _ => rfl⟩
  | criticalUser => exact ⟨1, _, rfl, fun h => absurd h (by decide)⟩

/-- How a descriptor and an envelope look whose signed bytes are the same. -/
structure Confusable (d : Descriptor) (e : Envelope) : Prop where
  recipient : e.toId = d.nodeId
  sender : e.fromId.bytes = d.pubkey
  messageId : e.messageId = UInt64.ofNat d.reach.length
  reach : d.reach ≠ []
  ttl : e.ttl ≤ 1
  messageClass : e.messageClass = .normal

/-- A descriptor and an envelope with the same signed bytes are confusable:
their fields fit together byte by byte. -/
theorem confusable_of_payload_eq {d : Descriptor} {e : Envelope}
    (h : d.signingPayload = e.signingPayload) : Confusable d e := by
  -- more than the nine bytes of version and flag follow the number
  have hlength := congrArg List.length h
  rw [d.length_signingPayload, e.length_signingPayload] at hlength
  have hbody := e.body.le_length_encode
  have hreach : d.reach ≠ [] := by
    intro hnil
    rw [hnil, List.flatMap_nil, List.length_nil] at hlength
    omega
  obtain ⟨hid, hrest⟩ := NodeId.encode_selfDelimiting d.nodeId trivial e.toId trivial _ _ h
  obtain ⟨hkey, hrest⟩ :=
    Bincode.array_selfDelimiting d.pubkey trivial e.fromId.bytes trivial _ _ hrest
  rw [Bincode.seq, List.append_assoc] at hrest
  obtain ⟨hnumber, hrest⟩ := List.append_inj hrest (by simp [Bincode.u64])
  have hmessageId : e.messageId = UInt64.ofNat d.reach.length := by
    have hvalue := congrArg Bincode.Decoder.value hnumber
    rw [Bincode.u64, Bincode.value_littleEndian, Bincode.value_littleEndian] at hvalue
    rw [← UInt64.toNat_inj, UInt64.toNat_ofNat']
    have hlt := e.messageId.toNat_lt
    omega
  -- the first entry lies over the time to live and the class
  obtain ⟨spec, specs, hspecs⟩ := List.exists_cons_of_ne_nil hreach
  obtain ⟨tag, rest, htag, hspec⟩ := spec.encode_head
  obtain ⟨classTag, classRest, hclass, hnormal⟩ := e.messageClass.encode_head
  rw [hspecs, List.flatMap_cons, hspec, Bincode.u8, hclass] at hrest
  simp only [List.cons_append, List.nil_append, List.cons.injEq] at hrest
  obtain ⟨rfl, rfl, _⟩ := hrest
  exact ⟨hid.symm, hkey.symm, hmessageId, hreach, htag, hnormal rfl⟩

/-- **Signed types.**  The signed bytes of descriptors, envelopes, invites and
certificate payloads are pairwise different, but for descriptors and envelopes
of the one form that lets them coincide. -/
theorem signed_types_apart (d : Descriptor) (e : Envelope) (token : InviteToken)
    (p : CertPayload) :
    token.signedPayload ≠ p.toBytes ∧ d.signingPayload ≠ token.signedPayload ∧
      d.signingPayload ≠ p.toBytes ∧ e.signingPayload ≠ token.signedPayload ∧
        e.signingPayload ≠ p.toBytes ∧
          (d.signingPayload = e.signingPayload → Confusable d e) := by
  have hd := d.length_signingPayload
  have he := e.length_signingPayload
  have htoken := token.length_signedPayload
  have hp := p.length_toBytes
  refine ⟨?_, ?_, ?_, ?_, ?_, confusable_of_payload_eq⟩
  all_goals
    intro heq
    have hlength := congrArg List.length heq
    omega

/-- A relay whose identifier reads as the end of a header and the start of user
data. -/
def ambiguousRelay : NodeId :=
  ⟨⟨[0, 0, 7, 0, 0, 0, 35] ++ List.replicate 25 0, by decide⟩⟩

/-- A descriptor that names it. -/
def ambiguousDescriptor : Descriptor where
  nodeId := NodeId.zero
  pubkey := Bytes.replicate 32 1
  reach := [.relayed ambiguousRelay 0]
  version := 1
  provisional := false
  signature := []

/-- The same bytes as an envelope. -/
def ambiguousEnvelope : Envelope where
  toId := NodeId.zero
  fromId := ⟨Bytes.replicate 32 1⟩
  messageId := 1
  ttl := 1
  messageClass := .normal
  routeFork := false
  body := .userData (List.replicate 26 0 ++ [1, 0, 0, 0, 0, 0, 0, 0, 0])
  signature := []

/-- **One signature for two objects.**  The signed bytes of a descriptor are
those of an envelope. -/
theorem signed_bytes_of_two_types :
    ¬ ∀ (d : Descriptor) (e : Envelope) (token : InviteToken) (p : CertPayload),
      [d.signingPayload, e.signingPayload, token.signedPayload, p.toBytes].Pairwise (· ≠ ·) := by
  intro h
  have hdiffer := h ambiguousDescriptor ambiguousEnvelope
    ⟨NodeId.zero, 0, NodeId.zero, Bytes.replicate 32 0, []⟩ ⟨0, 0, Bytes.replicate 32 0⟩
  have hsame : ambiguousDescriptor.signingPayload = ambiguousEnvelope.signingPayload := by
    decide +kernel
  exact (List.pairwise_cons.mp hdiffer).1 _ List.mem_cons_self hsame

end Zona
