import Zona.BincodeDecoding
import Zona.WireMessages

/-!
# Reading messages off the wire

For every type on the wire the decoder that its derived `Deserialize` amounts
to.  Flow label and scope of an address are not on the wire, and lengths are
64-bit numbers; of the values that keep to this, the plain ones, every one is
read back as it was written.

A signed payload is an encoding that leaves out the signature, so it is read
back with an empty one.
-/

namespace Zona

open Bincode

/-- Without a flow label and a scope. -/
def SocketAddr.Plain : SocketAddr → Prop
  | .v4 _ _ => True
  | .v6 _ _ flowinfo scopeId => flowinfo = 0 ∧ scopeId = 0

def ReachSpec.Plain : ReachSpec → Prop
  | .direct addr => addr.Plain
  | .relayed _ _ => True

structure Descriptor.Plain (d : Descriptor) : Prop where
  reach : d.reach.length < 2 ^ 64 ∧ ∀ spec ∈ d.reach, spec.Plain
  signature : d.signature.length < 2 ^ 64

def MessageKind.Plain : MessageKind → Prop
  | .hello descriptor => descriptor.Plain
  | .foundNodes peers => peers.length < 2 ^ 64 ∧ ∀ c ∈ peers, c.descriptor.Plain
  | .pex candidates => candidates.length < 2 ^ 64 ∧ ∀ c ∈ candidates, c.descriptor.Plain
  | .announceDescriptor descriptor => descriptor.Plain
  | .userData payload => payload.length < 2 ^ 64
  | .invite token => token.length < 2 ^ 64
  | _ => True

structure Envelope.Plain (e : Envelope) : Prop where
  body : e.body.Plain
  signature : e.signature.length < 2 ^ 64

def NodeId.decode : Decoder NodeId := do
  let bytes ← Decoder.array 32
  pure ⟨bytes⟩

def SocketAddr.decode : Decoder SocketAddr := do
  match ← Decoder.variant with
  | 0 => do
      let ip ← Decoder.array 4
      let port ← Decoder.u16
      pure (.v4 ip port)
  | 1 => do
      let ip ← Decoder.array 16
      let port ← Decoder.u16
      pure (.v6 ip port 0 0)
  | _ => failure

def ReachSpec.decode : Decoder ReachSpec := do
  match ← Decoder.variant with
  | 0 => do
      let addr ← SocketAddr.decode
      pure (.direct addr)
  | 1 => do
      let relay ← NodeId.decode
      let circuitHandle ← Decoder.u64
      pure (.relayed relay circuitHandle)
  | _ => failure

/-- The signed fields of a descriptor. -/
def Descriptor.decodeSigned : Decoder Descriptor := do
  let nodeId ← NodeId.decode
  let pubkey ← Decoder.array 32
  let reach ← Decoder.seq ReachSpec.decode
  let version ← Decoder.u64
  let provisional ← Decoder.bool
  pure ⟨nodeId, pubkey, reach, version, provisional, []⟩

def Descriptor.decode : Decoder Descriptor := do
  let d ← Descriptor.decodeSigned
  let signature ← Decoder.bytes
  pure { d with signature := signature }

def PexCandidate.decode : Decoder PexCandidate := do
  let descriptor ← Descriptor.decode
  let referrerId ← NodeId.decode
  pure ⟨descriptor, referrerId⟩

def MessageClass.decode : Decoder MessageClass := do
  match ← Decoder.variant with
  | 0 => pure .normal
  | 1 => pure .criticalUser
  | _ => failure

def MessageKind.decode : Decoder MessageKind := do
  match ← Decoder.variant with
  | 0 => do
      let descriptor ← Descriptor.decode
      pure (.hello descriptor)
  | 1 => do
      let target ← NodeId.decode
      let count ← Decoder.u8
      pure (.findNode target count)
  | 2 => do
      let peers ← Decoder.seq PexCandidate.decode
      pure (.foundNodes peers)
  | 3 => do
      let candidates ← Decoder.seq PexCandidate.decode
      pure (.pex candidates)
  | 4 => do
      let nonce ← Decoder.u64
      pure (.ping nonce)
  | 5 => do
      let nonce ← Decoder.u64
      pure (.pong nonce)
  | 6 => do
      let descriptor ← Descriptor.decode
      pure (.announceDescriptor descriptor)
  | 7 => do
      let payload ← Decoder.bytes
      pure (.userData payload)
  | 8 => do
      let token ← Decoder.bytes
      pure (.invite token)
  | _ => failure

/-- The signed fields of an envelope. -/
def Envelope.decodeSigned : Decoder Envelope := do
  let toId ← NodeId.decode
  let fromId ← NodeId.decode
  let messageId ← Decoder.u64
  let ttl ← Decoder.u8
  let messageClass ← MessageClass.decode
  let routeFork ← Decoder.bool
  let body ← MessageKind.decode
  pure ⟨toId, fromId, messageId, ttl, messageClass, routeFork, body, []⟩

def Envelope.encode : Encoder Envelope := fun e =>
  e.signingPayload ++ Bincode.bytes e.signature

def Envelope.decode : Decoder Envelope := do
  let e ← Envelope.decodeSigned
  let signature ← Decoder.bytes
  pure { e with signature := signature }

theorem NodeId.reads : Reads NodeId.decode NodeId.encode Set.univ := by
  intro id _ rest
  rw [decode, encode, (reads_array 32).run_bind trivial]
  rfl

/-- Addresses are read back, but for flow label and scope, which plain ones do
not have. -/
theorem SocketAddr.reads : Reads SocketAddr.decode SocketAddr.encode {addr | addr.Plain} := by
  intro addr hplain rest
  cases addr with
  | v4 ip port =>
      rw [encode, List.append_assoc, decode, reads_variant (by decide)]
      simp only
      rw [List.append_assoc, (reads_array 4).run_bind trivial, reads_u16.run_bind trivial]
      rfl
  | v6 ip port flowinfo scopeId =>
      obtain ⟨hflow, hscope⟩ := hplain
      rw [encode, List.append_assoc, decode, reads_variant (by decide)]
      simp only
      rw [List.append_assoc, (reads_array 16).run_bind trivial, reads_u16.run_bind trivial,
        hflow, hscope]
      rfl

/-- Ways to reach a node are read back if their addresses are plain. -/
theorem ReachSpec.reads : Reads ReachSpec.decode ReachSpec.encode {spec | spec.Plain} := by
  intro spec hplain rest
  cases spec with
  | direct addr =>
      rw [encode, List.append_assoc, decode, reads_variant (by decide)]
      simp only
      rw [SocketAddr.reads.run_bind hplain]
      rfl
  | relayed relay circuitHandle =>
      rw [encode, List.append_assoc, decode, reads_variant (by decide)]
      simp only
      rw [List.append_assoc, NodeId.reads.run_bind trivial, reads_u64.run_bind trivial]
      rfl

/-- **A signed payload** is read back without the signature, so the signed
bytes determine the descriptor up to its signature. -/
theorem Descriptor.reads_signed : Reads Descriptor.decodeSigned Descriptor.signingPayload
    {d | d.Plain ∧ d.signature = []} := by
  rintro ⟨nodeId, pubkey, reach, version, provisional, signature⟩ ⟨hplain, hsignature⟩ rest
  obtain rfl : signature = [] := hsignature
  simp only [decodeSigned, signingPayload, List.append_assoc]
  rw [NodeId.reads.run_bind trivial, (reads_array 32).run_bind trivial,
    (reads_seq ReachSpec.reads).run_bind hplain.reach, reads_u64.run_bind trivial,
    reads_bool.run_bind trivial]
  rfl

theorem Descriptor.Plain.unsigned {d : Descriptor} (h : d.Plain) :
    ({ d with signature := [] } : Descriptor).Plain :=
  ⟨h.reach, Nat.two_pow_pos 64⟩

theorem Descriptor.reads : Reads Descriptor.decode Descriptor.encode {d | d.Plain} := by
  intro d hplain rest
  have hpayload : d.signingPayload = ({ d with signature := [] } : Descriptor).signingPayload := rfl
  rw [decode, encode, List.append_assoc, hpayload,
    Descriptor.reads_signed.run_bind ⟨Plain.unsigned hplain, rfl⟩,
    reads_bytes.run_bind hplain.signature]
  rfl

/-- Candidates are read back if their descriptors are plain. -/
theorem PexCandidate.reads :
    Reads PexCandidate.decode PexCandidate.encode {c | c.descriptor.Plain} := by
  intro c hplain rest
  rw [decode, encode, List.append_assoc, Descriptor.reads.run_bind hplain,
    NodeId.reads.run_bind trivial]
  rfl

/-- Classes of messages are read back from the number of their variant. -/
theorem MessageClass.reads : Reads MessageClass.decode MessageClass.encode Set.univ := by
  intro messageClass _ rest
  cases messageClass with
  | _ =>
      rw [encode, decode, reads_variant (by decide)]
      rfl

/-- Plain bodies are read back: the number of the variant selects the decoder
of the fields. -/
theorem MessageKind.reads : Reads MessageKind.decode MessageKind.encode {body | body.Plain} := by
  intro body hplain rest
  cases body with
  | hello descriptor =>
      rw [encode, List.append_assoc, decode, reads_variant (by decide)]
      simp only
      rw [Descriptor.reads.run_bind hplain]
      rfl
  | findNode target count =>
      rw [encode, List.append_assoc, decode, reads_variant (by decide)]
      simp only
      rw [List.append_assoc, NodeId.reads.run_bind trivial, reads_u8.run_bind trivial]
      rfl
  | foundNodes peers =>
      rw [encode, List.append_assoc, decode, reads_variant (by decide)]
      simp only
      rw [(reads_seq PexCandidate.reads).run_bind hplain]
      rfl
  | pex candidates =>
      rw [encode, List.append_assoc, decode, reads_variant (by decide)]
      simp only
      rw [(reads_seq PexCandidate.reads).run_bind hplain]
      rfl
  | ping nonce =>
      rw [encode, List.append_assoc, decode, reads_variant (by decide)]
      simp only
      rw [reads_u64.run_bind trivial]
      rfl
  | pong nonce =>
      rw [encode, List.append_assoc, decode, reads_variant (by decide)]
      simp only
      rw [reads_u64.run_bind trivial]
      rfl
  | announceDescriptor descriptor =>
      rw [encode, List.append_assoc, decode, reads_variant (by decide)]
      simp only
      rw [Descriptor.reads.run_bind hplain]
      rfl
  | userData payload =>
      rw [encode, List.append_assoc, decode, reads_variant (by decide)]
      simp only
      rw [reads_bytes.run_bind hplain]
      rfl
  | invite token =>
      rw [encode, List.append_assoc, decode, reads_variant (by decide)]
      simp only
      rw [reads_bytes.run_bind hplain]
      rfl

/-- The signed part of a plain envelope is read back, so it determines all
fields but the signature. -/
theorem Envelope.reads_signed : Reads Envelope.decodeSigned Envelope.signingPayload
    {e | e.Plain ∧ e.signature = []} := by
  rintro ⟨toId, fromId, messageId, ttl, messageClass, routeFork, body, signature⟩
    ⟨hplain, hsignature⟩ rest
  obtain rfl : signature = [] := hsignature
  simp only [decodeSigned, signingPayload, List.append_assoc]
  rw [NodeId.reads.run_bind trivial, NodeId.reads.run_bind trivial, reads_u64.run_bind trivial,
    reads_u8.run_bind trivial, MessageClass.reads.run_bind trivial, reads_bool.run_bind trivial,
    MessageKind.reads.run_bind hplain.body]
  rfl

theorem Envelope.Plain.unsigned {e : Envelope} (h : e.Plain) :
    ({ e with signature := [] } : Envelope).Plain :=
  ⟨h.body, Nat.two_pow_pos 64⟩

/-- **Envelopes** are read back as they were written, whatever bytes follow,
which is what the framing on the wire needs. -/
theorem Envelope.reads : Reads Envelope.decode Envelope.encode {e | e.Plain} := by
  intro e hplain rest
  have hpayload : e.signingPayload = ({ e with signature := [] } : Envelope).signingPayload := rfl
  rw [decode, encode, List.append_assoc, hpayload,
    Envelope.reads_signed.run_bind ⟨Plain.unsigned hplain, rfl⟩,
    reads_bytes.run_bind hplain.signature]
  rfl

/-- Two envelopes agree in every field that their signatures cover. -/
def Envelope.SameSigned (e f : Envelope) : Prop :=
  e.toId = f.toId ∧ e.fromId = f.fromId ∧ e.messageId = f.messageId ∧ e.ttl = f.ttl ∧
    e.messageClass = f.messageClass ∧ e.routeFork = f.routeFork ∧ e.body = f.body

def Descriptor.SameSigned (d e : Descriptor) : Prop :=
  d.nodeId = e.nodeId ∧ d.pubkey = e.pubkey ∧ d.reach = e.reach ∧ d.version = e.version ∧
    d.provisional = e.provisional

/-- **Signed bytes are unambiguous.**  Descriptors with one signed payload agree
in every signed field, and so do envelopes. -/
theorem signed_bytes_unambiguous :
    (∀ d e : Descriptor, d.Plain → e.Plain → d.signingPayload = e.signingPayload →
      d.SameSigned e) ∧
    (∀ e f : Envelope, e.Plain → f.Plain → e.signingPayload = f.signingPayload →
      e.SameSigned f) := by
  constructor
  · intro d e hd he h
    have hunsigned : ({ d with signature := [] } : Descriptor) = { e with signature := [] } :=
      Descriptor.reads_signed.selfDelimiting.injOn ⟨hd.unsigned, rfl⟩ ⟨he.unsigned, rfl⟩ h
    obtain ⟨hid, hkey, hreach, hversion, hprovisional, _⟩ := Descriptor.mk.inj hunsigned
    exact ⟨hid, hkey, hreach, hversion, hprovisional⟩
  · intro e f he hf h
    have hunsigned : ({ e with signature := [] } : Envelope) = { f with signature := [] } :=
      Envelope.reads_signed.selfDelimiting.injOn ⟨he.unsigned, rfl⟩ ⟨hf.unsigned, rfl⟩ h
    obtain ⟨hto, hfrom, hid, httl, hclass, hfork, hbody, _⟩ := Envelope.mk.inj hunsigned
    exact ⟨hto, hfrom, hid, httl, hclass, hfork, hbody⟩

/-- A descriptor with an address and a relay, unsigned. -/
def reachableDescriptor : Descriptor where
  nodeId := NodeId.zero
  pubkey := Bytes.replicate 32 1
  reach := [.direct (.v6 (Bytes.replicate 16 2) 7000 0 0), .relayed NodeId.zero 3]
  version := 1
  provisional := true
  signature := []

theorem reachableDescriptor_plain : reachableDescriptor.Plain := by
  refine ⟨⟨by decide, ?_⟩, by decide⟩
  intro spec hspec
  rcases List.mem_pair.mp hspec with rfl | rfl
  · exact ⟨rfl, rfl⟩
  · trivial

/-- An offer of it to a peer. -/
def reachableHello : Envelope where
  toId := NodeId.zero
  fromId := NodeId.zero
  messageId := 1
  ttl := 20
  messageClass := .normal
  routeFork := false
  body := .foundNodes [⟨reachableDescriptor, NodeId.zero⟩]
  signature := []

theorem reachableHello_plain : reachableHello.Plain := by
  refine ⟨⟨by decide, ?_⟩, by decide⟩
  intro c hc
  rw [List.mem_singleton.mp hc]
  exact reachableDescriptor_plain

/-- Other signatures, and the same signed fields, which shows that a signature
is not covered by itself. -/
theorem resigned_sameSigned :
    reachableDescriptor.SameSigned { reachableDescriptor with signature := [1] } ∧
      reachableHello.SameSigned { reachableHello with signature := [1] } :=
  ⟨signed_bytes_unambiguous.1 _ _ reachableDescriptor_plain
      ⟨reachableDescriptor_plain.reach, by decide⟩ rfl,
    signed_bytes_unambiguous.2 _ _ reachableHello_plain
      ⟨reachableHello_plain.body, by decide⟩ rfl⟩

end Zona
