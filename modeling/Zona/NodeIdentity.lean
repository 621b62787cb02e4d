import Zona.BincodeLayout
import Zona.HexText

/-!
# Node identifiers and the primitives behind them

A `NodeId` is the SHA-256 of an Ed25519 public key.  The two primitives come
from outside the repository and enter every model as the parameter `Crypto`:
a hash, a signature scheme on 32-byte seeds and 32-byte public keys, and the
check that 32 bytes decode to a key at all.  Nothing is assumed of them
except, where a statement says so, `Crypto.Sound`: what is signed verifies.
-/

namespace Zona

/-- The hash and the signature scheme. -/
class Crypto where
  sha256 : List UInt8 → Bytes 32
  /-- The public key of a 32-byte seed. -/
  verifyingKey : Bytes 32 → Bytes 32
  /-- `VerifyingKey::from_bytes` succeeds. -/
  keyDecodes : Bytes 32 → Bool
  sign : Bytes 32 → List UInt8 → Bytes 64
  verify : Bytes 32 → List UInt8 → Bytes 64 → Bool

/-- Signing and then verifying under the matching public key succeeds. -/
def Crypto.Sound (c : Crypto) : Prop :=
  ∀ seed message, c.keyDecodes (c.verifyingKey seed) = true ∧
    c.verify (c.verifyingKey seed) message (c.sign seed message) = true

/-- A 256-bit node identifier. -/
structure NodeId where
  bytes : Bytes 32
  deriving DecidableEq

namespace NodeId

def zero : NodeId := ⟨Bytes.replicate 32 0⟩

/-- XOR distance to another identifier, compared as a byte array. -/
def xorDistance (a b : NodeId) : Bytes 32 :=
  a.bytes.xor b.bytes

/-- `a` is closer to `target` than `other` is. -/
def isCloserTo (a target other : NodeId) : Bool :=
  decide (a.xorDistance target < other.xorDistance target)

/-- The identifier in full hexadecimal. -/
def hex (a : NodeId) : String :=
  Hex.encode a.bytes.toList

/-- The short form used in messages to a reader: the first eight bytes. -/
def display (a : NodeId) : String :=
  Hex.encode (a.bytes.toList.take 8)

/-- `parse_node_id`: full hexadecimal of exactly 32 bytes. -/
def parse (s : String) : Option NodeId := do
  let bs ← Hex.decode s
  let arr ← Bytes.ofList? 32 bs
  pure ⟨arr⟩

/-- An identifier is found again from its text, so a request names the node
that it was made for. -/
@[simp]
theorem parse_hex (a : NodeId) : parse a.hex = some a := by
  simp [parse, hex]

end NodeId

variable [Crypto]

/-- Derive a node id from a public key. -/
def deriveNodeId (pubkey : Bytes 32) : NodeId :=
  ⟨Crypto.sha256 pubkey.toList⟩

/-- The check every verifier makes: the key decodes, the signature has 64
bytes, and it verifies. -/
def signatureValid (pubkey : Bytes 32) (message signature : List UInt8) : Bool :=
  Crypto.keyDecodes pubkey &&
    match Bytes.ofList? 64 signature with
    | none => false
    | some sig => Crypto.verify pubkey message sig

/-- What a key has signed verifies under it, if the scheme is sound. -/
theorem signatureValid_sign (h : Crypto.Sound ‹Crypto›) (seed : Bytes 32)
    (message : List UInt8) :
    signatureValid (Crypto.verifyingKey seed) message
      (Crypto.sign seed message).toList = true := by
  obtain ⟨hkey, hsig⟩ := h seed message
  simp [signatureValid, hkey, hsig]

/-- An empty signature never verifies, as signatures have 64 bytes. -/
theorem signatureValid_nil (pubkey : Bytes 32) (message : List UInt8) :
    signatureValid pubkey message [] = false := by
  simp [signatureValid, Bytes.ofList?]

/-- An Ed25519 identity. -/
structure NodeKeypair where
  signing : Bytes 32
  verifying : Bytes 32
  nodeId : NodeId
  deriving DecidableEq

namespace NodeKeypair

/-- Reconstruct from a raw 32-byte seed. -/
def fromSeed (seed : Bytes 32) : NodeKeypair where
  signing := seed
  verifying := Crypto.verifyingKey seed
  nodeId := deriveNodeId (Crypto.verifyingKey seed)

def rawPublic (kp : NodeKeypair) : Bytes 32 :=
  kp.verifying

end NodeKeypair

/-- Push a byte into a block: the oldest byte leaves and is mixed into the
newest. -/
def pushByte (block : Bytes 32) (byte : UInt8) : Bytes 32 :=
  ⟨block.toList.tail ++ [3 * block.toList.headD 0 + byte], by simp [block.length_eq]⟩

/-- A checksum in place of the hash: on 32 bytes it is the identity. -/
def blockChecksum (bs : List UInt8) : Bytes 32 :=
  bs.foldl pushByte (Bytes.replicate 32 0)

/-- A stand-in scheme: a key is its own seed, and a signature is the key
followed by the checksum of the message. -/
@[reducible]
def checksumCrypto : Crypto where
  sha256 := blockChecksum
  verifyingKey seed := seed
  keyDecodes _ := true
  sign seed message :=
    ⟨seed.toList ++ (blockChecksum message).toList, by
      simp [seed.length_eq, (blockChecksum message).length_eq]⟩
  verify pubkey message sig :=
    decide (sig.toList = pubkey.toList ++ (blockChecksum message).toList)

omit [Crypto] in
/-- The scheme of the examples is sound, so the assumption can be met. -/
theorem checksumCrypto_sound : checksumCrypto.Sound := by
  intro seed message
  exact ⟨rfl, decide_eq_true rfl⟩

omit [Crypto] in
/-- Pushing as many bytes as the block has zeros in front shifts them in. -/
theorem foldl_pushByte (bytes pre : List UInt8) (block : Bytes 32)
    (h : block.toList = List.replicate bytes.length 0 ++ pre) :
    (bytes.foldl pushByte block).toList = pre ++ bytes := by
  induction bytes generalizing pre block with
  | nil => simpa using h
  | cons b bytes ih =>
      have hpush : (pushByte block b).toList =
          List.replicate bytes.length 0 ++ (pre ++ [b]) := by
        have hlist : (pushByte block b).toList =
            block.toList.tail ++ [3 * block.toList.headD 0 + b] := rfl
        rw [hlist, h]
        simp [List.replicate_succ]
      rw [List.foldl_cons, ih (pre ++ [b]) (pushByte block b) hpush, List.append_assoc]
      rfl

omit [Crypto] in
/-- Under the stand-in scheme an identifier belongs to one key. -/
theorem checksumCrypto_injective :
    Function.Injective (@deriveNodeId checksumCrypto) := by
  intro key key' h
  have hidentity : ∀ k : Bytes 32, (blockChecksum k.toList).toList = k.toList := by
    intro k
    have hzero : (Bytes.replicate 32 0).toList = List.replicate k.toList.length 0 ++ [] := by
      rw [k.length_eq, List.append_nil]
      rfl
    exact foldl_pushByte k.toList [] _ hzero
  unfold deriveNodeId at h
  have hsame : blockChecksum key.toList = blockChecksum key'.toList := NodeId.mk.inj h
  exact Bytes.ext (by rw [← hidentity key, hsame, hidentity key'])

end Zona
