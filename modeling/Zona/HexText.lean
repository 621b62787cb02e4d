import Mathlib.Data.List.Basic

/-!
# Hexadecimal text

Bytes as lower-case hexadecimal text, and the decoder that accepts digits of
either case.  Decoding undoes encoding; the converse fails on upper-case
digits, so two texts may name the same bytes.
-/

namespace Hex

/-- The lower-case digit of a value below sixteen. -/
def digit (n : Nat) : Char :=
  if n < 10 then Char.ofNat (48 + n) else Char.ofNat (87 + n)

/-- The value of a digit of either case. -/
def value? (c : Char) : Option Nat :=
  if '0' ≤ c ∧ c ≤ '9' then some (c.toNat - 48)
  else if 'a' ≤ c ∧ c ≤ 'f' then some (c.toNat - 87)
  else if 'A' ≤ c ∧ c ≤ 'F' then some (c.toNat - 55)
  else none

def encodeChars (bs : List UInt8) : List Char :=
  bs.flatMap (fun b => [digit (b.toNat / 16), digit (b.toNat % 16)])

/-- `hex::encode`. -/
def encode (bs : List UInt8) : String :=
  String.ofList (encodeChars bs)

def decodeChars : List Char → Option (List UInt8)
  | [] => some []
  | [_] => none
  | hi :: lo :: rest => do
      let h ← value? hi
      let l ← value? lo
      let bs ← decodeChars rest
      pure (UInt8.ofNat (16 * h + l) :: bs)

/-- `hex::decode`, with its errors forgotten. -/
def decode (s : String) : Option (List UInt8) :=
  decodeChars s.toList

/-- Each of the sixteen digits has its own value, which is its place in the
alphabet. -/
theorem value?_digit : ∀ n < 16, value? (digit n) = some n := by
  decide

/-- Bytes are read back from their pairs of digits, one after the other. -/
theorem decodeChars_encodeChars (bs : List UInt8) :
    decodeChars (encodeChars bs) = some bs := by
  induction bs with
  | nil => rfl
  | cons b bs ih =>
      have hlt := b.toNat_lt
      have hhi := value?_digit (b.toNat / 16) (by omega)
      have hlo := value?_digit (b.toNat % 16) (by omega)
      have hbyte : UInt8.ofNat (16 * (b.toNat / 16) + b.toNat % 16) = b := by
        rw [Nat.div_add_mod]
        exact UInt8.ofNat_toNat
      have hcons : encodeChars (b :: bs)
          = digit (b.toNat / 16) :: digit (b.toNat % 16) :: encodeChars bs := by
        simp [encodeChars]
      simp only [hcons, decodeChars, hhi, hlo, ih, Option.bind_eq_bind, Option.bind_some,
        Option.pure_def, hbyte]

/-- The text of some bytes is decoded into these bytes.  Identifiers travel in
this form. -/
@[simp]
theorem decode_encode (bs : List UInt8) : decode (encode bs) = some bs := by
  simp [decode, encode, decodeChars_encodeChars]

/-- Two digits make a byte, so a text that decodes to 32 bytes has 64 digits. -/
theorem length_of_decodeChars : ∀ {cs : List Char} {bs : List UInt8},
    decodeChars cs = some bs → cs.length = 2 * bs.length
  | [], bs, h => by
      cases h
      rfl
  | [_], bs, h => by cases h
  | hi :: lo :: rest, bs, h => by
      simp only [decodeChars, Option.bind_eq_bind, Option.pure_def] at h
      obtain ⟨hiValue, -, h⟩ := Option.bind_eq_some_iff.mp h
      obtain ⟨loValue, -, h⟩ := Option.bind_eq_some_iff.mp h
      obtain ⟨decoded, hrest, h⟩ := Option.bind_eq_some_iff.mp h
      have hlength := length_of_decodeChars hrest
      cases h
      simp only [List.length_cons]
      omega

/-- What can be decoded is an even number of digits. -/
theorem decodeChars_isSome_iff : ∀ {cs : List Char},
    (decodeChars cs).isSome = true ↔ 2 ∣ cs.length ∧ ∀ c ∈ cs, (value? c).isSome = true
  | [] => by simp [decodeChars]
  | [_] => by simp [decodeChars]
  | hi :: lo :: rest => by
      have ih := @decodeChars_isSome_iff rest
      have hlength : 2 ∣ (hi :: lo :: rest).length ↔ 2 ∣ rest.length := by
        simp only [List.length_cons]
        omega
      rw [hlength]
      simp only [decodeChars, Option.bind_eq_bind, Option.pure_def, List.forall_mem_cons]
      cases value? hi with
      | none => simp
      | some h =>
          cases value? lo with
          | none => simp
          | some l =>
              rw [and_left_comm]
              simp only [Option.bind_some, Option.isSome_some, true_and, ← ih]
              cases decodeChars rest with
              | none => simp
              | some bs => simp

end Hex
