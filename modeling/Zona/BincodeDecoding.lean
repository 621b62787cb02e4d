import Zona.BincodeLayout

/-!
# Reading the bincode layout

A decoder takes a value from the front of some bytes and leaves the others.
`Reads dec enc s` says that it reads back what `enc` wrote of the values in
`s`, whatever comes behind; `Reads.run_bind` is how a sequence of fields is
read.  Layouts that are read back are self-delimiting (`Reads.selfDelimiting`).
-/

namespace Bincode

/-- A decoder of values of type `α`. -/
abbrev Decoder (α : Type) := StateT (List UInt8) Option α

variable {α β : Type}

/-- The decoder reads back what was written of the values in `s`. -/
def Reads (dec : Decoder α) (enc : Encoder α) (s : Set α) : Prop :=
  ∀ x ∈ s, ∀ rest, dec.run (enc x ++ rest) = some (x, rest)

/-- Reading on after a field: what was written first is read first, and the
next decoder starts where it ended. -/
theorem Reads.run_bind {dec : Decoder α} {enc : Encoder α} {s : Set α} (h : Reads dec enc s)
    {x : α} (hx : x ∈ s) (next : α → Decoder β) (rest : List UInt8) :
    (dec >>= next).run (enc x ++ rest) = (next x).run rest := by
  rw [StateT.run_bind, h x hx rest]
  rfl

/-- What can be read back is self-delimiting, since the reader tells the value
and the rest apart. -/
theorem Reads.selfDelimiting {dec : Decoder α} {enc : Encoder α} {s : Set α}
    (h : Reads dec enc s) : SelfDelimiting enc s := by
  intro x hx y hy r t heq
  have hread := h x hx r
  rw [heq, h y hy t, Option.some.injEq, Prod.mk.injEq] at hread
  exact ⟨hread.1.symm, hread.2.symm⟩

namespace Decoder

/-- The next `n` bytes. -/
def take (n : Nat) : Decoder (List UInt8) := fun bs =>
  if n ≤ bs.length then some (bs.take n, bs.drop n) else none

/-- The value of little-endian bytes. -/
def value : List UInt8 → Nat
  | [] => 0
  | b :: bs => b.toNat + 256 * value bs

/-- An unsigned number of `k` bytes. -/
def word (k : Nat) : Decoder Nat := do
  let bs ← take k
  pure (value bs)

def u8 : Decoder UInt8 := do
  let n ← word 1
  pure (UInt8.ofNat n)

def u16 : Decoder UInt16 := do
  let n ← word 2
  pure (UInt16.ofNat n)

def u64 : Decoder UInt64 := do
  let n ← word 8
  pure (UInt64.ofNat n)

/-- A byte that is zero or one. -/
def bool : Decoder Bool := do
  match ← word 1 with
  | 0 => pure false
  | 1 => pure true
  | _ => failure

/-- The number of an enum variant. -/
def variant : Decoder Nat := word 4

def array (n : Nat) : Decoder (Bytes n) := do
  let bs ← take n
  match Bytes.ofList? n bs with
  | some a => pure a
  | none => failure

/-- Read `n` elements. -/
def times (dec : Decoder α) : Nat → Decoder (List α)
  | 0 => pure []
  | n + 1 => do
      let x ← dec
      let xs ← times dec n
      pure (x :: xs)

def seq (dec : Decoder α) : Decoder (List α) := do
  let n ← word 8
  times dec n

def bytes : Decoder (List UInt8) := seq u8

end Decoder

/-- Reading on after some bytes: a decoder that takes as many gets these, and
the rest is left. -/
theorem take_bind {n : Nat} {bs : List UInt8} (hn : bs.length = n)
    (next : List UInt8 → Decoder β) (rest : List UInt8) :
    (Decoder.take n >>= next).run (bs ++ rest) = (next bs).run rest := by
  have htake : (Decoder.take n).run (bs ++ rest) = some (bs, rest) := by
    subst hn
    simp [Decoder.take, StateT.run]
  rw [StateT.run_bind, htake]
  rfl

/-- The low bytes of a number have its value, up to their width. -/
theorem value_littleEndian (k n : Nat) : Decoder.value (littleEndian k n) = n % 256 ^ k := by
  induction k generalizing n with
  | zero => rw [littleEndian, Decoder.value, Nat.pow_zero, Nat.mod_one]
  | succ k ih =>
      have hsplit : n % 256 ^ (k + 1) = n % 256 + 256 * (n / 256 % 256 ^ k) := by
        rw [Nat.pow_succ', Nat.mod_mul]
      rw [littleEndian, Decoder.value, ih, UInt8.toNat_ofNat', hsplit]

/-- A word of given width is read back from its bytes, lowest first, if it fits
into them. -/
theorem reads_word (k : Nat) : Reads (Decoder.word k) (littleEndian k) {n | n < 256 ^ k} := by
  intro n hn rest
  rw [Decoder.word, take_bind (littleEndian_length k n), value_littleEndian, Nat.mod_eq_of_lt hn]
  rfl

/-- The number of a variant comes first and selects the decoder of its fields. -/
theorem reads_variant {tag : Nat} (h : tag < 256 ^ 4) (next : Nat → Decoder β)
    (rest : List UInt8) : (Decoder.variant >>= next).run (variant tag ++ rest) = (next tag).run rest :=
  (reads_word 4).run_bind h next rest

theorem reads_u8 : Reads Decoder.u8 u8 Set.univ := by
  intro x _ rest
  have hlow : u8 x = littleEndian 1 x.toNat := by simp [u8, littleEndian]
  rw [Decoder.u8, hlow, (reads_word 1).run_bind (by simpa using x.toNat_lt)]
  simp

/-- Every `u16` is read back from its two bytes. -/
theorem reads_u16 : Reads Decoder.u16 u16 Set.univ := by
  intro x _ rest
  rw [Decoder.u16, u16, (reads_word 2).run_bind (by simpa using x.toNat_lt)]
  simp

/-- Every `u64` is read back from its eight bytes. -/
theorem reads_u64 : Reads Decoder.u64 u64 Set.univ := by
  intro x _ rest
  rw [Decoder.u64, u64, (reads_word 8).run_bind (by simpa using x.toNat_lt)]
  simp

/-- A truth value is read back from its byte, which is zero or one.  Other
bytes are refused. -/
theorem reads_bool : Reads Decoder.bool bool Set.univ := by
  intro x _ rest
  cases x with
  | false =>
      have hlow : bool false = littleEndian 1 0 := by decide
      rw [Decoder.bool, hlow, (reads_word 1).run_bind (by decide)]
      rfl
  | true =>
      have hlow : bool true = littleEndian 1 1 := by decide
      rw [Decoder.bool, hlow, (reads_word 1).run_bind (by decide)]
      rfl

/-- An array is read back without a length in front, since its type fixes the
number of bytes. -/
theorem reads_array (n : Nat) : Reads (Decoder.array n) array Set.univ := by
  intro a _ rest
  rw [Decoder.array, array, take_bind a.length_eq, Bytes.ofList?_toList]
  rfl

/-- A number of items is read back one after the other, by induction on the
items. -/
theorem reads_times {dec : Decoder α} {enc : Encoder α} {s : Set α} (h : Reads dec enc s)
    (xs : List α) (hxs : ∀ x ∈ xs, x ∈ s) (rest : List UInt8) :
    (Decoder.times dec xs.length).run (xs.flatMap enc ++ rest) = some (xs, rest) := by
  induction xs with
  | nil => rfl
  | cons x xs ih =>
      rw [List.length_cons, Decoder.times, List.flatMap_cons, List.append_assoc,
        h.run_bind (hxs x List.mem_cons_self), StateT.run_bind,
        ih fun y hy => hxs y (List.mem_cons_of_mem x hy)]
      rfl

/-- A vector is read back as long as its length fits the prefix. -/
theorem reads_seq {dec : Decoder α} {enc : Encoder α} {s : Set α} (h : Reads dec enc s) :
    Reads (Decoder.seq dec) (seq enc) {xs | xs.length < 2 ^ 64 ∧ ∀ x ∈ xs, x ∈ s} := by
  rintro xs ⟨hlength, hxs⟩ rest
  rw [Decoder.seq, seq, List.append_assoc, (reads_word 8).run_bind (by simpa using hlength)]
  exact reads_times h xs hxs rest

/-- A byte string is read back if its length fits into the eight bytes in front
of it. -/
theorem reads_bytes : Reads Decoder.bytes bytes {bs | bs.length < 2 ^ 64} := by
  intro bs hbs rest
  exact reads_seq reads_u8 bs ⟨hbs, fun _ _ => trivial⟩ rest

end Bincode
