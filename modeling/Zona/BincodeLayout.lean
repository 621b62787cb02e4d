import Zona.FixedBytes
import Mathlib.Algebra.Order.Ring.Nat
import Mathlib.Data.Set.Basic

/-!
# The bincode 1.x byte layout

The default bincode layout: integers are little-endian and of fixed width, a
fixed array or a tuple is the concatenation of its parts, a vector is its
length as a `u64` followed by its elements, and an enum is its variant number
as a `u32` followed by the fields.

An encoder is **self-delimiting** on a set of values when two encodings that
agree up to some continuation come from the same value and leave the same
continuation.  The notion composes, so a layout is unambiguous as soon as its
parts are; taking both continuations empty gives injectivity.
-/

namespace Bincode

/-- An encoder of values of type `α`. -/
abbrev Encoder (α : Type) := α → List UInt8

/-- The `k` low bytes of `n`, least significant first. -/
def littleEndian : Nat → Nat → List UInt8
  | 0, _ => []
  | k + 1, n => UInt8.ofNat n :: littleEndian k (n / 256)

def u8 : Encoder UInt8 := fun x => [x]

def u16 : Encoder UInt16 := fun x => littleEndian 2 x.toNat

def u32 : Encoder UInt32 := fun x => littleEndian 4 x.toNat

def u64 : Encoder UInt64 := fun x => littleEndian 8 x.toNat

def bool : Encoder Bool := fun x => [if x then 1 else 0]

/-- The number of an enum variant. -/
def variant (tag : Nat) : List UInt8 := littleEndian 4 tag

/-- A fixed array: the bytes alone, without a length. -/
def array {n : Nat} : Encoder (Bytes n) := Bytes.toList

/-- A vector: the number of elements, then the elements. -/
def seq {α : Type} (enc : Encoder α) : Encoder (List α) := fun xs =>
  littleEndian 8 xs.length ++ xs.flatMap enc

/-- A byte vector. -/
def bytes : Encoder (List UInt8) := seq u8

/-- Two encodings of values in `s` that agree up to continuations come from
one value and leave one continuation. -/
def SelfDelimiting {α : Type} (enc : Encoder α) (s : Set α) : Prop :=
  ∀ x ∈ s, ∀ y ∈ s, ∀ r t, enc x ++ r = enc y ++ t → x = y ∧ r = t

variable {α β : Type}

/-- A self-delimiting layout writes different values differently, which is what
signatures over it rely on. -/
theorem SelfDelimiting.injOn {enc : Encoder α} {s : Set α}
    (h : SelfDelimiting enc s) : Set.InjOn enc s := by
  intro x hx y hy hxy
  exact (h x hx y hy [] [] (by simpa using hxy)).1

/-- A word takes as many bytes as its width says, whatever its value is. -/
@[simp]
theorem littleEndian_length (k n : Nat) : (littleEndian k n).length = k := by
  induction k generalizing n with
  | zero => rfl
  | succ k ih => simp [littleEndian, ih]

/-- Numbers below `256 ^ k` are recovered from their `k` low bytes. -/
theorem littleEndian_inj {k m n : Nat} (hm : m < 256 ^ k) (hn : n < 256 ^ k)
    (h : littleEndian k m = littleEndian k n) : m = n := by
  induction k generalizing m n with
  | zero =>
      simp only [Nat.pow_zero, Nat.lt_one_iff] at hm hn
      rw [hm, hn]
  | succ k ih =>
      simp only [littleEndian, List.cons.injEq] at h
      obtain ⟨hlow, hhigh⟩ := h
      have hdiv : m / 256 = n / 256 := by
        apply ih _ _ hhigh
        · rw [Nat.pow_succ] at hm
          omega
        · rw [Nat.pow_succ] at hn
          omega
      have hmod : m % 256 = n % 256 := by
        simpa using congrArg UInt8.toNat hlow
      omega

theorem selfDelimiting_of_length {enc : Encoder α} {s : Set α} (w : Nat)
    (hlen : ∀ x ∈ s, (enc x).length = w) (hinj : Set.InjOn enc s) :
    SelfDelimiting enc s := by
  intro x hx y hy r t h
  obtain ⟨hxy, hrt⟩ := List.append_inj h (by rw [hlen x hx, hlen y hy])
  exact ⟨hinj hx hy hxy, hrt⟩

/-- Words of eight bytes are self-delimiting, as they all have the same length
and determine their value. -/
theorem u64_selfDelimiting : SelfDelimiting u64 Set.univ := by
  refine selfDelimiting_of_length 8 (fun x _ => littleEndian_length 8 _) ?_
  intro x _ y _ h
  exact UInt64.toNat_inj.mp (littleEndian_inj x.toNat_lt y.toNat_lt h)

/-- Words of two bytes are self-delimiting for the same reason. -/
theorem u16_selfDelimiting : SelfDelimiting u16 Set.univ := by
  refine selfDelimiting_of_length 2 (fun x _ => littleEndian_length 2 _) ?_
  intro x _ y _ h
  exact UInt16.toNat_inj.mp (littleEndian_inj x.toNat_lt y.toNat_lt h)

theorem bool_injective : Function.Injective bool := by
  intro x y h
  cases x <;> cases y <;> first | rfl | cases h

/-- The variant number comes first and tells the variants apart. -/
theorem variant_append_inj {tag tag' : Nat} (h : tag < 256) (h' : tag' < 256)
    {r t : List UInt8} (heq : variant tag ++ r = variant tag' ++ t) : tag = tag' ∧ r = t := by
  obtain ⟨htag, hrest⟩ := List.append_inj heq (by simp [variant])
  exact ⟨littleEndian_inj (by omega) (by omega) htag, hrest⟩

/-- Arrays of one size are self-delimiting, as they are written as they are. -/
theorem array_selfDelimiting {n : Nat} :
    SelfDelimiting (array (n := n)) Set.univ :=
  selfDelimiting_of_length n (fun x _ => x.length_eq) (fun _ _ _ _ h => Bytes.ext h)

/-- The concatenation of two self-delimiting layouts is self-delimiting: the
first part is cut off, and then the second. -/
theorem SelfDelimiting.prod {encA : Encoder α} {encB : Encoder β}
    {s : Set α} {t : Set β} (hA : SelfDelimiting encA s) (hB : SelfDelimiting encB t) :
    SelfDelimiting (fun p : α × β => encA p.1 ++ encB p.2) (s ×ˢ t) := by
  rintro ⟨a, b⟩ ⟨ha, hb⟩ ⟨a', b'⟩ ⟨ha', hb'⟩ r r' h
  simp only [List.append_assoc] at h
  obtain ⟨rfl, hrest⟩ := hA a ha a' ha' _ _ h
  obtain ⟨rfl, hr⟩ := hB b hb b' hb' _ _ hrest
  exact ⟨rfl, hr⟩

/-- A record is laid out as the tuple of its fields. -/
theorem SelfDelimiting.comap {enc : Encoder β} {s : Set β} {f : α → β}
    (h : SelfDelimiting enc s) (hf : Function.Injective f) :
    SelfDelimiting (fun x => enc (f x)) (Set.preimage f s) := by
  intro x hx y hy r t hxy
  obtain ⟨hfxy, hrt⟩ := h (f x) hx (f y) hy r t hxy
  exact ⟨hf hfxy, hrt⟩

/-- Equally many self-delimiting elements can be cut apart again. -/
theorem flatMap_inj_of_length {enc : Encoder α} (h : SelfDelimiting enc Set.univ)
    {xs ys : List α} (hlen : xs.length = ys.length) {r t : List UInt8}
    (heq : xs.flatMap enc ++ r = ys.flatMap enc ++ t) : xs = ys ∧ r = t := by
  induction xs generalizing ys with
  | nil =>
      obtain rfl : ys = [] := List.length_eq_zero_iff.mp hlen.symm
      exact ⟨rfl, by simpa using heq⟩
  | cons x xs ih =>
      cases ys with
      | nil => simp at hlen
      | cons y ys =>
          simp only [List.flatMap_cons, List.append_assoc] at heq
          obtain ⟨rfl, htail⟩ := h x trivial y trivial _ _ heq
          obtain ⟨rfl, hrt⟩ := ih (by simpa using hlen) htail
          exact ⟨rfl, hrt⟩

/-- When an element, never empty, determines what `f` keeps of it and where it
ends, a concatenation determines what `f` keeps of the list. -/
theorem map_eq_of_flatMap_eq {enc : Encoder α} {f : α → β}
    (h : ∀ x y r t, enc x ++ r = enc y ++ t → f x = f y ∧ r = t) (hne : ∀ x, enc x ≠ [])
    {xs ys : List α} (heq : xs.flatMap enc = ys.flatMap enc) : xs.map f = ys.map f := by
  induction xs generalizing ys with
  | nil =>
      cases ys with
      | nil => rfl
      | cons y ys =>
          have hempty : enc y ++ ys.flatMap enc = [] := heq.symm
          exact (hne y (List.append_eq_nil_iff.mp hempty).1).elim
  | cons x xs ih =>
      cases ys with
      | nil =>
          have hempty : enc x ++ xs.flatMap enc = [] := heq
          exact (hne x (List.append_eq_nil_iff.mp hempty).1).elim
      | cons y ys =>
          obtain ⟨hfirst, htail⟩ := h x y _ _ heq
          rw [List.map_cons, List.map_cons, hfirst, ih htail]

/-- A vector is self-delimiting as long as its length fits the prefix. -/
theorem seq_selfDelimiting {enc : Encoder α} (h : SelfDelimiting enc Set.univ) :
    SelfDelimiting (seq enc) {xs | xs.length < 2 ^ 64} := by
  intro xs hxs ys hys r t heq
  simp only [seq, List.append_assoc] at heq
  obtain ⟨hlen, htail⟩ := List.append_inj heq (by simp)
  exact flatMap_inj_of_length h (littleEndian_inj hxs hys hlen) htail

end Bincode
