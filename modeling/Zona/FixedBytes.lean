import Mathlib.Data.List.Lex
import Mathlib.Data.LawfulXor.Basic
import Mathlib.Order.Lattice

/-!
# Fixed-width byte strings

`Bytes n` is the array type `[u8; n]`: a byte list that carries its length.
Arrays are compared as the language compares them, byte by byte from the
front, so that a distance given as an array can be minimised, sorted and
compared.  The bytewise exclusive or is the metric of XOR routing.
-/

/-- A byte string of exactly `n` bytes. -/
structure Bytes (n : Nat) where
  toList : List UInt8
  length_eq : toList.length = n
  deriving DecidableEq

namespace Bytes

variable {n : Nat}

/-- Arrays are determined by their bytes, as the length is part of the type. -/
@[ext]
theorem ext {a b : Bytes n} (h : a.toList = b.toList) : a = b := by
  cases a
  cases b
  simpa using h

/-- The array `[b; n]`. -/
def replicate (n : Nat) (b : UInt8) : Bytes n :=
  ⟨List.replicate n b, List.length_replicate⟩

/-- `slice.try_into::<[u8; n]>()`. -/
def ofList? (n : Nat) (bs : List UInt8) : Option (Bytes n) :=
  if h : bs.length = n then some ⟨bs, h⟩ else none

/-- A list becomes an array exactly if it has the right length, and then it is
the list of the array. -/
theorem ofList?_eq_some {bs : List UInt8} {a : Bytes n} :
    ofList? n bs = some a ↔ bs = a.toList := by
  unfold ofList?
  split
  · simp [Bytes.ext_iff]
  · rename_i h
    simp only [reduceCtorEq, false_iff]
    rintro rfl
    exact h a.length_eq

@[simp]
theorem ofList?_toList (a : Bytes n) : ofList? n a.toList = some a :=
  ofList?_eq_some.mpr rfl

/-- Bytewise exclusive or. -/
def xor (a b : Bytes n) : Bytes n :=
  ⟨List.zipWith (· ^^^ ·) a.toList b.toList, by
    simp [List.length_zipWith, a.length_eq, b.length_eq]⟩

/-- The byte values in order, which is what the array order looks at. -/
def digits (a : Bytes n) : List Nat :=
  a.toList.map UInt8.toNat

/-- Different arrays have different digits, so comparing digits is comparing
arrays. -/
theorem digits_injective : Function.Injective (digits (n := n)) := by
  intro a b h
  have hinj : Function.Injective UInt8.toNat := fun x y hxy => UInt8.toNat_inj.mp hxy
  exact ext (List.map_injective_iff.mpr hinj h)

/-- The lexicographic order of arrays. -/
instance : LinearOrder (Bytes n) :=
  LinearOrder.lift' digits digits_injective

theorem digits_replicate_zero : digits (replicate n 0) = List.replicate n 0 := by
  simp [digits, replicate]

/-- No list of numbers is below the list of zeros of its length. -/
theorem not_lt_replicate_zero (l : List Nat) : ¬ l < List.replicate l.length 0 := by
  induction l with
  | nil => exact List.not_lt_nil _
  | cons x l ih =>
      rw [List.length_cons, List.replicate_succ, List.cons_lt_cons_iff]
      rintro (hlt | ⟨_, hrest⟩)
      · exact Nat.not_lt_zero x hlt
      · exact ih hrest

theorem not_lt_zeros (a : Bytes n) : ¬ a < replicate n 0 := by
  intro hlt
  have hdigits : digits a < digits (replicate n 0) := hlt
  have hnot := not_lt_replicate_zero (digits a)
  rw [digits, List.length_map, a.length_eq] at hnot
  rw [digits_replicate_zero] at hdigits
  exact hnot hdigits

/-- Two lists of one length have no bit of difference exactly if they are
equal. -/
theorem zipWith_xor_eq_zero_iff (l m : List UInt8) (h : l.length = m.length) :
    List.zipWith (· ^^^ ·) l m = List.replicate l.length 0 ↔ l = m := by
  induction l generalizing m with
  | nil =>
      rw [List.length_eq_zero_iff.mp h.symm]
      simp
  | cons x l ih =>
      cases m with
      | nil => cases h
      | cons y m =>
          have hrest := ih m (Nat.succ.inj h)
          rw [List.zipWith_cons_cons, List.length_cons, List.replicate_succ, List.cons.injEq,
            List.cons.injEq, hrest, UInt8.xor_eq_zero_iff]

/-- Only equal arrays are at distance zero.  The distance of a node to itself
is therefore the least one. -/
theorem xor_eq_zero_iff {a b : Bytes n} : a.xor b = replicate n 0 ↔ a = b := by
  have hlists := zipWith_xor_eq_zero_iff a.toList b.toList (a.length_eq.trans b.length_eq.symm)
  rw [a.length_eq] at hlists
  rw [Bytes.ext_iff, Bytes.ext_iff]
  exact hlists

/-- A common list can be cancelled from two differences, byte by byte. -/
theorem zipWith_xor_right_cancel (l m k : List UInt8) (hl : l.length = k.length)
    (hm : m.length = k.length)
    (h : List.zipWith (· ^^^ ·) l k = List.zipWith (· ^^^ ·) m k) : l = m := by
  induction k generalizing l m with
  | nil => rw [List.length_eq_zero_iff.mp hl, List.length_eq_zero_iff.mp hm]
  | cons z k ih =>
      cases l with
      | nil => cases hl
      | cons x l =>
          cases m with
          | nil => cases hm
          | cons y m =>
              rw [List.zipWith_cons_cons, List.zipWith_cons_cons, List.cons.injEq,
                UInt8.xor_left_inj] at h
              rw [h.1, ih l m (Nat.succ.inj hl) (Nat.succ.inj hm) h.2]

/-- Different arrays are at different distances from a third, so the nodes
around a target are ordered without ties. -/
theorem xor_left_inj {a b c : Bytes n} : a.xor c = b.xor c ↔ a = b := by
  constructor
  · intro h
    exact ext (zipWith_xor_right_cancel _ _ _ (a.length_eq.trans c.length_eq.symm)
      (b.length_eq.trans c.length_eq.symm) (Bytes.ext_iff.mp h))
  · rintro rfl
    rfl

/-- Nothing is closer to an array than the array itself. -/
theorem not_lt_xor_self (a b : Bytes n) : ¬ b < a.xor a := by
  rw [xor_eq_zero_iff.mpr rfl]
  exact not_lt_zeros b

/-- An array is closer to itself than any other one is. -/
theorem xor_self_lt_iff {a b : Bytes n} : a.xor a < b.xor a ↔ b ≠ a := by
  constructor
  · rintro hlt rfl
    exact lt_irrefl _ hlt
  · intro hne
    have hzero : a.xor a = replicate n 0 := xor_eq_zero_iff.mpr rfl
    have hdistinct : a.xor a ≠ b.xor a := fun heq =>
      hne (xor_eq_zero_iff.mp (heq.symm.trans hzero))
    exact (lt_or_gt_of_ne hdistinct).resolve_right (not_lt_xor_self a (b.xor a))

end Bytes
