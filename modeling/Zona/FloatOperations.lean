import Mathlib.Algebra.Order.Floor.Ring
import Mathlib.Data.List.Sort
import Mathlib.Data.Rat.Floor
import Mathlib.Tactic.Linarith
import Zona.Panics

/-!
# Floating-point code

`FloatOps` lists what the numerical code of the services does with floating-point
numbers.  The code is written over any type with these operations, so that it can
be read in two ways: with the exact rationals, which are an instance here, and
with binary64 numbers.
-/

/-- The operations on floating-point numbers. -/
class FloatOps (F : Type) where
  /-- A literal, or an integer converted by `as`. -/
  ofRat : ℚ → F
  add : F → F → F
  sub : F → F → F
  mul : F → F → F
  div : F → F → F
  abs : F → F
  max : F → F → F
  partialCmp : F → F → Option Ordering
  floor : F → F
  ceil : F → F
  /-- To the nearest integer, halves away from zero. -/
  round : F → F
  asUsize : F → Nat
  asIsize : F → Int
  asU64 : F → UInt64
  isFinite : F → Bool

namespace FloatOps

variable {F : Type} [FloatOps F]

def lt (a b : F) : Bool :=
  partialCmp a b = some .lt

def le (a b : F) : Bool :=
  partialCmp a b = some .lt || partialCmp a b = some .eq

/-- `x.clamp(lo, hi)`. -/
def clamp (x lo hi : F) : F :=
  if lt x lo then lo else if lt hi x then hi else x

/-- `n as f64`. -/
def ofNat (n : Nat) : F :=
  ofRat n

end FloatOps

namespace RatOps

/-- Halves away from zero. -/
def round (q : ℚ) : Int :=
  if 0 ≤ q then ⌊q + 1 / 2⌋ else -⌊-q + 1 / 2⌋

/-- Towards zero. -/
def truncate (q : ℚ) : Int :=
  if 0 ≤ q then ⌊q⌋ else ⌈q⌉

/-- Clamped to the given range. -/
def saturate (lo hi n : Int) : Int :=
  max lo (min hi n)

/-- Adding one half to an integer does not reach the next one, so that
rounding, which takes the floor of the sum, leaves integers alone. -/
theorem floor_add_half (n : Int) : ⌊(n : ℚ) + 1 / 2⌋ = n := by
  rw [Int.floor_eq_iff]
  constructor
  · linarith
  · linarith

/-- Integers are rounded to themselves.  Millisecond counts and lengths, which
are stored as integers, come out of the percentiles unchanged where no mean is
taken. -/
theorem round_intCast (n : Int) : round (n : ℚ) = n := by
  unfold round
  split_ifs with hn
  · exact floor_add_half n
  · rw [← Int.cast_neg, floor_add_half, neg_neg]

/-- Cutting off the fraction of an integer changes nothing, on either side of
zero: `truncate` chooses floor or ceiling by the sign, and both agree on
integers. -/
theorem truncate_intCast (n : Int) : truncate (n : ℚ) = n := by
  unfold truncate
  split_ifs with hn
  · exact Int.floor_intCast n
  · exact Int.ceil_intCast n

end RatOps

/-- The exact reading; there is no largest index. -/
instance : FloatOps ℚ where
  ofRat q := q
  add := (· + ·)
  sub := (· - ·)
  mul := (· * ·)
  div := (· / ·)
  abs q := |q|
  max := max
  partialCmp a b := some (compare a b)
  floor q := ⌊q⌋
  ceil q := ⌈q⌉
  round q := RatOps.round q
  asUsize q := (RatOps.truncate q).toNat
  asIsize := RatOps.truncate
  asU64 q := UInt64.ofNat (RatOps.saturate 0 (2 ^ 64 - 1) (RatOps.truncate q)).toNat
  isFinite _ := true

section Sorting

variable {F : Type} [FloatOps F]

/-- Neither greater nor incomparable. -/
def notGreater (a b : F) : Prop :=
  FloatOps.partialCmp a b ≠ some .gt

instance : DecidableRel (notGreater (F := F)) :=
  fun _ _ => inferInstanceAs (Decidable (¬ _))

/-- `v.sort_by(|a, b| a.partial_cmp(b).unwrap())`: every element of a longer list
is compared, and one that cannot be compared with itself cannot be compared. -/
def sortByPartialCmp (v : List F) : Except Panic (List F) :=
  if 2 ≤ v.length ∧ v.any (fun x => (FloatOps.partialCmp x x).isNone) then .error .unwrapNone
  else .ok (v.insertionSort notGreater)

end Sorting

/-- Rational numbers are all comparable, so `partial_cmp` never fails on them
and "not greater" is the order that they have in Mathlib. -/
theorem notGreater_rat (a b : ℚ) : notGreater a b ↔ a ≤ b := by
  have hcompare : FloatOps.partialCmp a b = some (compare a b) := rfl
  rw [notGreater, hcompare, ← not_lt, ← compare_gt_iff_gt]
  simp

/-- Sorting by `partial_cmp` succeeds on rational numbers and gives the
insertion sort, for which Mathlib has the order and the permutation lemmas. -/
theorem sortByPartialCmp_rat (v : List ℚ) :
    sortByPartialCmp v = .ok (v.insertionSort (· ≤ ·)) := by
  have hcomparable : v.any (fun x => (FloatOps.partialCmp x x).isNone) = false := by
    rw [List.any_eq_false]
    intro x _
    exact Bool.false_ne_true
  have hsort : v.insertionSort notGreater = v.insertionSort (· ≤ ·) := by
    congr 1
    funext a b
    exact propext (notGreater_rat a b)
  rw [sortByPartialCmp, hcomparable, if_neg (fun h => Bool.false_ne_true h.2), hsort]
