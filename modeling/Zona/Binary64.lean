import Zona.FloatOperations
import Mathlib.Algebra.Order.Field.Power
import Mathlib.Data.Int.Log
import Mathlib.Tactic.Linarith
import Mathlib.Tactic.Positivity

/-!
# Binary64 numbers

A finite binary64 number is a rational with a significand of 53 bits and an
exponent that is neither too large nor too small.  The arithmetic computes
exactly and rounds to the nearest number, halves to the even one; what is too
large becomes infinite.  The sign of a zero is not kept.

`nearest_error` bounds the error of a rounding, and `ofRat_of_le` says that
numbers of a usual size stay finite.
-/

/-- Halves to the even neighbour. -/
def roundHalfEven (q : ℚ) : Int :=
  if q - ⌊q⌋ < 1 / 2 then ⌊q⌋
  else if 1 / 2 < q - ⌊q⌋ then ⌊q⌋ + 1
  else if ⌊q⌋ % 2 = 0 then ⌊q⌋
  else ⌊q⌋ + 1

/-- Rounding to the nearest integer is off by at most one half, whichever
neighbour the tie goes to.  All error bounds come down to this. -/
theorem roundHalfEven_error (q : ℚ) : |(roundHalfEven q : ℚ) - q| ≤ 1 / 2 := by
  have hfloor := Int.floor_le q
  have hnext := Int.lt_floor_add_one q
  rw [abs_le]
  unfold roundHalfEven
  split_ifs with hlow hhigh heven
  · constructor <;> linarith
  · constructor <;> push_cast <;> linarith
  · constructor <;> linarith
  · constructor <;> push_cast <;> linarith

/-- A number below an integer bound in size does not leave it by rounding,
since the bound is itself an integer. -/
theorem roundHalfEven_le {q : ℚ} {n : Int} (h : |q| < n) : |roundHalfEven q| ≤ n := by
  obtain ⟨hlow, hhigh⟩ := abs_le.mp (roundHalfEven_error q)
  obtain ⟨hq, hq'⟩ := abs_lt.mp h
  have hbelow : -(n : ℚ) - 1 < roundHalfEven q := by linarith
  have habove : (roundHalfEven q : ℚ) < n + 1 := by linarith
  have hbelow' : -n - 1 < roundHalfEven q := by exact_mod_cast hbelow
  have habove' : roundHalfEven q < n + 1 := by exact_mod_cast habove
  rw [abs_le]
  omega

namespace Binary64

/-- The exponent of the last bit of a number. -/
def exponent (q : ℚ) : Int :=
  max (Int.log 2 |q| - 52) (-1074)

/-- The nearest number, if it is not too large. -/
def nearest (q : ℚ) : ℚ :=
  roundHalfEven (q / 2 ^ exponent q) * 2 ^ exponent q

/-- With an exponent that is not negative the value is an integer. -/
theorem mul_zpow_eq_intCast (m : Int) {e : Int} (he : 0 ≤ e) :
    (m : ℚ) * 2 ^ e = ((m * 2 ^ e.toNat : Int) : ℚ) := by
  have hcast : (2 : ℚ) ^ e = 2 ^ e.toNat := by
    rw [← zpow_natCast, Int.toNat_of_nonneg he]
  rw [hcast]
  push_cast
  ring

/-- The values of finite numbers. -/
def Representable (q : ℚ) : Prop :=
  |q| < 2 ^ 1024 ∧ ∃ m e : Int, |m| ≤ 2 ^ 53 ∧ -1074 ≤ e ∧ q = m * 2 ^ e

/-- The exponent of a number is large enough for 53 bits of significand: scaled
by it, the number is below the power of two that bounds them. -/
theorem lt_of_exponent (q : ℚ) : |q / 2 ^ exponent q| < 2 ^ 53 := by
  have hpos : (0 : ℚ) < 2 ^ exponent q := by positivity
  have hlog : |q| < (2 : ℚ) ^ (Int.log 2 |q| + 1) := Int.lt_zpow_succ_log_self one_lt_two _
  have hle : (2 : ℚ) ^ (Int.log 2 |q| + 1) ≤ 2 ^ (53 + exponent q) := by
    refine zpow_le_zpow_right₀ one_le_two ?_
    have hmax : Int.log 2 |q| - 52 ≤ exponent q := le_max_left _ _
    omega
  have hsplit : (2 : ℚ) ^ (53 + exponent q) = 2 ^ 53 * 2 ^ exponent q := zpow_add₀ two_ne_zero _ _
  rw [hsplit] at hle
  rw [abs_div, abs_of_pos hpos, div_lt_iff₀ hpos]
  exact hlog.trans_le hle

/-- What rounding gives is representable unless it overflows: its significand
has 53 bits at most, the carry to the next power of two included. -/
theorem representable_nearest {q : ℚ} (h : |nearest q| < 2 ^ 1024) :
    Representable (nearest q) := by
  refine ⟨h, roundHalfEven (q / 2 ^ exponent q), exponent q, ?_, le_max_right _ _, rfl⟩
  refine roundHalfEven_le ?_
  exact_mod_cast lt_of_exponent q

/-- A rounding is off by half of the last bit. -/
theorem nearest_error_exponent (q : ℚ) : |nearest q - q| ≤ 2 ^ exponent q / 2 := by
  have hpos : (0 : ℚ) < 2 ^ exponent q := by positivity
  have hscaled : nearest q - q =
      (roundHalfEven (q / 2 ^ exponent q) - q / 2 ^ exponent q) * 2 ^ exponent q := by
    rw [sub_mul, div_mul_cancel₀ _ hpos.ne', nearest]
  have herror := mul_le_mul_of_nonneg_right (roundHalfEven_error (q / 2 ^ exponent q)) hpos.le
  rw [hscaled, abs_mul, abs_of_pos hpos]
  linarith

/-- **The error of a rounding**, relative to a number that is not small.  The
one in the bound pays for numbers near zero, where the last bit has a fixed
size. -/
theorem nearest_error (q : ℚ) : |nearest q - q| ≤ (|q| + 1) / 2 ^ 53 := by
  have hbit : (2 : ℚ) ^ exponent q * 2 ^ 52 ≤ |q| + 1 := by
    rcases max_choice (Int.log 2 |q| - 52) (-1074) with hlog | hleast
    · have hself : (2 : ℚ) ^ Int.log 2 |q| ≤ |q| + 1 := by
        rcases (abs_nonneg q).eq_or_lt with hzero | hpos
        · rw [← hzero, Int.log_zero_right, zpow_zero, zero_add]
        · have hle : (2 : ℚ) ^ Int.log 2 |q| ≤ |q| := Int.zpow_log_le_self one_lt_two hpos
          linarith
      have hsplit : (2 : ℚ) ^ (Int.log 2 |q| - 52) * 2 ^ 52 = 2 ^ Int.log 2 |q| := by
        rw [← zpow_natCast, ← zpow_add₀ two_ne_zero]
        congr 1
        omega
      rw [exponent, hlog, hsplit]
      exact hself
    · have hsplit : (2 : ℚ) ^ (-1074 : Int) * 2 ^ 52 = 2 ^ (-1022 : Int) := by
        rw [← zpow_natCast, ← zpow_add₀ two_ne_zero]
        rfl
      have hsmall : (2 : ℚ) ^ (-1022 : Int) ≤ 1 := zpow_le_one_of_nonpos₀ one_le_two (by omega)
      rw [exponent, hleast, hsplit]
      exact hsmall.trans (le_add_of_nonneg_left (abs_nonneg q))
  have herror := nearest_error_exponent q
  rw [le_div_iff₀ (by positivity)]
  calc |nearest q - q| * 2 ^ 53 ≤ 2 ^ exponent q / 2 * 2 ^ 53 :=
        mul_le_mul_of_nonneg_right herror (by positivity)
    _ = 2 ^ exponent q * 2 ^ 52 := by ring
    _ ≤ |q| + 1 := hbit

/-- A rounding to integers. -/
structure Integral (r : ℚ → Int) : Prop where
  intCast : ∀ n : Int, r n = n
  bounded : ∀ (q : ℚ) (n : Int), |q| ≤ n → |r q| ≤ n

/-- The floor is an integer, of size at most that of the next integer, so on
numbers without overflow it is exact. -/
theorem integral_floor : Integral fun q => ⌊q⌋ where
  intCast n := Int.floor_intCast n
  bounded q n h := by
    obtain ⟨hlow, hhigh⟩ := abs_le.mp h
    rw [abs_le]
    refine ⟨Int.le_floor.mpr (by push_cast; exact hlow), ?_⟩
    have hle : ((⌊q⌋ : Int) : ℚ) ≤ n := (Int.floor_le q).trans hhigh
    exact_mod_cast hle

/-- The ceiling is an integer of bounded size as well, so it can be taken
without a rounding error. -/
theorem integral_ceil : Integral fun q => ⌈q⌉ where
  intCast n := Int.ceil_intCast n
  bounded q n h := by
    obtain ⟨hlow, hhigh⟩ := abs_le.mp h
    rw [abs_le]
    refine ⟨?_, Int.ceil_le.mpr hhigh⟩
    have hle : ((-n : Int) : ℚ) ≤ ⌈q⌉ := by
      push_cast
      exact hlow.trans (Int.le_ceil q)
    exact_mod_cast hle

/-- Rounding half away from zero gives an integer of bounded size, like floor
and ceiling, so the three share the lemma on exactness. -/
theorem integral_round : Integral RatOps.round where
  intCast := RatOps.round_intCast
  bounded q n h := by
    obtain ⟨hlow, hhigh⟩ := abs_le.mp h
    unfold RatOps.round
    split_ifs with hq
    · have hpos : 0 ≤ ⌊q + 1 / 2⌋ := Int.floor_nonneg.mpr (by linarith)
      have hle : ⌊q + 1 / 2⌋ ≤ ⌊(n : ℚ) + 1 / 2⌋ := Int.floor_mono (by linarith)
      rw [RatOps.floor_add_half] at hle
      rwa [abs_of_nonneg hpos]
    · have hpos : 0 ≤ ⌊-q + 1 / 2⌋ := Int.floor_nonneg.mpr (by linarith)
      have hle : ⌊-q + 1 / 2⌋ ≤ ⌊(n : ℚ) + 1 / 2⌋ := Int.floor_mono (by linarith)
      rw [RatOps.floor_add_half] at hle
      rwa [abs_neg, abs_of_nonneg hpos]

/-- Rounding a number to an integer needs no other rounding: it is an integer
already, or it has few bits before the point. -/
theorem Representable.integral {q : ℚ} (h : Representable q) {r : ℚ → Int} (hr : Integral r) :
    Representable (r q) := by
  obtain ⟨hsize, m, e, hm, he, hq⟩ := h
  by_cases hpos : 0 ≤ e
  · have hfixed : ((r q : Int) : ℚ) = q := by
      rw [hq, mul_zpow_eq_intCast m hpos, hr.intCast]
    rw [hfixed]
    exact ⟨hsize, m, e, hm, he, hq⟩
  · have hsmall : |q| ≤ ((|m| : Int) : ℚ) := by
      have hpower : (2 : ℚ) ^ e ≤ 1 := zpow_le_one_of_nonpos₀ one_le_two (by omega)
      have hbound := mul_le_mul_of_nonneg_left hpower (abs_nonneg (m : ℚ))
      rw [hq, abs_mul, abs_of_pos (show (0 : ℚ) < 2 ^ e by positivity), Int.cast_abs]
      linarith
    have hbound : |r q| ≤ 2 ^ 53 := (hr.bounded q _ hsmall).trans hm
    refine ⟨?_, r q, 0, hbound, by omega, by rw [zpow_zero, mul_one]⟩
    have hcast : |((r q : Int) : ℚ)| ≤ 2 ^ 53 := by exact_mod_cast hbound
    exact hcast.trans_lt (pow_lt_pow_right₀ one_lt_two (by omega))

/-- Negation is exact, because the sign has a bit of its own and the
significand stays the same. -/
theorem Representable.neg {q : ℚ} (h : Representable q) : Representable (-q) := by
  obtain ⟨hsize, m, e, hm, he, hq⟩ := h
  refine ⟨by rwa [abs_neg], -m, e, by rwa [abs_neg], he, ?_⟩
  rw [hq]
  push_cast
  ring

/-- The absolute value of a number of the format is in the format: only the bit
of the sign is dropped. -/
theorem Representable.abs {q : ℚ} (h : Representable q) : Representable |q| := by
  rcases abs_choice q with hsame | hneg
  · rwa [hsame]
  · rw [hneg]
    exact h.neg

/-- Zero belongs to the format.  Signed zeros are not told apart, since nothing
in the source depends on the sign of a zero. -/
theorem representable_zero : Representable 0 := by
  refine ⟨by norm_num, 0, 0, by norm_num, by norm_num, by norm_num⟩

end Binary64

inductive Binary64
  | nan
  | inf (negative : Bool)
  | finite (value : ℚ) (representable : Binary64.Representable value)

namespace Binary64

/-- The nearest number. -/
def ofRat (q : ℚ) : Binary64 :=
  if h : |nearest q| < 2 ^ 1024 then .finite (nearest q) (representable_nearest h)
  else .inf (q < 0)

def isNegative : Binary64 → Bool
  | nan => false
  | inf negative => negative
  | finite q _ => q < 0

def isZero : Binary64 → Bool
  | finite q _ => q = 0
  | _ => false

def neg : Binary64 → Binary64
  | nan => .nan
  | inf negative => .inf !negative
  | finite q h => .finite (-q) h.neg

def abs : Binary64 → Binary64
  | nan => .nan
  | inf _ => .inf false
  | finite q h => .finite |q| h.abs

def add : Binary64 → Binary64 → Binary64
  | finite a _, finite b _ => ofRat (a + b)
  | nan, _ => .nan
  | _, nan => .nan
  | inf m, inf n => if m = n then .inf m else .nan
  | inf m, finite _ _ => .inf m
  | finite _ _, inf n => .inf n

def mul : Binary64 → Binary64 → Binary64
  | finite a _, finite b _ => ofRat (a * b)
  | nan, _ => .nan
  | _, nan => .nan
  | x, y => if x.isZero || y.isZero then .nan else .inf (x.isNegative ^^ y.isNegative)

def div : Binary64 → Binary64 → Binary64
  | finite a _, finite b _ =>
      if b = 0 then if a = 0 then .nan else .inf (a < 0)
      else ofRat (a / b)
  | nan, _ => .nan
  | _, nan => .nan
  | inf _, inf _ => .nan
  | inf m, finite b _ => .inf (m ^^ decide (b < 0))
  | finite _ _, inf _ => .finite 0 representable_zero

/-- What is not a number cannot be compared. -/
def partialCmp : Binary64 → Binary64 → Option Ordering
  | finite a _, finite b _ => some (compare a b)
  | nan, _ => none
  | _, nan => none
  | inf m, inf n => some (compare n m)
  | inf m, finite _ _ => some (if m then .lt else .gt)
  | finite _ _, inf n => some (if n then .gt else .lt)

/-- The other one if one is not a number. -/
def max : Binary64 → Binary64 → Binary64
  | nan, y => y
  | x, nan => x
  | x, y => if partialCmp x y = some .lt then y else x

/-- Rounded to an integer. -/
def integral {r : ℚ → Int} (hr : Integral r) : Binary64 → Binary64
  | nan => .nan
  | inf negative => .inf negative
  | finite q h => .finite (r q) (h.integral hr)

/-- Conversion to an integer type: towards zero, clamped to the type's range. -/
def toInt (lo hi : Int) : Binary64 → Int
  | nan => 0
  | inf negative => if negative then lo else hi
  | finite q _ => RatOps.saturate lo hi (RatOps.truncate q)

def isFinite : Binary64 → Bool
  | finite _ _ => true
  | _ => false

end Binary64

instance : FloatOps Binary64 where
  ofRat := Binary64.ofRat
  add := Binary64.add
  sub x y := x.add y.neg
  mul := Binary64.mul
  div := Binary64.div
  abs := Binary64.abs
  max := Binary64.max
  partialCmp := Binary64.partialCmp
  floor := Binary64.integral Binary64.integral_floor
  ceil := Binary64.integral Binary64.integral_ceil
  round := Binary64.integral Binary64.integral_round
  asUsize x := (x.toInt 0 (2 ^ 64 - 1)).toNat
  asIsize x := x.toInt (-2 ^ 63) (2 ^ 63 - 1)
  asU64 x := UInt64.ofNat (x.toInt 0 (2 ^ 64 - 1)).toNat
  isFinite := Binary64.isFinite

namespace Binary64

/-- **Numbers of a usual size stay finite**, with a small error.  Chains of
operations on stored lengths use nothing else about the format. -/
theorem ofRat_of_le {q : ℚ} (h : |q| ≤ 2 ^ 1022) :
    ∃ v hv, ofRat q = .finite v hv ∧ |v - q| ≤ (|q| + 1) / 2 ^ 53 := by
  have herror := nearest_error q
  have hsize : |nearest q| < 2 ^ 1024 := by
    have htriangle : |nearest q| ≤ |q| + |nearest q - q| := by
      have h := abs_add_le q (nearest q - q)
      rwa [add_sub_cancel] at h
    have hshare : (|q| + 1) / 2 ^ 53 ≤ |q| + 1 := by
      refine div_le_self (by positivity) ?_
      exact one_le_pow₀ one_le_two
    have hfit : ∀ M : ℚ, 1 ≤ M → |q| ≤ M → |nearest q| < M * 2 ^ 2 := by
      intro M hM hq
      linarith
    rw [pow_add 2 1022 2]
    exact hfit _ (one_le_pow₀ one_le_two) h
  refine ⟨nearest q, representable_nearest hsize, ?_, herror⟩
  rw [ofRat, dif_pos hsize]

/-- The constant zero of the source, with which percentiles are clamped and
lengths are cut off, is the zero of the format. -/
theorem ofRat_zero : ofRat 0 = .finite 0 representable_zero := by
  have hround : roundHalfEven 0 = 0 := by
    norm_num [roundHalfEven]
  have hzero : nearest 0 = 0 := by
    rw [nearest, zero_div, hround, Int.cast_zero, zero_mul]
  have hsize : |nearest 0| < 2 ^ 1024 := by
    rw [hzero, abs_zero]
    positivity
  rw [ofRat, dif_pos hsize]
  simp only [hzero]

/-- A literal or a converted integer is never NaN: rounding gives a finite
number or an infinity. -/
theorem ofRat_ne_nan (q : ℚ) : ofRat q ≠ .nan := by
  unfold ofRat
  split_ifs with h
  · exact Binary64.noConfusion
  · exact Binary64.noConfusion

/-- Every number but NaN compares with itself, so `partial_cmp` is reflexive on
the numbers that a store can hold. -/
theorem partialCmp_self {x : Binary64} (h : x ≠ .nan) : partialCmp x x ≠ none := by
  cases x with
  | nan => exact absurd rfl h
  | inf negative => exact Option.some_ne_none _
  | finite q hq => exact Option.some_ne_none _

/-- Finite numbers are no NaN, which is all that sorting needs: JSON has no
other numbers, so stored samples sort without a panic. -/
theorem ne_nan_of_isFinite {x : Binary64} (h : x.isFinite = true) : x ≠ .nan := by
  rintro rfl
  exact Bool.noConfusion h

end Binary64
