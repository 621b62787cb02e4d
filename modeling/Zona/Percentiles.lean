import Zona.FloatOperations
import Zona.Interpolation

/-!
# Percentiles

The percentile of a sorted list is interpolated between the two elements next to
its position.  Read exactly, it is the value of a broken line (`percentile_rat`);
so percentiles of higher rank are not below those of lower rank, whatever lies
between them (`percentile_mono`), and none is outside of the list
(`percentile_mem_range`).
-/

namespace Zona

open FloatOps

variable {F : Type} [FloatOps F]

def percentile (sorted : List F) (p : F) : Except Panic F :=
  if sorted.isEmpty then .ok (ofRat 0)
  else if sorted.length = 1 then index sorted 0
  else
    let p := clamp p (ofRat 0) (ofRat 100)
    let idx := div (mul (ofNat (sorted.length - 1)) p) (ofRat 100)
    let lo := asUsize (floor idx)
    let hi := asUsize (ceil idx)
    if lo = hi then index sorted lo
    else do
      let w := sub idx (ofNat lo)
      let below ← index sorted lo
      let above ← index sorted hi
      return add (mul below (sub (ofRat 1) w)) (mul above w)

/-- A rank between 0 and 100 is not changed by clamping, so in exact arithmetic
the clamp of the source may be dropped. -/
theorem clamp_rat {p : ℚ} (h0 : 0 ≤ p) (h100 : p ≤ 100) :
    clamp p (ofRat 0) (ofRat 100) = p := by
  have hlt : ∀ a b : ℚ, FloatOps.lt a b = decide (a < b) := by
    intro a b
    have hcompare : FloatOps.partialCmp a b = some (compare a b) := rfl
    rw [FloatOps.lt, hcompare]
    simp [compare_lt_iff_lt]
  have hbounds : (ofRat 0 : ℚ) = 0 ∧ (ofRat 100 : ℚ) = 100 := ⟨rfl, rfl⟩
  rw [clamp, hlt, hlt, hbounds.1, hbounds.2, if_neg, if_neg]
  · simpa using h100
  · simpa using h0

/-- The lower index of the source is the floor of the position as a natural
number. -/
theorem asUsize_floor (t : ℚ) : asUsize (floor t) = ⌊t⌋₊ := by
  have hfloor : asUsize (floor t) = (RatOps.truncate (⌊t⌋ : ℚ)).toNat := rfl
  rw [hfloor, RatOps.truncate_intCast, Int.floor_toNat]

/-- The upper index of the source is the ceiling of the position as a natural
number, which is the lower index or the next one. -/
theorem asUsize_ceil (t : ℚ) : asUsize (ceil t) = ⌈t⌉₊ := by
  have hceil : asUsize (ceil t) = (RatOps.truncate (⌈t⌉ : ℚ)).toNat := rfl
  rw [hceil, RatOps.truncate_intCast, Int.ceil_toNat]

/-- Where a percentile stands in a list. -/
def position (l : List ℚ) (p : ℚ) : ℚ :=
  ((l.length - 1 : ℕ) : ℚ) * p / 100

/-- The position of a percentile is not negative, so casting its floor to an
index loses nothing. -/
theorem position_nonneg (l : List ℚ) {p : ℚ} (h0 : 0 ≤ p) : 0 ≤ position l p := by
  unfold position
  positivity

/-- The position does not pass the last index of the list, so neither of the
two indices around it is out of bounds. -/
theorem position_le {l : List ℚ} {p : ℚ} (h100 : p ≤ 100) :
    position l p ≤ ((l.length - 1 : ℕ) : ℚ) := by
  have hlength : (0 : ℚ) ≤ ((l.length - 1 : ℕ) : ℚ) := Nat.cast_nonneg _
  have hle := mul_le_mul_of_nonneg_left h100 hlength
  unfold position
  linarith

/-- The position grows with the rank.  Together with the interpolation between
sorted elements this orders the percentiles. -/
theorem position_mono (l : List ℚ) {p q : ℚ} (h : p ≤ q) : position l p ≤ position l q := by
  have hlength : (0 : ℚ) ≤ ((l.length - 1 : ℕ) : ℚ) := Nat.cast_nonneg _
  have hle := mul_le_mul_of_nonneg_left h hlength
  unfold position
  linarith

/-- **A percentile**, read exactly, is a point of the broken line through the
elements; both indices are in bounds. -/
theorem percentile_rat {l : List ℚ} (hl : l ≠ []) {p : ℚ} (h0 : 0 ≤ p) (h100 : p ≤ 100) :
    percentile l p = .ok (lerp (sortedAt l 0) (position l p)) := by
  have hpos : 0 < l.length := List.length_pos_iff.mpr hl
  have hempty : l.isEmpty = false := by
    simpa [List.isEmpty_iff] using hl
  rw [percentile, hempty, if_neg Bool.false_ne_true]
  by_cases hone : l.length = 1
  · have hstart : position l p = ((0 : ℕ) : ℚ) := by
      simp [position, hone]
    rw [if_pos hone, hstart, lerp_natCast, sortedAt_of_lt hpos, index_of_lt hpos]
  · have ht0 := position_nonneg l h0
    have htn := position_le (l := l) h100
    have hidx : div (mul (ofNat (l.length - 1)) p) (ofRat 100) = position l p := rfl
    have hfloor : ⌊position l p⌋₊ < l.length := by
      have hle := Nat.floor_mono htn
      rw [Nat.floor_natCast] at hle
      omega
    have hceil : ⌈position l p⌉₊ < l.length := by
      have hle := Nat.ceil_le.mpr htn
      omega
    rw [if_neg hone, clamp_rat h0 h100]
    simp only [hidx, asUsize_floor, asUsize_ceil]
    by_cases hsame : ⌊position l p⌋₊ = ⌈position l p⌉₊
    · have hwhole : position l p = ((⌊position l p⌋₊ : ℕ) : ℚ) := by
        refine le_antisymm ?_ (Nat.floor_le ht0)
        have hle := Nat.le_ceil (position l p)
        rwa [← hsame] at hle
      have hvalue : lerp (sortedAt l 0) (position l p) = l[⌊position l p⌋₊] := by
        rw [congrArg (lerp (sortedAt l 0)) hwhole, lerp_natCast, sortedAt_of_lt hfloor]
      rw [if_pos hsame, index_of_lt hfloor, hvalue]
    · have hnext : ⌈position l p⌉₊ = ⌊position l p⌋₊ + 1 := by
        have hle := Nat.ceil_le_floor_add_one (position l p)
        have hge := Nat.floor_le_ceil (position l p)
        omega
      have hnextIn : ⌊position l p⌋₊ + 1 < l.length := by omega
      rw [if_neg hsame]
      simp only [hnext, index_of_lt hfloor, index_of_lt hnextIn]
      have hline : lerp (sortedAt l 0) (position l p) =
          l[⌊position l p⌋₊] * (1 - (position l p - ⌊position l p⌋₊)) +
            l[⌊position l p⌋₊ + 1] * (position l p - ⌊position l p⌋₊) := by
        rw [lerp, sortedAt_of_lt hfloor, sortedAt_of_lt hnextIn]
        ring
      rw [hline]
      rfl

section Laws

variable {l : List ℚ} {p q x y : ℚ}

/-- Percentiles of higher rank are not lower: the position grows, and
interpolation between the elements of a sorted list is monotone. -/
theorem percentile_mono (hl : l ≠ []) (hsorted : l.Pairwise (· ≤ ·)) (h0 : 0 ≤ p) (hpq : p ≤ q)
    (h100 : q ≤ 100) (hx : percentile l p = .ok x) (hy : percentile l q = .ok y) : x ≤ y := by
  rw [percentile_rat hl h0 (hpq.trans h100)] at hx
  rw [percentile_rat hl (h0.trans hpq) h100] at hy
  cases hx
  cases hy
  exact lerp_mono (sortedAt_mono hl hsorted 0) (position_nonneg l h0) (position_mono l hpq)

/-- A percentile lies between two elements of the list, because it is
interpolated between neighbours and never beyond the ends. -/
theorem percentile_mem_range (hl : l ≠ []) (hsorted : l.Pairwise (· ≤ ·)) (h0 : 0 ≤ p)
    (h100 : p ≤ 100) (hx : percentile l p = .ok x) :
    (∃ a ∈ l, a ≤ x) ∧ ∃ b ∈ l, x ≤ b := by
  rw [percentile_rat hl h0 h100] at hx
  cases hx
  have hmono := sortedAt_mono hl hsorted 0
  refine ⟨⟨_, sortedAt_mem hl 0 _, le_lerp hmono (position_nonneg l h0)⟩, ?_⟩
  exact ⟨_, sortedAt_mem hl 0 _, lerp_le hmono _⟩

end Laws

end Zona
