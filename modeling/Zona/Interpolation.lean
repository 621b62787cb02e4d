import Mathlib.Algebra.Order.Floor.Semiring
import Mathlib.Data.List.Sort
import Mathlib.Order.Monotone.Basic
import Mathlib.Tactic.Linarith

/-!
# Linear interpolation

`lerp f t` is the value at `t` of the broken line through the points of a
sequence.  It lies between the two neighbouring points (`le_lerp`, `lerp_le`)
and is monotone if the sequence is (`lerp_mono`).

`sortedAt` is the sequence of the elements of a list, the last one repeated for
ever; for a sorted list it is monotone (`sortedAt_mono`).
-/

section Lerp

variable {α : Type} [Field α] [LinearOrder α] [IsStrictOrderedRing α] [FloorSemiring α]

/-- The broken line through the points of a sequence. -/
def lerp (f : ℕ → α) (t : α) : α :=
  f ⌊t⌋₊ + (f (⌊t⌋₊ + 1) - f ⌊t⌋₊) * (t - ⌊t⌋₊)

variable {f : ℕ → α} {s t : α}

/-- At an integer the interpolated function has the value it interpolates, as
no part of the next segment is taken. -/
theorem lerp_natCast (f : ℕ → α) (k : ℕ) : lerp f (k : α) = f k := by
  rw [lerp, Nat.floor_natCast, sub_self, mul_zero, add_zero]

/-- The line is above its left point, for a monotone sequence, so an
interpolated value is bounded below by an element. -/
theorem le_lerp (hf : Monotone f) (ht : 0 ≤ t) : f ⌊t⌋₊ ≤ lerp f t := by
  have hrise : 0 ≤ f (⌊t⌋₊ + 1) - f ⌊t⌋₊ := sub_nonneg.mpr (hf (Nat.le_succ _))
  have hpart : 0 ≤ t - ⌊t⌋₊ := sub_nonneg.mpr (Nat.floor_le ht)
  exact le_add_of_nonneg_right (mul_nonneg hrise hpart)

/-- The line is below its right point, for a monotone sequence, so an
interpolated value is bounded above by an element. -/
theorem lerp_le (hf : Monotone f) (t : α) : lerp f t ≤ f (⌊t⌋₊ + 1) := by
  have hrise : 0 ≤ f (⌊t⌋₊ + 1) - f ⌊t⌋₊ := sub_nonneg.mpr (hf (Nat.le_succ _))
  have hpart : t - ⌊t⌋₊ ≤ 1 := by
    have hlt := Nat.lt_floor_add_one t
    linarith
  have hle := mul_le_mul_of_nonneg_left hpart hrise
  rw [mul_one] at hle
  rw [lerp]
  linarith

/-- **The broken line through a monotone sequence is monotone**, also across
its points, where the value at the point lies between the two segments. -/
theorem lerp_mono (hf : Monotone f) (hs : 0 ≤ s) (hst : s ≤ t) : lerp f s ≤ lerp f t := by
  have ht : 0 ≤ t := hs.trans hst
  rcases (Nat.floor_mono hst).eq_or_lt with hsame | hless
  · -- both on one piece
    have hrise : 0 ≤ f (⌊t⌋₊ + 1) - f ⌊t⌋₊ := sub_nonneg.mpr (hf (Nat.le_succ _))
    have hpart : s - ⌊t⌋₊ ≤ t - ⌊t⌋₊ := by linarith
    have hle := mul_le_mul_of_nonneg_left hpart hrise
    rw [lerp, lerp, hsame]
    linarith
  · calc lerp f s ≤ f (⌊s⌋₊ + 1) := lerp_le hf s
      _ ≤ f ⌊t⌋₊ := hf hless
      _ ≤ lerp f t := le_lerp hf ht

end Lerp

section Sorted

variable {α : Type}

/-- The elements of a list, and then the last one again and again. -/
def sortedAt (l : List α) (default : α) (i : ℕ) : α :=
  (l.take (i + 1)).getLastD default

/-- Inside the list the extended sequence has the elements of the list, so
nothing is changed where the source may look. -/
theorem sortedAt_of_lt {l : List α} {default : α} {i : ℕ} (h : i < l.length) :
    sortedAt l default i = l[i] := by
  have htake : l.take (i + 1) = l.take i ++ [l[i]] := List.take_succ_eq_append_getElem h
  rw [sortedAt, htake, List.getLastD_concat]

/-- Beyond the end of the list the extended sequence stays at the last element,
which keeps it monotone. -/
theorem sortedAt_of_le {l : List α} {default : α} {i : ℕ} (h : l.length ≤ i + 1) :
    sortedAt l default i = l.getLastD default := by
  rw [sortedAt, List.take_of_length_le h]

/-- Every value of the extended sequence is an element, so bounds for the
elements are bounds for whatever is interpolated. -/
theorem sortedAt_mem {l : List α} (hl : l ≠ []) (default : α) (i : ℕ) :
    sortedAt l default i ∈ l := by
  by_cases hi : i < l.length
  · rw [sortedAt_of_lt hi]
    exact List.getElem_mem hi
  · rw [sortedAt_of_le (by omega), List.getLastD_eq_getLast?, List.getLast?_eq_some_getLast hl]
    exact List.getLast_mem hl

variable [LinearOrder α]

/-- The sequence of a sorted list is monotone, also where it was extended, and
so the general lemmas on interpolation apply to it. -/
theorem sortedAt_mono {l : List α} (hl : l ≠ []) (hsorted : l.Pairwise (· ≤ ·)) (default : α) :
    Monotone (sortedAt l default) := by
  have hpos : 0 < l.length := List.length_pos_iff.mpr hl
  have hclamp : ∀ i, ∃ h : min i (l.length - 1) < l.length,
      sortedAt l default i = l[min i (l.length - 1)] := by
    intro i
    refine ⟨by omega, ?_⟩
    by_cases hi : i < l.length
    · rw [sortedAt_of_lt hi]
      congr 1
      omega
    · rw [sortedAt_of_le (by omega), List.getLastD_eq_getLast?, List.getLast?_eq_some_getLast hl,
        List.getLast_eq_getElem]
      simp only [Option.getD_some]
      congr 1
      omega
  intro i j hij
  obtain ⟨hi, hati⟩ := hclamp i
  obtain ⟨hj, hatj⟩ := hclamp j
  have hle : min i (l.length - 1) ≤ min j (l.length - 1) := by omega
  rw [hati, hatj]
  rcases hle.eq_or_lt with hsame | hless
  · simp only [hsame, le_refl]
  · exact List.pairwise_iff_getElem.mp hsorted _ _ hi hj hless

end Sorted
