import Zona.Binary64
import Zona.Percentiles

/-!
# Percentiles of binary64 numbers

With binary64 numbers the position of a percentile is rounded three times, and a
length of more than 53 bits is rounded as well.  At the ranks that the services
ask for, which are well below 100, both indices are in bounds all the same
(`noPanic_percentile`).

Nor does rounding carry a percentile far away: if the elements are of a certain
size, it is of about that size (`percentile_small`).
-/

namespace Binary64

/-- A rounding by less than one in a thousand. -/
theorem ofRat_near {q : ℚ} (hlow : 1 / 1000 ≤ q) (hhigh : q ≤ 2 ^ 100) :
    ∃ v h, ofRat q = .finite v h ∧ q * (999 / 1000) ≤ v ∧ v ≤ q * (1001 / 1000) := by
  have hpos : 0 ≤ q := by linarith
  have hsize : |q| ≤ 2 ^ 1022 := by
    rw [abs_of_nonneg hpos]
    exact hhigh.trans (pow_le_pow_right₀ one_le_two (by omega))
  obtain ⟨v, h, hv, herror⟩ := ofRat_of_le hsize
  have hshare : (|q| + 1) / 2 ^ 53 ≤ q / 1000 := by
    rw [abs_of_nonneg hpos, div_le_div_iff₀ (by positivity) (by positivity)]
    norm_num
    linarith
  obtain ⟨hbelow, habove⟩ := abs_le.mp (herror.trans hshare)
  exact ⟨v, h, hv, by linarith, by linarith⟩

/-- Comparison of two finite numbers is that of their values, without any
rounding, so the branches of the source can be decided on the rational side. -/
theorem lt_finite {a b : ℚ} (ha : Representable a) (hb : Representable b) :
    FloatOps.lt (finite a ha) (finite b hb) = decide (a < b) := by
  have hcompare : FloatOps.partialCmp (finite a ha) (finite b hb) = some (compare a b) := rfl
  rw [FloatOps.lt, hcompare]
  simp [compare_lt_iff_lt]

/-- Conversion to an integer type rounds down what is positive. -/
theorem toInt_le {v : ℚ} {h : Representable v} {n : Nat} (hv : v ≤ n) :
    ((finite v h).toInt 0 (2 ^ 64 - 1)).toNat ≤ n := by
  have htruncate : RatOps.truncate v ≤ n := by
    unfold RatOps.truncate
    split_ifs with hpos
    · have hle : ((⌊v⌋ : Int) : ℚ) ≤ n := (Int.floor_le v).trans hv
      exact_mod_cast hle
    · exact Int.ceil_le.mpr (by exact_mod_cast hv)
  rw [toInt, RatOps.saturate]
  omega

/-- The saturating conversion fits into 64 bits, whatever the number is,
infinities and NaN included. -/
theorem toInt_lt (x : Binary64) : (x.toInt 0 (2 ^ 64 - 1)).toNat < 2 ^ 64 := by
  cases x with
  | nan => decide
  | inf negative => cases negative <;> decide
  | finite v h =>
      rw [toInt, RatOps.saturate]
      omega

/-- A number that is no integer has few bits before the point. -/
theorem Representable.le_of_not_integer {q : ℚ} (h : Representable q) (hq : q ≠ ⌊q⌋) :
    |q| ≤ 2 ^ 52 := by
  obtain ⟨-, m, e, hm, -, rfl⟩ := h
  by_cases he : 0 ≤ e
  · rw [mul_zpow_eq_intCast m he, Int.floor_intCast] at hq
    exact absurd rfl hq
  · have hpower : (2 : ℚ) ^ e ≤ 2 ^ (-1 : Int) := zpow_le_zpow_right₀ one_le_two (by omega)
    have hsignificand : |(m : ℚ)| ≤ 2 ^ 53 := by exact_mod_cast hm
    rw [abs_mul, abs_of_pos (show (0 : ℚ) < 2 ^ e by positivity)]
    calc |(m : ℚ)| * 2 ^ e ≤ 2 ^ 53 * 2 ^ (-1 : Int) :=
          mul_le_mul hsignificand hpower (by positivity) (by positivity)
      _ = 2 ^ 52 := by norm_num

end Binary64

namespace Zona

open FloatOps
open Binary64 (Representable ofRat_near ofRat_of_le lt_finite toInt_le toInt_lt)

section Ranks

variable {p : ℚ}

/-- The ranks of the source are not changed by clamping to the range from 0 to
100, which they are well inside of. -/
theorem clamp_rank {v : ℚ} (h : Representable v) (hlow : 1 / 2 ≤ v) (hhigh : v ≤ 99) :
    clamp (Binary64.finite v h) (ofRat 0) (ofRat 100) = .finite v h := by
  obtain ⟨c, hc, hhundred, hbelow, -⟩ := ofRat_near (q := 100) (by norm_num) (by norm_num)
  have hzero' : (ofRat 0 : Binary64) = .finite 0 Binary64.representable_zero :=
    Binary64.ofRat_zero
  have hhundred' : (ofRat 100 : Binary64) = .finite c hc := hhundred
  rw [clamp, hzero', hhundred', lt_finite, lt_finite, if_neg, if_neg]
  · rw [decide_eq_true_eq]
    linarith
  · rw [decide_eq_true_eq]
    linarith

/-- The position of a percentile is in the list, rounded as it may be. -/
theorem index_of_rank {n : Nat} (hn : 1 ≤ n) (hn' : n ≤ 2 ^ 64) (h1 : 1 ≤ p) (h90 : p ≤ 90) :
    ∃ t h, div (mul (ofNat n) (clamp (ofRat p) (ofRat 0) (ofRat 100)))
      (ofRat 100) = Binary64.finite t h ∧ t ≤ n := by
  have hone : (1 : ℚ) ≤ n := by exact_mod_cast hn
  have hmany : (n : ℚ) ≤ 18446744073709551616 := by exact_mod_cast hn'
  obtain ⟨a, ha, hlength, halow, hahigh⟩ := ofRat_near (q := n) (by linarith)
    (by linarith)
  obtain ⟨v, hv, hrank, hvlow, hvhigh⟩ := ofRat_near (q := p) (by linarith)
    (h90.trans (by norm_num))
  obtain ⟨c, hc, hhundred, hclow, hchigh⟩ := ofRat_near (q := 100) (by norm_num) (by norm_num)
  have hproductLow : 1 / 2 ≤ a * v := by
    have hle := mul_le_mul (show 3 / 4 ≤ a by linarith) (show 3 / 4 ≤ v by linarith)
      (by norm_num) (by linarith)
    linarith
  have hproductHigh : a * v ≤ n * 91 := by
    have hle := mul_le_mul hahigh (show v ≤ 9009 / 100 by linarith) (by linarith) (by linarith)
    linarith
  obtain ⟨b, hb, hproduct, hblow, hbhigh⟩ := ofRat_near (q := a * v) (by linarith) (by linarith)
  have hcpos : 0 < c := by linarith
  have hquotientLow : 1 / 1000 ≤ b / c := by
    rw [le_div_iff₀ hcpos]
    linarith
  have hquotientHigh : b / c ≤ b / 99 := by
    refine div_le_div_of_nonneg_left (by linarith) (by norm_num) (by linarith)
  obtain ⟨t, ht, hquotient, -, hthigh⟩ := ofRat_near (q := b / c) hquotientLow (by linarith)
  refine ⟨t, ht, ?_, ?_⟩
  · have hclamped : clamp (ofRat p) (ofRat 0) (ofRat 100) =
        Binary64.finite v hv := by
      have hrank' : (ofRat p : Binary64) = .finite v hv := hrank
      rw [hrank']
      exact clamp_rank hv (by linarith) (by linarith)
    have hdivide : (Binary64.finite b hb).div (.finite c hc) = .ofRat (b / c) := by
      rw [Binary64.div, if_neg hcpos.ne']
    calc div (mul (ofNat n) (clamp (ofRat p) (ofRat 0) (ofRat 100)))
          (ofRat 100)
        = ((Binary64.ofRat n).mul (.finite v hv)).div (.ofRat 100) := by rw [hclamped]; rfl
      _ = (Binary64.finite b hb).div (.finite c hc) := by
          rw [hlength, hhundred, Binary64.mul, hproduct]
      _ = .finite t ht := by rw [hdivide, hquotient]
  · linarith

/-- Both indices are in bounds, although the product and the quotient are
rounded: their relative errors are far too small to reach the next integer. -/
theorem indices_lt (l : List Binary64) (hl : 2 ≤ l.length) (h1 : 1 ≤ p) (h90 : p ≤ 90)
    {idx : Binary64} (hidx : idx = div (mul (ofNat (l.length - 1))
      (clamp (ofRat p) (ofRat 0) (ofRat 100))) (ofRat 100)) :
    asUsize (floor idx) < l.length ∧ asUsize (ceil idx) < l.length := by
  by_cases hmany : l.length - 1 ≤ 2 ^ 64
  · obtain ⟨t, ht, hposition, hle⟩ := index_of_rank (by omega) hmany h1 h90
    rw [hposition] at hidx
    subst hidx
    have hfloor : asUsize (floor (Binary64.finite t ht)) ≤ l.length - 1 :=
      toInt_le ((Int.floor_le t).trans hle)
    have hceil : asUsize (ceil (Binary64.finite t ht)) ≤ l.length - 1 := by
      refine toInt_le ?_
      exact_mod_cast Int.ceil_le.mpr (by exact_mod_cast hle)
    omega
  · have hfloor : asUsize (floor idx) < 2 ^ 64 := toInt_lt _
    have hceil : asUsize (ceil idx) < 2 ^ 64 := toInt_lt _
    omega

/-- **No percentile is out of bounds**, whatever the length of the list: the
two indices are compared with the last one, and the empty list has its own
branch. -/
theorem noPanic_percentile (l : List Binary64) (h1 : 1 ≤ p) (h90 : p ≤ 90) :
    NoPanic (percentile l (ofRat p)) := by
  unfold percentile
  split_ifs with hempty hone
  · exact noPanic_ok _
  · exact noPanic_index (by omega)
  · have hl : 2 ≤ l.length := by
      have hpos : 0 < l.length := by
        rw [List.length_pos_iff]
        rintro rfl
        exact hempty rfl
      omega
    obtain ⟨hlo, hhi⟩ := indices_lt l hl h1 h90 rfl
    dsimp only
    split_ifs with hsame
    · exact noPanic_index hlo
    · rw [index_of_lt hlo, index_of_lt hhi]
      exact noPanic_ok _

end Ranks

section Sizes

variable {A B : ℚ} {x y : Binary64}

/-- A number of a certain size. -/
def Small (A : ℚ) (x : Binary64) : Prop :=
  ∃ v h, x = .finite v h ∧ |v| ≤ A

/-- The bound on the size of a number may be raised, for the next step of a
chain of roundings. -/
theorem Small.mono (h : Small A x) (hAB : A ≤ B) : Small B x := by
  obtain ⟨v, hv, rfl, hle⟩ := h
  exact ⟨v, hv, rfl, hle.trans hAB⟩

/-- A literal or a converted integer is as small as it was before rounding, but
for a thousandth of the bound. -/
theorem small_ofRat {q : ℚ} (hq : |q| ≤ A) (hA : 1 ≤ A) (hA' : A ≤ 2 ^ 100) :
    Small (A * (1001 / 1000)) (ofRat q) := by
  have hsize : |q| ≤ 2 ^ 1022 :=
    (hq.trans hA').trans (pow_le_pow_right₀ one_le_two (by omega))
  obtain ⟨v, hv, hval, herror⟩ := ofRat_of_le hsize
  have hshare : (|q| + 1) / 2 ^ 53 ≤ A / 1000 := by
    rw [div_le_div_iff₀ (by positivity) (by positivity)]
    norm_num
    linarith
  have htriangle : |v| ≤ |q| + |v - q| := by
    have h := abs_add_le q (v - q)
    rwa [add_sub_cancel] at h
  exact ⟨v, hv, hval, by linarith⟩

/-- The sum of two bounded numbers is finite, and one thousandth of the bounds
pays for its rounding. -/
theorem Small.add (hx : Small A x) (hy : Small B y) (hA : 1 ≤ A + B) (hA' : A + B ≤ 2 ^ 100) :
    Small ((A + B) * (1001 / 1000)) (add x y) := by
  obtain ⟨v, hv, rfl, hvA⟩ := hx
  obtain ⟨w, hw, rfl, hwB⟩ := hy
  exact small_ofRat ((abs_add_le v w).trans (add_le_add hvA hwB)) hA hA'

/-- The difference is bounded like the sum, as the signs of the two numbers are
not known. -/
theorem Small.sub (hx : Small A x) (hy : Small B y) (hA : 1 ≤ A + B) (hA' : A + B ≤ 2 ^ 100) :
    Small ((A + B) * (1001 / 1000)) (sub x y) := by
  obtain ⟨w, hw, rfl, hwB⟩ := hy
  have hneg : Small B (Binary64.finite (-w) hw.neg) := ⟨-w, hw.neg, rfl, by rwa [abs_neg]⟩
  exact hx.add hneg hA hA'

/-- The product of two bounded numbers is finite, and one thousandth of the
product of the bounds pays for its rounding. -/
theorem Small.mul (hx : Small A x) (hy : Small B y) (hA : 1 ≤ A * B) (hA' : A * B ≤ 2 ^ 100) :
    Small (A * B * (1001 / 1000)) (mul x y) := by
  obtain ⟨v, hv, rfl, hvA⟩ := hx
  obtain ⟨w, hw, rfl, hwB⟩ := hy
  have hle : |v * w| ≤ A * B := by
    rw [abs_mul]
    exact mul_le_mul hvA hwB (abs_nonneg w) ((abs_nonneg v).trans hvA)
  exact small_ofRat hle hA hA'

/-- The weight of the upper neighbour, where there are two. -/
theorem small_weight (h : asUsize (floor x) ≠ asUsize (ceil x)) :
    Small (7 / 4) (sub x (ofNat (asUsize (floor x)))) := by
  cases x with
  | nan => exact absurd rfl h
  | inf negative => exact absurd rfl h
  | finite t ht =>
      have hfloor : asUsize (floor (Binary64.finite t ht)) =
          (RatOps.saturate 0 (2 ^ 64 - 1) (RatOps.truncate (⌊t⌋ : ℚ))).toNat := rfl
      have hceil : asUsize (ceil (Binary64.finite t ht)) =
          (RatOps.saturate 0 (2 ^ 64 - 1) (RatOps.truncate (⌈t⌉ : ℚ))).toNat := rfl
      rw [RatOps.truncate_intCast, RatOps.saturate] at hfloor hceil
      rw [hfloor, hceil] at h
      rw [hfloor]
      have hfraction : t ≠ ⌊t⌋ := by
        intro hwhole
        have hsame : ⌈t⌉ = ⌊t⌋ := by
          rw [hwhole, Int.ceil_intCast, Int.floor_intCast]
        rw [hsame] at h
        exact h rfl
      have hnext : ⌈t⌉ ≤ ⌊t⌋ + 1 := Int.ceil_le_floor_add_one t
      have hle : ⌊t⌋ ≤ ⌈t⌉ := Int.floor_le_ceil t
      have hlo : (((max 0 (min (2 ^ 64 - 1) ⌊t⌋)).toNat : Nat) : Int) = ⌊t⌋ := by omega
      have hlo' : (((max 0 (min (2 ^ 64 - 1) ⌊t⌋)).toNat : Nat) : ℚ) = (⌊t⌋ : ℚ) := by
        rw [← Int.cast_natCast, hlo]
      have hsize := ht.le_of_not_integer hfraction
      have hbelow := Int.floor_le t
      have habove := Int.lt_floor_add_one t
      have hpos : (0 : ℚ) ≤ (⌊t⌋ : ℚ) := by
        rw [← hlo']
        exact Nat.cast_nonneg _
      have hbits : |(⌊t⌋ : ℚ)| ≤ 2 ^ 52 := by
        rw [abs_of_nonneg hpos]
        exact hbelow.trans ((le_abs_self t).trans hsize)
      obtain ⟨v, hv, hval, herror⟩ := ofRat_of_le (q := (⌊t⌋ : ℚ))
        (hbits.trans (pow_le_pow_right₀ one_le_two (by omega)))
      have hnumber : ofNat (max 0 (min (2 ^ 64 - 1) ⌊t⌋)).toNat = Binary64.finite v hv := by
        rw [ofNat, hlo']
        exact hval
      have hshare : (|(⌊t⌋ : ℚ)| + 1) / 2 ^ 53 ≤ 6 / 10 := by
        rw [div_le_iff₀ (by positivity)]
        norm_num at hbits ⊢
        linarith
      have hweight : |t + -v| ≤ 17 / 10 := by
        obtain ⟨hlow, hhigh⟩ := abs_le.mp (herror.trans hshare)
        rw [abs_le]
        constructor <;> linarith
      have hsub : sub (Binary64.finite t ht) (Binary64.finite v hv) = ofRat (t + -v) := rfl
      rw [hnumber, hsub]
      exact (small_ofRat hweight (by norm_num) (by norm_num)).mono (by norm_num)

/-- **A percentile** is of about the size of the elements, as it is one of them
or a mean of two with rounded weights. -/
theorem percentile_small {l : List Binary64} {p x : Binary64} (hl : ∀ y ∈ l, Small A y)
    (hA : 1 ≤ A) (hA' : A ≤ 2 ^ 90) (h : percentile l p = .ok x) : Small (A * 6) x := by
  have helement : ∀ {i : Nat} {y : Binary64}, index l i = .ok y → Small A y := by
    intro i y hy
    unfold index at hy
    cases hget : l[i]? with
    | none =>
        rw [hget] at hy
        cases hy
    | some a =>
        rw [hget] at hy
        cases hy
        exact hl _ (List.mem_of_getElem? hget)
  norm_num at hA'
  unfold percentile at h
  split_ifs at h with hempty hone
  · cases h
    exact (small_ofRat (q := 0) (A := A) (by rw [abs_zero]; linarith) hA (by linarith)).mono
      (by linarith)
  · exact (helement h).mono (by linarith)
  · dsimp only at h
    split_ifs at h with hsame
    · exact (helement h).mono (by linarith)
    · obtain ⟨below, hbelow, hrest⟩ := noPanic_bind.mp ⟨x, h⟩
      obtain ⟨above, habove, -⟩ := noPanic_bind.mp hrest
      simp only [hbelow, habove, bind, Except.bind, pure, Except.pure, Except.ok.injEq] at h
      have hweight := small_weight hsame
      have hunit : Small (5 / 4) (ofRat 1 : Binary64) :=
        (small_ofRat (q := 1) (A := 1) (by norm_num) le_rfl (by norm_num)).mono (by norm_num)
      have hrest := (hunit.sub hweight (by norm_num) (by norm_num)).mono
        (show _ ≤ 13 / 4 by norm_num)
      have hlower := ((helement hbelow).mul hrest (by linarith) (by linarith)).mono
        (show _ ≤ A * (7 / 2) by linarith)
      have hupper := ((helement habove).mul hweight (by linarith) (by linarith)).mono
        (show _ ≤ A * 2 by linarith)
      rw [← h]
      exact (hlower.add hupper (by linarith) (by linarith)).mono (by linarith)

/-- A small number that is rounded, cut off at zero and cast to `u64` is at
most its bound: `x.round().max(0.0) as u64` in the source. -/
theorem asU64_le {n : Nat} (hx : Small n x) :
    (asU64 (FloatOps.max (round x) (ofRat 0))).toNat ≤ n := by
  obtain ⟨v, hv, rfl, hsize⟩ := hx
  have hround : ((RatOps.round v : Int) : ℚ) ≤ n := by
    have hle := Binary64.integral_round.bounded v n (by exact_mod_cast hsize)
    exact_mod_cast (le_abs_self _).trans hle
  have hzero : (ofRat 0 : Binary64) = .finite 0 Binary64.representable_zero :=
    Binary64.ofRat_zero
  have hint : ((FloatOps.max (round (Binary64.finite v hv)) (ofRat 0)).toInt 0
      (2 ^ 64 - 1)).toNat ≤ n := by
    rw [hzero]
    change ((if _ then _ else _ : Binary64).toInt _ _).toNat ≤ n
    split_ifs with hneg
    · exact toInt_le (Nat.cast_nonneg n)
    · exact toInt_le hround
  exact ((UInt64.toNat_ofNat').trans_le (Nat.mod_le _ _)).trans hint

end Sizes

end Zona
