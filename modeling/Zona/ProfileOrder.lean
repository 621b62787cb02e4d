import Zona.MaskProfiles
import Zona.SortedLists

/-!
# The order of the variants

Read with exact rationals, the five variants of a route go from the lower to the
upper tail of what was observed.  A field that shows a percentile shows a
`quantile` of the observed values, rounded; `quantile_mono` and `quantile_range`
carry over through a monotone rounding that keeps the observed values
(`ordered_of_rounding`).

`variants_well_ordered` puts the fields together.
-/

namespace Zona

open FloatOps (ofRat ofNat asU64)

/-- The percentile of a list in any order. -/
def quantile (v : List ℚ) (p : ℚ) : ℚ :=
  lerp (sortedAt (v.insertionSort (· ≤ ·)) 0) (position (v.insertionSort (· ≤ ·)) p)

/-- The code's percentile of a sorted list is the quantile of the list in exact
arithmetic: within the ranks from 0 to 100 neither index leaves the list. -/
theorem quantile_ok {v : List ℚ} (hv : v ≠ []) {p : ℚ} (h0 : 0 ≤ p) (h100 : p ≤ 100) :
    percentile (v.insertionSort (· ≤ ·)) p = .ok (quantile v p) := by
  refine percentile_rat ?_ h0 h100
  rw [ne_eq, ← List.length_eq_zero_iff, List.length_insertionSort, List.length_eq_zero_iff]
  exact hv

/-- A quantile does not fall as its rank grows.  The order of the variants of a
profile rests on this. -/
theorem quantile_mono {v : List ℚ} (hv : v ≠ []) {p q : ℚ} (h0 : 0 ≤ p) (hpq : p ≤ q)
    (h100 : q ≤ 100) : quantile v p ≤ quantile v q := by
  have hsorted : (v.insertionSort (· ≤ ·)) ≠ [] := by
    rw [ne_eq, ← List.length_eq_zero_iff, List.length_insertionSort, List.length_eq_zero_iff]
    exact hv
  exact percentile_mono hsorted (List.pairwise_insertionSort _ v) h0 hpq h100
    (quantile_ok hv h0 (hpq.trans h100)) (quantile_ok hv (h0.trans hpq) h100)

/-- A quantile lies between two of the numbers it is taken of, whichever rank
is asked for, so it is bounded by what was observed. -/
theorem quantile_range {v : List ℚ} (hv : v ≠ []) {p : ℚ} (h0 : 0 ≤ p) (h100 : p ≤ 100) :
    (∃ a ∈ v, a ≤ quantile v p) ∧ ∃ b ∈ v, quantile v p ≤ b := by
  have hsorted : (v.insertionSort (· ≤ ·)) ≠ [] := by
    rw [ne_eq, ← List.length_eq_zero_iff, List.length_insertionSort, List.length_eq_zero_iff]
    exact hv
  obtain ⟨⟨a, ha, hle⟩, b, hb, hge⟩ := percentile_mem_range hsorted
    (List.pairwise_insertionSort _ v) h0 h100 (quantile_ok hv h0 h100)
  exact ⟨⟨a, (List.mem_insertionSort _).mp ha, hle⟩, b, (List.mem_insertionSort _).mp hb, hge⟩

/-- The percentile of an unsorted list, as the handlers compute it: nothing for
the empty list, otherwise the quantile, and never a panic. -/
theorem percentileOf_rat (v : List ℚ) {p : ℚ} (h0 : 0 ≤ p) (h100 : p ≤ 100) :
    percentileOf v p = .ok (if v = [] then none else some (quantile v p)) := by
  unfold percentileOf
  by_cases hv : v = []
  · rw [hv]
    rfl
  · rw [if_neg (by simpa [List.isEmpty_iff] using hv), sortByPartialCmp_rat, if_neg hv]
    have hok := quantile_ok hv h0 h100
    simp only [hok, bind, Except.bind, pure, Except.pure]

/-- The shown values of a field: none if nothing was observed, and otherwise
non-decreasing and between observed values. -/
structure Ordered {β : Type} [Preorder β] (observed : List β) (shown : List (Option β)) : Prop where
  absent : observed = [] → ∀ x ∈ shown, x = none
  present : observed ≠ [] → ∃ values : List β, shown = values.map some ∧ values.Pairwise (· ≤ ·) ∧
    ∀ x ∈ values, (∃ a ∈ observed, a ≤ x) ∧ ∃ b ∈ observed, x ≤ b

/-- A percentile of what was observed, rounded; nothing if nothing was. -/
def shownAt {β : Type} (v : List ℚ) (r : ℚ → β) (p : ℚ) : Option β :=
  (if v = [] then none else some (quantile v p)).map r

/-- The five ranks of the source lie between 0 and 100 and are listed in
increasing order, so that the quantiles at them are ordered too. -/
theorem latencyPercentiles_ranks :
    (∀ p ∈ latencyPercentiles, 0 ≤ p ∧ p ≤ 100) ∧ latencyPercentiles.Pairwise (· ≤ ·) := by
  constructor
  · decide
  · decide

/-- **Rounding** that is monotone and keeps the observed values keeps the order
of the variants and their place among what was observed. -/
theorem ordered_of_rounding {β : Type} [Preorder β] (v : List ℚ) {r : ℚ → β} (observed : List β)
    (hr : ∀ x y, x ≤ y → r x ≤ r y) (hkept : v.map r = observed) :
    Ordered observed (latencyPercentiles.map (shownAt v r)) where
  absent hnone := by
    rw [← hkept, List.map_eq_nil_iff] at hnone
    intro x hx
    obtain ⟨p, -, rfl⟩ := List.mem_map.mp hx
    rw [shownAt, if_pos hnone]
    rfl
  present hsome := by
    have hv : v ≠ [] := by
      intro hnil
      exact hsome (by rw [← hkept, hnil]; rfl)
    obtain ⟨hranks, hsorted⟩ := latencyPercentiles_ranks
    refine ⟨latencyPercentiles.map fun p => r (quantile v p), ?_, ?_, ?_⟩
    · rw [List.map_map]
      refine List.map_congr_left ?_
      intro p _
      rw [shownAt, if_neg hv]
      rfl
    · rw [List.pairwise_map]
      refine hsorted.imp_of_mem ?_
      intro p q hp hq hpq
      exact hr _ _ (quantile_mono hv (hranks p hp).1 hpq (hranks q hq).2)
    · intro x hx
      obtain ⟨p, hp, rfl⟩ := List.mem_map.mp hx
      obtain ⟨⟨a, ha, hle⟩, b, hb, hge⟩ := quantile_range hv (hranks p hp).1 (hranks p hp).2
      rw [← hkept]
      exact ⟨⟨r a, List.mem_map_of_mem ha, hr _ _ hle⟩, r b, List.mem_map_of_mem hb, hr _ _ hge⟩

/-- Rounding half away from zero keeps the order, also across zero, where the
two directions of rounding meet. -/
theorem round_mono {x y : ℚ} (h : x ≤ y) : RatOps.round x ≤ RatOps.round y := by
  unfold RatOps.round
  by_cases hx : 0 ≤ x
  · rw [if_pos hx, if_pos (hx.trans h)]
    exact Int.floor_mono (by linarith)
  · rw [if_neg hx]
    have hneg : 0 ≤ ⌊-x + 1 / 2⌋ := Int.floor_nonneg.mpr (by linarith)
    by_cases hy : 0 ≤ y
    · have hpos : 0 ≤ ⌊y + 1 / 2⌋ := Int.floor_nonneg.mpr (by linarith)
      rw [if_pos hy]
      omega
    · rw [if_neg hy]
      exact neg_le_neg (Int.floor_mono (by linarith))

/-- The rounding to one decimal that the source does by hand, in one formula:
scale by ten, round, and divide again. -/
theorem toTenths_rat (x : ℚ) : toTenths x = (RatOps.round (x * 10) : ℚ) / 10 :=
  rfl

/-- Rounding to tenths keeps the order, so latencies that are shown do not
leave the order of those that were computed. -/
theorem toTenths_mono {x y : ℚ} (h : x ≤ y) : toTenths x ≤ toTenths y := by
  have hround : ((RatOps.round (x * 10) : Int) : ℚ) ≤ (RatOps.round (y * 10) : Int) := by
    exact_mod_cast round_mono (by linarith)
  rw [toTenths_rat, toTenths_rat]
  linarith

/-- Whole milliseconds are kept by the rounding to tenths, so that durations
which were recorded are shown as they are. -/
theorem toTenths_natCast (n : Nat) : toTenths (n : ℚ) = n := by
  have hten : (n : ℚ) * 10 = ((n * 10 : Int) : ℚ) := by push_cast; ring
  rw [toTenths_rat, hten, RatOps.round_intCast]
  push_cast
  ring

/-- `x.round().max(0.0) as u64`, as a number. -/
def toLength (x : ℚ) : ℕ :=
  (asU64 (FloatOps.max (FloatOps.round x) (ofRat 0))).toNat

/-- What the cast of a rounded percentile to `u64` does: it saturates at both
ends, and negative numbers become zero. -/
theorem toLength_eq (x : ℚ) :
    toLength x = (min (2 ^ 64 - 1) (max (RatOps.round x) 0)).toNat := by
  have hmax : FloatOps.max (FloatOps.round x) (ofRat 0) =
      ((max (RatOps.round x) 0 : Int) : ℚ) := by
    have hbody : FloatOps.max (FloatOps.round x) (ofRat 0) = max (RatOps.round x : ℚ) 0 := rfl
    rw [hbody]
    push_cast
    rfl
  have hcast : ∀ n : Int, 0 ≤ n →
      (asU64 (n : ℚ)).toNat = (min (2 ^ 64 - 1) n).toNat := by
    intro n hn
    have hbody : asU64 (n : ℚ) =
        UInt64.ofNat (RatOps.saturate 0 (2 ^ 64 - 1) (RatOps.truncate (n : ℚ))).toNat := rfl
    have htruncate : RatOps.truncate (n : ℚ) = n := by
      rw [RatOps.truncate, if_pos (by exact_mod_cast hn), Int.floor_intCast]
    have hsaturate : RatOps.saturate 0 (2 ^ 64 - 1) n = min (2 ^ 64 - 1) n := by
      unfold RatOps.saturate
      omega
    rw [hbody, htruncate, hsaturate]
    exact UInt64.toNat_ofNat_of_lt' (by unfold UInt64.size; omega)
  rw [toLength, hmax, hcast _ (le_max_right _ _)]

/-- The saturating cast keeps the order, so lengths that are shown are ordered
as the percentiles they come from. -/
theorem toLength_mono {x y : ℚ} (h : x ≤ y) : toLength x ≤ toLength y := by
  have hround := round_mono h
  rw [toLength_eq, toLength_eq]
  omega

/-- Lengths are kept: every `u64` is read into a number and back without loss,
since the numbers here are exact. -/
theorem toLength_natCast (n : UInt64) : toLength (n.toNat : ℚ) = n.toNat := by
  have hlt := n.toNat_lt
  have hround : RatOps.round ((n.toNat : Int) : ℚ) = n.toNat := RatOps.round_intCast _
  have hcast : ((n.toNat : Int) : ℚ) = (n.toNat : ℚ) := by push_cast; rfl
  rw [hcast] at hround
  rw [toLength_eq, hround]
  omega

/-- The percentile over the samples that have a value: the others are left out
first, and where none is left there is nothing to show. -/
theorem collectPercentile_rat (samples : List (Sample ℚ)) {p : ℚ} (h0 : 0 ≤ p) (h100 : p ≤ 100)
    (extract : Sample ℚ → Option ℚ) :
    collectPercentile samples p extract =
      .ok (if samples.filterMap extract = [] then none
        else some (quantile (samples.filterMap extract) p)) :=
  percentileOf_rat _ h0 h100

/-- Lengths, as numbers. -/
def asNumbers (v : List UInt64) : List ℚ :=
  v.map fun n => (n.toNat : ℚ)

/-- The percentile of a list of lengths is computed without a panic, and what
comes out is the length that the statement of a profile speaks of. -/
theorem lengthPercentile_rat (v : List UInt64) {p : ℚ} (h0 : 0 ≤ p) (h100 : p ≤ 100) :
    ∃ n, lengthPercentile v p = .ok n ∧ n.map UInt64.toNat = shownAt (asNumbers v) toLength p := by
  have hnumbers : (v.map fun n => (ofNat n.toNat : ℚ)) = asNumbers v := rfl
  refine ⟨(if asNumbers v = [] then none else some (quantile (asNumbers v) p)).map fun x =>
    asU64 (FloatOps.max (FloatOps.round x) (ofRat 0)), ?_, ?_⟩
  · rw [lengthPercentile, hnumbers, percentileOf_rat _ h0 h100]
    rfl
  · rw [Option.map_map, shownAt]
    rfl

/-- Turning lengths into numbers and back gives the lengths again, which ties
the lengths shown to the lengths stored. -/
theorem toLength_asNumbers (v : List UInt64) :
    (asNumbers v).map toLength = v.map UInt64.toNat := by
  rw [asNumbers, List.map_map]
  exact List.map_congr_left fun n _ => toLength_natCast n

/-- Percentiles of histograms never fail in exact arithmetic: each of the
sixteen columns is sorted and has an element, and every row is long enough for
its index. -/
theorem collectHistogramPercentile_rat (samples : List (Sample ℚ)) {p : ℚ} (h0 : 0 ≤ p)
    (h100 : p ≤ 100) (request : Bool) :
    ∃ out, collectHistogramPercentile samples p request = .ok out := by
  unfold collectHistogramPercentile
  by_cases hrows : histogramRows samples request = []
  · rw [hrows]
    exact ⟨none, rfl⟩
  · have hcolumns : ∀ bin ∈ List.range 16, (do
        let col ← (histogramRows samples request).mapM fun h => index h bin
        let col ← sortByPartialCmp col
        percentile col p) =
          .ok (quantile ((histogramRows samples request).map fun row => row.getD bin 0) p) := by
      intro bin hbin
      have hcolumn : ((histogramRows samples request).map fun row => row.getD bin 0) ≠ [] := by
        simpa using hrows
      rw [histogramColumn 0 hbin]
      simp only [bind, Except.bind, sortByPartialCmp_rat]
      exact quantile_ok hcolumn h0 h100
    rw [if_neg (by simpa [List.isEmpty_iff] using hrows), mapM_ok hcolumns]
    exact ⟨_, rfl⟩

/-- The fields of a variant that show what was observed. -/
structure Shows (samples : List (Sample ℚ)) (p target : ℚ) (c : MaskCharacteristics ℚ) : Prop where
  latency : c.targetLatencyMs = toTenths target
  query : c.observedQueryLengthBytes.map UInt64.toNat =
    shownAt (asNumbers (samples.map Sample.queryLength)) toLength p
  request : c.observedRequestLengthBytes.map UInt64.toNat =
    shownAt (asNumbers (samples.filterMap Sample.requestLength)) toLength p
  response : c.observedResponseLengthBytes.map UInt64.toNat =
    shownAt (asNumbers (samples.filterMap Sample.responseLength)) toLength p
  ttfb : c.observedResponseTtfbMs =
    shownAt (asNumbers (samples.filterMap Sample.responseTtfbMs)) toTenths p

/-- The characteristics of one variant are computed without a panic and show,
field by field, the quantiles of the samples at that rank. -/
theorem characteristicsAt_rat (samples : List (Sample ℚ)) {p : ℚ} (h0 : 0 ≤ p) (h100 : p ≤ 100)
    (target jitterBase : ℚ) :
    ∃ c, characteristicsAt samples p target jitterBase = .ok c ∧ Shows samples p target c := by
  obtain ⟨query, hquery, hqueryShown⟩ :=
    lengthPercentile_rat (samples.map Sample.queryLength) h0 h100
  obtain ⟨request, hrequest, hrequestShown⟩ :=
    lengthPercentile_rat (samples.filterMap (Sample.bodyLength true)) h0 h100
  obtain ⟨response, hresponse, hresponseShown⟩ :=
    lengthPercentile_rat (samples.filterMap (Sample.bodyLength false)) h0 h100
  obtain ⟨requestHistogram, hrequestHistogram⟩ :=
    collectHistogramPercentile_rat samples h0 h100 true
  obtain ⟨responseHistogram, hresponseHistogram⟩ :=
    collectHistogramPercentile_rat samples h0 h100 false
  have httfb : (samples.filterMap fun s => s.responseTtfbMs.map fun x => (ofNat x.toNat : ℚ)) =
      asNumbers (samples.filterMap Sample.responseTtfbMs) := by
    rw [asNumbers, List.map_filterMap]
    rfl
  unfold characteristicsAt collectQueryLengthPercentile collectLengthPercentile
  simp only [hquery, hrequest, hresponse, hrequestHistogram, hresponseHistogram,
    collectPercentile_rat samples h0 h100, httfb, bind, Except.bind, pure, Except.pure]
  exact ⟨_, rfl, rfl, hqueryShown, hrequestShown, hresponseShown, rfl⟩

/-- The masking percentage exists wherever a duration was observed; its value
depends on the exponential function, which is a parameter here. -/
theorem maskingPercent_rat (exp : ℚ → ℚ) (target : ℚ) {durations : List ℚ} (hsome : durations ≠ []) :
    ∃ m, maskingPercentForLatency exp target durations = .ok m := by
  unfold maskingPercentForLatency
  have hat : ∀ p : ℚ, 0 ≤ p → p ≤ 100 → percentile durations (ofRat p) =
      .ok (lerp (sortedAt durations 0) (position durations p)) :=
    fun p h0 h100 => percentile_rat hsome h0 h100
  rw [if_neg (by simpa [List.isEmpty_iff] using hsome), hat 50 (by norm_num) (by norm_num),
    hat 10 (by norm_num) (by norm_num), hat 90 (by norm_num) (by norm_num)]
  exact ⟨_, rfl⟩

/-- What was observed of the latency. -/
def observedDurations (samples : List (Sample ℚ)) : List ℚ :=
  asNumbers (samples.map Sample.durationMs)

/-- One turn of the loop over the ranks: the variant is built, has the number
that belongs to its place in the list, and shows the quantiles at its rank. -/
theorem variantAt_rat (exp : ℚ → ℚ) {samples : List (Sample ℚ)} (hsamples : samples ≠ [])
    (jitterBase : ℚ) {entry : ℚ × Nat}
    (hentry : 0 ≤ entry.1 ∧ entry.1 ≤ 100 ∧ entry.2 < labels.length) :
    ∃ v, variantAt exp samples ((observedDurations samples).insertionSort (· ≤ ·)) jitterBase entry
        = .ok v ∧ v.id = entry.2 + 1 ∧
      Shows samples entry.1 (quantile (observedDurations samples) entry.1) v.characteristics := by
  obtain ⟨h0, h100, hlabel⟩ := hentry
  have hdurations : observedDurations samples ≠ [] := by
    simpa [observedDurations, asNumbers] using hsamples
  have hsorted : (observedDurations samples).insertionSort (· ≤ ·) ≠ [] := by
    rw [ne_eq, ← List.length_eq_zero_iff, List.length_insertionSort, List.length_eq_zero_iff]
    exact hdurations
  obtain ⟨masking, hmasking⟩ :=
    maskingPercent_rat exp (quantile (observedDurations samples) entry.1) hsorted
  obtain ⟨c, hc, hshows⟩ := characteristicsAt_rat samples h0 h100
    (quantile (observedDurations samples) entry.1) jitterBase
  have htarget : percentile ((observedDurations samples).insertionSort (· ≤ ·)) (ofRat entry.1) =
      .ok (quantile (observedDurations samples) entry.1) := quantile_ok hdurations h0 h100
  have hp : (ofRat entry.1 : ℚ) = entry.1 := rfl
  refine ⟨⟨entry.2 + 1, labels[entry.2], c, masking⟩, ?_, rfl, hshows⟩
  unfold variantAt
  rw [hp] at htarget ⊢
  simp only [htarget, hmasking, index_of_lt hlabel, hc, bind, Except.bind, pure, Except.pure]

/-- Each rank is within bounds and has a label, so the loop of `build_variants`
indexes the labels safely. -/
theorem latencyPercentiles_entries : ∀ entry ∈ latencyPercentiles.zipIdx,
    0 ≤ entry.1 ∧ entry.1 ≤ 100 ∧ entry.2 < labels.length := by
  decide

theorem buildVariants_rat (exp : ℚ → ℚ) {samples : List (Sample ℚ)} (hsamples : samples ≠ []) :
    ∃ variants, buildVariants exp samples = .ok variants ∧
      List.Forall₂ (fun (entry : ℚ × Nat) v => v.id = entry.2 + 1 ∧
        Shows samples entry.1 (quantile (observedDurations samples) entry.1) v.characteristics)
        latencyPercentiles.zipIdx variants := by
  have hdurations : observedDurations samples ≠ [] := by
    simpa [observedDurations, asNumbers] using hsamples
  have hnumbers : (samples.map fun s => (ofNat s.durationMs.toNat : ℚ)) =
      observedDurations samples := by
    rw [observedDurations, asNumbers, List.map_map]
    rfl
  have hat : ∀ p : ℚ, 0 ≤ p → p ≤ 100 →
      percentile ((observedDurations samples).insertionSort (· ≤ ·)) (ofRat p) =
        .ok (quantile (observedDurations samples) p) :=
    fun p h0 h100 => quantile_ok hdurations h0 h100
  unfold buildVariants
  simp only [hnumbers, sortByPartialCmp_rat, hat 25 (by norm_num) (by norm_num),
    hat 75 (by norm_num) (by norm_num), bind, Except.bind]
  exact exists_mapM_ok fun entry hentry =>
    variantAt_rat exp hsamples _ (latencyPercentiles_entries entry hentry)

theorem field_eq {β : Type} {P : ℚ × Nat → MaskVariant ℚ → Prop} {variants : List (MaskVariant ℚ)}
    (h : List.Forall₂ P latencyPercentiles.zipIdx variants) {field : MaskVariant ℚ → β} {f : ℚ → β}
    (hfield : ∀ entry v, P entry v → field v = f entry.1) :
    variants.map field = latencyPercentiles.map f := by
  have hzip : latencyPercentiles.map f = latencyPercentiles.zipIdx.map fun entry => f entry.1 := rfl
  rw [hzip]
  exact map_eq_of_forall₂ h hfield

/-- A percentile does not depend on the order of its numbers, because they are
sorted before anything else is done with them. -/
theorem percentileOf_perm {v v' : List ℚ} (h : v.Perm v') (p : ℚ) :
    percentileOf v p = percentileOf v' p := by
  unfold percentileOf
  rw [h.isEmpty_eq, sortByPartialCmp_rat, sortByPartialCmp_rat, insertionSort_eq_iff_perm.mpr h]

/-- The same for lengths, which are turned into numbers one by one before they
are sorted. -/
theorem lengthPercentile_perm {v v' : List UInt64} (h : v.Perm v') (p : ℚ) :
    lengthPercentile v p = lengthPercentile v' p := by
  unfold lengthPercentile
  rw [percentileOf_perm (h.map _) p]

/-- Histograms may be collected in any order of the samples: each of the
sixteen columns is permuted in the same way, and sorted afterwards. -/
theorem collectHistogramPercentile_perm {samples samples' : List (Sample ℚ)}
    (h : samples.Perm samples') (p : ℚ) (request : Bool) :
    collectHistogramPercentile samples p request = collectHistogramPercentile samples' p request := by
  have hrows : (histogramRows samples request).Perm (histogramRows samples' request) :=
    h.filterMap _
  unfold collectHistogramPercentile
  dsimp only
  rw [hrows.isEmpty_eq]
  refine if_congr Iff.rfl rfl (congrArg (· >>= _) (mapM_congr ?_))
  intro bin hbin
  rw [histogramColumn 0 hbin, histogramColumn 0 hbin]
  simp only [bind, Except.bind, sortByPartialCmp_rat,
    insertionSort_eq_iff_perm.mpr (hrows.map fun row => row.getD bin 0)]

/-- All characteristics of a variant are percentiles over the samples, so none
of them sees the order in which the samples were recorded. -/
theorem characteristicsAt_perm {samples samples' : List (Sample ℚ)} (h : samples.Perm samples')
    (p target jitterBase : ℚ) :
    characteristicsAt samples p target jitterBase =
      characteristicsAt samples' p target jitterBase := by
  unfold characteristicsAt collectQueryLengthPercentile collectLengthPercentile collectPercentile
  simp only [lengthPercentile_perm (h.map Sample.queryLength),
    lengthPercentile_perm (h.filterMap (Sample.bodyLength _)), percentileOf_perm (h.filterMap _),
    collectHistogramPercentile_perm h]

/-- **Variants do not depend on the order of the samples.**  Two stores with
the same samples of a route show the same variants, whatever order they arrived
in. -/
theorem buildVariants_perm (exp : ℚ → ℚ) {samples samples' : List (Sample ℚ)}
    (h : samples.Perm samples') : buildVariants exp samples = buildVariants exp samples' := by
  unfold buildVariants variantAt
  simp only [sortByPartialCmp_rat, insertionSort_eq_iff_perm.mpr (h.map _),
    characteristicsAt_perm h]

/-- **The variants are well ordered.**  For every non-empty list of samples no
index is out of bounds and there are five variants; what they show of the
latency, of the lengths and of the time to the first byte does not decrease from
the first to the last and lies between observed values; and another order of the
samples gives the same variants. -/
theorem variants_well_ordered (exp : ℚ → ℚ) {samples : List (Sample ℚ)} (h : samples ≠ []) :
    ∃ variants, buildVariants exp samples = .ok variants ∧
      variants.map MaskVariant.id = [1, 2, 3, 4, 5] ∧
      Ordered (observedDurations samples)
        (variants.map fun v => some v.characteristics.targetLatencyMs) ∧
      Ordered ((samples.map Sample.queryLength).map UInt64.toNat)
        (variants.map fun v => v.characteristics.observedQueryLengthBytes.map UInt64.toNat) ∧
      Ordered ((samples.filterMap Sample.requestLength).map UInt64.toNat)
        (variants.map fun v => v.characteristics.observedRequestLengthBytes.map UInt64.toNat) ∧
      Ordered ((samples.filterMap Sample.responseLength).map UInt64.toNat)
        (variants.map fun v => v.characteristics.observedResponseLengthBytes.map UInt64.toNat) ∧
      Ordered (asNumbers (samples.filterMap Sample.responseTtfbMs))
        (variants.map fun v => v.characteristics.observedResponseTtfbMs) ∧
      ∀ samples', samples'.Perm samples → buildVariants exp samples' = .ok variants := by
  obtain ⟨variants, hbuilt, hall⟩ := buildVariants_rat exp h
  have hdurations : observedDurations samples ≠ [] := by
    simpa [observedDurations, asNumbers] using h
  have hkept : ∀ v : List UInt64, (asNumbers v).map toTenths = asNumbers v := by
    intro v
    rw [asNumbers, List.map_map]
    exact List.map_congr_left fun n _ => toTenths_natCast n.toNat
  have hlength : ∀ v : List UInt64,
      Ordered (v.map UInt64.toNat) (latencyPercentiles.map (shownAt (asNumbers v) toLength)) :=
    fun v => ordered_of_rounding (asNumbers v) _ (fun _ _ => toLength_mono) (toLength_asNumbers v)
  have htime : ∀ v : List UInt64,
      Ordered (asNumbers v) (latencyPercentiles.map (shownAt (asNumbers v) toTenths)) :=
    fun v => ordered_of_rounding (asNumbers v) _ (fun _ _ => toTenths_mono) (hkept v)
  refine ⟨variants, hbuilt, ?_, ?_, ?_, ?_, ?_, ?_, ?_⟩
  · exact map_eq_of_forall₂ hall fun entry v hv => hv.1
  · have hshown : ∀ (entry : ℚ × Nat) (v : MaskVariant ℚ), (v.id = entry.2 + 1 ∧
        Shows samples entry.1 (quantile (observedDurations samples) entry.1) v.characteristics) →
        some v.characteristics.targetLatencyMs =
          shownAt (observedDurations samples) toTenths entry.1 := by
      intro entry v hv
      rw [shownAt, if_neg hdurations, hv.2.latency]
      rfl
    rw [field_eq hall hshown]
    exact htime (samples.map Sample.durationMs)
  · rw [field_eq hall fun entry v hv => hv.2.query]
    exact hlength _
  · rw [field_eq hall fun entry v hv => hv.2.request]
    exact hlength _
  · rw [field_eq hall fun entry v hv => hv.2.response]
    exact hlength _
  · rw [field_eq hall fun entry v hv => hv.2.ttfb]
    exact htime _
  · intro samples' hperm
    rw [buildVariants_perm exp hperm, hbuilt]

/-- A request that took some time, and of which nothing else is known. -/
def timedSample (durationMs : UInt64) : Sample ℚ where
  durationMs := durationMs
  statusCode := 200
  unixMs := 0
  query := none
  requestLength := none
  responseLength := none
  responseTtfbMs := none
  requestEntropyBits := none
  requestOnesRatio := none
  requestByteHistogram16 := none
  responseEntropyBits := none
  responseOnesRatio := none
  responseByteHistogram16 := none

/-- Two requests in either order give the same variants, and their latencies
are in order, which shows that the results above are about something. -/
theorem two_timed_samples :
    ∃ variants, buildVariants (fun x => x) [timedSample 20, timedSample 10] = .ok variants ∧
      buildVariants (fun x => x) [timedSample 10, timedSample 20] = .ok variants ∧
      Ordered [20, 10] (variants.map fun v => some v.characteristics.targetLatencyMs) := by
  obtain ⟨variants, hbuilt, -, hlatency, -, -, -, -, horder⟩ :=
    variants_well_ordered (fun x => x) (List.cons_ne_nil (timedSample 20) [timedSample 10])
  exact ⟨variants, hbuilt, horder _ (List.Perm.swap _ _ _), hlatency⟩

end Zona
