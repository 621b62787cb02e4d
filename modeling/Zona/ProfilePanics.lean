import Zona.Binary64Percentiles
import Zona.SignatureSynthesis

/-!
# Panics of the profile endpoints

The numbers of a sample come from JSON, so they are finite; they can be sorted,
and `GET /mask-profiles` never panics, whatever was taught
(`noPanic_maskProfiles`).

The lengths of a sample are only shown there, but `GET /signature-samples`
allocates vectors of these lengths.  It panics exactly if, on a route that it
lists, some percentile of the lengths is more than a vector can have
(`noPanic_signatureSamples`).
-/

namespace Zona

open FloatOps (ofRat ofNat isFinite)
open PersistedTrainStore

section Taught

variable {F : Type}

/-- All numbers of a sample. -/
def Sample.numbers (s : Sample F) : List F :=
  s.requestEntropyBits.toList ++ s.requestOnesRatio.toList ++
    s.requestByteHistogram16.getD [] ++ s.responseEntropyBits.toList ++
    s.responseOnesRatio.toList ++ s.responseByteHistogram16.getD []

/-- All numbers of a body. -/
def TeachPayload.numbers (body : TeachPayload F) : List F :=
  body.requestEntropyBits.toList ++ body.requestOnesRatio.toList ++
    body.requestByteHistogram16.getD [] ++ body.responseEntropyBits.toList ++
    body.responseOnesRatio.toList ++ body.responseByteHistogram16.getD []

/-- All lengths of a sample. -/
def Sample.lengths (s : Sample F) : List UInt64 :=
  s.queryLength :: s.requestLength.toList ++ s.responseLength.toList

/-- No length is beyond an exabyte. -/
def Sample.Short (s : Sample F) : Prop :=
  ∀ n ∈ s.lengths, n.toNat ≤ 2 ^ 60

instance (s : Sample F) : Decidable s.Short :=
  List.decidableBAll (fun n : UInt64 => n.toNat ≤ 2 ^ 60) s.lengths

/-- The samples have the property. -/
def PersistedTrainStore.Every (P : Sample F → Prop) (g : PersistedTrainStore (Sample F)) : Prop :=
  ∀ key samples, g.routes.lookup key = some samples → ∀ s ∈ samples, P s

variable {P : Sample F → Prop} {opts : TrainOptions} {g : PersistedTrainStore (Sample F)}

/-- The empty store has no samples, so whatever is asked of every sample holds
of it.  Runs start here. -/
theorem every_default : (PersistedTrainStore.default : PersistedTrainStore (Sample F)).Every P := by
  intro key samples hlookup
  cases hlookup

/-- Recording keeps what holds of every sample, if it holds of the new one: the
other samples stay where they are. -/
theorem PersistedTrainStore.Every.record (h : g.Every P) {call : RecordCall (Sample F)}
    (hcall : P call.sample) : (g.record opts call).Every P := by
  unfold PersistedTrainStore.Every
  rw [record_routes]
  refine HashMap.forall_put (P := fun _ samples => ∀ s ∈ samples, P s) h ?_
  intro s hs
  rcases List.mem_append.mp hs with hold | hnew
  · cases hsamples : g.routes.lookup call.key with
    | none =>
        rw [hsamples] at hold
        cases hold
    | some samples =>
        rw [hsamples] at hold
        exact h call.key samples hsamples s hold
  · rw [List.mem_singleton.mp hnew]
    exact hcall

/-- The store after some bodies were taught. -/
def PersistedTrainStore.taught (opts : TrainOptions) (codec : FormCodec)
    (g : PersistedTrainStore (Sample F)) (bodies : List (TeachPayload F × Int)) :
    PersistedTrainStore (Sample F) :=
  g.recordFrom opts (bodies.map fun body => teach codec body.1 body.2)

/-- **What holds of all that is taught** holds of all samples, in a store that
began with such samples or with none. -/
theorem PersistedTrainStore.Every.taught {codec : FormCodec} {bodies : List (TeachPayload F × Int)}
    (h : g.Every P) (hbodies : ∀ body ∈ bodies, P (teach codec body.1 body.2).sample) :
    (g.taught opts codec bodies).Every P := by
  induction bodies generalizing g with
  | nil => exact h
  | cons body bodies ih =>
      obtain ⟨hbody, hrest⟩ := List.forall_mem_cons.mp hbodies
      exact ih (h.record hbody) hrest

end Taught

/-- The numbers that a JSON decoder gives are finite. -/
def Sample.Decoded (s : Sample Binary64) : Prop :=
  ∀ x ∈ s.numbers, isFinite x = true

def TeachPayload.Decoded (body : TeachPayload Binary64) : Prop :=
  ∀ x ∈ body.numbers, isFinite x = true

/-- A sample made from a decoded body is decoded as well, because `teach`
copies the numbers of the body as they are. -/
theorem decoded_teach {codec : FormCodec} {body : TeachPayload Binary64} (h : body.Decoded)
    (now : Int) : (teach codec body now).sample.Decoded :=
  h

/-- The numbers can be compared. -/
def Comparable (v : List Binary64) : Prop :=
  ∀ x ∈ v, x ≠ .nan

/-- Numbers that can all be compared are sorted without a panic.  The order
that comes out is the one of insertion sort, which permutes them. -/
theorem sortByPartialCmp_ok {v : List Binary64} (hv : Comparable v) :
    sortByPartialCmp v = .ok (v.insertionSort notGreater) := by
  have hcomparable : v.any (fun x => (FloatOps.partialCmp x x).isNone) = false := by
    rw [List.any_eq_false]
    intro x hx
    rw [Option.isNone_iff_eq_none]
    exact Binary64.partialCmp_self (hv x hx)
  rw [sortByPartialCmp, hcomparable, if_neg fun h => Bool.false_ne_true h.2]

/-- Converted integers can all be compared, since no conversion gives NaN. -/
theorem comparable_ofNat {α : Type} (v : List α) (f : α → Nat) :
    Comparable (v.map fun a => ofNat (f a)) := by
  intro x hx
  obtain ⟨a, -, rfl⟩ := List.mem_map.mp hx
  exact Binary64.ofRat_ne_nan _

section Percentiles

variable {p : ℚ}

/-- The percentile of comparable numbers exists at each rank of the source, for
the empty list too, where it is nothing. -/
theorem noPanic_percentileOf {v : List Binary64} (hv : Comparable v) (h1 : 1 ≤ p) (h90 : p ≤ 90) :
    NoPanic (percentileOf v (ofRat p)) := by
  unfold percentileOf
  split_ifs with hempty
  · exact noPanic_ok none
  · rw [sortByPartialCmp_ok hv]
    exact (noPanic_bind_pure some).mpr (noPanic_percentile _ h1 h90)

/-- Percentiles of lengths never panic: lengths become numbers that can be
compared, and the cast back to `u64` saturates. -/
theorem noPanic_lengthPercentile (v : List UInt64) (h1 : 1 ≤ p) (h90 : p ≤ 90) :
    NoPanic (lengthPercentile v (ofRat p : Binary64)) := by
  rw [lengthPercentile, noPanic_bind_pure]
  exact noPanic_percentileOf (comparable_ofNat v UInt64.toNat) h1 h90

variable {samples : List (Sample Binary64)}

/-- A field of the samples that is among their numbers. -/
theorem noPanic_collectPercentile (hsamples : ∀ s ∈ samples, s.Decoded)
    {extract : Sample Binary64 → Option Binary64}
    (hextract : ∀ s x, extract s = some x → x ∈ s.numbers) (h1 : 1 ≤ p) (h90 : p ≤ 90) :
    NoPanic (collectPercentile samples (ofRat p) extract) := by
  refine noPanic_percentileOf ?_ h1 h90
  intro x hx
  obtain ⟨s, hs, hsome⟩ := List.mem_filterMap.mp hx
  exact Binary64.ne_nan_of_isFinite (hsamples s hs x (hextract s x hsome))

/-- What a row of a histogram holds is a number of some sample, so a row of
decoded samples can be sorted. -/
theorem mem_numbers_of_row {request : Bool} {row : List Binary64}
    (hrow : row ∈ histogramRows samples request) :
    ∃ s ∈ samples, ∀ x ∈ row, x ∈ s.numbers := by
  obtain ⟨s, hs, hfilter⟩ := List.mem_filterMap.mp hrow
  have hsome := (Option.filter_eq_some_iff.mp hfilter).1
  refine ⟨s, hs, ?_⟩
  intro x hx
  cases request with
  | false =>
      have hnumbers : s.responseByteHistogram16 = some row := hsome
      simp [Sample.numbers, hnumbers, hx]
  | true =>
      have hnumbers : s.requestByteHistogram16 = some row := hsome
      simp [Sample.numbers, hnumbers, hx]

/-- The percentiles of the histograms never panic: each bin is in bounds, its
column can be sorted, and the column is not empty. -/
theorem noPanic_collectHistogramPercentile (hsamples : ∀ s ∈ samples, s.Decoded) (request : Bool)
    (h1 : 1 ≤ p) (h90 : p ≤ 90) :
    NoPanic (collectHistogramPercentile samples (ofRat p) request) := by
  unfold collectHistogramPercentile
  dsimp only
  split_ifs with hempty
  · exact noPanic_ok none
  · rw [noPanic_bind_pure, noPanic_mapM]
    intro bin hbin
    have hcolumn : Comparable
        ((histogramRows samples request).map fun row => row.getD bin (.inf false)) := by
      intro x hx
      obtain ⟨row, hrow, rfl⟩ := List.mem_map.mp hx
      obtain ⟨s, hs, hmem⟩ := mem_numbers_of_row hrow
      have hlt : bin < row.length := by
        rw [length_of_mem_histogramRows hrow]
        exact List.mem_range.mp hbin
      rw [List.getD_eq_getElem?_getD, List.getElem?_eq_getElem hlt]
      exact Binary64.ne_nan_of_isFinite (hsamples s hs _ (hmem _ (List.getElem_mem hlt)))
    rw [histogramColumn (.inf false) hbin]
    simp only [bind, Except.bind, sortByPartialCmp_ok hcolumn]
    exact noPanic_percentile _ h1 h90

end Percentiles

section Variants

variable {samples : List (Sample Binary64)} {p : ℚ}

/-- A variant shows the percentiles of the lengths. -/
structure ShowsLengths (samples : List (Sample Binary64)) (p : ℚ)
    (c : MaskCharacteristics Binary64) : Prop where
  query : lengthPercentile (samples.map Sample.queryLength) (ofRat p : Binary64) =
    .ok c.observedQueryLengthBytes
  request : lengthPercentile (samples.filterMap Sample.requestLength) (ofRat p : Binary64) =
    .ok c.observedRequestLengthBytes
  response : lengthPercentile (samples.filterMap Sample.responseLength) (ofRat p : Binary64) =
    .ok c.observedResponseLengthBytes

/-- The characteristics of a variant are computed without a panic, and the
lengths in them are the percentiles of the stored lengths at its rank. -/
theorem characteristicsAt_ok (hsamples : ∀ s ∈ samples, s.Decoded) (h1 : 1 ≤ p) (h90 : p ≤ 90)
    (target jitterBase : Binary64) :
    ∃ c, characteristicsAt samples (ofRat p) target jitterBase = .ok c ∧
      ShowsLengths samples p c := by
  obtain ⟨query, hquery⟩ := noPanic_lengthPercentile (samples.map Sample.queryLength) h1 h90
  obtain ⟨request, hrequest⟩ :=
    noPanic_lengthPercentile (samples.filterMap Sample.requestLength) h1 h90
  obtain ⟨response, hresponse⟩ :=
    noPanic_lengthPercentile (samples.filterMap Sample.responseLength) h1 h90
  obtain ⟨ttfb, httfb⟩ : NoPanic (collectPercentile samples (ofRat p : Binary64) fun s =>
      s.responseTtfbMs.map fun x => ofNat x.toNat) := by
    refine noPanic_percentileOf ?_ h1 h90
    intro x hx
    obtain ⟨s, -, hsome⟩ := List.mem_filterMap.mp hx
    obtain ⟨n, -, rfl⟩ := Option.map_eq_some_iff.mp hsome
    exact Binary64.ofRat_ne_nan _
  have hfield : ∀ extract : Sample Binary64 → Option Binary64,
      (∀ s x, extract s = some x → x ∈ s.numbers) →
        NoPanic (collectPercentile samples (ofRat p) extract) :=
    fun extract hextract => noPanic_collectPercentile hsamples hextract h1 h90
  obtain ⟨requestEntropy, hrequestEntropy⟩ := hfield Sample.requestEntropyBits
    (fun s x h => by simp [Sample.numbers, h])
  obtain ⟨responseEntropy, hresponseEntropy⟩ := hfield Sample.responseEntropyBits
    (fun s x h => by simp [Sample.numbers, h])
  obtain ⟨requestOnes, hrequestOnes⟩ := hfield Sample.requestOnesRatio
    (fun s x h => by simp [Sample.numbers, h])
  obtain ⟨responseOnes, hresponseOnes⟩ := hfield Sample.responseOnesRatio
    (fun s x h => by simp [Sample.numbers, h])
  obtain ⟨requestBins, hrequestBins⟩ :=
    noPanic_collectHistogramPercentile hsamples true h1 h90
  obtain ⟨responseBins, hresponseBins⟩ :=
    noPanic_collectHistogramPercentile hsamples false h1 h90
  have hquery' : collectQueryLengthPercentile samples (ofRat p : Binary64) = .ok query := hquery
  have hrequest' : collectLengthPercentile samples (ofRat p : Binary64) true = .ok request :=
    hrequest
  have hresponse' : collectLengthPercentile samples (ofRat p : Binary64) false = .ok response :=
    hresponse
  refine ⟨⟨toTenths target, toTenths jitterBase, query, request, response, ttfb.map toTenths,
    requestEntropy, responseEntropy, requestOnes, responseOnes, requestBins, responseBins⟩, ?_,
    hquery, hrequest, hresponse⟩
  unfold characteristicsAt
  simp only [hquery', hrequest', hresponse', httfb, hrequestEntropy, hresponseEntropy,
    hrequestOnes, hresponseOnes, hrequestBins, hresponseBins, bind, Except.bind, pure, Except.pure]

/-- The masking percentage never panics, whatever the exponential function
returns and whatever the durations are. -/
theorem noPanic_maskingPercent (exp : Binary64 → Binary64) (target : Binary64)
    (durations : List Binary64) :
    NoPanic (maskingPercentForLatency exp target durations) := by
  have hat : ∀ p : ℚ, 1 ≤ p → p ≤ 90 → NoPanic (percentile durations (ofRat p)) :=
    fun p h1 h90 => noPanic_percentile durations h1 h90
  obtain ⟨med, hmed⟩ := hat 50 (by norm_num) (by norm_num)
  obtain ⟨p10, hp10⟩ := hat 10 (by norm_num) (by norm_num)
  obtain ⟨p90, hp90⟩ := hat 90 (by norm_num) (by norm_num)
  unfold maskingPercentForLatency
  split_ifs with hempty
  · exact noPanic_ok _
  · rw [hmed, hp10, hp90]
    exact noPanic_ok _

/-- Each rank of the source is from 1 to 90 and has a label, which is the range
in which the rounded indices were shown to be in bounds. -/
theorem latencyPercentiles_in_range : ∀ entry ∈ latencyPercentiles.zipIdx,
    1 ≤ entry.1 ∧ entry.1 ≤ 90 ∧ entry.2 < labels.length := by
  decide

/-- One turn of the loop that builds the variants succeeds and shows the
percentiles of the lengths, which the synthesis of bodies reads afterwards. -/
theorem variantAt_ok (exp : Binary64 → Binary64) (hsamples : ∀ s ∈ samples, s.Decoded)
    (durations : List Binary64) (jitterBase : Binary64) {entry : ℚ × Nat}
    (hentry : 1 ≤ entry.1 ∧ entry.1 ≤ 90 ∧ entry.2 < labels.length) :
    ∃ v, variantAt exp samples durations jitterBase entry = .ok v ∧
      ShowsLengths samples entry.1 v.characteristics := by
  obtain ⟨h1, h90, hlabel⟩ := hentry
  obtain ⟨target, htarget⟩ := noPanic_percentile durations h1 h90
  obtain ⟨masking, hmasking⟩ := noPanic_maskingPercent exp target durations
  obtain ⟨c, hc, hshows⟩ := characteristicsAt_ok hsamples h1 h90 target jitterBase
  refine ⟨⟨entry.2 + 1, labels[entry.2], c, masking⟩, ?_, hshows⟩
  unfold variantAt
  simp only [htarget, hmasking, index_of_lt hlabel, hc, bind, Except.bind, pure, Except.pure]

/-- The variants can always be built, one for each rank in the order of the
ranks, and each shows the percentiles of the stored lengths at its rank. -/
theorem buildVariants_ok (exp : Binary64 → Binary64) (hsamples : ∀ s ∈ samples, s.Decoded) :
    ∃ variants, buildVariants exp samples = .ok variants ∧
      List.Forall₂ (fun (entry : ℚ × Nat) v => ShowsLengths samples entry.1 v.characteristics)
        latencyPercentiles.zipIdx variants := by
  have hdurations : Comparable (samples.map fun s => ofNat s.durationMs.toNat) :=
    comparable_ofNat samples fun s => s.durationMs.toNat
  obtain ⟨q1, hq1⟩ := noPanic_percentile
    ((samples.map fun s => (ofNat s.durationMs.toNat : Binary64)).insertionSort notGreater)
    (p := 25) (by norm_num) (by norm_num)
  obtain ⟨q3, hq3⟩ := noPanic_percentile
    ((samples.map fun s => (ofNat s.durationMs.toNat : Binary64)).insertionSort notGreater)
    (p := 75) (by norm_num) (by norm_num)
  unfold buildVariants
  simp only [sortByPartialCmp_ok hdurations, hq1, hq3, bind, Except.bind]
  exact exists_mapM_ok fun entry hentry =>
    variantAt_ok exp hsamples _ _ (latencyPercentiles_in_range entry hentry)

/-- Some lengths fit: a vector can have each of the shown percentiles as its length. -/
def PercentilesFit (lengths : List UInt64) : Prop :=
  ∀ p ∈ latencyPercentiles, ∀ n,
    lengthPercentile lengths (ofRat p : Binary64) = .ok (some n) → n.toNat ≤ isizeMax

/-- The lengths of the queries, the requests and the responses fit. -/
def LengthsFit (samples : List (Sample Binary64)) : Prop :=
  PercentilesFit (samples.map Sample.queryLength) ∧
    PercentilesFit (samples.filterMap Sample.requestLength) ∧
    PercentilesFit (samples.filterMap Sample.responseLength)

/-- A vector can be made of a length that is absent, or one that is at most
`isize::MAX`, the bound that `Vec::with_capacity` has. -/
theorem vectorLength_iff {n : Option UInt64} :
    VectorLength n ↔ ∀ m, n = some m → m.toNat ≤ isizeMax := by
  cases n with
  | none =>
      refine iff_of_true ?_ fun m hm => by cases hm
      exact Nat.zero_le _
  | some m =>
      constructor
      · intro h m' hm
        cases hm
        exact h
      · exact fun h => h m rfl

/-- Whether a vector of a computed length can be made is a question about the
percentile alone, so the condition can be read off the store. -/
theorem vectorLength_percentile {lengths : List UInt64} {n : Option UInt64}
    (h : lengthPercentile lengths (ofRat p : Binary64) = .ok n) :
    VectorLength n ↔ ∀ m, lengthPercentile lengths (ofRat p : Binary64) = .ok (some m) →
      m.toNat ≤ isizeMax := by
  rw [vectorLength_iff, h]
  simp only [Except.ok.injEq]

/-- **The variants of a route can be shown** if the lengths fit: each of them
makes three texts, and nothing else can fail. -/
theorem variants_fit_iff {variants : List (MaskVariant Binary64)}
    (hall : List.Forall₂ (fun (entry : ℚ × Nat) v => ShowsLengths samples entry.1 v.characteristics)
      latencyPercentiles.zipIdx variants) (rng : MaskVariant Binary64 → SynthPart → Draws Binary64) :
    (∀ v ∈ variants, NoPanic (variantToDto (rng v) v)) ↔ LengthsFit samples := by
  let FitAt (lengths : List UInt64) (p : ℚ) : Prop := ∀ n,
    lengthPercentile lengths (ofRat p : Binary64) = .ok (some n) → n.toNat ≤ isizeMax
  let AllFitAt (p : ℚ) : Prop := FitAt (samples.map Sample.queryLength) p ∧
    FitAt (samples.filterMap Sample.requestLength) p ∧
    FitAt (samples.filterMap Sample.responseLength) p
  have hvariant : ∀ (entry : ℚ × Nat) (v : MaskVariant Binary64),
      ShowsLengths samples entry.1 v.characteristics →
        (NoPanic (variantToDto (rng v) v) ↔ AllFitAt entry.1) := by
    intro entry v hshows
    rw [noPanic_variantToDto]
    exact and_congr (vectorLength_percentile hshows.query)
      (and_congr (vectorLength_percentile hshows.request)
        (vectorLength_percentile hshows.response))
  have hentries : (∀ v ∈ variants, NoPanic (variantToDto (rng v) v)) ↔
      ∀ entry ∈ latencyPercentiles.zipIdx, AllFitAt entry.1 := by
    generalize latencyPercentiles.zipIdx = entries at hall
    induction hall with
    | nil => simp
    | cons hhead _ ih => rw [List.forall_mem_cons, List.forall_mem_cons, ih, hvariant _ _ hhead]
  have hpercentiles : (∀ entry ∈ latencyPercentiles.zipIdx, AllFitAt entry.1) ↔
      ∀ p ∈ latencyPercentiles, AllFitAt p :=
    (List.forall_mem_map (f := Prod.fst) (l := latencyPercentiles.zipIdx) (P := AllFitAt)).symm
  rw [hentries, hpercentiles]
  constructor
  · intro h
    exact ⟨fun p hp => (h p hp).1, fun p hp => (h p hp).2.1, fun p hp => (h p hp).2.2⟩
  · rintro ⟨hquery, hrequest, hresponse⟩ p hp
    exact ⟨hquery p hp, hrequest p hp, hresponse p hp⟩

/-- Lengths that are not extreme fit: a percentile of numbers up to 2^60 stays
far below `isize::MAX`, rounding errors included. -/
theorem percentilesFit_of_le {lengths : List UInt64} (h : ∀ n ∈ lengths, n.toNat ≤ 2 ^ 60) :
    PercentilesFit lengths := by
  intro p hp n hn
  have hnumbers : ∀ x ∈ lengths.map fun n => (ofNat n.toNat : Binary64),
      Small (2 ^ 60 * (1001 / 1000)) x := by
    intro x hx
    obtain ⟨m, hm, rfl⟩ := List.mem_map.mp hx
    refine small_ofRat ?_ (by norm_num) (by norm_num)
    rw [abs_of_nonneg (Nat.cast_nonneg _)]
    exact_mod_cast h m hm
  unfold lengthPercentile at hn
  obtain ⟨x, hx, -⟩ := noPanic_bind.mp ⟨_, hn⟩
  rw [hx] at hn
  cases x with
  | none => cases hn
  | some x =>
      cases hn
      unfold percentileOf at hx
      split_ifs at hx with hempty
      · cases hx
      obtain ⟨sorted, hsorted, hrest⟩ := noPanic_bind.mp ⟨_, hx⟩
      obtain ⟨y, hy, -⟩ := noPanic_bind.mp hrest
      simp only [hsorted, hy, bind, Except.bind, pure, Except.pure, Except.ok.injEq,
        Option.some.injEq] at hx
      rw [sortByPartialCmp_ok (comparable_ofNat lengths UInt64.toNat)] at hsorted
      cases hsorted
      have hsmall := percentile_small (fun z hz => hnumbers z ((List.mem_insertionSort _).mp hz))
        (by norm_num) (by norm_num) hy
      rw [← hx]
      refine asU64_le (n := isizeMax) (hsmall.mono ?_)
      norm_num [isizeMax]

/-- Samples whose lengths are up to 2^60 meet the condition, so a host that
counts real bytes never comes near the panic. -/
theorem lengthsFit_of_le (h : ∀ s ∈ samples, s.Short) : LengthsFit samples := by
  refine ⟨percentilesFit_of_le ?_, percentilesFit_of_le ?_, percentilesFit_of_le ?_⟩
  · intro n hn
    obtain ⟨s, hs, rfl⟩ := List.mem_map.mp hn
    exact h s hs _ (by simp [Sample.lengths])
  · intro n hn
    obtain ⟨s, hs, hsome⟩ := List.mem_filterMap.mp hn
    exact h s hs n (by simp [Sample.lengths, hsome])
  · intro n hn
    obtain ⟨s, hs, hsome⟩ := List.mem_filterMap.mp hn
    exact h s hs n (by simp [Sample.lengths, hsome])

end Variants

section Endpoints

variable {opts : TrainOptions} {exp : Binary64 → Binary64}
  {g : PersistedTrainStore (Sample Binary64)}

/-- The sorted list of routes has exactly the entries of the map, each key with
all its samples. -/
theorem PersistedTrainStore.mem_routesWithSamples {Sample : Type} {g : PersistedTrainStore Sample}
    {route : String × List Sample} :
    route ∈ g.routesWithSamples ↔ g.routes.lookup route.1 = some route.2 := by
  rw [routesWithSamples, List.mem_insertionSort, List.mem_map, HashMap.lookup_eq_some]
  constructor
  · intro hgiven
    obtain ⟨e, he, rfl⟩ := hgiven
    exact he
  · intro he
    exact ⟨_, he, rfl⟩

/-- A route that an answer lists. -/
structure ListedRoute {F : Type} (opts : TrainOptions) (g : PersistedTrainStore (Sample F))
    (q : MaskProfilesQuery) (key : String) (samples : List (Sample F)) : Prop where
  stored : g.routes.lookup key = some samples
  enough : opts.minSamples ≤ samples.length
  asked : isSpecificRouteKey q = true → key = q.key

/-- One entry of the profile page never panics: a route that is not ready shows
no variants, and the variants of a ready one can be built. -/
theorem noPanic_entryForSamples (key : String) {samples : List (Sample Binary64)}
    (hsamples : ∀ s ∈ samples, s.Decoded) (min : Nat) :
    NoPanic (entryForSamples exp key samples min) := by
  obtain ⟨variants, hvariants, -⟩ := buildVariants_ok exp hsamples
  unfold entryForSamples
  dsimp only
  split_ifs with hready
  · rw [hvariants]
    exact noPanic_ok _
  · exact noPanic_ok _

/-- **`GET /mask-profiles` never panics**, for any query and any store whose
numbers were decoded from JSON.  The two ways through the handler build one
entry, or one for each route. -/
theorem noPanic_maskProfiles (hg : g.Every Sample.Decoded) (q : MaskProfilesQuery) :
    NoPanic (maskProfiles opts exp g q) := by
  by_cases hspecific : isSpecificRouteKey q = true
  · have hsamples : ∀ s ∈ (g.samplesFor q.key).getD [], s.Decoded := by
      cases hlookup : g.samplesFor q.key with
      | none => exact fun s hs => absurd hs List.not_mem_nil
      | some samples => exact hg q.key samples hlookup
    rw [maskProfiles_specific hspecific, noPanic_bind_pure]
    exact noPanic_entryForSamples _ hsamples _
  · rw [maskProfiles_all hspecific, noPanic_bind_pure, noPanic_mapM]
    intro route hroute
    exact noPanic_entryForSamples _ (hg _ _ (mem_routesWithSamples.mp hroute)) _

/-- A route without enough samples is left out; otherwise its lengths have to fit. -/
theorem noPanic_entryForRoute_iff (rng : Randomness Binary64) (key : String)
    {samples : List (Sample Binary64)} (hsamples : ∀ s ∈ samples, s.Decoded) (min : Nat) :
    NoPanic (entryForRoute exp rng key samples min) ↔
      (min ≤ samples.length → LengthsFit samples) := by
  by_cases hmin : min ≤ samples.length
  · obtain ⟨variants, hvariants, hall⟩ := buildVariants_ok exp hsamples
    rw [noPanic_entryForRoute rng key hmin hvariants,
      variants_fit_iff hall fun v => rng key v.id]
    exact ⟨fun h _ => h, fun h => h hmin⟩
  · rw [entryForRoute, if_pos (by omega)]
    exact iff_of_true (noPanic_ok none) fun h => absurd h hmin

/-- **`GET /signature-samples` panics** unless the lengths of all listed routes
fit.  The condition is read off the stored samples. -/
theorem noPanic_signatureSamples (hg : g.Every Sample.Decoded) (rng : Randomness Binary64)
    (q : MaskProfilesQuery) :
    NoPanic (signatureSamples opts exp rng g q) ↔
      ∀ key samples, ListedRoute opts g q key samples → LengthsFit samples := by
  have hpos := opts.minSamples_pos
  by_cases hspecific : isSpecificRouteKey q = true
  · rw [signatureSamples_specific hspecific, noPanic_bind_pure]
    cases hlookup : g.samplesFor q.key with
    | none =>
        rw [Option.getD_none, noPanic_entryForRoute_iff rng q.key (by simp)]
        constructor
        · intro _ key samples hlisted
          have hkey := hlisted.asked hspecific
          have hstored := hlisted.stored
          rw [hkey] at hstored
          exact absurd (hlookup.symm.trans hstored) (by simp)
        · intro _ hmin
          rw [List.length_nil] at hmin
          omega
    | some samples =>
        rw [Option.getD_some, noPanic_entryForRoute_iff rng q.key (hg _ _ hlookup)]
        constructor
        · intro hfit key samples' hlisted
          have hkey := hlisted.asked hspecific
          have hstored := hlisted.stored
          rw [hkey] at hstored
          have hsame : samples = samples' := Option.some_inj.mp (hlookup.symm.trans hstored)
          subst hsame
          exact hfit hlisted.enough
        · intro hfit hmin
          exact hfit q.key samples ⟨hlookup, hmin, fun _ => rfl⟩
  · rw [signatureSamples_all hspecific, noPanic_bind_pure, noPanic_mapM]
    constructor
    · intro h key samples hlisted
      have hroute : (key, samples) ∈ g.routesWithSamples :=
        mem_routesWithSamples.mpr hlisted.stored
      exact (noPanic_entryForRoute_iff rng key (hg _ _ hlisted.stored) _).mp (h _ hroute)
        hlisted.enough
    · intro hfit route hroute
      have hstored := mem_routesWithSamples.mp hroute
      rw [noPanic_entryForRoute_iff rng route.1 (hg _ _ hstored)]
      intro hmin
      exact hfit _ _ ⟨hstored, hmin, fun h => absurd h hspecific⟩

/-- **The endpoints after any bodies were taught**, to a new store or to one that
was read from its file.  `GET /mask-profiles` never panics.  `GET
/signature-samples` panics if and only if, on a route that it lists, one of the
percentiles of the lengths is more than `isize::MAX`; while no length is beyond
an exabyte, it does not. -/
theorem profile_endpoints_panic_iff (opts : TrainOptions) (codec : FormCodec)
    (exp : Binary64 → Binary64) (rng : Randomness Binary64)
    {g : PersistedTrainStore (Sample Binary64)} (hg : g.Every Sample.Decoded)
    {bodies : List (TeachPayload Binary64 × Int)} (hbodies : ∀ body ∈ bodies, body.1.Decoded)
    (q : MaskProfilesQuery) :
    NoPanic (maskProfiles opts exp (g.taught opts codec bodies) q) ∧
      (NoPanic (signatureSamples opts exp rng (g.taught opts codec bodies) q) ↔
        ∀ key samples, ListedRoute opts (g.taught opts codec bodies) q key samples →
          LengthsFit samples) ∧
      (g.Every Sample.Short → (∀ body ∈ bodies, (teach codec body.1 body.2).sample.Short) →
        NoPanic (signatureSamples opts exp rng (g.taught opts codec bodies) q)) := by
  have hdecoded : (g.taught opts codec bodies).Every Sample.Decoded :=
    hg.taught fun body hbody => decoded_teach (hbodies body hbody) body.2
  have hsignatures := @noPanic_signatureSamples opts exp _ hdecoded rng q
  refine ⟨noPanic_maskProfiles hdecoded q, hsignatures, ?_⟩
  intro hshort hbodiesShort
  have hall : (g.taught opts codec bodies).Every Sample.Short := hshort.taught hbodiesShort
  rw [hsignatures]
  intro key samples hlisted
  exact lengthsFit_of_le (hall key samples hlisted.stored)

/-- A generator that always gives the least number. -/
def leastDraws : Draws Binary64 where
  unit _ := ofRat 0
  byte _ lo _ := lo
  place _ _ := 0
  bit _ := 0
  unit_range _ := by decide +kernel
  byte_range _ lo _ h := ⟨UInt8.le_refl lo, h⟩
  place_lt _ _ h := h

/-- An upload. -/
def uploadOf (requestLength : UInt64) : TeachPayload Binary64 where
  method := "POST"
  path := "/upload"
  query := some "a=1"
  unixMs := 0
  durationMs := some 20
  statusCode := some 200
  requestLength := some requestLength
  responseLength := some 30
  responseTtfbMs := some 5
  requestEntropyBits := none
  requestOnesRatio := none
  requestByteHistogram16 := none
  responseEntropyBits := none
  responseOnesRatio := none
  responseByteHistogram16 := none

/-- An upload whose announced length is any `u64` is a sample that a client can
send, so the extreme lengths below are really stored. -/
theorem decoded_uploadOf (requestLength : UInt64) : (uploadOf requestLength).Decoded := by
  intro x hx
  cases hx

/-- One sample is enough. -/
def oneSample : TrainOptions where
  doneMode := .allRoutes
  minSamples := 1
  totalThreshold := 1
  minReadyRoutes := 1
  minSamples_pos := Nat.one_pos
  totalThreshold_pos := Nat.one_pos
  minReadyRoutes_pos := Nat.one_pos

/-- No route in particular. -/
def everyRoute : MaskProfilesQuery where
  method := none
  path := none
  query := none

/-- After two uploads of usual size both endpoints answer. -/
theorem usual_uploads :
    NoPanic (maskProfiles oneSample (fun x => x) (default.taught oneSample formUrlencoded
      [(uploadOf 1000, 7), (uploadOf 3000, 8)]) everyRoute) ∧
    NoPanic (signatureSamples oneSample (fun x => x) (fun _ _ _ => leastDraws)
      (default.taught oneSample formUrlencoded [(uploadOf 1000, 7), (uploadOf 3000, 8)])
      everyRoute) := by
  have hdecoded : ∀ body ∈ [(uploadOf 1000, (7 : Int)), (uploadOf 3000, 8)],
      body.1.Decoded := by
    intro body hbody
    rcases List.mem_pair.mp hbody with hfirst | hsecond
    · rw [hfirst]
      exact decoded_uploadOf 1000
    · rw [hsecond]
      exact decoded_uploadOf 3000
  have hshort : ∀ body ∈ [(uploadOf 1000, (7 : Int)), (uploadOf 3000, 8)],
      (teach formUrlencoded body.1 body.2).sample.Short := by
    decide +kernel
  obtain ⟨hprofiles, -, hsignatures⟩ := @profile_endpoints_panic_iff oneSample formUrlencoded
    (fun x => x) (fun _ _ _ => leastDraws) default every_default _ hdecoded everyRoute
  exact ⟨hprofiles, hsignatures every_default hshort⟩

/-- One upload of the largest length that JSON can name. -/
theorem largest_upload : (uploadOf 18446744073709551615).Decoded ∧
    signatureSamples oneSample (fun x => x) (fun _ _ _ => leastDraws)
      (default.taught oneSample formUrlencoded [(uploadOf 18446744073709551615, 7)]) everyRoute =
        .error .capacityOverflow := by
  refine ⟨decoded_uploadOf _, ?_⟩
  decide +kernel

end Endpoints

end Zona
