import Zona.CanonicalQueries
import Zona.Percentiles
import Zona.RouteCounts

/-!
# Mask profiles

`POST /teach` records a sample of a request; `GET /mask-profiles` shows for each
route with enough samples five variants of it, from the lower tail of what was
observed to the upper one.

The numerical code is written over any floating-point numbers, and says where it
would panic.
-/

namespace Zona

open FloatOps

/-- One observed request and its response. -/
structure Sample (F : Type) where
  durationMs : UInt64
  statusCode : UInt16
  unixMs : Int
  query : Option String
  requestLength : Option UInt64
  responseLength : Option UInt64
  responseTtfbMs : Option UInt64
  requestEntropyBits : Option F
  requestOnesRatio : Option F
  requestByteHistogram16 : Option (List F)
  responseEntropyBits : Option F
  responseOnesRatio : Option F
  responseByteHistogram16 : Option (List F)

/-- The body of `POST /teach`. -/
structure TeachPayload (F : Type) where
  method : String
  path : String
  query : Option String
  unixMs : Int
  durationMs : Option UInt64
  statusCode : Option UInt16
  requestLength : Option UInt64
  responseLength : Option UInt64
  responseTtfbMs : Option UInt64
  requestEntropyBits : Option F
  requestOnesRatio : Option F
  requestByteHistogram16 : Option (List F)
  responseEntropyBits : Option F
  responseOnesRatio : Option F
  responseByteHistogram16 : Option (List F)

def pathWithoutQueryFragment (path : String) : String :=
  Text.untilChar '?' path

def normalizeRoutePath (path : String) : String :=
  let path := Text.trim (pathWithoutQueryFragment path)
  if path = "" then "/"
  else if path.toList.head? = some '/' then path
  else "/" ++ path

def routeKey (method path : String) : String :=
  Text.toAsciiUppercase (Text.trim method) ++ "|" ++ normalizeRoutePath path

/-- What the handler of `POST /teach` records. -/
def teach {F : Type} (codec : FormCodec) (body : TeachPayload F) (now : Int) :
    RecordCall (Sample F) where
  key := routeKey body.method body.path
  sample :=
    { durationMs := body.durationMs.getD 0
      statusCode := body.statusCode.getD 0
      unixMs := body.unixMs
      query := canonicalQuery codec body.query
      requestLength := body.requestLength
      responseLength := body.responseLength
      responseTtfbMs := body.responseTtfbMs
      requestEntropyBits := body.requestEntropyBits
      requestOnesRatio := body.requestOnesRatio
      requestByteHistogram16 := body.requestByteHistogram16
      responseEntropyBits := body.responseEntropyBits
      responseOnesRatio := body.responseOnesRatio
      responseByteHistogram16 := body.responseByteHistogram16 }
  now := now

structure MaskCharacteristics (F : Type) where
  targetLatencyMs : F
  latencyJitterMs : F
  observedQueryLengthBytes : Option UInt64
  observedRequestLengthBytes : Option UInt64
  observedResponseLengthBytes : Option UInt64
  observedResponseTtfbMs : Option F
  targetRequestEntropyBits : Option F
  targetResponseEntropyBits : Option F
  targetRequestOnesRatio : Option F
  targetResponseOnesRatio : Option F
  targetRequestByteHistogram16 : Option (List F)
  targetResponseByteHistogram16 : Option (List F)

structure MaskVariant (F : Type) where
  id : Nat
  label : String
  characteristics : MaskCharacteristics F
  maskingPercent : F

def latencyPercentiles : List ℚ := [12, 28, 50, 72, 88]

def labels : List String :=
  ["Нижний хвост (быстрее)", "Ниже медианы", "Медиана (ядро)", "Выше медианы",
    "Верхний хвост (медленнее)"]

section Numerical

variable {F : Type} [FloatOps F]

/-- `(x * 10.0).round() / 10.0`. -/
def toTenths (x : F) : F :=
  div (FloatOps.round (mul x (ofRat 10))) (ofRat 10)

/-- The exponential function belongs to the platform. -/
def maskingPercentForLatency (exp : F → F) (target : F) (sortedDurations : List F) :
    Except Panic F :=
  if sortedDurations.isEmpty then .ok (ofRat 0)
  else do
    let med ← percentile sortedDurations (ofRat 50)
    let p10 ← percentile sortedDurations (ofRat 10)
    let p90 ← percentile sortedDurations (ofRat 90)
    let halfWidth := FloatOps.max (mul (sub p90 p10) (ofRat (1 / 2))) (ofRat 1)
    let z := div (FloatOps.abs (sub target med)) halfWidth
    let score := mul (ofRat 100) (exp (mul (mul (ofRat (-1 / 2)) z) z))
    return toTenths score

/-- Sort what was observed, and interpolate; nothing if nothing was observed. -/
def percentileOf (v : List F) (p : F) : Except Panic (Option F) :=
  if v.isEmpty then .ok none
  else do
    let sorted ← sortByPartialCmp v
    let x ← percentile sorted p
    return some x

def collectPercentile (samples : List (Sample F)) (p : F) (extract : Sample F → Option F) :
    Except Panic (Option F) :=
  percentileOf (samples.filterMap extract) p

/-- The percentile of some lengths, as a length. -/
def lengthPercentile (v : List UInt64) (p : F) : Except Panic (Option UInt64) := do
  let x ← percentileOf (v.map fun n => ofNat n.toNat) p
  return x.map fun x => asU64 (FloatOps.max (FloatOps.round x) (ofRat 0))

/-- The length of a query; none counts as empty. -/
def Sample.queryLength (s : Sample F) : UInt64 :=
  (s.query.map fun q => UInt64.ofNat q.utf8ByteSize).getD 0

def collectQueryLengthPercentile (samples : List (Sample F)) (p : F) :
    Except Panic (Option UInt64) :=
  lengthPercentile (samples.map Sample.queryLength) p

/-- The length of the request's body, or of the response's. -/
def Sample.bodyLength (request : Bool) (s : Sample F) : Option UInt64 :=
  if request then s.requestLength else s.responseLength

def collectLengthPercentile (samples : List (Sample F)) (p : F) (request : Bool) :
    Except Panic (Option UInt64) :=
  lengthPercentile (samples.filterMap (Sample.bodyLength request)) p

/-- The histograms of 16 bins. -/
def histogramRows (samples : List (Sample F)) (request : Bool) : List (List F) :=
  samples.filterMap fun s =>
    (if request then s.requestByteHistogram16 else s.responseByteHistogram16).filter fun x =>
      x.length = 16

def collectHistogramPercentile (samples : List (Sample F)) (p : F) (request : Bool) :
    Except Panic (Option (List F)) :=
  let rows := histogramRows samples request
  if rows.isEmpty then .ok none
  else do
    let out ← (List.range 16).mapM fun bin => do
      let col ← rows.mapM fun h => index h bin
      let col ← sortByPartialCmp col
      percentile col p
    return some out

omit [FloatOps F] in
/-- Every row has exactly sixteen bins, since shorter and longer histograms are
filtered out, and so the indexing by bins stays within bounds. -/
theorem length_of_mem_histogramRows {samples : List (Sample F)} {request : Bool} {row : List F}
    (h : row ∈ histogramRows samples request) : row.length = 16 := by
  obtain ⟨s, -, hs⟩ := List.mem_filterMap.mp h
  exact of_decide_eq_true (Option.filter_eq_some_iff.mp hs).2

omit [FloatOps F] in
theorem histogramColumn {samples : List (Sample F)} {request : Bool} (default : F) {bin : Nat}
    (hbin : bin ∈ List.range 16) :
    ((histogramRows samples request).mapM fun h => index h bin) =
      .ok ((histogramRows samples request).map fun row => row.getD bin default) := by
  apply mapM_ok
  intro row hrow
  have hlt : bin < row.length := by
    rw [length_of_mem_histogramRows hrow]
    exact List.mem_range.mp hbin
  rw [index_of_lt hlt, List.getD_eq_getElem?_getD, List.getElem?_eq_getElem hlt]
  rfl

/-- What a variant shows of the samples. -/
def characteristicsAt (samples : List (Sample F)) (p target jitterBase : F) :
    Except Panic (MaskCharacteristics F) := do
  let queryLength ← collectQueryLengthPercentile samples p
  let requestLength ← collectLengthPercentile samples p true
  let responseLength ← collectLengthPercentile samples p false
  let ttfb ← collectPercentile samples p fun s => s.responseTtfbMs.map fun x => ofNat x.toNat
  let requestEntropy ← collectPercentile samples p Sample.requestEntropyBits
  let responseEntropy ← collectPercentile samples p Sample.responseEntropyBits
  let requestOnes ← collectPercentile samples p Sample.requestOnesRatio
  let responseOnes ← collectPercentile samples p Sample.responseOnesRatio
  let requestHistogram ← collectHistogramPercentile samples p true
  let responseHistogram ← collectHistogramPercentile samples p false
  return {
    targetLatencyMs := toTenths target
    latencyJitterMs := toTenths jitterBase
    observedQueryLengthBytes := queryLength
    observedRequestLengthBytes := requestLength
    observedResponseLengthBytes := responseLength
    observedResponseTtfbMs := ttfb.map toTenths
    targetRequestEntropyBits := requestEntropy
    targetResponseEntropyBits := responseEntropy
    targetRequestOnesRatio := requestOnes
    targetResponseOnesRatio := responseOnes
    targetRequestByteHistogram16 := requestHistogram
    targetResponseByteHistogram16 := responseHistogram }

/-- The variant at a percentile, with the position of the percentile. -/
def variantAt (exp : F → F) (samples : List (Sample F)) (durations : List F) (jitterBase : F)
    (entry : ℚ × Nat) : Except Panic (MaskVariant F) := do
  let p : F := ofRat entry.1
  let target ← percentile durations p
  let masking ← maskingPercentForLatency exp target durations
  let label ← index labels entry.2
  let characteristics ← characteristicsAt samples p target jitterBase
  return {
    id := entry.2 + 1
    label := label
    characteristics := characteristics
    maskingPercent := masking }

def buildVariants (exp : F → F) (samples : List (Sample F)) :
    Except Panic (List (MaskVariant F)) := do
  let durations ← sortByPartialCmp (samples.map fun s => ofNat s.durationMs.toNat)
  let q1 ← percentile durations (ofRat 25)
  let q3 ← percentile durations (ofRat 75)
  let jitterBase := FloatOps.max (mul (sub q3 q1) (ofRat (1 / 4))) (ofRat 1)
  latencyPercentiles.zipIdx.mapM (variantAt exp samples durations jitterBase)

end Numerical

structure MaskProfilesQuery where
  method : Option String
  path : Option String
  query : Option String

def isSpecificRouteKey (q : MaskProfilesQuery) : Bool :=
  let m := (q.method.map Text.trim).filter fun s => s ≠ ""
  let p := (q.path.map Text.trim).filter fun s => s ≠ ""
  m.isSome && p.isSome

/-- The route that a query asks for. -/
def MaskProfilesQuery.key (q : MaskProfilesQuery) : String :=
  routeKey ((q.method.map Text.trim).getD "") ((q.path.map Text.trim).getD "")

structure MaskProfilesRouteEntry (F : Type) where
  routeKey : String
  sampleCount : Nat
  ready : Bool
  variants : List (MaskVariant F)

structure MaskProfilesResponse (F : Type) where
  minSamples : Nat
  routes : List (MaskProfilesRouteEntry F)

namespace PersistedTrainStore

def samplesFor {Sample : Type} (g : PersistedTrainStore Sample) (key : String) :
    Option (List Sample) :=
  g.routes.lookup key

/-- All routes, by key. -/
def routesWithSamples {Sample : Type} (g : PersistedTrainStore Sample) :
    List (String × List Sample) :=
  (g.routes.entries.map fun e => (e.1, e.2)).insertionSort fun a b => a.1 ≤ b.1

end PersistedTrainStore

section Handler

variable {F : Type} [FloatOps F]

def entryForSamples (exp : F → F) (routeKey : String) (samples : List (Sample F)) (min : Nat) :
    Except Panic (MaskProfilesRouteEntry F) := do
  let count := samples.length
  let ready := decide (min ≤ count)
  let variants ← if ready then buildVariants exp samples else pure []
  return { routeKey := routeKey, sampleCount := count, ready := ready, variants := variants }

/-- `GET /mask-profiles`. -/
def maskProfiles (opts : TrainOptions) (exp : F → F) (g : PersistedTrainStore (Sample F))
    (q : MaskProfilesQuery) : Except Panic (MaskProfilesResponse F) := do
  let routes ←
    if isSpecificRouteKey q then do
      let e ← entryForSamples exp q.key ((g.samplesFor q.key).getD []) opts.minSamples
      pure (if e.ready then [e] else [])
    else do
      let entries ← g.routesWithSamples.mapM fun route =>
        entryForSamples exp route.1 route.2 opts.minSamples
      pure (entries.filter MaskProfilesRouteEntry.ready)
  return { minSamples := opts.minSamples, routes := routes }

variable {opts : TrainOptions} {exp : F → F} {g : PersistedTrainStore (Sample F)}
  {q : MaskProfilesQuery}

/-- A request for one route reads the samples under its key only, whether there
are any or not, and lists the route if it is ready. -/
theorem maskProfiles_specific (h : isSpecificRouteKey q = true) :
    maskProfiles opts exp g q =
      (entryForSamples exp q.key ((g.samplesFor q.key).getD []) opts.minSamples >>= fun e =>
        pure ⟨opts.minSamples, if e.ready then [e] else []⟩) := by
  rw [maskProfiles, if_pos h]
  rfl

/-- A request without a complete key builds an entry for every route that has
samples, in the order of the keys, and lists the ready ones. -/
theorem maskProfiles_all (h : ¬ isSpecificRouteKey q = true) :
    maskProfiles opts exp g q =
      ((g.routesWithSamples.mapM fun route =>
          entryForSamples exp route.1 route.2 opts.minSamples) >>= fun entries =>
        pure ⟨opts.minSamples, entries.filter MaskProfilesRouteEntry.ready⟩) := by
  rw [maskProfiles, if_neg h]
  rfl

end Handler

end Zona
