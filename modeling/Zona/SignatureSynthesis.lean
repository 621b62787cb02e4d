import Zona.BodyStatistics
import Zona.MaskProfiles

/-!
# Synthesized signatures

`GET /signature-samples` shows, for each variant of a route, a request and a
response of the variant's lengths.  Their bytes are drawn from the variant's
histogram, and then single bits are changed until the share of one-bits is right.

A stream is as long as it was asked to be, and there is one unless a vector
cannot have that length (`synthStream_ok`, `noPanic_synthStream`).
`noPanic_variantToDto` says the same of all that is made of a variant.
-/

namespace Zona

open FloatOps (ofRat ofNat le lt)

/-- What a generator gives while a stream is made, turn by turn. -/
structure Draws (F : Type) [FloatOps F] where
  unit : Nat → F
  byte : Nat → UInt8 → UInt8 → UInt8
  place : Nat → Nat → Nat
  bit : Nat → Fin 8
  unit_range : ∀ turn, le (ofRat 0) (unit turn) = true ∧ lt (unit turn) (ofRat 1) = true
  byte_range : ∀ turn lo hi, lo ≤ hi → lo ≤ byte turn lo hi ∧ byte turn lo hi ≤ hi
  place_lt : ∀ turn len, 0 < len → place turn len < len

/-- What a stream is for. -/
inductive SynthPart
  | query
  | body
  | response

/-- A generator for each stream of each variant of each route. -/
abbrev Randomness (F : Type) [FloatOps F] := String → Nat → SynthPart → Draws F

section Streams

variable {F : Type} [FloatOps F]

def evenBins : List F :=
  List.replicate 16 (FloatOps.div (ofRat 1) (ofRat 16))

/-- The share of each bin. -/
def binShares : Option (List F) → Except Panic (List F)
  | none => .ok evenBins
  | some h =>
      if h.length = 16 then
        let s := h.foldl FloatOps.add (ofRat 0)
        if lt (ofRat (1 / 10 ^ 12)) s then
          (List.range 16).mapM fun i => do
            let x ← index h i
            return FloatOps.div x s
        else .ok evenBins
      else .ok evenBins

/-- The first of the bins that reaches up to `r`. -/
def pickBin (hist : List F) (r : F) : List Nat → F → Except Panic Nat
  | [], _ => .ok 15
  | i :: bins, acc => do
      let share ← index hist i
      let acc := FloatOps.add acc share
      if lt r acc || i = 15 then return i else pickBin hist r bins acc

def saturatingAdd8 (a b : UInt8) : UInt8 :=
  UInt8.ofNat (min (a.toNat + b.toNat) (2 ^ 8 - 1))

def synthByte (rng : Draws F) (hist : List F) (turn : Nat) : Except Panic UInt8 := do
  let bin ← pickBin hist (rng.unit turn) (List.range 16) (ofRat 0)
  let lo := UInt8.ofNat (bin * 16)
  return rng.byte turn lo (saturatingAdd8 lo 15)

def countOneBits (data : List UInt8) : Nat :=
  (data.map popCount).sum

/-- The turns of the loop: change a bit at a random place if that helps. -/
def adjustTurns (rng : Draws F) : Nat → Nat → List UInt8 → Int → Except Panic (List UInt8)
  | 0, _, buf, _ => .ok buf
  | turns + 1, turn, buf, diff =>
      if diff = 0 then .ok buf
      else do
        let i := rng.place turn buf.length
        let mask : UInt8 := 1 <<< UInt8.ofNat (rng.bit turn)
        let b ← index buf i
        if 0 < diff ∧ b &&& mask = 0 then
          adjustTurns rng turns (turn + 1) (buf.set i (b ||| mask)) (diff - 1)
        else if diff < 0 ∧ b &&& mask ≠ 0 then
          adjustTurns rng turns (turn + 1) (buf.set i (b &&& ~~~mask)) (diff + 1)
        else adjustTurns rng turns (turn + 1) buf diff

/-- The numbers of bits wrap around. -/
def adjustOnesRatio (rng : Draws F) (buf : List UInt8) (targetRatio : F) :
    Except Panic (List UInt8) :=
  let totalBits := buf.length * 8 % 2 ^ 64
  if totalBits = 0 then .ok buf
  else
    let want := FloatOps.asIsize (FloatOps.round (FloatOps.mul targetRatio (ofNat totalBits)))
    let ones := (countOneBits buf : Int).bmod (2 ^ 64)
    adjustTurns rng (totalBits * 4 % 2 ^ 64) 0 buf ((want - ones).bmod (2 ^ 64))

def synthStream (rng : Draws F) (n : Nat) (c : MaskCharacteristics F) (useResponseStats : Bool) :
    Except Panic (List UInt8) :=
  if n = 0 then .ok []
  else do
    let onesRatio := if useResponseStats then c.targetResponseOnesRatio
      else c.targetRequestOnesRatio
    let histOpt := if useResponseStats then c.targetResponseByteHistogram16
      else c.targetRequestByteHistogram16
    checkCapacity n
    let hist ← binShares histOpt
    let out ← (List.range n).mapM (synthByte rng hist)
    match onesRatio with
    | some ratio =>
        if FloatOps.isFinite ratio && le (ofRat 0) ratio && le ratio (ofRat 1) then
          adjustOnesRatio rng out ratio
        else return out
    | none => return out

end Streams

section Lengths

variable {F : Type} [FloatOps F]

/-- The shares of the sixteen bins always come out as sixteen numbers: a
histogram of another length is replaced by equal shares. -/
theorem binShares_ok (h : Option (List F)) :
    ∃ hist, binShares h = .ok hist ∧ hist.length = 16 := by
  have heven : (evenBins : List F).length = 16 := List.length_replicate
  cases h with
  | none => exact ⟨evenBins, rfl, heven⟩
  | some h =>
      rw [binShares]
      dsimp only
      split_ifs with hlength hsum
      · have hbins : NoPanic ((List.range 16).mapM fun i => do
            let x ← index h i
            return FloatOps.div x (h.foldl FloatOps.add (ofRat 0))) := by
          rw [noPanic_mapM]
          intro i hi
          rw [List.mem_range] at hi
          rw [index_of_lt (by omega)]
          exact noPanic_ok _
        obtain ⟨hist, hhist⟩ := hbins
        exact ⟨hist, hhist, length_of_mapM_ok hhist⟩
      · exact ⟨evenBins, rfl, heven⟩
      · exact ⟨evenBins, rfl, heven⟩

/-- Walking through the bins stays within the histogram, so a bin is always
found, whatever number was drawn. -/
theorem noPanic_pickBin {hist : List F} (r : F) {bins : List Nat}
    (h : ∀ i ∈ bins, i < hist.length) (acc : F) : NoPanic (pickBin hist r bins acc) := by
  induction bins generalizing acc with
  | nil => exact noPanic_ok 15
  | cons i bins ih =>
      obtain ⟨hi, hrest⟩ := List.forall_mem_cons.mp h
      rw [pickBin, index_of_lt hi]
      simp only [bind, Except.bind]
      split_ifs with hreached
      · exact noPanic_ok i
      · exact ih hrest _

/-- A byte is synthesised without a panic: its bin is found, and the byte is
drawn from those of the bin. -/
theorem noPanic_synthByte (rng : Draws F) {hist : List F} (h : hist.length = 16) (turn : Nat) :
    NoPanic (synthByte rng hist turn) := by
  have hbins : ∀ i ∈ List.range 16, i < hist.length := by
    intro i hi
    rw [h]
    exact List.mem_range.mp hi
  rw [synthByte, noPanic_bind_pure]
  exact noPanic_pickBin _ hbins _

/-- Flipping bits never leaves the buffer and keeps its length, since the index
of each turn is drawn below that length. -/
theorem adjustTurns_ok (rng : Draws F) (turns turn : Nat) {buf : List UInt8}
    (hbuf : 0 < buf.length) (diff : Int) :
    ∃ out, adjustTurns rng turns turn buf diff = .ok out ∧ out.length = buf.length := by
  induction turns generalizing turn buf diff with
  | zero => exact ⟨buf, rfl, rfl⟩
  | succ turns ih =>
      have hplace := rng.place_lt turn buf.length hbuf
      have hset : ∀ (i : Nat) (b : UInt8) (diff : Int), ∃ out,
          adjustTurns rng turns (turn + 1) (buf.set i b) diff = .ok out ∧
            out.length = buf.length := by
        intro i b diff
        have hlength : (buf.set i b).length = buf.length := List.length_set
        rw [← hlength]
        exact ih (turn + 1) (hbuf.trans_eq hlength.symm) diff
      rw [adjustTurns]
      by_cases hdone : diff = 0
      · rw [if_pos hdone]
        exact ⟨buf, rfl, rfl⟩
      · rw [if_neg hdone]
        simp only [index_of_lt hplace, bind, Except.bind]
        split_ifs with hup hdown
        · exact hset _ _ _
        · exact hset _ _ _
        · exact ih (turn + 1) hbuf diff

/-- The ratio of one bits is adjusted without a panic on every buffer, and an
empty one is returned at once. -/
theorem adjustOnesRatio_ok (rng : Draws F) (buf : List UInt8) (ratio : F) :
    ∃ out, adjustOnesRatio rng buf ratio = .ok out ∧ out.length = buf.length := by
  unfold adjustOnesRatio
  dsimp only
  split_ifs with hnone
  · exact ⟨buf, rfl, rfl⟩
  · have hbuf : 0 < buf.length := by
      rw [List.length_pos_iff]
      rintro rfl
      exact hnone rfl
    exact adjustTurns_ok rng _ _ hbuf _

/-- **A stream** has the length it was asked to have, whatever is drawn and
whatever the histogram is. -/
theorem synthStream_ok (rng : Draws F) {n : Nat} (hn : n ≤ isizeMax) (c : MaskCharacteristics F)
    (useResponseStats : Bool) :
    ∃ out, synthStream rng n c useResponseStats = .ok out ∧ out.length = n := by
  by_cases hzero : n = 0
  · rw [synthStream, if_pos hzero]
    exact ⟨[], rfl, hzero.symm⟩
  · rw [synthStream, if_neg hzero, checkCapacity, if_pos hn]
    generalize (if useResponseStats then c.targetResponseOnesRatio
      else c.targetRequestOnesRatio) = onesRatio
    generalize (if useResponseStats then c.targetResponseByteHistogram16
      else c.targetRequestByteHistogram16) = histOpt
    obtain ⟨hist, hhist, hbins⟩ := binShares_ok histOpt
    obtain ⟨out, hout⟩ := noPanic_mapM.mpr fun turn (_ : turn ∈ List.range n) =>
      noPanic_synthByte rng hbins turn
    have hlength : out.length = n := (length_of_mapM_ok hout).trans List.length_range
    simp only [hhist, hout, bind, Except.bind, pure, Except.pure]
    cases onesRatio with
    | none => exact ⟨out, rfl, hlength⟩
    | some ratio =>
        dsimp only
        split_ifs with hratio
        · obtain ⟨adjusted, hadjusted, hsame⟩ := adjustOnesRatio_ok rng out ratio
          exact ⟨adjusted, hadjusted, hsame.trans hlength⟩
        · exact ⟨out, rfl, hlength⟩

/-- **There is a stream** unless a vector cannot have that length, as the
capacity is reserved before a byte is drawn. -/
theorem noPanic_synthStream (rng : Draws F) (n : Nat) (c : MaskCharacteristics F)
    (useResponseStats : Bool) : NoPanic (synthStream rng n c useResponseStats) ↔ n ≤ isizeMax := by
  by_cases hn : n ≤ isizeMax
  · obtain ⟨out, hout, -⟩ := synthStream_ok rng hn c useResponseStats
    exact iff_of_true ⟨out, hout⟩ hn
  · have hzero : n ≠ 0 := by omega
    have hpanics : synthStream rng n c useResponseStats = .error .capacityOverflow := by
      rw [synthStream, if_neg hzero, checkCapacity, if_neg hn]
      rfl
    rw [hpanics]
    exact iff_of_false (not_noPanic_error _) hn

end Lengths

def queryAlphabet : List Char :=
  "abcdefghijklmnopqrstuvwxyzABCDEFGHIJKLMNOPQRSTUVWXYZ0123456789=&%._-".toList

/-- The bytes of `Hello World!#`. -/
def responseEndMarker : List UInt8 :=
  "Hello World!#".toList.map fun c => UInt8.ofNat c.toNat

structure SignatureVariantDto where
  variantId : Nat
  label : String
  requestQuerySignature : String
  requestBodySignature : String
  requestSignature : String
  responseSignature : String
  requestQueryLengthBytes : UInt64
  requestBodyLengthBytes : UInt64
  requestLengthBytes : UInt64
  responseLengthBytes : UInt64
  deriving DecidableEq

structure SignatureRouteEntry where
  routeKey : String
  sampleCount : Nat
  ready : Bool
  variants : List SignatureVariantDto
  deriving DecidableEq

structure SignatureSamplesResponse where
  minSamples : Nat
  routes : List SignatureRouteEntry
  deriving DecidableEq

def buildRequestExample (query body : String) : String :=
  match query.isEmpty, body.isEmpty with
  | true, true => ""
  | false, true => "?" ++ query
  | true, false => body
  | false, false => "?" ++ query ++ "\n" ++ body

def saturatingAdd64 (a b : UInt64) : UInt64 :=
  UInt64.ofNat (min (a.toNat + b.toNat) (2 ^ 64 - 1))

section Signatures

variable {F : Type} [FloatOps F]

def synthQueryText (rng : Draws F) (n : Nat) (c : MaskCharacteristics F) : Except Panic String :=
  if n = 0 then .ok ""
  else do
    let raw ← synthStream rng n c false
    let chars ← raw.mapM fun b => index queryAlphabet (b.toNat % queryAlphabet.length)
    return String.ofList chars

def synthBodyText (rng : Draws F) (n : Nat) (c : MaskCharacteristics F) : Except Panic String := do
  let bytes ← synthStream rng n c false
  return Utf8.ofBytesLossy bytes

def synthResponse (rng : Draws F) (n : UInt64) (c : MaskCharacteristics F) :
    Except Panic (List UInt8) :=
  let n := n.toNat
  if n = 0 then .ok []
  else
    let tailLen := responseEndMarker.length
    if n < tailLen then synthStream rng n c true
    else do
      let prefixLen ← checkedSub n tailLen
      let out ← synthStream rng prefixLen c true
      extendFromSlice out responseEndMarker

def synthResponseText (rng : Draws F) (n : UInt64) (c : MaskCharacteristics F) :
    Except Panic String := do
  let bytes ← synthResponse rng n c
  return Utf8.ofBytesLossy bytes

/-- Every variant is shown. -/
def variantToDto (rng : SynthPart → Draws F) (v : MaskVariant F) :
    Except Panic (Option SignatureVariantDto) := do
  let c := v.characteristics
  let queryLen := c.observedQueryLengthBytes.getD 0
  let bodyLen := c.observedRequestLengthBytes.getD 0
  let requestQuerySignature ← synthQueryText (rng .query) queryLen.toNat c
  let requestBodySignature ← synthBodyText (rng .body) bodyLen.toNat c
  let requestSignature := buildRequestExample requestQuerySignature requestBodySignature
  let resLen := c.observedResponseLengthBytes.getD 0
  let responseSignature ← synthResponseText (rng .response) resLen c
  return some {
    variantId := v.id
    label := v.label
    requestQuerySignature := requestQuerySignature
    requestBodySignature := requestBodySignature
    requestSignature := requestSignature
    responseSignature := responseSignature
    requestQueryLengthBytes := queryLen
    requestBodyLengthBytes := bodyLen
    requestLengthBytes := saturatingAdd64 queryLen bodyLen
    responseLengthBytes := resLen }

def entryForRoute (exp : F → F) (rng : Randomness F) (routeKey : String)
    (samples : List (Sample F)) (min : Nat) : Except Panic (Option SignatureRouteEntry) :=
  let sampleCount := samples.length
  if sampleCount < min then .ok none
  else do
    let variants ← buildVariants exp samples
    let dtos ← variants.mapM fun v => variantToDto (rng routeKey v.id) v
    return some {
      routeKey := routeKey
      sampleCount := sampleCount
      ready := true
      variants := dtos.reduceOption }

/-- `GET /signature-samples`. -/
def signatureSamples (opts : TrainOptions) (exp : F → F) (rng : Randomness F)
    (g : PersistedTrainStore (Sample F)) (q : MaskProfilesQuery) :
    Except Panic SignatureSamplesResponse := do
  let routes ←
    if isSpecificRouteKey q then do
      let e ← entryForRoute exp rng q.key ((g.samplesFor q.key).getD []) opts.minSamples
      pure e.toList
    else do
      let entries ← g.routesWithSamples.mapM fun route =>
        entryForRoute exp rng route.1 route.2 opts.minSamples
      pure entries.reduceOption
  return { minSamples := opts.minSamples, routes := routes }

variable {opts : TrainOptions} {exp : F → F} {rng : Randomness F}
  {g : PersistedTrainStore (Sample F)} {q : MaskProfilesQuery}

/-- A request for one route builds its entry from the samples under its key, as
the profile page does. -/
theorem signatureSamples_specific (h : isSpecificRouteKey q = true) :
    signatureSamples opts exp rng g q =
      (entryForRoute exp rng q.key ((g.samplesFor q.key).getD []) opts.minSamples >>= fun e =>
        pure ⟨opts.minSamples, e.toList⟩) := by
  rw [signatureSamples, if_pos h]
  rfl

/-- A request for all routes builds an entry for each, in the order of the
keys, and leaves out those that are not ready. -/
theorem signatureSamples_all (h : ¬ isSpecificRouteKey q = true) :
    signatureSamples opts exp rng g q =
      ((g.routesWithSamples.mapM fun route =>
          entryForRoute exp rng route.1 route.2 opts.minSamples) >>= fun entries =>
        pure ⟨opts.minSamples, entries.reduceOption⟩) := by
  rw [signatureSamples, if_neg h]
  rfl

end Signatures

section Signatures

variable {F : Type} [FloatOps F]

/-- A query text is made without a panic exactly if a vector of its length can
be: nothing else in it can fail. -/
theorem noPanic_synthQueryText (rng : Draws F) (n : Nat) (c : MaskCharacteristics F) :
    NoPanic (synthQueryText rng n c) ↔ n ≤ isizeMax := by
  unfold synthQueryText
  split_ifs with hzero
  · refine iff_of_true (noPanic_ok "") ?_
    omega
  · rw [noPanic_bind_iff, noPanic_synthStream]
    intro raw _
    rw [noPanic_bind_pure, noPanic_mapM]
    intro b _
    exact noPanic_index (Nat.mod_lt _ (by decide))

/-- A body is made without a panic exactly if a vector of its length can be, as
drawing and adjusting its bytes always succeed. -/
theorem noPanic_synthBodyText (rng : Draws F) (n : Nat) (c : MaskCharacteristics F) :
    NoPanic (synthBodyText rng n c) ↔ n ≤ isizeMax := by
  rw [synthBodyText, noPanic_bind_pure, noPanic_synthStream]

/-- The marker is taken off only where there is room for it. -/
theorem noPanic_synthResponse (rng : Draws F) (n : UInt64) (c : MaskCharacteristics F) :
    NoPanic (synthResponse rng n c) ↔ n.toNat ≤ isizeMax := by
  have hmarker : responseEndMarker.length = 13 := by decide
  have hmax : isizeMax = 2 ^ 63 - 1 := rfl
  unfold synthResponse
  dsimp only
  split_ifs with hzero hshort
  · refine iff_of_true (noPanic_ok []) ?_
    omega
  · exact noPanic_synthStream rng _ c true
  · have hroom : responseEndMarker.length ≤ n.toNat := by omega
    rw [checkedSub, if_pos hroom]
    simp only [bind, Except.bind]
    by_cases hprefix : n.toNat - responseEndMarker.length ≤ isizeMax
    · obtain ⟨out, hout, hlength⟩ := synthStream_ok rng hprefix c true
      have hwhole : out.length + responseEndMarker.length = n.toNat := by omega
      rw [hout]
      dsimp only
      rw [extendFromSlice, noPanic_bind_pure, hwhole,
        noPanic_checkCapacity]
    · have hpanics := mt (noPanic_synthStream rng _ c true).mp hprefix
      refine iff_of_false ?_ (by omega)
      exact fun h => hpanics h.of_bind

/-- A response text is made without a panic exactly if a vector of its length
can be, since the lossy conversion to text takes any bytes. -/
theorem noPanic_synthResponseText (rng : Draws F) (n : UInt64) (c : MaskCharacteristics F) :
    NoPanic (synthResponseText rng n c) ↔ n.toNat ≤ isizeMax := by
  rw [synthResponseText, noPanic_bind_pure, noPanic_synthResponse]

/-- A vector can have this length; none counts as zero. -/
def VectorLength (n : Option UInt64) : Prop :=
  (n.getD 0).toNat ≤ isizeMax

/-- **A variant** can be shown unless one of its lengths is none of a vector. -/
theorem noPanic_variantToDto (rng : SynthPart → Draws F) (v : MaskVariant F) :
    NoPanic (variantToDto rng v) ↔
      VectorLength v.characteristics.observedQueryLengthBytes ∧
        VectorLength v.characteristics.observedRequestLengthBytes ∧
        VectorLength v.characteristics.observedResponseLengthBytes := by
  have hquery := noPanic_synthQueryText (rng .query)
    (v.characteristics.observedQueryLengthBytes.getD 0).toNat v.characteristics
  have hbody := noPanic_synthBodyText (rng .body)
    (v.characteristics.observedRequestLengthBytes.getD 0).toNat v.characteristics
  have hresponse := noPanic_synthResponseText (rng .response)
    (v.characteristics.observedResponseLengthBytes.getD 0) v.characteristics
  unfold VectorLength
  rw [← hquery, ← hbody, ← hresponse]
  unfold variantToDto
  dsimp only
  rw [noPanic_bind]
  constructor
  · intro hgiven
    obtain ⟨query, hq, h⟩ := hgiven
    obtain ⟨body, hb, h⟩ := noPanic_bind.mp h
    obtain ⟨response, hr, -⟩ := noPanic_bind.mp h
    exact ⟨⟨query, hq⟩, ⟨body, hb⟩, response, hr⟩
  · intro hgiven
    obtain ⟨⟨query, hq⟩, ⟨body, hb⟩, response, hr⟩ := hgiven
    refine ⟨query, hq, ?_⟩
    rw [hb, hr]
    exact noPanic_ok _

/-- **A route** with enough samples can be shown if all its variants can; one
without enough is left out before anything is computed. -/
theorem noPanic_entryForRoute {exp : F → F} (rng : Randomness F) (routeKey : String)
    {samples : List (Sample F)} {min : Nat} (hmin : min ≤ samples.length)
    {variants : List (MaskVariant F)} (hvariants : buildVariants exp samples = .ok variants) :
    NoPanic (entryForRoute exp rng routeKey samples min) ↔
      ∀ v ∈ variants, NoPanic (variantToDto (rng routeKey v.id) v) := by
  unfold entryForRoute
  dsimp only
  rw [if_neg (by omega), hvariants]
  simp only [bind, Except.bind]
  rw [← noPanic_mapM]
  exact noPanic_bind_pure _

end Signatures

end Zona
