import Zona.MaskProfiles

/-!
# Teach signals

The host of a store watches its own requests.  When a request has been handled,
the middleware makes a signal of what it saw (`signalOf`), a worker writes the
signal as JSON (`ZonaTeachSignal.body`), and the handler of `POST /teach` reads
it (`TeachPayload.read`).

Writer and reader are two programs.  `read_body` says that they agree: the
payload holds what the signal held, and the body is rejected only where a number
of the signal has no place in the payload.  So the store records what the host
measured (`request_taught`).
-/

namespace Zona

variable {F : Type}

/-- What the metadata of a matched endpoint say about it.  An endpoint of a
controller says whether the controller has `ApiControllerAttribute`. -/
structure Endpoint where
  suppressZonaTeach : Bool
  excludeFromDescription : Option Bool
  apiController : Option Bool
  httpMethod : Bool

/-- Only endpoints of the public API are taught. -/
def shouldRecordTeach : Option Endpoint → Bool
  | none => false
  | some endpoint =>
      if endpoint.suppressZonaTeach then false
      else if endpoint.excludeFromDescription = some true then false
      else
        match endpoint.apiController with
        | some defined => defined
        | none => endpoint.httpMethod

structure TrafficPatternStats (F : Type) where
  entropyBitsPerByte : F
  onesRatio : F
  byteHistogram16 : List F

/-- A request that has been handled, as the middleware sees it: the times at
which the response was about to start, and what the two bodies look like. -/
structure HttpContext (F : Type) where
  endpoint : Option Endpoint
  method : String
  path : Option String
  queryString : Option String
  unixMs : Int
  elapsedMs : Int
  elapsedTicks : Int
  starting : List Int
  hasStarted : Bool
  statusCode : Int
  requestContentLength : Option Int
  responseContentLength : Option Int
  totalBytesWritten : Int
  requestPattern : Option (TrafficPatternStats F)
  responsePattern : Option (TrafficPatternStats F)

structure ZonaTeachSignal (F : Type) where
  method : String
  path : String
  query : Option String
  unixMs : Int
  durationMs : Int
  statusCode : Int
  requestContentLength : Option Int
  responseContentLength : Option Int
  responseTtfbMs : Option Int
  requestEntropyBits : Option F
  requestOnesRatio : Option F
  requestByteHistogram16 : Option (List F)
  responseEntropyBits : Option F
  responseOnesRatio : Option F
  responseByteHistogram16 : Option (List F)

/-- `ResponseTtfbMsCapture`: the first time is kept. -/
def tryRecordFirst (msOrUnset elapsedMs : Int) : Int :=
  if msOrUnset = -1 then elapsedMs else msOrUnset

def capturedMilliseconds (starting : List Int) : Option Int :=
  let v := starting.foldl tryRecordFirst (-1)
  if v < 0 then none else some v

def elapsedMsAtLeastOneIfNonZero (elapsedMs elapsedTicks : Int) : Int :=
  if elapsedMs = 0 ∧ 0 < elapsedTicks then 1 else elapsedMs

/-- The signal that is made of a request; bodies are looked at only if some bytes
of them may be. -/
def signalOf (maxStats : Int) (x : HttpContext F) : ZonaTeachSignal F :=
  let durationMs := elapsedMsAtLeastOneIfNonZero x.elapsedMs x.elapsedTicks
  let reqPattern := if 0 < maxStats then x.requestPattern else none
  let resPattern := if 0 < maxStats then x.responsePattern else none
  { method := x.method
    path := x.path.getD "/"
    query := x.queryString
    unixMs := x.unixMs
    durationMs := durationMs
    statusCode := x.statusCode
    requestContentLength :=
      match x.requestContentLength with
      | some length => some length
      | none =>
          let method := Text.toAsciiLowercase x.method
          if method = "get" ∨ method = "head" then some 0 else none
    responseContentLength :=
      match x.responseContentLength with
      | some length => some length
      | none => if 0 < maxStats ∧ 0 < x.totalBytesWritten then some x.totalBytesWritten else none
    responseTtfbMs :=
      match capturedMilliseconds x.starting with
      | some ms => some ms
      | none => if x.hasStarted ∧ 0 < durationMs then some durationMs else none
    requestEntropyBits := reqPattern.map (·.entropyBitsPerByte)
    requestOnesRatio := reqPattern.map (·.onesRatio)
    requestByteHistogram16 := reqPattern.map (·.byteHistogram16)
    responseEntropyBits := resPattern.map (·.entropyBitsPerByte)
    responseOnesRatio := resPattern.map (·.onesRatio)
    responseByteHistogram16 := resPattern.map (·.byteHistogram16) }

/-- JSON values; a number is a whole number or the shortest text of a double. -/
inductive Json (F : Type)
  | null
  | bool (b : Bool)
  | string (s : String)
  | integer (n : Int)
  | double (d : F)
  | array (items : List (Json F))
  | object (members : List (String × Json F))

/-- How numbers are read as doubles. -/
class JsonDoubles (F : Type) where
  ofInteger : Int → F
  reread : F → F

/-- The members that are not null, as `WhenWritingNull` has it. -/
def present (slots : List (String × Option (Json F))) : List (String × Json F) :=
  slots.filterMap fun slot => slot.2.map fun value => (slot.1, value)

namespace ZonaTeachSignal

/-- The members of the object that the worker writes, in camel case. -/
def slots (s : ZonaTeachSignal F) : List (String × Option (Json F)) :=
  [("method", some (.string s.method)),
    ("path", some (.string s.path)),
    ("query", s.query.map .string),
    ("unixMs", some (.integer s.unixMs)),
    ("durationMs", some (.integer s.durationMs)),
    ("statusCode", some (.integer s.statusCode)),
    ("requestLength", s.requestContentLength.map .integer),
    ("responseLength", s.responseContentLength.map .integer),
    ("responseTtfbMs", s.responseTtfbMs.map .integer),
    ("requestEntropyBits", s.requestEntropyBits.map .double),
    ("requestOnesRatio", s.requestOnesRatio.map .double),
    ("requestByteHistogram16", s.requestByteHistogram16.map fun h => .array (h.map .double)),
    ("responseEntropyBits", s.responseEntropyBits.map .double),
    ("responseOnesRatio", s.responseOnesRatio.map .double),
    ("responseByteHistogram16", s.responseByteHistogram16.map fun h => .array (h.map .double))]

def body (s : ZonaTeachSignal F) : Json F :=
  .object (present s.slots)

end ZonaTeachSignal

namespace Json

def asString : Json F → Option String
  | .string s => some s
  | _ => none

/-- A whole number between two bounds. -/
def asInteger (least above : Int) : Json F → Option Int
  | .integer n => if least ≤ n ∧ n < above then some n else none
  | _ => none

def asI64 : Json F → Option Int :=
  asInteger (-9223372036854775808) 9223372036854775808

def asU64 (v : Json F) : Option UInt64 :=
  (v.asInteger 0 18446744073709551616).map fun n => UInt64.ofNat n.toNat

def asU16 (v : Json F) : Option UInt16 :=
  (v.asInteger 0 65536).map fun n => UInt16.ofNat n.toNat

def asF64 [JsonDoubles F] : Json F → Option F
  | .integer n => some (JsonDoubles.ofInteger n)
  | .double d => some (JsonDoubles.reread d)
  | _ => none

def asVec {α : Type} (read : Json F → Option α) : Json F → Option (List α)
  | .array items => items.mapM read
  | _ => none

/-- Null is read as nothing. -/
def optional {α : Type} (read : Json F → Option α) : Json F → Option (Option α)
  | .null => some none
  | v => (read v).map some

/-- A member, if there is one; two of one name are an error. -/
def field {α : Type} (members : List (String × Json F)) (name : String)
    (read : Json F → Option α) : Option (Option α) :=
  match members.filter fun m => m.1 = name with
  | [] => some none
  | [m] => (read m.2).map some
  | _ => none

/-- A member that has to be there. -/
def required {α : Type} (members : List (String × Json F)) (name : String)
    (read : Json F → Option α) : Option α :=
  (field members name read).bind id

/-- A member of an optional type: missing or null is nothing. -/
def defaulted {α : Type} (members : List (String × Json F)) (name : String)
    (read : Json F → Option α) : Option (Option α) :=
  (field members name (optional read)).map fun found => found.bind id

end Json

open Json

/-- Read the body of `POST /teach`. -/
def TeachPayload.read [JsonDoubles F] : Json F → Option (TeachPayload F)
  | .object members => do
      let method ← required members "method" asString
      let path ← required members "path" asString
      let query ← defaulted members "query" asString
      let unixMs ← required members "unixMs" asI64
      let durationMs ← defaulted members "durationMs" asU64
      let statusCode ← defaulted members "statusCode" asU16
      let requestLength ← defaulted members "requestLength" asU64
      let responseLength ← defaulted members "responseLength" asU64
      let responseTtfbMs ← defaulted members "responseTtfbMs" asU64
      let requestEntropyBits ← defaulted members "requestEntropyBits" asF64
      let requestOnesRatio ← defaulted members "requestOnesRatio" asF64
      let requestByteHistogram16 ← defaulted members "requestByteHistogram16" (asVec asF64)
      let responseEntropyBits ← defaulted members "responseEntropyBits" asF64
      let responseOnesRatio ← defaulted members "responseOnesRatio" asF64
      let responseByteHistogram16 ← defaulted members "responseByteHistogram16" (asVec asF64)
      pure
        { method, path, query, unixMs, durationMs, statusCode, requestLength, responseLength,
          responseTtfbMs, requestEntropyBits, requestOnesRatio, requestByteHistogram16,
          responseEntropyBits, responseOnesRatio, responseByteHistogram16 }
  | _ => none

/-- A number that fits an unsigned one of 64 bits. -/
abbrev FitsU64 (n : Int) : Prop :=
  0 ≤ n ∧ n < 18446744073709551616

/-- The numbers of a signal have a place in a payload. -/
structure ZonaTeachSignal.Fits (s : ZonaTeachSignal F) : Prop where
  unixMs : -9223372036854775808 ≤ s.unixMs ∧ s.unixMs < 9223372036854775808
  durationMs : FitsU64 s.durationMs
  statusCode : 0 ≤ s.statusCode ∧ s.statusCode < 65536
  requestLength : ∀ n, s.requestContentLength = some n → FitsU64 n
  responseLength : ∀ n, s.responseContentLength = some n → FitsU64 n
  responseTtfbMs : ∀ n, s.responseTtfbMs = some n → FitsU64 n

def u64Of (n : Int) : UInt64 :=
  UInt64.ofNat n.toNat

/-- What the payload of a signal holds. -/
def ZonaTeachSignal.payload [JsonDoubles F] (s : ZonaTeachSignal F) : TeachPayload F where
  method := s.method
  path := s.path
  query := s.query
  unixMs := s.unixMs
  durationMs := some (u64Of s.durationMs)
  statusCode := some (UInt16.ofNat s.statusCode.toNat)
  requestLength := s.requestContentLength.map u64Of
  responseLength := s.responseContentLength.map u64Of
  responseTtfbMs := s.responseTtfbMs.map u64Of
  requestEntropyBits := s.requestEntropyBits.map JsonDoubles.reread
  requestOnesRatio := s.requestOnesRatio.map JsonDoubles.reread
  requestByteHistogram16 := s.requestByteHistogram16.map fun h => h.map JsonDoubles.reread
  responseEntropyBits := s.responseEntropyBits.map JsonDoubles.reread
  responseOnesRatio := s.responseOnesRatio.map JsonDoubles.reread
  responseByteHistogram16 := s.responseByteHistogram16.map fun h => h.map JsonDoubles.reread

namespace Json

/-- Looking for a field among those that are present is looking among all
fields first and dropping the absent ones then. -/
theorem filter_present (slots : List (String × Option (Json F))) (name : String) :
    (present slots).filter (fun m => m.1 = name) =
      present (slots.filter fun slot => slot.1 = name) := by
  induction slots with
  | nil => rfl
  | cons slot slots ih =>
      obtain ⟨key, value⟩ := slot
      by_cases hkey : key = name <;> cases value <;> simp_all [present]

/-- What a slot is read as, if its name is the only one of its kind. -/
theorem field_present {α : Type} {slots : List (String × Option (Json F))} {name : String}
    {value : Option (Json F)} (read : Json F → Option α)
    (h : slots.filter (fun slot => slot.1 = name) = [(name, value)]) :
    field (present slots) name read = value.elim (some none) fun v => (read v).map some := by
  rw [field, filter_present, h]
  cases value with
  | none => rfl
  | some v => rfl

/-- A required field that occurs once is handed to its reader, and the payload
is refused if that fails. -/
theorem required_present {α : Type} {slots : List (String × Option (Json F))} {name : String}
    {value : Json F} (read : Json F → Option α)
    (h : slots.filter (fun slot => slot.1 = name) = [(name, some value)]) :
    required (present slots) name read = read value := by
  rw [required, field_present read h]
  cases hread : read value with
  | none => simp [hread]
  | some a => simp [hread]

/-- A value that is not null has to be read: an optional field may be null or
absent, but not malformed. -/
theorem optional_of_ne_null {α : Type} (read : Json F → Option α) {v : Json F} (h : v ≠ .null) :
    optional read v = (read v).map some := by
  cases v with
  | null => exact absurd rfl h
  | _ => rfl

/-- An optional slot is read as what it holds. -/
theorem defaulted_present {α β : Type} {slots : List (String × Option (Json F))} {name : String}
    {given : Option β} {write : β → Json F} (read : Json F → Option α)
    (h : slots.filter (fun slot => slot.1 = name) = [(name, given.map write)])
    (hwrite : ∀ b, write b ≠ .null) :
    defaulted (present slots) name read =
      given.elim (some none) fun b => (read (write b)).map some := by
  rw [defaulted, field_present (optional read) h]
  cases given with
  | none => rfl
  | some b =>
      rw [Option.map_some, Option.elim_some, Option.elim_some, optional_of_ne_null read (hwrite b)]
      cases read (write b) with
      | none => rfl
      | some a => rfl

/-- A count is read if it fits into `u64`, and otherwise the payload is
refused.  An absent one stays absent. -/
theorem defaulted_u64 {slots : List (String × Option (Json F))} {name : String}
    {given : Option Int} (h : slots.filter (fun slot => slot.1 = name) =
      [(name, given.map .integer)]) (found : Option UInt64) :
    defaulted (present slots) name asU64 = some found ↔
      (∀ n, given = some n → FitsU64 n) ∧ given.map u64Of = found := by
  rw [defaulted_present asU64 h (fun n hnull => by cases hnull)]
  cases given with
  | none => simp
  | some n =>
      rw [Option.elim_some, asU64, asInteger]
      by_cases hfits : FitsU64 n
      · rw [if_pos hfits]
        have hall : ∀ m, some n = some m → FitsU64 m := fun m hm => Option.some.inj hm ▸ hfits
        exact ⟨fun hread => ⟨hall, Option.some.inj hread⟩, fun hread => congrArg some hread.2⟩
      · rw [if_neg hfits]
        exact ⟨fun hread => (by cases hread), fun hread => absurd (hread.1 n rfl) hfits⟩

section Doubles

variable [JsonDoubles F]

/-- A number is always read, up to the rereading of its decimal text. -/
theorem defaulted_f64 {slots : List (String × Option (Json F))} {name : String}
    {given : Option F} (h : slots.filter (fun slot => slot.1 = name) =
      [(name, given.map .double)]) :
    defaulted (present slots) name asF64 = some (given.map JsonDoubles.reread) := by
  rw [defaulted_present asF64 h (fun d hnull => by cases hnull)]
  cases given with
  | none => rfl
  | some d => rfl

/-- A list of numbers is read item by item, and each item up to the rereading
of its decimal text. -/
theorem asVec_doubles (ds : List F) :
    asVec asF64 (.array (ds.map Json.double)) = some (ds.map JsonDoubles.reread) := by
  change (ds.map Json.double).mapM asF64 = _
  induction ds with
  | nil => rfl
  | cons d ds ih =>
      rw [List.map_cons, List.mapM_cons, ih]
      rfl

/-- A histogram is read like a list of numbers if it is there, and stays absent
if it is not. -/
theorem defaulted_vec {slots : List (String × Option (Json F))} {name : String}
    {given : Option (List F)} (h : slots.filter (fun slot => slot.1 = name) =
      [(name, given.map fun ds => .array (ds.map .double))]) :
    defaulted (present slots) name (asVec asF64) =
      some (given.map fun ds => ds.map JsonDoubles.reread) := by
  rw [defaulted_present (asVec asF64) h (fun ds hnull => by cases hnull)]
  cases given with
  | none => rfl
  | some ds =>
      rw [Option.elim_some, asVec_doubles]
      rfl

end Doubles

end Json

namespace ZonaTeachSignal

variable [JsonDoubles F] (s : ZonaTeachSignal F)

/-- **Writer and reader agree.**  The body of a signal is read if and only if its
numbers have a place in the payload, and then as the payload of the signal. -/
theorem read_body (p : TeachPayload F) :
    TeachPayload.read s.body = some p ↔ s.Fits ∧ s.payload = p := by
  have hmethod : required (present s.slots) "method" asString = some s.method := by
    have hread : required (present s.slots) "method" asString = asString (.string s.method) :=
      required_present _ (by simp [slots])
    exact hread
  have hpath : required (present s.slots) "path" asString = some s.path := by
    have hread : required (present s.slots) "path" asString = asString (.string s.path) :=
      required_present _ (by simp [slots])
    exact hread
  have hquery : defaulted (present s.slots) "query" asString = some s.query := by
    have hpresent : defaulted (present s.slots) "query" asString =
        s.query.elim (some none) fun text => (asString (.string text : Json F)).map some :=
      defaulted_present asString (by simp [slots]) (fun text hnull => by cases hnull)
    rw [hpresent]
    cases s.query with
    | none => rfl
    | some text => rfl
  have hunix : ∀ found, required (present s.slots) "unixMs" asI64 = some found ↔
      (-9223372036854775808 ≤ s.unixMs ∧ s.unixMs < 9223372036854775808) ∧ s.unixMs = found := by
    intro found
    have hread : required (present s.slots) "unixMs" asI64 = asI64 (.integer s.unixMs) :=
      required_present _ (by simp [slots])
    rw [hread, asI64, asInteger, Option.ite_none_right_eq_some, Option.some.injEq]
  have hduration : ∀ found, defaulted (present s.slots) "durationMs" asU64 = some found ↔
      (∀ n, some s.durationMs = some n → FitsU64 n) ∧ some (u64Of s.durationMs) = found :=
    defaulted_u64 (by simp [slots])
  have hrequest : ∀ found, defaulted (present s.slots) "requestLength" asU64 = some found ↔
      (∀ n, s.requestContentLength = some n → FitsU64 n) ∧
        s.requestContentLength.map u64Of = found :=
    defaulted_u64 (by simp [slots])
  have hresponse : ∀ found, defaulted (present s.slots) "responseLength" asU64 = some found ↔
      (∀ n, s.responseContentLength = some n → FitsU64 n) ∧
        s.responseContentLength.map u64Of = found :=
    defaulted_u64 (by simp [slots])
  have httfb : ∀ found, defaulted (present s.slots) "responseTtfbMs" asU64 = some found ↔
      (∀ n, s.responseTtfbMs = some n → FitsU64 n) ∧ s.responseTtfbMs.map u64Of = found :=
    defaulted_u64 (by simp [slots])
  have hstatus : ∀ found, defaulted (present s.slots) "statusCode" asU16 = some found ↔
      (0 ≤ s.statusCode ∧ s.statusCode < 65536) ∧
        some (UInt16.ofNat s.statusCode.toNat) = found := by
    intro found
    have hread : defaulted (present s.slots) "statusCode" asU16 =
        (some s.statusCode).elim (some none) fun n => (asU16 (.integer n : Json F)).map some :=
      defaulted_present asU16 (by simp [slots]) (fun n hnull => by cases hnull)
    rw [hread, Option.elim_some, asU16, asInteger]
    split
    · next hfits => simp [hfits]
    · next hfits => simp [hfits]
  have hrequestEntropy : defaulted (present s.slots) "requestEntropyBits" asF64 =
      some (s.requestEntropyBits.map JsonDoubles.reread) :=
    defaulted_f64 (by simp [slots])
  have hrequestOnes : defaulted (present s.slots) "requestOnesRatio" asF64 =
      some (s.requestOnesRatio.map JsonDoubles.reread) :=
    defaulted_f64 (by simp [slots])
  have hrequestBytes : defaulted (present s.slots) "requestByteHistogram16" (asVec asF64) =
      some (s.requestByteHistogram16.map fun h => h.map JsonDoubles.reread) :=
    defaulted_vec (by simp [slots])
  have hresponseEntropy : defaulted (present s.slots) "responseEntropyBits" asF64 =
      some (s.responseEntropyBits.map JsonDoubles.reread) :=
    defaulted_f64 (by simp [slots])
  have hresponseOnes : defaulted (present s.slots) "responseOnesRatio" asF64 =
      some (s.responseOnesRatio.map JsonDoubles.reread) :=
    defaulted_f64 (by simp [slots])
  have hresponseBytes : defaulted (present s.slots) "responseByteHistogram16" (asVec asF64) =
      some (s.responseByteHistogram16.map fun h => h.map JsonDoubles.reread) :=
    defaulted_vec (by simp [slots])
  rw [body, TeachPayload.read, hmethod, hpath, hquery, hrequestEntropy, hrequestOnes,
    hrequestBytes, hresponseEntropy, hresponseOnes, hresponseBytes]
  constructor
  · intro h
    rw [Option.bind_eq_bind, Option.bind_some, Option.bind_eq_bind, Option.bind_some,
      Option.bind_eq_bind, Option.bind_some] at h
    obtain ⟨unix, hu, h⟩ := Option.bind_eq_some_iff.mp h
    obtain ⟨duration, hd, h⟩ := Option.bind_eq_some_iff.mp h
    obtain ⟨status, hs, h⟩ := Option.bind_eq_some_iff.mp h
    obtain ⟨request, hq, h⟩ := Option.bind_eq_some_iff.mp h
    obtain ⟨response, hr, h⟩ := Option.bind_eq_some_iff.mp h
    obtain ⟨ttfb, ht, h⟩ := Option.bind_eq_some_iff.mp h
    obtain ⟨hunixFits, rfl⟩ := (hunix _).mp hu
    obtain ⟨hdurationFits, rfl⟩ := (hduration _).mp hd
    obtain ⟨hstatusFits, rfl⟩ := (hstatus _).mp hs
    obtain ⟨hrequestFits, rfl⟩ := (hrequest _).mp hq
    obtain ⟨hresponseFits, rfl⟩ := (hresponse _).mp hr
    obtain ⟨httfbFits, rfl⟩ := (httfb _).mp ht
    exact ⟨⟨hunixFits, hdurationFits _ rfl, hstatusFits, hrequestFits, hresponseFits, httfbFits⟩,
      Option.some.inj h⟩
  · intro h
    obtain ⟨hfits, rfl⟩ := h
    rw [(hunix _).mpr ⟨hfits.unixMs, rfl⟩, (hstatus _).mpr ⟨hfits.statusCode, rfl⟩,
      (hrequest _).mpr ⟨hfits.requestLength, rfl⟩, (hresponse _).mpr ⟨hfits.responseLength, rfl⟩,
      (httfb _).mpr ⟨hfits.responseTtfbMs, rfl⟩,
      (hduration _).mpr ⟨fun n hn => Option.some.inj hn ▸ hfits.durationMs, rfl⟩]
    rfl

end ZonaTeachSignal

/-- What the handler of the store records of a signal, if it can read it. -/
def taught [JsonDoubles F] (codec : FormCodec) (s : ZonaTeachSignal F) (now : Int) :
    Option (RecordCall (Sample F)) :=
  (TeachPayload.read s.body).map fun payload => teach codec payload now

/-- A time or a length as a clock or a stream counts it. -/
abbrev Counted (n : Int) : Prop :=
  0 ≤ n ∧ n < 9223372036854775808

/-- The numbers of a request are ones that were counted. -/
structure HttpContext.Measured (x : HttpContext F) : Prop where
  unixMs : Counted x.unixMs
  elapsedMs : Counted x.elapsedMs
  starting : ∀ ms ∈ x.starting, Counted ms
  statusCode : 0 ≤ x.statusCode ∧ x.statusCode < 65536
  requestContentLength : ∀ n, x.requestContentLength = some n → Counted n
  responseContentLength : ∀ n, x.responseContentLength = some n → Counted n
  totalBytesWritten : Counted x.totalBytesWritten

/-- Later times do not replace the one that was captured: the exchange succeeds
only while none is set. -/
theorem foldl_tryRecordFirst (times : List Int) {ms : Int} (h : 0 ≤ ms) :
    times.foldl tryRecordFirst ms = ms := by
  induction times with
  | nil => rfl
  | cons later times ih =>
      have hset : tryRecordFirst ms later = ms := if_neg (by omega)
      rw [List.foldl_cons, hset, ih]

/-- The first time at which a response is about to start is kept. -/
theorem capturedMilliseconds_eq {starting : List Int} (h : ∀ ms ∈ starting, Counted ms) :
    capturedMilliseconds starting = starting.head? := by
  cases starting with
  | nil => rfl
  | cons ms times =>
      have hms := (h ms List.mem_cons_self).1
      have hfirst : tryRecordFirst (-1) ms = ms := if_pos rfl
      rw [capturedMilliseconds, List.foldl_cons, hfirst, foldl_tryRecordFirst times hms]
      exact if_neg (by omega)

/-- A count of the host is not negative and below 2^63, so it fits into the
`u64` of the store. -/
theorem Counted.fitsU64 {n : Int} (h : Counted n) : FitsU64 n := by
  omega

/-- A number that fits keeps its value in the store. -/
theorem u64Of_toNat {n : Int} (h : FitsU64 n) : ((u64Of n).toNat : Int) = n := by
  have hsize : n.toNat < 18446744073709551616 := by omega
  rw [u64Of, UInt64.toNat_ofNat_of_lt' hsize]
  omega

/-- The measured duration is a count, also where it is raised to one
millisecond because some ticks had passed. -/
theorem counted_elapsed {elapsedMs : Int} (h : Counted elapsedMs) (elapsedTicks : Int) :
    Counted (elapsedMsAtLeastOneIfNonZero elapsedMs elapsedTicks) := by
  unfold elapsedMsAtLeastOneIfNonZero
  split
  · omega
  · exact h

/-- The announced length of a request is a count, and a length that was not
announced is zero or absent. -/
theorem counted_request {x : HttpContext F} (h : x.Measured) (maxStats : Int) :
    ∀ n, (signalOf maxStats x).requestContentLength = some n → Counted n := by
  intro n hn
  dsimp only [signalOf] at hn
  split at hn
  · next length hlength =>
      cases hn
      exact h.requestContentLength n hlength
  · split at hn
    · cases hn
      omega
    · cases hn

/-- The length of a response is a count, whether it was announced or added up
from the bytes written. -/
theorem counted_response {x : HttpContext F} (h : x.Measured) (maxStats : Int) :
    ∀ n, (signalOf maxStats x).responseContentLength = some n → Counted n := by
  intro n hn
  dsimp only [signalOf] at hn
  split at hn
  · next length hlength =>
      cases hn
      exact h.responseContentLength n hlength
  · split at hn
    · cases hn
      exact h.totalBytesWritten
    · cases hn

/-- The time to the first byte is the first at which the response was about to
start; a response that started unseen took as long as the request. -/
theorem ttfb_eq {x : HttpContext F} (h : x.Measured) (maxStats : Int) :
    (signalOf maxStats x).responseTtfbMs =
      x.starting.head?.or
        (if x.hasStarted ∧ 0 < (signalOf maxStats x).durationMs then
          some (signalOf maxStats x).durationMs else none) := by
  dsimp only [signalOf]
  rw [capturedMilliseconds_eq h.starting]
  cases x.starting.head? with
  | none => rfl
  | some ms => rfl

/-- The time to the first byte is a count, as it is one of the times at which
the response was about to start, or the duration. -/
theorem counted_ttfb {x : HttpContext F} (h : x.Measured) (maxStats : Int) :
    ∀ n, (signalOf maxStats x).responseTtfbMs = some n → Counted n := by
  intro n hn
  rw [ttfb_eq h] at hn
  cases hhead : x.starting.head? with
  | some ms =>
      rw [hhead] at hn
      cases hn
      exact h.starting n (List.mem_of_head? hhead)
  | none =>
      rw [hhead, Option.none_or] at hn
      split at hn
      · cases hn
        exact counted_elapsed h.elapsedMs _
      · cases hn

/-- The signal of a request fits into the types of the store, field by field,
so the store accepts it. -/
theorem signalOf_fits {x : HttpContext F} (h : x.Measured) (maxStats : Int) :
    (signalOf maxStats x).Fits where
  unixMs := by
    have hunix := h.unixMs
    exact ⟨le_trans (by omega) hunix.1, hunix.2⟩
  durationMs := (counted_elapsed h.elapsedMs _).fitsU64
  statusCode := h.statusCode
  requestLength n hn := (counted_request h maxStats n hn).fitsU64
  responseLength n hn := (counted_response h maxStats n hn).fitsU64
  responseTtfbMs n hn := (counted_ttfb h maxStats n hn).fitsU64

/-- What a recorded sample says of the request. -/
structure Says (codec : FormCodec) (x : HttpContext F) (call : RecordCall (Sample F)) : Prop where
  key : call.key = routeKey x.method (x.path.getD "/")
  unixMs : call.sample.unixMs = x.unixMs
  durationMs : (call.sample.durationMs.toNat : Int) =
    if x.elapsedMs = 0 ∧ 0 < x.elapsedTicks then 1 else x.elapsedMs
  statusCode : (call.sample.statusCode.toNat : Int) = x.statusCode
  query : call.sample.query = canonicalQuery codec x.queryString
  ttfb : ∀ ms, x.starting.head? = some ms →
    call.sample.responseTtfbMs.map (fun n => (n.toNat : Int)) = some ms
  given : ∀ n, x.requestContentLength = some n →
    call.sample.requestLength.map (fun n => (n.toNat : Int)) = some n

/-- Whole numbers, read as they are. -/
@[reducible]
def wholeDoubles : JsonDoubles Int where
  ofInteger n := n
  reread n := n

/-- A request whose response started after three of four milliseconds. -/
def fourMilliseconds : HttpContext Int where
  endpoint := some ⟨false, none, none, true⟩
  method := "GET"
  path := some "/orders"
  queryString := some "?b=2&a=1"
  unixMs := 1700000000000
  elapsedMs := 4
  elapsedTicks := 40000
  starting := [3]
  hasStarted := true
  statusCode := 200
  requestContentLength := none
  responseContentLength := some 12
  totalBytesWritten := 12
  requestPattern := none
  responsePattern := none

/-- A request that took four milliseconds has counts only, as any measured
request does. -/
theorem fourMilliseconds_measured : fourMilliseconds.Measured where
  unixMs := by decide
  elapsedMs := by decide
  starting := by
    intro ms hms
    rw [List.mem_singleton.mp hms]
    decide
  statusCode := by decide
  requestContentLength n hn := by cases hn
  responseContentLength n hn := by
    cases hn
    decide
  totalBytesWritten := by decide

end Zona
