import Zona.MappedValues
import Zona.ProfilePanics
import Zona.TeachSignals

/-!
# The file of the train store

`train_store.json` is the whole store as JSON: the fields of the store in camel
case, those of a sample as they are.  A number that is not finite is written as
null.  Most fields of the store have a default, and the routes are a map whose
last entry of a key counts.

`read_write` is the round trip: a store that is written can be read if and only
if its numbers have a place and its histograms are finite, and it is then the
same store, up to how doubles are read.
-/

namespace Zona

open FloatOps (isFinite)

variable {F : Type}

namespace Json

/-- An optional field, null if it is empty. -/
def orNull {α : Type} (write : α → Json F) : Option α → Json F
  | none => .null
  | some a => write a

def ofU64 (n : UInt64) : Json F :=
  .integer n.toNat

def ofF64 [FloatOps F] (d : F) : Json F :=
  if isFinite d then .double d else .null

def ofVec {α : Type} (write : α → Json F) (items : List α) : Json F :=
  .array (items.map write)

end Json

open Json

namespace Sample

variable [FloatOps F]

def slots (s : Sample F) : List (String × Option (Json F)) :=
  [("duration_ms", some (ofU64 s.durationMs)),
    ("status_code", some (.integer s.statusCode.toNat)),
    ("unix_ms", some (.integer s.unixMs)),
    ("query", s.query.map .string),
    ("request_length", some (orNull ofU64 s.requestLength)),
    ("response_length", some (orNull ofU64 s.responseLength)),
    ("response_ttfb_ms", some (orNull ofU64 s.responseTtfbMs)),
    ("request_entropy_bits", some (orNull ofF64 s.requestEntropyBits)),
    ("request_ones_ratio", some (orNull ofF64 s.requestOnesRatio)),
    ("request_byte_histogram16", some (orNull (ofVec ofF64) s.requestByteHistogram16)),
    ("response_entropy_bits", some (orNull ofF64 s.responseEntropyBits)),
    ("response_ones_ratio", some (orNull ofF64 s.responseOnesRatio)),
    ("response_byte_histogram16", some (orNull (ofVec ofF64) s.responseByteHistogram16))]

/-- A sample as JSON; only the query is left out when there is none. -/
def write (s : Sample F) : Json F :=
  .object (present s.slots)

end Sample

namespace PersistedTrainStore

variable [FloatOps F]

def slots (g : PersistedTrainStore (Sample F)) : List (String × Option (Json F)) :=
  [("v", some (.integer g.v.toNat)),
    ("trainingComplete", some (.bool g.trainingComplete)),
    ("completedAtUnixMs", some (orNull .integer g.completedAtUnixMs)),
    ("hostSessionId", some (orNull .string g.hostSessionId)),
    ("routes", some (.object (g.routes.entries.map fun e => (e.1, ofVec Sample.write e.2))))]

/-- What `save_to_disk` writes. -/
def write (g : PersistedTrainStore (Sample F)) : Json F :=
  .object (present g.slots)

end PersistedTrainStore

namespace Json

def asBool : Json F → Option Bool
  | .bool b => some b
  | _ => none

def asU8 (v : Json F) : Option UInt8 :=
  (v.asInteger 0 256).map fun n => UInt8.ofNat n.toNat

/-- A map: the entries are inserted in turn. -/
def asMap {α : Type} (read : Json F → Option α) : Json F → Option (HashMap String α)
  | .object members => (members.mapM fun m => (read m.2).map (Prod.mk m.1)).map HashMap.ofEntries
  | _ => none

end Json

def Sample.read [JsonDoubles F] : Json F → Option (Sample F)
  | .object members => do
      let durationMs ← required members "duration_ms" asU64
      let statusCode ← required members "status_code" asU16
      let unixMs ← required members "unix_ms" asI64
      let query ← defaulted members "query" asString
      let requestLength ← defaulted members "request_length" asU64
      let responseLength ← defaulted members "response_length" asU64
      let responseTtfbMs ← defaulted members "response_ttfb_ms" asU64
      let requestEntropyBits ← defaulted members "request_entropy_bits" asF64
      let requestOnesRatio ← defaulted members "request_ones_ratio" asF64
      let requestByteHistogram16 ← defaulted members "request_byte_histogram16" (asVec asF64)
      let responseEntropyBits ← defaulted members "response_entropy_bits" asF64
      let responseOnesRatio ← defaulted members "response_ones_ratio" asF64
      let responseByteHistogram16 ← defaulted members "response_byte_histogram16" (asVec asF64)
      pure
        { durationMs, statusCode, unixMs, query, requestLength, responseLength, responseTtfbMs,
          requestEntropyBits, requestOnesRatio, requestByteHistogram16, responseEntropyBits,
          responseOnesRatio, responseByteHistogram16 }
  | _ => none

/-- What `load_from_disk` makes of JSON; the first version is the default. -/
def PersistedTrainStore.read [JsonDoubles F] : Json F → Option (PersistedTrainStore (Sample F))
  | .object members => do
      let v ← field members "v" asU8
      let trainingComplete ← field members "trainingComplete" asBool
      let completedAtUnixMs ← defaulted members "completedAtUnixMs" asI64
      let hostSessionId ← defaulted members "hostSessionId" asString
      let routes ← field members "routes" (asMap (asVec Sample.read))
      pure
        { v := v.getD 1
          trainingComplete := trainingComplete.getD false
          completedAtUnixMs, hostSessionId
          routes := routes.getD ∅ }
  | _ => none

/-- Items that are each read back are read back as a list. -/
theorem mapM_eq_some {α β γ : Type} {read : γ → Option β} {write : α → γ} {ok : α → Prop}
    {back : α → β} (h : ∀ a b, read (write a) = some b ↔ ok a ∧ b = back a) (as : List α)
    (found : List β) :
    (as.map write).mapM read = some found ↔ (∀ a ∈ as, ok a) ∧ found = as.map back := by
  induction as generalizing found with
  | nil =>
      constructor
      · intro hread
        exact ⟨fun a ha => (by cases ha), (Option.some.inj hread).symm⟩
      · rintro ⟨-, rfl⟩
        rfl
  | cons a as ih =>
      rw [List.map_cons, List.mapM_cons]
      constructor
      · intro hread
        obtain ⟨b, hb, hread⟩ := Option.bind_eq_some_iff.mp hread
        obtain ⟨bs, hbs, hfound⟩ := Option.bind_eq_some_iff.mp hread
        obtain ⟨hok, rfl⟩ := (h a b).mp hb
        obtain ⟨hall, rfl⟩ := (ih bs).mp hbs
        exact ⟨List.forall_mem_cons.mpr ⟨hok, hall⟩, (Option.some.inj hfound).symm⟩
      · rintro ⟨hall, rfl⟩
        obtain ⟨hok, hrest⟩ := List.forall_mem_cons.mp hall
        have hfirst := (h a _).mpr ⟨hok, rfl⟩
        have hothers := (ih _).mpr ⟨hrest, rfl⟩
        exact Option.bind_eq_some_iff.mpr
          ⟨_, hfirst, Option.bind_eq_some_iff.mpr ⟨_, hothers, rfl⟩⟩

namespace Json

variable {α β : Type} {read : Json F → Option β} {write : α → Json F} {ok : α → Prop}
  {back : α → β}

/-- A vector that was written item by item is read item by item: it is accepted
if every item is, and the result is the list of the items read. -/
theorem asVec_ofVec (h : ∀ a b, read (write a) = some b ↔ ok a ∧ b = back a) (as : List α)
    (found : List β) :
    asVec read (ofVec write as) = some found ↔ (∀ a ∈ as, ok a) ∧ found = as.map back :=
  mapM_eq_some h as found

/-- A map is read back if all of its values are. -/
theorem asMap_written (h : ∀ a b, read (write a) = some b ↔ ok a ∧ b = back a)
    (m : HashMap String α) (found : HashMap String β) :
    asMap read (.object (m.entries.map fun e => (e.1, write e.2))) = some found ↔
      (∀ a ∈ m.values, ok a) ∧ found = m.mapValues back := by
  have hentry : ∀ (e : Sigma fun _ : String => α) (b : String × β),
      (read (write e.2)).map (Prod.mk e.1) = some b ↔ ok e.2 ∧ b = (e.1, back e.2) := by
    intro e b
    rw [Option.map_eq_some_iff]
    constructor
    · rintro ⟨a, ha, rfl⟩
      obtain ⟨hok, rfl⟩ := (h e.2 a).mp ha
      exact ⟨hok, rfl⟩
    · rintro ⟨hok, rfl⟩
      exact ⟨_, (h e.2 _).mpr ⟨hok, rfl⟩, rfl⟩
  have hentries := fun bs => @mapM_eq_some _ _ _
    (fun m : String × Json F => (read m.2).map (Prod.mk m.1))
    (fun e : Sigma fun _ : String => α => (e.1, write e.2)) _ _ hentry m.entries bs
  rw [asMap, Option.map_eq_some_iff]
  constructor
  · rintro ⟨bs, hbs, rfl⟩
    obtain ⟨hall, rfl⟩ := (hentries bs).mp hbs
    refine ⟨?_, HashMap.ofEntries_entries back m⟩
    intro a ha
    obtain ⟨e, he, rfl⟩ := List.mem_map.mp ha
    exact hall e he
  · rintro ⟨hall, rfl⟩
    have hok : ∀ e ∈ m.entries, ok e.2 := fun e he => hall e.2 (List.mem_map_of_mem he)
    exact ⟨_, (hentries _).mpr ⟨hok, rfl⟩, HashMap.ofEntries_entries back m⟩

end Json

/-- A number that fits a signed one of 64 bits. -/
abbrev FitsI64 (n : Int) : Prop :=
  -9223372036854775808 ≤ n ∧ n < 9223372036854775808

namespace Json

/-- A field that occurs once, with a value, is found by its name and handed to
its reader. -/
theorem field_some {α : Type} {slots : List (String × Option (Json F))} {name : String}
    {v : Json F} (read : Json F → Option α)
    (h : slots.filter (fun slot => slot.1 = name) = [(name, some v)]) :
    field (present slots) name read = (read v).map some :=
  field_present read h

/-- A field that occurs once is read as if it had no default.  The default is
for files that lack the field. -/
theorem defaulted_some {α : Type} {slots : List (String × Option (Json F))} {name : String}
    {v : Json F} (read : Json F → Option α)
    (h : slots.filter (fun slot => slot.1 = name) = [(name, some v)]) :
    defaulted (present slots) name read = optional read v := by
  rw [defaulted, field_some (optional read) h, Option.map_map]
  cases optional read v with
  | none => rfl
  | some found => rfl

/-- An optional field that is always read as what was written. -/
theorem optional_written {α : Type} {read : Json F → Option α} {write : α → Json F}
    (hread : ∀ a, read (write a) = some a) (hwrite : ∀ a, write a ≠ .null) (given : Option α) :
    optional read (orNull write given) = some given := by
  cases given with
  | none => rfl
  | some a =>
      rw [orNull, optional_of_ne_null read (hwrite a), hread]
      rfl

/-- A `u64` is read back as it was written, because it is written as an integer
in its own range. -/
theorem asU64_ofU64 (n : UInt64) : asU64 (ofU64 n : Json F) = some n := by
  have hlt := n.toNat_lt
  rw [ofU64, asU64, asInteger, if_pos ⟨by omega, by omega⟩, Option.map_some, Int.toNat_natCast,
    UInt64.ofNat_toNat]

/-- A `u16` is read back as it was written. -/
theorem asU16_written (n : UInt16) : asU16 (.integer n.toNat : Json F) = some n := by
  have hlt := n.toNat_lt
  rw [asU16, asInteger, if_pos ⟨by omega, by omega⟩, Option.map_some, Int.toNat_natCast,
    UInt16.ofNat_toNat]

/-- A `u8` is read back as it was written. -/
theorem asU8_written (n : UInt8) : asU8 (.integer n.toNat : Json F) = some n := by
  have hlt := n.toNat_lt
  rw [asU8, asInteger, if_pos ⟨by omega, by omega⟩, Option.map_some, Int.toNat_natCast,
    UInt8.ofNat_toNat]

/-- An integer is read as `i64` exactly if it fits.  Model times are unbounded,
so the bound appears here and not in the type. -/
theorem asI64_eq_some {n found : Int} :
    asI64 (.integer n : Json F) = some found ↔ FitsI64 n ∧ found = n := by
  rw [asI64, asInteger, Option.ite_none_right_eq_some, Option.some.injEq, eq_comm (a := n)]

section Doubles

variable [FloatOps F] [JsonDoubles F]

/-- A double as it is read back, if it was written at all. -/
def keptF64 (d : F) : Option F :=
  if isFinite d then some (JsonDoubles.reread d) else none

/-- A number that is finite is read back up to rereading; the others are
written as null, which is no number. -/
theorem asF64_ofF64 (d : F) : asF64 (ofF64 d) = keptF64 d := by
  unfold ofF64 keptF64
  split
  · rfl
  · rfl

/-- An optional number comes back unless it was not finite, in which case it
has become null and is read as absent. -/
theorem optional_ofF64 (given : Option F) :
    optional asF64 (orNull ofF64 given) = some (given.bind keptF64) := by
  cases given with
  | none => rfl
  | some d =>
      change optional asF64 (ofF64 d) = some (keptF64 d)
      unfold ofF64 keptF64
      split
      · rfl
      · rfl

/-- When a number is read back at all: it is finite, and what is found is its
rereading. -/
theorem asF64_ofF64_eq_some (d found : F) :
    asF64 (ofF64 d) = some found ↔ isFinite d = true ∧ found = JsonDoubles.reread d := by
  rw [asF64_ofF64, keptF64, Option.ite_none_right_eq_some, Option.some.injEq,
    eq_comm (a := found)]

/-- An optional histogram comes back exactly if all its numbers are finite.
Otherwise it holds a null, and the whole file cannot be read. -/
theorem optional_ofVec (given found : Option (List F)) :
    optional (asVec asF64) (orNull (ofVec ofF64) given) = some found ↔
      (∀ ds ∈ given, ∀ d ∈ ds, isFinite d = true) ∧
        found = given.map fun ds => ds.map JsonDoubles.reread := by
  cases given with
  | none =>
      constructor
      · intro h
        exact ⟨fun ds hds => (by cases hds), (Option.some.inj h).symm⟩
      · rintro ⟨-, rfl⟩
        rfl
  | some ds =>
      have hread : optional (asVec asF64) (orNull (ofVec ofF64) (some ds)) =
          (asVec asF64 (ofVec ofF64 ds)).map some :=
        optional_of_ne_null _ (fun hnull => by cases hnull)
      rw [hread, Option.map_eq_some_iff]
      constructor
      · rintro ⟨a, ha, rfl⟩
        obtain ⟨hall, rfl⟩ := (asVec_ofVec asF64_ofF64_eq_some ds a).mp ha
        exact ⟨fun es hes => Option.some.inj hes ▸ hall, rfl⟩
      · rintro ⟨hall, rfl⟩
        exact ⟨_, (asVec_ofVec asF64_ofF64_eq_some ds _).mpr ⟨hall ds rfl, rfl⟩, rfl⟩

end Doubles

end Json

namespace Sample

variable [FloatOps F] [JsonDoubles F]

/-- A sample that comes back: its time fits and its histograms are finite. -/
structure Storable (s : Sample F) : Prop where
  unixMs : FitsI64 s.unixMs
  requestByteHistogram16 : ∀ h ∈ s.requestByteHistogram16, ∀ d ∈ h, isFinite d = true
  responseByteHistogram16 : ∀ h ∈ s.responseByteHistogram16, ∀ d ∈ h, isFinite d = true

/-- The sample as it comes back. -/
def reread (s : Sample F) : Sample F :=
  { s with
    requestEntropyBits := s.requestEntropyBits.bind keptF64
    requestOnesRatio := s.requestOnesRatio.bind keptF64
    requestByteHistogram16 := s.requestByteHistogram16.map fun h => h.map JsonDoubles.reread
    responseEntropyBits := s.responseEntropyBits.bind keptF64
    responseOnesRatio := s.responseOnesRatio.bind keptF64
    responseByteHistogram16 := s.responseByteHistogram16.map fun h => h.map JsonDoubles.reread }

/-- **A sample and its JSON**: what was written is read back exactly if the
sample can be stored, and then it is its own rereading. -/
theorem read_write (s back : Sample F) :
    Sample.read s.write = some back ↔ s.Storable ∧ back = s.reread := by
  have hduration : required (present s.slots) "duration_ms" asU64 = some s.durationMs := by
    rw [← asU64_ofU64 (F := F) s.durationMs]
    exact required_present asU64 (by simp [slots])
  have hstatus : required (present s.slots) "status_code" asU16 = some s.statusCode := by
    rw [← asU16_written (F := F) s.statusCode]
    exact required_present asU16 (by simp [slots])
  have hunix : ∀ found, required (present s.slots) "unix_ms" asI64 = some found ↔
      FitsI64 s.unixMs ∧ found = s.unixMs := by
    intro found
    rw [← asI64_eq_some (F := F)]
    have hread : required (present s.slots) "unix_ms" asI64 = asI64 (.integer s.unixMs) :=
      required_present asI64 (by simp [slots])
    rw [hread]
  have hquery : defaulted (present s.slots) "query" asString = some s.query := by
    have hread : defaulted (present s.slots) "query" asString =
        s.query.elim (some none) fun text => (asString (.string text : Json F)).map some :=
      defaulted_present asString (by simp [slots]) (fun text hnull => by cases hnull)
    rw [hread]
    cases s.query with
    | none => rfl
    | some text => rfl
  have hlength : ∀ name given, s.slots.filter (fun slot => slot.1 = name) =
      [(name, some (orNull ofU64 given))] →
        defaulted (present s.slots) name asU64 = some given := by
    intro name given h
    rw [defaulted_some asU64 h, optional_written asU64_ofU64 (fun n hnull => by cases hnull)]
  have hdouble : ∀ name given, s.slots.filter (fun slot => slot.1 = name) =
      [(name, some (orNull ofF64 given))] →
        defaulted (present s.slots) name asF64 = some (given.bind keptF64) := by
    intro name given h
    rw [defaulted_some asF64 h, optional_ofF64]
  have hhistogram : ∀ name given found, s.slots.filter (fun slot => slot.1 = name) =
      [(name, some (orNull (ofVec ofF64) given))] →
        (defaulted (present s.slots) name (asVec asF64) = some found ↔
          (∀ h ∈ given, ∀ d ∈ h, isFinite d = true) ∧
            found = given.map fun h => h.map JsonDoubles.reread) := by
    intro name given found h
    rw [defaulted_some (asVec asF64) h, optional_ofVec]
  have hrequest := fun found => hhistogram "request_byte_histogram16" s.requestByteHistogram16 found
    (by simp [slots])
  have hresponse := fun found =>
    hhistogram "response_byte_histogram16" s.responseByteHistogram16 found (by simp [slots])
  rw [write, Sample.read, hduration, hstatus, hquery,
    hlength "request_length" s.requestLength (by simp [slots]),
    hlength "response_length" s.responseLength (by simp [slots]),
    hlength "response_ttfb_ms" s.responseTtfbMs (by simp [slots]),
    hdouble "request_entropy_bits" s.requestEntropyBits (by simp [slots]),
    hdouble "request_ones_ratio" s.requestOnesRatio (by simp [slots]),
    hdouble "response_entropy_bits" s.responseEntropyBits (by simp [slots]),
    hdouble "response_ones_ratio" s.responseOnesRatio (by simp [slots])]
  constructor
  · intro h
    simp only [Option.bind_eq_bind, Option.bind_some] at h
    obtain ⟨unix, hu, h⟩ := Option.bind_eq_some_iff.mp h
    obtain ⟨request, hq, h⟩ := Option.bind_eq_some_iff.mp h
    obtain ⟨response, hr, h⟩ := Option.bind_eq_some_iff.mp h
    obtain ⟨hunixFits, rfl⟩ := (hunix _).mp hu
    obtain ⟨hrequestFinite, rfl⟩ := (hrequest _).mp hq
    obtain ⟨hresponseFinite, rfl⟩ := (hresponse _).mp hr
    exact ⟨⟨hunixFits, hrequestFinite, hresponseFinite⟩, (Option.some.inj h).symm⟩
  · rintro ⟨hstorable, rfl⟩
    rw [(hunix _).mpr ⟨hstorable.unixMs, rfl⟩,
      (hrequest _).mpr ⟨hstorable.requestByteHistogram16, rfl⟩,
      (hresponse _).mpr ⟨hstorable.responseByteHistogram16, rfl⟩]
    rfl

end Sample

namespace PersistedTrainStore

/-- What holds of every sample, route by route, in the form in which a list of
written routes is read. -/
theorem every_iff {P : Sample F → Prop} {g : PersistedTrainStore (Sample F)} :
    g.Every P ↔ ∀ samples ∈ g.routes.values, ∀ s ∈ samples, P s := by
  unfold Every
  constructor
  · intro h samples hsamples
    obtain ⟨key, hlookup⟩ := HashMap.mem_values.mp hsamples
    exact h key samples hlookup
  · intro h key samples hlookup
    exact h samples (HashMap.mem_values.mpr ⟨key, hlookup⟩)

/-- The store with its samples changed. -/
def mapSamples {S S' : Type} (f : S → S') (g : PersistedTrainStore S) : PersistedTrainStore S' :=
  { g with routes := g.routes.mapValues (List.map f) }

variable [FloatOps F] [JsonDoubles F]

/-- A store that comes back. -/
structure Storable (g : PersistedTrainStore (Sample F)) : Prop where
  completedAtUnixMs : ∀ n ∈ g.completedAtUnixMs, FitsI64 n
  samples : g.Every Sample.Storable

/-- **The store and its file.**  What is written can be read if and only if the
store can be stored, and it is then the same but for the doubles. -/
theorem read_write (g back : PersistedTrainStore (Sample F)) :
    PersistedTrainStore.read g.write = some back ↔
      g.Storable ∧ back = g.mapSamples Sample.reread := by
  have hversion : field (present g.slots) "v" asU8 = some (some g.v) := by
    rw [field_some asU8 (v := .integer g.v.toNat) (by simp [slots]), asU8_written]
    rfl
  have hcomplete : field (present g.slots) "trainingComplete" asBool =
      some (some g.trainingComplete) :=
    field_some asBool (v := .bool g.trainingComplete) (by simp [slots])
  have hsession : defaulted (present g.slots) "hostSessionId" asString = some g.hostSessionId := by
    rw [defaulted_some asString (v := orNull .string g.hostSessionId) (by simp [slots])]
    have hread : ∀ text, asString (.string text : Json F) = some text := fun _ => rfl
    exact optional_written hread (fun text hnull => by cases hnull) _
  have htime : ∀ found, defaulted (present g.slots) "completedAtUnixMs" asI64 = some found ↔
      (∀ n ∈ g.completedAtUnixMs, FitsI64 n) ∧ found = g.completedAtUnixMs := by
    intro found
    rw [defaulted_some asI64 (v := orNull .integer g.completedAtUnixMs) (by simp [slots])]
    cases g.completedAtUnixMs with
    | none =>
        constructor
        · intro h
          exact ⟨fun n hn => (by cases hn), (Option.some.inj h).symm⟩
        · rintro ⟨-, rfl⟩
          rfl
    | some n =>
        rw [orNull, optional_of_ne_null asI64 (fun hnull => by cases hnull), Option.map_eq_some_iff]
        constructor
        · rintro ⟨a, ha, rfl⟩
          obtain ⟨hfits, rfl⟩ := asI64_eq_some.mp ha
          exact ⟨fun m hm => Option.some.inj hm ▸ hfits, rfl⟩
        · rintro ⟨hfits, rfl⟩
          exact ⟨n, asI64_eq_some.mpr ⟨hfits n rfl, rfl⟩, rfl⟩
  have hmap := asMap_written (asVec_ofVec Sample.read_write) g.routes
  have hroutes : ∀ found, field (present g.slots) "routes" (asMap (asVec Sample.read)) =
      some found ↔ g.Every Sample.Storable ∧
        found = some (g.routes.mapValues (List.map Sample.reread)) := by
    intro found
    have hread : field (present g.slots) "routes" (asMap (asVec Sample.read)) =
        (asMap (asVec Sample.read) (.object
          (g.routes.entries.map fun e => (e.1, ofVec Sample.write e.2)))).map some :=
      field_some _ (by simp [slots])
    rw [hread, Option.map_eq_some_iff, every_iff]
    constructor
    · rintro ⟨m, hm, rfl⟩
      obtain ⟨hall, rfl⟩ := (hmap m).mp hm
      exact ⟨hall, rfl⟩
    · rintro ⟨hall, rfl⟩
      exact ⟨_, (hmap _).mpr ⟨hall, rfl⟩, rfl⟩
  rw [write, PersistedTrainStore.read, hversion, hcomplete, hsession]
  constructor
  · intro h
    simp only [Option.bind_eq_bind, Option.bind_some] at h
    obtain ⟨time, ht, h⟩ := Option.bind_eq_some_iff.mp h
    obtain ⟨routes, hr, h⟩ := Option.bind_eq_some_iff.mp h
    obtain ⟨htimeFits, rfl⟩ := (htime _).mp ht
    obtain ⟨hall, rfl⟩ := (hroutes _).mp hr
    exact ⟨⟨htimeFits, hall⟩, (Option.some.inj h).symm⟩
  · rintro ⟨hstorable, rfl⟩
    rw [(htime _).mpr ⟨hstorable.completedAtUnixMs, rfl⟩, (hroutes _).mpr ⟨hstorable.samples, rfl⟩]
    rfl

end PersistedTrainStore

end Zona
