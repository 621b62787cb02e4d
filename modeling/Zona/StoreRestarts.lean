import Zona.IterationOrders
import Zona.StoreFiles
import Zona.TrainRestarts

/-!
# Restarts with a file of JSON

The host of `Zona.TrainRestarts` keeps its store in an ideal file that gives
back what it was given.  Here the file is the JSON that `save_to_disk` writes,
so that a start reads doubles anew, and finds a file that it cannot read if the
JSON is not that of a store.

`restarts_refine` says that, but for the samples themselves, a run of this host
is one of the ideal host, and that every file it writes can be read.
`samples_survive` is about the samples: whatever saves fail and wherever the
process crashes, a start goes on with the samples of some of the calls made, in
their order, and of all that were saved, each number as it is after some
readings.
-/

namespace Zona

open FloatOps (isFinite)
open Snapshots

variable {F : Type}

/-- What `train_store.json` is. -/
inductive StoreText (F : Type)
  | missing
  | broken
  | json (v : Json F)

/-- What a start finds in the file. -/
def StoreText.contents [JsonDoubles F] : StoreText F → StoreFile (Sample F)
  | .missing => .missing
  | .broken => .corrupt
  | .json v =>
      match PersistedTrainStore.read v with
      | none => .corrupt
      | some g => .stored g

/-- The store of a host with its file of JSON. -/
abbrev StoreHost (F : Type) := Snapshots.Process (StoreText F) (PersistedTrainStore (Sample F))

namespace StoreHost

variable [FloatOps F]

def written (g : PersistedTrainStore (Sample F)) : StoreText F :=
  .json g.write

variable [JsonDoubles F]

/-- The first half of `from_env`. -/
def load (hostSession : String) (endReset : SaveEnd) (file : StoreText F) : StoreHost F :=
  if shouldResetStoreForHostSession (loadFromDisk file.contents).hostSessionId hostSession then
    save written file (TrainHost.fresh hostSession) endReset
  else ⟨file, some (loadFromDisk file.contents)⟩

omit [JsonDoubles F] in
/-- The second half. -/
def complete (opts : TrainOptions) (now : Int) (endDone : SaveEnd) (m : StoreHost F) :
    StoreHost F :=
  match m.memory with
  | none => m
  | some persisted =>
      if !persisted.trainingComplete && persisted.checkTrainingDone opts then
        save written m.file (TrainHost.markComplete now persisted) endDone
      else m

def fromEnv (opts : TrainOptions) (hostSession : String) (now : Int) (endReset endDone : SaveEnd)
    (file : StoreText F) : StoreHost F :=
  complete opts now endDone (load hostSession endReset file)

/-- One event, as for the ideal host. -/
def Step (opts : TrainOptions) (hostSession : String) (m : StoreHost F) :
    TrainHost.Event (Sample F) → StoreHost F → Prop
  | .start now endReset endDone, m' => m' = fromEnv opts hostSession now endReset endDone m.file
  | .record call endSave, m' =>
      ∃ g ∈ m.memory, m' = save written m.file (g.record opts call) endSave
  | .crash, m' => m' = ⟨m.file, none⟩

/-- The calls of `record` that were made. -/
def made (es : List (Transition (StoreHost F) (TrainHost.Event (Sample F)))) :
    List (RecordCall (Sample F)) :=
  es.flatMap fun e => e.label.made

/-- The calls whose save succeeded. -/
def saved (es : List (Transition (StoreHost F) (TrainHost.Event (Sample F)))) :
    List (RecordCall (Sample F)) :=
  es.flatMap fun e => e.label.saved

end StoreHost

section Sound

variable [FloatOps F]

/-- A sample as it is decoded: its time fits and its numbers are finite. -/
structure Sample.Sound (s : Sample F) : Prop where
  unixMs : FitsI64 s.unixMs
  numbers : ∀ x ∈ s.numbers, isFinite x = true

/-- A store of such samples. -/
structure PersistedTrainStore.Sound (g : PersistedTrainStore (Sample F)) : Prop where
  completedAtUnixMs : ∀ n ∈ g.completedAtUnixMs, FitsI64 n
  samples : g.Every Sample.Sound

namespace Sample

/-- A sound sample can be stored: its numbers are finite and its time fits into
`i64`, which is all that its JSON asks. -/
theorem Sound.storable {s : Sample F} (h : s.Sound) : s.Storable where
  unixMs := h.unixMs
  requestByteHistogram16 ds hds d hd := h.numbers d (by
    rw [Sample.numbers, Option.mem_def.mp hds]
    simp [hd])
  responseByteHistogram16 ds hds d hd := h.numbers d (by
    rw [Sample.numbers, Option.mem_def.mp hds]
    simp [hd])

variable [JsonDoubles F]

/-- Every number of a sample that was read again is a number read again. -/
theorem mem_numbers_reread {s : Sample F} {x : F} (h : x ∈ s.reread.numbers) :
    ∃ d ∈ s.numbers, x = JsonDoubles.reread d := by
  have hone : ∀ {given : Option F}, x ∈ (given.bind Json.keptF64).toList →
      ∃ d ∈ given.toList, x = JsonDoubles.reread d := by
    intro given hx
    cases given with
    | none => cases hx
    | some d =>
        refine ⟨d, List.mem_singleton.mpr rfl, ?_⟩
        change x ∈ (Json.keptF64 d).toList at hx
        unfold Json.keptF64 at hx
        split at hx
        · exact List.mem_singleton.mp hx
        · cases hx
  have hmany : ∀ {given : Option (List F)},
      x ∈ (given.map fun ds => ds.map JsonDoubles.reread).getD [] →
        ∃ d ∈ given.getD [], x = JsonDoubles.reread d := by
    intro given hx
    cases given with
    | none => cases hx
    | some ds =>
        obtain ⟨d, hd, rfl⟩ := List.mem_map.mp hx
        exact ⟨d, hd, rfl⟩
  unfold numbers reread at h
  simp only [List.mem_append] at h
  unfold numbers
  simp only [List.mem_append]
  rcases h with ((((h | h) | h) | h) | h) | h
  · obtain ⟨d, hd, rfl⟩ := hone h
    exact ⟨d, by simp [hd], rfl⟩
  · obtain ⟨d, hd, rfl⟩ := hone h
    exact ⟨d, by simp [hd], rfl⟩
  · obtain ⟨d, hd, rfl⟩ := hmany h
    exact ⟨d, by simp [hd], rfl⟩
  · obtain ⟨d, hd, rfl⟩ := hone h
    exact ⟨d, by simp [hd], rfl⟩
  · obtain ⟨d, hd, rfl⟩ := hone h
    exact ⟨d, by simp [hd], rfl⟩
  · obtain ⟨d, hd, rfl⟩ := hmany h
    exact ⟨d, by simp [hd], rfl⟩

/-- A sample that was read back is sound again, provided that the JSON library
rereads a finite number as a finite one. -/
theorem Sound.reread {s : Sample F} (h : s.Sound)
    (hfinite : ∀ d : F, isFinite d = true → isFinite (JsonDoubles.reread d) = true) :
    s.reread.Sound where
  unixMs := h.unixMs
  numbers x hx := by
    obtain ⟨d, hd, rfl⟩ := mem_numbers_reread hx
    exact hfinite d (h.numbers d hd)

end Sample

namespace PersistedTrainStore

omit [FloatOps F] in
/-- What holds of every sample is carried along a change of the samples, route
by route. -/
theorem Every.mapSamples {P Q : Sample F → Prop} {f : Sample F → Sample F}
    {g : PersistedTrainStore (Sample F)} (h : g.Every P) (hf : ∀ s, P s → Q (f s)) :
    (g.mapSamples f).Every Q := by
  rw [every_iff] at h ⊢
  intro samples hsamples s hs
  change samples ∈ (g.routes.mapValues (List.map f)).values at hsamples
  rw [HashMap.values_mapValues] at hsamples
  obtain ⟨before, hbefore, rfl⟩ := List.mem_map.mp hsamples
  obtain ⟨b, hb, rfl⟩ := List.mem_map.mp hs
  exact hf b (h before hbefore b hb)

/-- A sound store can be stored, since its samples can and its time of
completion is a time of the clock. -/
theorem Sound.storable {g : PersistedTrainStore (Sample F)} (h : g.Sound) : g.Storable where
  completedAtUnixMs := h.completedAtUnixMs
  samples key samples hlookup s hs := (h.samples key samples hlookup s hs).storable

/-- The store of a new session has no samples and no time of completion, so
nothing can keep it from being stored. -/
theorem sound_fresh (hostSession : String) :
    (TrainHost.fresh hostSession : PersistedTrainStore (Sample F)).Sound where
  completedAtUnixMs n hn := by cases hn
  samples key samples hlookup := by cases hlookup

/-- Marking a store as complete keeps it sound if the clock shows a time that
fits into `i64`. -/
theorem Sound.markComplete {g : PersistedTrainStore (Sample F)} (h : g.Sound) {now : Int}
    (hnow : FitsI64 now) : (TrainHost.markComplete now g).Sound where
  completedAtUnixMs n hn := by
    change g.completedAtUnixMs.or (some now) = some n at hn
    cases htime : g.completedAtUnixMs with
    | none =>
        rw [htime] at hn
        cases hn
        exact hnow
    | some time =>
        rw [htime] at hn
        cases hn
        exact h.completedAtUnixMs n htime
  samples := h.samples

/-- Recording a sound sample at such a time keeps the store sound.  This is the
step behind the invariant of a run. -/
theorem Sound.record {g : PersistedTrainStore (Sample F)} (h : g.Sound) {opts : TrainOptions}
    {call : RecordCall (Sample F)} (hsample : call.sample.Sound) (hnow : FitsI64 call.now) :
    (g.record opts call).Sound where
  completedAtUnixMs n hn := by
    unfold PersistedTrainStore.record at hn
    dsimp only at hn
    split at hn
    · cases hn
      exact hnow
    · exact h.completedAtUnixMs n hn
  samples := h.samples.record hsample

variable [JsonDoubles F]

/-- The store that is loaded from the file is sound, as each of its samples was
sound before it was written. -/
theorem Sound.reread {g : PersistedTrainStore (Sample F)} (h : g.Sound)
    (hfinite : ∀ d : F, isFinite d = true → isFinite (JsonDoubles.reread d) = true) :
    (g.mapSamples Sample.reread).Sound where
  completedAtUnixMs := h.completedAtUnixMs
  samples := h.samples.mapSamples fun _ hs => hs.reread hfinite

end PersistedTrainStore

end Sound

namespace PersistedTrainStore

variable {S S' : Type}

/-- The condition counts samples and never looks into them, so it is the same
after any change of the samples. -/
theorem checkTrainingDone_mapSamples (opts : TrainOptions) (f : S → S')
    (g : PersistedTrainStore S) :
    checkTrainingDone opts (g.mapSamples f) = checkTrainingDone opts g := by
  have hvalues : (g.mapSamples f).routes.values = g.routes.values.map (List.map f) :=
    HashMap.values_mapValues _ _
  unfold checkTrainingDone
  rw [hvalues, List.map_map, List.countP_map]
  have hlength : (List.length ∘ List.map f : List S → Nat) = List.length :=
    funext fun v => List.length_map f
  have hready : ((fun v : List S' => decide (opts.minSamples ≤ v.length)) ∘ List.map f) =
      fun v : List S => decide (opts.minSamples ≤ v.length) :=
    funext fun v => congrArg (fun n => decide (opts.minSamples ≤ n)) (List.length_map f)
  rw [hlength, hready]

/-- A call with its sample changed. -/
def mapCall (f : S → S') (call : RecordCall S) : RecordCall S' :=
  ⟨call.key, f call.sample, call.now⟩

/-- Pushing a sample and changing all samples can be done in either order, if
the new one is changed as well. -/
theorem mapValues_push (f : S → S') (routes : HashMap String (List S)) (call : RecordCall S) :
    (push routes call).mapValues (List.map f) =
      push (routes.mapValues (List.map f)) (mapCall f call) := by
  change (routes.put call.key ((routes.lookup call.key).getD [] ++ [call.sample])).mapValues
      (List.map f) = HashMap.put (routes.mapValues (List.map f)) call.key
        (((routes.mapValues (List.map f)).lookup call.key).getD [] ++ [f call.sample])
  rw [HashMap.mapValues_put, HashMap.lookup_mapValues, List.map_append]
  cases routes.lookup call.key with
  | none => rfl
  | some samples => rfl

/-- A call of `record` commutes with a change of the samples, since it stores
the sample without reading it. -/
theorem mapSamples_record (opts : TrainOptions) (f : S → S') (g : PersistedTrainStore S)
    (call : RecordCall S) :
    (g.record opts call).mapSamples f = (g.mapSamples f).record opts (mapCall f call) := by
  have hpushed : ({ g with routes := push g.routes call } : PersistedTrainStore S).mapSamples f =
      { g.mapSamples f with routes := push (g.mapSamples f).routes (mapCall f call) } := by
    unfold mapSamples
    rw [mapValues_push]
  have hdone := checkTrainingDone_mapSamples opts f { g with routes := push g.routes call }
  rw [hpushed] at hdone
  unfold PersistedTrainStore.record
  dsimp only
  rw [hdone]
  change mapSamples f (if (!g.trainingComplete && _) = true then _ else _) =
    if (!g.trainingComplete && _) = true then _ else _
  split
  · unfold mapSamples
    rw [mapValues_push]
    rfl
  · exact hpushed

/-- Two changes of the samples, one after the other, are their composite.
Stores that were written and read many times need it. -/
theorem mapSamples_mapSamples {S'' : Type} (f : S → S') (f' : S' → S'')
    (g : PersistedTrainStore S) :
    (g.mapSamples f).mapSamples f' = g.mapSamples (f' ∘ f) := by
  unfold mapSamples
  rw [HashMap.mapValues_mapValues, List.map_comp_map]

end PersistedTrainStore

/-- An ideal file with the samples changed. -/
def StoreFile.mapSamples {S S' : Type} (f : S → S') : StoreFile S → StoreFile S'
  | .missing => .missing
  | .corrupt => .corrupt
  | .stored g => .stored (g.mapSamples f)

/-- An event with its samples changed. -/
def TrainHost.Event.mapSamples {S S' : Type} (f : S → S') :
    TrainHost.Event S → TrainHost.Event S'
  | .start now endReset endDone => .start now endReset endDone
  | .record call endSave => .record (PersistedTrainStore.mapCall f call) endSave
  | .crash => .crash

namespace StoreHost

variable [FloatOps F] [JsonDoubles F]

theorem contents_written {g : PersistedTrainStore (Sample F)} (h : g.Storable) :
    (written g).contents = .stored (g.mapSamples Sample.reread) := by
  have hread := (PersistedTrainStore.read_write g _).mpr ⟨h, rfl⟩
  unfold written StoreText.contents
  dsimp only
  rw [hread]

/-- What an ideal host has that forgets its samples. -/
def forget (m : StoreHost F) : TrainHost Unit :=
  ⟨m.file.contents.mapSamples fun _ => (), m.memory.map fun g => g.mapSamples fun _ => ()⟩

/-- The file that was written holds, but for the samples, the store that was
written: counts, flag, time and session survive the JSON. -/
theorem forget_written {g : PersistedTrainStore (Sample F)} (h : g.Storable) :
    (written g).contents.mapSamples (fun _ => ()) = .stored (g.mapSamples fun _ => ()) := by
  rw [contents_written h, StoreFile.mapSamples, PersistedTrainStore.mapSamples_mapSamples]

/-- A save of the JSON is a save of the ideal file, in each of the ways in
which it may end, once the samples are forgotten. -/
theorem forget_save {g : PersistedTrainStore (Sample F)} (h : g.Storable) (file : StoreText F)
    (e : SaveEnd) :
    forget (save written file g e) =
      save .stored (file.contents.mapSamples fun _ => ()) (g.mapSamples fun _ => ()) e := by
  have hwritten := forget_written h
  cases e with
  | done =>
      unfold forget
      rw [save, save, hwritten]
      rfl
  | failed => rfl
  | crashed replaced =>
      cases replaced with
      | true =>
          unfold forget
          rw [save, save, hwritten]
          rfl
      | false => rfl

omit [FloatOps F] [JsonDoubles F] in
/-- Loading commutes with a change of the samples, for files that are missing
or corrupt too, as both give the default. -/
theorem loadFromDisk_mapSamples {S S' : Type} (f : S → S') (file : StoreFile S) :
    loadFromDisk (file.mapSamples f) = (loadFromDisk file).mapSamples f := by
  cases file with
  | missing => rfl
  | corrupt => rfl
  | stored g => rfl

/-- The stores in memory and on file are sound. -/
structure SoundStores (m : StoreHost F) : Prop where
  memory : ∀ g ∈ m.memory, g.Sound
  file : ∀ g, m.file.contents = .stored g → g.Sound

/-- What an event brings is what was decoded, at a time that fits. -/
def SoundEvent : TrainHost.Event (Sample F) → Prop
  | .start now _ _ => FitsI64 now
  | .record call _ => call.sample.Sound ∧ FitsI64 call.now
  | .crash => True

section Steps

variable {opts : TrainOptions} {hostSession : String} {m m' : StoreHost F}
  (hfinite : ∀ d : F, isFinite d = true → isFinite (JsonDoubles.reread d) = true)

include hfinite

/-- After a save the file holds a sound store: the new one or, where the save
failed, the old one. -/
theorem soundStores_save {file : StoreText F} {g : PersistedTrainStore (Sample F)}
    (hfile : ∀ g, file.contents = .stored g → g.Sound) (hg : g.Sound) (e : SaveEnd) :
    SoundStores (save written file g e) := by
  obtain ⟨hreplaced, hkept⟩ := save_cases written file g e
  constructor
  · intro s hs
    rw [hkept s hs]
    exact hg
  · intro s hs
    rcases hreplaced with hold | hnew
    · rw [hold] at hs
      exact hfile s hs
    · rw [hnew, contents_written hg.storable] at hs
      cases hs
      exact hg.reread hfinite

omit [FloatOps F] hfinite in
/-- What is loaded at start-up is sound: it is the store of the file, or the
empty one. -/
theorem sound_loaded [FloatOps F] {file : StoreText F}
    (hfile : ∀ g, file.contents = .stored g → g.Sound) :
    (loadFromDisk file.contents).Sound := by
  cases hcontents : file.contents with
  | missing => exact PersistedTrainStore.sound_fresh ""
  | corrupt => exact PersistedTrainStore.sound_fresh ""
  | stored g => exact hfile g hcontents

/-- Loading keeps both stores sound, the one on file and the one in memory,
whether the session is a new one or not. -/
theorem soundStores_load {file : StoreText F}
    (hfile : ∀ g, file.contents = .stored g → g.Sound) (endReset : SaveEnd) :
    SoundStores (load hostSession endReset file) := by
  unfold load
  split
  · exact soundStores_save hfinite hfile (PersistedTrainStore.sound_fresh hostSession) endReset
  · refine ⟨?_, hfile⟩
    intro g hg
    rw [← Option.some_inj.mp hg]
    exact sound_loaded hfile

/-- The check at start-up keeps both stores sound, as it adds nothing but a
flag and a time of the clock. -/
theorem soundStores_complete (h : SoundStores m) {now : Int} (hnow : FitsI64 now)
    (endDone : SaveEnd) : SoundStores (complete opts now endDone m) := by
  unfold complete
  cases hmemory : m.memory with
  | none => exact h
  | some g =>
      dsimp only
      split
      · exact soundStores_save hfinite h.file ((h.memory g hmemory).markComplete hnow) endDone
      · exact h

/-- **One event** keeps the stores sound: a sound call, a save that ends in any
way, a crash or a start. -/
theorem soundStores_step {ev : TrainHost.Event (Sample F)} (h : SoundStores m)
    (hevent : SoundEvent ev) (hstep : Step opts hostSession m ev m') : SoundStores m' := by
  cases ev with
  | start now endReset endDone =>
      obtain rfl := hstep
      exact soundStores_complete hfinite (soundStores_load hfinite h.file endReset) hevent endDone
  | record call endSave =>
      obtain ⟨g, hg, rfl⟩ := hstep
      exact soundStores_save hfinite h.file ((h.memory g hg).record hevent.1 hevent.2) endSave
  | crash =>
      obtain rfl := hstep
      exact ⟨fun g hg => (by cases hg), h.file⟩

end Steps

section Forgetting

variable {opts : TrainOptions} {hostSession : String} {m m' : StoreHost F}

/-- Loading over the text of the file is loading over the ideal file, once the
samples are forgotten. -/
theorem forget_load (file : StoreText F) (endReset : SaveEnd) :
    forget (load hostSession endReset file) =
      TrainHost.load hostSession endReset (file.contents.mapSamples fun _ => ()) := by
  unfold load TrainHost.load
  rw [loadFromDisk_mapSamples]
  by_cases hreset : shouldResetStoreForHostSession (loadFromDisk file.contents).hostSessionId
      hostSession = true
  · rw [if_pos hreset]
    have hreset' : shouldResetStoreForHostSession ((loadFromDisk file.contents).mapSamples
        fun _ => ()).hostSessionId hostSession = true := hreset
    rw [if_pos hreset', forget_save (PersistedTrainStore.sound_fresh hostSession).storable]
    rfl
  · rw [if_neg hreset]
    have hreset' : ¬ shouldResetStoreForHostSession ((loadFromDisk file.contents).mapSamples
        fun _ => ()).hostSessionId hostSession = true := hreset
    rw [if_neg hreset']
    rfl

/-- The check at start-up decides by the counts, so it takes the same branch
over both kinds of file. -/
theorem forget_complete (h : ∀ g ∈ m.memory, g.Sound) {now : Int} (hnow : FitsI64 now)
    (endDone : SaveEnd) :
    forget (complete opts now endDone m) = TrainHost.complete opts now endDone (forget m) := by
  unfold complete TrainHost.complete
  cases hmemory : m.memory with
  | none =>
      have hforgotten : (forget m).memory = none := by
        unfold forget
        rw [hmemory]
        rfl
      rw [hforgotten]
  | some g =>
      have hforgotten : (forget m).memory = some (g.mapSamples fun _ => ()) := by
        unfold forget
        rw [hmemory]
        rfl
      rw [hforgotten]
      dsimp only
      rw [PersistedTrainStore.checkTrainingDone_mapSamples]
      change forget (if (!g.trainingComplete && _) = true then _ else _) =
        if (!g.trainingComplete && _) = true then _ else _
      split
      · rw [forget_save ((h g hmemory).markComplete hnow).storable]
        rfl
      · rfl

/-- **One event** is one of the ideal host, once the samples are forgotten: the
decisions of the host are made by counts, flags and sessions. -/
theorem forget_step {ev : TrainHost.Event (Sample F)}
    (hfinite : ∀ d : F, isFinite d = true → isFinite (JsonDoubles.reread d) = true)
    (h : SoundStores m) (hevent : SoundEvent ev) (hstep : Step opts hostSession m ev m') :
    TrainHost.Step opts hostSession (forget m) (ev.mapSamples fun _ => ()) (forget m') := by
  cases ev with
  | start now endReset endDone =>
      obtain rfl := hstep
      have hloaded : SoundStores (load hostSession endReset m.file) :=
        soundStores_load hfinite h.file endReset
      unfold fromEnv
      rw [forget_complete hloaded.memory hevent, forget_load]
      rfl
  | record call endSave =>
      obtain ⟨g, hg, rfl⟩ := hstep
      refine ⟨g.mapSamples fun _ => (), ?_, ?_⟩
      · rw [forget, Option.mem_def.mp hg]
        rfl
      · rw [forget_save ((h.memory g hg).record hevent.1 hevent.2).storable,
          PersistedTrainStore.mapSamples_record]
        rfl
  | crash =>
      obtain rfl := hstep
      rfl

end Forgetting

end StoreHost

/-- A sample, read again some number of times. -/
def Sample.RereadOf [FloatOps F] [JsonDoubles F] (s back : Sample F) : Prop :=
  ∃ n : Nat, back = Sample.reread^[n] s

namespace StoreHost

section Samples

variable [FloatOps F] [JsonDoubles F] {opts : TrainOptions} {hostSession : String}

/-- A sound state of the session with the samples of these calls, read again. -/
structure InMemory (hostSession : String) (g : PersistedTrainStore (Sample F))
    (log : List (RecordCall (Sample F))) : Prop where
  session : g.hostSessionId = some hostSession
  sound : g.Sound
  routes : HashMap.Related (List.Forall₂ Sample.RereadOf) (PersistedTrainStore.routesOf log)
    g.routes

/-- A start would go on with such a state. -/
def OnFile (hostSession : String) (file : StoreText F) (log : List (RecordCall (Sample F))) :
    Prop :=
  InMemory hostSession (TrainHost.cleared hostSession file.contents) log

/-- The host holds what was saved, and nothing that was not recorded. -/
def Holds (hostSession : String) (saved made : List (RecordCall (Sample F)))
    (m : StoreHost F) : Prop :=
  Snapshots.Sound (OnFile hostSession) (InMemory hostSession) saved made m

/-- Samples that stand for the recorded ones still do so after one more round
through the file. -/
theorem rereadOf_reread {samples back : List (Sample F)}
    (h : List.Forall₂ Sample.RereadOf samples back) :
    List.Forall₂ Sample.RereadOf samples (back.map Sample.reread) := by
  rw [List.forall₂_map_right_iff]
  refine h.imp ?_
  rintro s b ⟨n, rfl⟩
  exact ⟨n + 1, (Function.iterate_succ_apply' _ n s).symm⟩

/-- **Saving and loading** reads every sample once more, and leaves the session
and the order of the samples as they are. -/
theorem InMemory.reread {g : PersistedTrainStore (Sample F)} {log : List (RecordCall (Sample F))}
    (h : InMemory hostSession g log)
    (hfinite : ∀ d : F, isFinite d = true → isFinite (JsonDoubles.reread d) = true) :
    InMemory hostSession (g.mapSamples Sample.reread) log where
  session := h.session
  sound := h.sound.reread hfinite
  routes := by
    intro key
    change Option.Rel _ _ ((g.routes.mapValues (List.map Sample.reread)).lookup key)
    rw [HashMap.lookup_mapValues]
    rcases h.routes.lookup_cases key with
      ⟨hbefore, hafter⟩ | ⟨samples, back, hbefore, hafter, hread⟩
    · rw [hbefore, hafter]
      exact .none
    · rw [hbefore, hafter]
      exact .some (rereadOf_reread hread)

/-- A call adds its sample to the log and to memory, where it stands as it was
made until it is read from the file. -/
theorem InMemory.record {g : PersistedTrainStore (Sample F)} {log : List (RecordCall (Sample F))}
    (h : InMemory hostSession g log) {call : RecordCall (Sample F)} (hsample : call.sample.Sound)
    (hnow : FitsI64 call.now) : InMemory hostSession (g.record opts call) (log ++ [call]) where
  session := by rw [PersistedTrainStore.record_hostSessionId, h.session]
  sound := h.sound.record hsample hnow
  routes := by
    have hsame : Sample.RereadOf call.sample call.sample := ⟨0, rfl⟩
    have hpushed : PersistedTrainStore.routesOf (log ++ [call]) =
        PersistedTrainStore.push (PersistedTrainStore.routesOf log) call := by
      rw [PersistedTrainStore.routesOf, List.foldl_append]
      rfl
    rw [PersistedTrainStore.record_routes, hpushed]
    apply HashMap.Related.put h.routes
    rcases h.routes.lookup_cases call.key with
      ⟨hbefore, hafter⟩ | ⟨samples, back, hbefore, hafter, hread⟩
    · rw [hbefore, hafter]
      exact .cons hsame .nil
    · rw [hbefore, hafter]
      exact List.rel_append hread (.cons hsame .nil)

variable (hsession : hostSession ≠ "")
  (hfinite : ∀ d : F, isFinite d = true → isFinite (JsonDoubles.reread d) = true)

include hsession hfinite

/-- After a save the file holds the log of the memory, with each sample reread
once more. -/
theorem onFile_of_inMemory (g : PersistedTrainStore (Sample F))
    (log : List (RecordCall (Sample F))) (h : InMemory hostSession g log) :
    OnFile hostSession (written g) log := by
  unfold OnFile
  have hreread := h.reread hfinite
  rw [contents_written h.sound.storable, TrainHost.cleared_of_session hsession hreread.session]
  exact hreread

/-- Loading keeps the log that file and memory account for, as over the ideal
file; only the samples have been reread. -/
theorem holds_load {saved made : List (RecordCall (Sample F))} {m : StoreHost F}
    (h : Holds hostSession saved made m) (endReset : SaveEnd) :
    Holds hostSession saved made (load hostSession endReset m.file) := by
  have hcleared : Covers (InMemory hostSession) saved made
      (TrainHost.cleared hostSession m.file.contents) := h.file
  unfold TrainHost.cleared at hcleared
  unfold load
  by_cases hreset : shouldResetStoreForHostSession (loadFromDisk m.file.contents).hostSessionId
      hostSession = true
  · rw [if_pos hreset] at hcleared ⊢
    exact Snapshots.Sound.save (onFile_of_inMemory hsession hfinite) h.file hcleared endReset
  · rw [if_neg hreset] at hcleared ⊢
    refine ⟨h.file, ?_⟩
    intro g hg
    rw [← Option.some_inj.mp hg]
    exact hcleared

/-- The check at start-up leaves the routes alone, so the log stays, whether
its save succeeds or not. -/
theorem holds_complete {saved made : List (RecordCall (Sample F))} {m : StoreHost F}
    (h : Holds hostSession saved made m) {now : Int} (hnow : FitsI64 now) (endDone : SaveEnd) :
    Holds hostSession saved made (complete opts now endDone m) := by
  unfold complete
  cases hmemory : m.memory with
  | none => exact h
  | some g =>
      dsimp only
      split
      · have hstate : Covers (InMemory hostSession) saved made (TrainHost.markComplete now g) :=
          (h.memory g hmemory).imp fun _ hlog =>
            ⟨hlog.session, hlog.sound.markComplete hnow, hlog.routes⟩
        exact Snapshots.Sound.save (onFile_of_inMemory hsession hfinite) h.file hstate endDone
      · exact h

/-- **One event** keeps what was saved.  The cases are those of the ideal file,
with a reread of the samples at each start. -/
theorem holds_step {saved made : List (RecordCall (Sample F))} {m m' : StoreHost F}
    {ev : TrainHost.Event (Sample F)} (h : Holds hostSession saved made m)
    (hevent : SoundEvent ev) (hstep : Step opts hostSession m ev m') :
    Holds hostSession (saved ++ ev.saved) (made ++ ev.made) m' := by
  cases ev with
  | start now endReset endDone =>
      obtain rfl := hstep
      rw [TrainHost.Event.saved, TrainHost.Event.made, List.append_nil, List.append_nil]
      exact holds_complete hsession hfinite (holds_load hsession hfinite h endReset) hevent endDone
  | record call endSave =>
      obtain ⟨g, hg, rfl⟩ := hstep
      exact Snapshots.Sound.update (onFile_of_inMemory hsession hfinite) h hg
        (fun log hlog => hlog.record hevent.1 hevent.2) endSave
  | crash =>
      obtain rfl := hstep
      rw [TrainHost.Event.saved, TrainHost.Event.made, List.append_nil, List.append_nil]
      exact h.crash

/-- **A run** from a file of another session holds the calls of this session
only, by induction on its events. -/
theorem holds_of_run {m₀ m : StoreHost F}
    {es : List (Transition (StoreHost F) (TrainHost.Event (Sample F)))}
    (hfresh : (loadFromDisk m₀.file.contents).hostSessionId ≠ some hostSession)
    (hdown : m₀.memory = none) (hevents : ∀ e ∈ es, SoundEvent e.label)
    (run : Trace (Step opts hostSession) m₀ es m) : Holds hostSession (saved es) (made es) m := by
  induction run with
  | nil =>
      have hcleared : TrainHost.cleared hostSession m₀.file.contents =
          TrainHost.fresh hostSession := by
        unfold TrainHost.cleared
        rw [TrainHost.shouldReset_eq hsession, if_pos (by simpa using hfresh)]
      constructor
      · refine ⟨[], List.Sublist.refl _, List.Sublist.refl _, ?_⟩
        unfold OnFile
        refine ⟨TrainHost.cleared_hostSessionId hsession _, ?_, ?_⟩
        · rw [hcleared]
          exact PersistedTrainStore.sound_fresh hostSession
        · rw [hcleared]
          exact fun key => .none
      · intro g hg
        rw [hdown] at hg
        cases hg
  | @snoc t u ev es init last ih =>
      have hbefore := ih fun e he => hevents e (List.mem_append_left _ he)
      have hstep := holds_step hsession hfinite hbefore
        (hevents ⟨t, ev, u⟩ (List.mem_append_right _ List.mem_cons_self)) last
      simpa [saved, made] using hstep

end Samples

section Files

variable [FloatOps F] [JsonDoubles F] {opts : TrainOptions} {hostSession : String}

/-- What is in the place of a file is the file or a sound store that was written. -/
def Replaced (file file' : StoreText F) : Prop :=
  file' = file ∨ ∃ g : PersistedTrainStore (Sample F), g.Sound ∧ file' = written g

omit [JsonDoubles F] in
/-- A save that succeeds replaces the file by a written store, and one that
fails leaves it as it is. -/
theorem replaced_save (file : StoreText F) {g : PersistedTrainStore (Sample F)} (hg : g.Sound)
    (e : SaveEnd) : Replaced file (save written file g e).file :=
  (save_cases written file g e).1.imp_right fun hnew => ⟨g, hg, hnew⟩

omit [JsonDoubles F] in
/-- Two replacements in a row are one, because the later file hides the earlier
one. -/
theorem Replaced.trans {file file' file'' : StoreText F} (h : Replaced file file')
    (h' : Replaced file' file'') : Replaced file file'' := by
  rcases h' with rfl | hnew
  · exact h
  · exact Or.inr hnew

/-- Loading writes a file only when the session is a new one, and then a fresh
store. -/
theorem replaced_load (file : StoreText F) (endReset : SaveEnd) :
    Replaced file (load hostSession endReset file).file := by
  unfold load
  split
  · exact replaced_save file (PersistedTrainStore.sound_fresh hostSession) endReset
  · exact Or.inl rfl

omit [JsonDoubles F] in
/-- The check at start-up writes the completed store or leaves the file alone. -/
theorem replaced_complete {m : StoreHost F} (h : ∀ g ∈ m.memory, g.Sound) {now : Int}
    (hnow : FitsI64 now) (endDone : SaveEnd) :
    Replaced m.file (complete opts now endDone m).file := by
  unfold complete
  cases hmemory : m.memory with
  | none => exact Or.inl rfl
  | some g =>
      dsimp only
      split
      · exact replaced_save m.file ((h g hmemory).markComplete hnow) endDone
      · exact Or.inl rfl

/-- One event leaves the file as it is or replaces it by a written store that
can be read again. -/
theorem replaced_step {m m' : StoreHost F} {ev : TrainHost.Event (Sample F)}
    (hfinite : ∀ d : F, isFinite d = true → isFinite (JsonDoubles.reread d) = true)
    (h : SoundStores m) (hevent : SoundEvent ev) (hstep : Step opts hostSession m ev m') :
    Replaced m.file m'.file := by
  cases ev with
  | start now endReset endDone =>
      obtain rfl := hstep
      have hloaded : SoundStores (load hostSession endReset m.file) :=
        soundStores_load hfinite h.file endReset
      exact (replaced_load m.file endReset).trans
        (replaced_complete hloaded.memory hevent endDone)
  | record call endSave =>
      obtain ⟨g, hg, rfl⟩ := hstep
      exact replaced_save m.file ((h.memory g hg).record hevent.1 hevent.2) endSave
  | crash =>
      obtain rfl := hstep
      exact Or.inl rfl

end Files

section Runs

variable [FloatOps F] [JsonDoubles F]

/-- **The file may be JSON.**  But for the samples themselves, a run is one of the
host with an ideal file; and what it writes can be read. -/
theorem restarts_refine (opts : TrainOptions) (hostSession : String)
    (hfinite : ∀ d : F, isFinite d = true → isFinite (JsonDoubles.reread d) = true)
    {m₀ m : StoreHost F} {es : List (Transition (StoreHost F) (TrainHost.Event (Sample F)))}
    (hstart : SoundStores m₀) (hevents : ∀ e ∈ es, SoundEvent e.label)
    (run : Trace (Step opts hostSession) m₀ es m) :
    Trace (TrainHost.Step opts hostSession) (forget m₀)
        (Trace.project forget (fun e => some (e.label.mapSamples fun _ => ())) es) (forget m) ∧
      ∀ e ∈ es, e.after.file = e.before.file ∨
        ∃ g : PersistedTrainStore (Sample F), e.after.file = written g ∧
          e.after.file.contents = .stored (g.mapSamples Sample.reread) := by
  have hsound : ∀ e ∈ es, SoundStores e.before := by
    intro e he
    refine run.invariant_before_of_all ?_ hstart hevents he
    intro e' hstep hbefore hevent
    exact soundStores_step hfinite hbefore hevent hstep
  constructor
  · refine run.simulate forget _ (fun e he hview => nomatch hview) ?_
    intro e he label hlabel
    obtain rfl := Option.some.inj hlabel
    exact forget_step hfinite (hsound e he) (hevents e he) (run.step_of_mem he)
  · intro e he
    have hreplaced := replaced_step hfinite (hsound e he) (hevents e he) (run.step_of_mem he)
    rcases hreplaced with hold | ⟨g, hg, hnew⟩
    · exact Or.inl hold
    · refine Or.inr ⟨g, hnew, ?_⟩
      rw [hnew, contents_written hg.storable]

end Runs

section Restarted

/-- Rational numbers, read as they are. -/
@[reducible]
def exactDoubles : JsonDoubles ℚ where
  ofInteger n := n
  reread q := q

attribute [local instance] exactDoubles

/-- A page of twelve bytes, served in four milliseconds. -/
def servedSample : Sample ℚ where
  durationMs := 4
  statusCode := 200
  unixMs := 1700000000000
  query := some "a=1"
  requestLength := some 0
  responseLength := some 12
  responseTtfbMs := none
  requestEntropyBits := none
  requestOnesRatio := none
  requestByteHistogram16 := none
  responseEntropyBits := some 3
  responseOnesRatio := none
  responseByteHistogram16 := some [1]

/-- The sample of the run below is sound: all its numbers are finite and its
times are small. -/
theorem servedSample_sound : servedSample.Sound where
  unixMs := by decide
  numbers _ _ := rfl

def servedCall : RecordCall (Sample ℚ) :=
  ⟨"GET|/", servedSample, 1⟩

/-- A first start that fails to save, a sample, a crash, and another start. -/
def restartRun : List (Transition (StoreHost ℚ) (TrainHost.Event (Sample ℚ))) :=
  let started := fromEnv TrainHost.twoSamples "session" 0 .failed .done .missing
  let recorded : StoreHost ℚ := save written .missing
    ((TrainHost.fresh "session").record TrainHost.twoSamples servedCall) .done
  [⟨⟨.missing, none⟩, .start 0 .failed .done, started⟩,
    ⟨started, .record servedCall .done, recorded⟩,
    ⟨recorded, .crash, ⟨recorded.file, none⟩⟩,
    ⟨⟨recorded.file, none⟩, .start 2 .done .done,
      fromEnv TrainHost.twoSamples "session" 2 .done .done recorded.file⟩]

/-- The run below is one: a start without a file, a call whose save succeeds, a
crash, and a second start. -/
theorem restartRun_trace :
    ∃ m : StoreHost ℚ,
      Trace (Step TrainHost.twoSamples "session") ⟨.missing, none⟩ restartRun m :=
  ⟨_, ((((Trace.nil.snoc rfl).snoc ⟨TrainHost.fresh "session", rfl, rfl⟩).snoc rfl).snoc rfl)⟩

/-- Every event of the run is sound, so the results above apply to it. -/
theorem restartRun_sound : ∀ e ∈ restartRun, SoundEvent e.label := by
  unfold restartRun
  simp only [List.forall_mem_cons, List.not_mem_nil, false_implies, implies_true, and_true]
  exact ⟨(by decide : FitsI64 0), ⟨servedSample_sound, (by decide : FitsI64 1)⟩, trivial,
    (by decide : FitsI64 2)⟩

/-- The run goes through for the ideal file too, and the file that it leaves
can be read. -/
theorem restartRun_refines :
    ∃ m : StoreHost ℚ, Trace (TrainHost.Step TrainHost.twoSamples "session") ⟨.missing, none⟩
        (Trace.project forget (fun e => some (e.label.mapSamples fun _ => ())) restartRun)
        (forget m) ∧
      ∀ e ∈ restartRun, e.after.file = e.before.file ∨
        ∃ g : PersistedTrainStore (Sample ℚ), e.after.file = written g ∧
          e.after.file.contents = .stored (g.mapSamples Sample.reread) := by
  obtain ⟨m, run⟩ := restartRun_trace
  have hstart : SoundStores (⟨.missing, none⟩ : StoreHost ℚ) :=
    ⟨fun g hg => (by cases hg), fun g hg => (by cases hg)⟩
  exact ⟨m, restarts_refine TrainHost.twoSamples "session" (fun _ _ => rfl) hstart
    restartRun_sound run⟩

end Restarted

end StoreHost

end Zona
