import Zona.LabelledRuns
import Zona.Snapshots
import Zona.TrainStores

/-!
# The train store across restarts

A store with a data directory saves itself after each recorded sample, to a
temporary file that is then renamed.  Errors of a save are only logged.  At
start-up the file is loaded, and cleared when it belongs to another session of
the host; training is completed if there are enough samples already.

`store_survives` is about one session, from the start that finds the file of
another one or none: whatever saves fail and wherever the process crashes, the
routes in force after a start are those of some of the calls made, in their
order, and of all that were saved; and once the file says that training is
complete, it stays so, at the same time.
-/

namespace Zona

open Snapshots

variable {Sample : Type}

/-- What `train_store.json` contains. -/
inductive StoreFile (Sample : Type)
  | missing
  | corrupt
  | stored (state : PersistedTrainStore Sample)

/-- `load_from_disk`. -/
def loadFromDisk : StoreFile Sample → PersistedTrainStore Sample
  | .missing => .default
  | .corrupt => .default
  | .stored state => state

/-- A reset is due only if the host has passed a session and it is not the one
saved. -/
def shouldResetStoreForHostSession (persistedId : Option String) (envSession : String) : Bool :=
  if envSession.isEmpty then false else decide (persistedId ≠ some envSession)

/-- The store of a host, running or not. -/
abbrev TrainHost (Sample : Type) := Process (StoreFile Sample) (PersistedTrainStore Sample)

namespace TrainHost

/-- The empty store of a session. -/
def fresh (hostSession : String) : PersistedTrainStore Sample :=
  { PersistedTrainStore.default with
    hostSessionId := if hostSession.isEmpty then none else some hostSession }

/-- The first half of `from_env`: load the file, and clear the store of another
session. -/
def load (hostSession : String) (endReset : SaveEnd) (file : StoreFile Sample) :
    TrainHost Sample :=
  if shouldResetStoreForHostSession (loadFromDisk file).hostSessionId hostSession then
    save .stored file (fresh hostSession) endReset
  else ⟨file, some (loadFromDisk file)⟩

/-- Training is complete, since now unless there is a time already. -/
def markComplete (now : Int) (persisted : PersistedTrainStore Sample) :
    PersistedTrainStore Sample :=
  { persisted with
    trainingComplete := true
    completedAtUnixMs := persisted.completedAtUnixMs.or (some now) }

/-- The second half: complete the training if there are enough samples. -/
def complete (opts : TrainOptions) (now : Int) (endDone : SaveEnd) (m : TrainHost Sample) :
    TrainHost Sample :=
  match m.memory with
  | none => m
  | some persisted =>
      if !persisted.trainingComplete && persisted.checkTrainingDone opts then
        save .stored m.file (markComplete now persisted) endDone
      else m

/-- `from_env`, unless the process crashes in one of its saves. -/
def fromEnv (opts : TrainOptions) (hostSession : String) (now : Int) (endReset endDone : SaveEnd)
    (file : StoreFile Sample) : TrainHost Sample :=
  complete opts now endDone (load hostSession endReset file)

/-- What happens to a host: a start, a call of `record`, each with the ends of
its saves, and a crash at any other time. -/
inductive Event (Sample : Type)
  | start (now : Int) (endReset endDone : SaveEnd)
  | record (call : RecordCall Sample) (endSave : SaveEnd)
  | crash

/-- One event; only a running process records. -/
def Step (opts : TrainOptions) (hostSession : String) (m : TrainHost Sample) :
    Event Sample → TrainHost Sample → Prop
  | .start now endReset endDone, m' => m' = fromEnv opts hostSession now endReset endDone m.file
  | .record call endSave, m' =>
      ∃ g ∈ m.memory, m' = save .stored m.file (g.record opts call) endSave
  | .crash, m' => m' = ⟨m.file, none⟩

/-- The calls of `record` that an event makes. -/
def Event.made : Event Sample → List (RecordCall Sample)
  | .start _ _ _ => []
  | .record call _ => [call]
  | .crash => []

/-- The calls of `record` that an event saves. -/
def Event.saved : Event Sample → List (RecordCall Sample)
  | .start _ _ _ => []
  | .record call endSave => if endSave = .done then [call] else []
  | .crash => []

/-- The calls made in a run. -/
def made (es : List (Transition (TrainHost Sample) (Event Sample))) : List (RecordCall Sample) :=
  es.flatMap fun e => e.label.made

/-- The calls whose save succeeded. -/
def saved (es : List (Transition (TrainHost Sample) (Event Sample))) : List (RecordCall Sample) :=
  es.flatMap fun e => e.label.saved

section Session

variable {opts : TrainOptions} {hostSession : String}

/-- What a start makes of the file before it looks whether training is done. -/
def cleared (hostSession : String) (file : StoreFile Sample) : PersistedTrainStore Sample :=
  if shouldResetStoreForHostSession (loadFromDisk file).hostSessionId hostSession then
    fresh hostSession
  else loadFromDisk file

/-- A start would go on with the routes of these calls. -/
def OnFile (hostSession : String) (file : StoreFile Sample) (log : List (RecordCall Sample)) :
    Prop :=
  (cleared hostSession file).routes = PersistedTrainStore.routesOf log

/-- A state of the session with the routes of these calls. -/
def InMemory (hostSession : String) (g : PersistedTrainStore Sample)
    (log : List (RecordCall Sample)) : Prop :=
  g.hostSessionId = some hostSession ∧ g.routes = PersistedTrainStore.routesOf log

/-- The host holds what was saved, and nothing that was not recorded. -/
def Holds (hostSession : String) (saved made : List (RecordCall Sample))
    (m : TrainHost Sample) : Prop :=
  Sound (OnFile hostSession) (InMemory hostSession) saved made m

/-- With a session set, the store is cleared unless the file names that very
session.  A file without a session counts as one of another session. -/
theorem shouldReset_eq (hsession : hostSession ≠ "") (persistedId : Option String) :
    shouldResetStoreForHostSession persistedId hostSession
      = decide (persistedId ≠ some hostSession) := by
  unfold shouldResetStoreForHostSession
  rw [if_neg]
  simpa [String.isEmpty_iff] using hsession

/-- What is loaded and kept, or cleared, belongs to the session. -/
theorem cleared_hostSessionId (hsession : hostSession ≠ "") (file : StoreFile Sample) :
    (cleared hostSession file).hostSessionId = some hostSession := by
  unfold cleared
  rw [shouldReset_eq hsession]
  by_cases hsame : (loadFromDisk file).hostSessionId = some hostSession
  · simp [hsame]
  · have hnonempty : ¬ hostSession.isEmpty = true := by
      simpa [String.isEmpty_iff] using hsession
    simp [hsame, fresh, hnonempty]

/-- A file of the session is loaded as it is. -/
theorem cleared_of_session (hsession : hostSession ≠ "") {g : PersistedTrainStore Sample}
    (h : g.hostSessionId = some hostSession) : cleared hostSession (.stored g) = g := by
  unfold cleared loadFromDisk
  rw [shouldReset_eq hsession]
  simp [h]

/-- What was in memory is on file after a save: loading it finds the session of
the host, and so nothing is cleared. -/
theorem onFile_of_inMemory (hsession : hostSession ≠ "") (g : PersistedTrainStore Sample)
    (log : List (RecordCall Sample)) (h : InMemory hostSession g log) :
    OnFile hostSession (.stored g) log := by
  unfold OnFile
  rw [cleared_of_session hsession h.1]
  exact h.2

/-- Loading keeps the log: the file is of this session, or it is cleared and so
is the log that it has to account for. -/
theorem holds_load (hsession : hostSession ≠ "") {saved made : List (RecordCall Sample)}
    {m : TrainHost Sample} (h : Holds hostSession saved made m) (endReset : SaveEnd) :
    Holds hostSession saved made (load hostSession endReset m.file) := by
  have hcleared : Covers (InMemory hostSession) saved made (cleared hostSession m.file) :=
    h.file.imp fun log hlog => ⟨cleared_hostSessionId hsession m.file, hlog⟩
  unfold cleared at hcleared
  unfold load
  by_cases hreset :
      shouldResetStoreForHostSession (loadFromDisk m.file).hostSessionId hostSession = true
  · rw [if_pos hreset] at hcleared ⊢
    exact Sound.save (onFile_of_inMemory hsession) h.file hcleared endReset
  · rw [if_neg hreset] at hcleared ⊢
    refine ⟨h.file, ?_⟩
    intro g hg
    rw [← Option.some_inj.mp hg]
    exact hcleared

/-- Marking the store as complete at start-up keeps its routes, whether the
save that follows succeeds or not. -/
theorem holds_complete (hsession : hostSession ≠ "") {saved made : List (RecordCall Sample)}
    {m : TrainHost Sample} (h : Holds hostSession saved made m) (now : Int) (endDone : SaveEnd) :
    Holds hostSession saved made (complete opts now endDone m) := by
  unfold complete
  cases hmemory : m.memory with
  | none => exact h
  | some g =>
      dsimp only
      split
      · have hstate : Covers (InMemory hostSession) saved made (markComplete now g) :=
          (h.memory g hmemory).imp fun _ hlog => hlog
        exact Sound.save (onFile_of_inMemory hsession) h.file hstate endDone
      · exact h

/-- **One event** keeps what was saved: the calls on file are between the ones
saved and the ones made, in their order, and so are those in memory. -/
theorem holds_step (hsession : hostSession ≠ "") {saved made : List (RecordCall Sample)}
    {m m' : TrainHost Sample} {ev : Event Sample} (h : Holds hostSession saved made m)
    (hstep : Step opts hostSession m ev m') :
    Holds hostSession (saved ++ ev.saved) (made ++ ev.made) m' := by
  cases ev with
  | start now endReset endDone =>
      obtain rfl := hstep
      rw [Event.saved, Event.made, List.append_nil, List.append_nil]
      exact holds_complete hsession (holds_load hsession h endReset) now endDone
  | record call endSave =>
      obtain ⟨g, hg, rfl⟩ := hstep
      refine Sound.update (onFile_of_inMemory hsession) h hg ?_ endSave
      rintro log ⟨hid, hroutes⟩
      refine ⟨?_, ?_⟩
      · rw [PersistedTrainStore.record_hostSessionId, hid]
      · rw [PersistedTrainStore.record_routes, hroutes, PersistedTrainStore.routesOf,
          PersistedTrainStore.routesOf, List.foldl_append]
        rfl
  | crash =>
      obtain rfl := hstep
      rw [Event.saved, Event.made, List.append_nil, List.append_nil]
      exact h.crash

/-- **A run** from a file of another session: what file and memory hold is
between the calls saved and the calls made in it. -/
theorem holds_of_run (hsession : hostSession ≠ "") {m₀ m : TrainHost Sample}
    {es : List (Transition (TrainHost Sample) (Event Sample))}
    (hfresh : (loadFromDisk m₀.file).hostSessionId ≠ some hostSession) (hdown : m₀.memory = none)
    (run : Trace (Step opts hostSession) m₀ es m) :
    Holds hostSession (saved es) (made es) m := by
  induction run with
  | nil =>
      constructor
      · refine ⟨[], List.Sublist.refl _, List.Sublist.refl _, ?_⟩
        unfold OnFile cleared
        rw [shouldReset_eq hsession, if_pos (by simpa using hfresh)]
        rfl
      · intro g hg
        rw [hdown] at hg
        cases hg
  | snoc init last ih =>
      have hstep := holds_step hsession ih last
      simpa [saved, made] using hstep

/-- A state of the session in which training was completed at a time. -/
structure Finished (hostSession : String) (time : Int) (g : PersistedTrainStore Sample) : Prop where
  session : g.hostSessionId = some hostSession
  complete : g.trainingComplete = true
  completedAt : g.completedAtUnixMs = some time

/-- The file says so, and so does the memory. -/
def Kept (hostSession : String) (time : Int) (m : TrainHost Sample) : Prop :=
  (∃ g, m.file = .stored g ∧ Finished hostSession time g) ∧
    ∀ g ∈ m.memory, Finished hostSession time g

/-- A state of the session that has a time if training is complete. -/
def Timed (hostSession : String) (g : PersistedTrainStore Sample) : Prop :=
  g.hostSessionId = some hostSession ∧
    (g.trainingComplete = true → ∃ time, Finished hostSession time g)

/-- A file of the session on which training is complete is kept. -/
structure Agreeing (hostSession : String) (m : TrainHost Sample) : Prop where
  memory : ∀ g ∈ m.memory, Timed hostSession g
  file : ∀ g, m.file = .stored g → g.hostSessionId = some hostSession →
    g.trainingComplete = true → ∃ time, Kept hostSession time m

/-- A state that is on file and in memory. -/
theorem Finished.kept {time : Int} {g : PersistedTrainStore Sample}
    (h : Finished hostSession time g) : Kept hostSession time ⟨.stored g, some g⟩ := by
  refine ⟨⟨g, rfl, h⟩, ?_⟩
  intro g' hg'
  rw [← Option.some_inj.mp hg']
  exact h

/-- A finished store keeps its time when another call is recorded, because the
condition is checked only while the flag is not set. -/
theorem Finished.record {time : Int} {g : PersistedTrainStore Sample}
    (h : Finished hostSession time g) (call : RecordCall Sample) :
    Finished hostSession time (g.record opts call) := by
  rw [PersistedTrainStore.record_of_complete h.complete]
  exact ⟨h.session, h.complete, h.completedAt⟩

/-- A store whose flag has a time keeps one: the call that sets the flag also
writes down the time. -/
theorem Timed.record {g : PersistedTrainStore Sample} (h : Timed hostSession g)
    (call : RecordCall Sample) : Timed hostSession (g.record opts call) := by
  have hid : (g.record opts call).hostSessionId = some hostSession := by
    rw [PersistedTrainStore.record_hostSessionId, h.1]
  refine ⟨hid, fun hup => ?_⟩
  cases hbefore : g.trainingComplete with
  | true =>
      obtain ⟨time, hfinished⟩ := h.2 hbefore
      exact ⟨time, hfinished.record call⟩
  | false =>
      cases hdone : (g.record opts call).checkTrainingDone opts with
      | true =>
          have hat := (PersistedTrainStore.record_of_done hbefore hdone).2
          exact ⟨call.now, hid, hup, hat⟩
      | false =>
          have hstill := (PersistedTrainStore.record_of_not_done hbefore hdone).1
          rw [hup] at hstill
          cases hstill

/-- A save of a state that knows of the completion on file. -/
theorem agreeing_save {m : TrainHost Sample} {g : PersistedTrainStore Sample}
    (h : Agreeing hostSession m) (htimed : Timed hostSession g)
    (hknows : ∀ time, Kept hostSession time m → Finished hostSession time g) (e : SaveEnd) :
    Agreeing hostSession (save .stored m.file g e) := by
  obtain ⟨hreplaced, hkept⟩ := save_cases StoreFile.stored m.file g e
  constructor
  · intro g' hg'
    rw [hkept g' hg']
    exact htimed
  · intro f hf hid hup
    rcases hreplaced with hold | hnew
    · rw [hold] at hf
      obtain ⟨time, hbefore⟩ := h.file f hf hid hup
      refine ⟨time, ?_, ?_⟩
      · rw [hold]
        exact hbefore.1
      · intro g' hg'
        rw [hkept g' hg']
        exact hknows time hbefore
    · obtain rfl : g = f := by
        rw [hnew] at hf
        exact StoreFile.stored.inj hf
      obtain ⟨time, hfinished⟩ := htimed.2 hup
      refine ⟨time, ⟨g, hnew, hfinished⟩, ?_⟩
      intro g' hg'
      rw [hkept g' hg']
      exact hfinished

/-- A file on which training is complete is loaded as it is. -/
theorem Kept.load (hsession : hostSession ≠ "") {time : Int} {m : TrainHost Sample}
    (h : Kept hostSession time m) (endReset : SaveEnd) :
    Kept hostSession time (load hostSession endReset m.file) := by
  obtain ⟨⟨g, hfile, hfinished⟩, _⟩ := h
  have hload : TrainHost.load hostSession endReset m.file = ⟨.stored g, some g⟩ := by
    unfold TrainHost.load
    rw [hfile, loadFromDisk, shouldReset_eq hsession, hfinished.session]
    simp
  rw [hload]
  exact hfinished.kept

/-- The check at start-up does nothing to a store that is complete on file, so
its time is not overwritten. -/
theorem Kept.complete {time : Int} {m : TrainHost Sample} (h : Kept hostSession time m)
    (now : Int) (endDone : SaveEnd) : TrainHost.complete opts now endDone m = m := by
  unfold TrainHost.complete
  cases hmemory : m.memory with
  | none => rfl
  | some g =>
      have hfinished := h.2 g hmemory
      dsimp only
      rw [hfinished.complete]
      rfl

/-- **What is complete on file stays so**, with the same time, whatever event
comes next: calls, failed saves, crashes and starts of the same session. -/
theorem Kept.step (hsession : hostSession ≠ "") {time : Int} {m m' : TrainHost Sample}
    {ev : Event Sample} (h : Kept hostSession time m) (hstep : Step opts hostSession m ev m') :
    Kept hostSession time m' := by
  cases ev with
  | start now endReset endDone =>
      obtain rfl := hstep
      have hload := h.load hsession endReset
      rw [fromEnv, hload.complete]
      exact hload
  | record call endSave =>
      obtain ⟨g, hg, rfl⟩ := hstep
      have hfinished : Finished hostSession time (g.record opts call) := (h.2 g hg).record call
      obtain ⟨hreplaced, hkept⟩ := save_cases StoreFile.stored m.file (g.record opts call) endSave
      constructor
      · rcases hreplaced with hold | hnew
        · rw [hold]
          exact h.1
        · exact ⟨_, hnew, hfinished⟩
      · intro g' hg'
        rw [hkept g' hg']
        exact hfinished
  | crash =>
      obtain rfl := hstep
      exact ⟨h.1, fun g hg => nomatch hg⟩

/-- Loading a file, whatever it says, gives a store whose flag and time belong
together, or a fresh one. -/
theorem agreeing_load (hsession : hostSession ≠ "") {m : TrainHost Sample}
    (h : Agreeing hostSession m) (endReset : SaveEnd) :
    Agreeing hostSession (load hostSession endReset m.file) := by
  unfold load
  rw [shouldReset_eq hsession]
  by_cases hsame : (loadFromDisk m.file).hostSessionId = some hostSession
  · rw [if_neg (by simpa using hsame)]
    cases hfile : m.file with
    | missing =>
        rw [hfile] at hsame
        cases hsame
    | corrupt =>
        rw [hfile] at hsame
        cases hsame
    | stored g =>
        rw [hfile] at hsame
        have hkept : g.trainingComplete = true →
            ∃ time, Kept hostSession time ⟨StoreFile.stored g, some g⟩ := by
          intro hup
          obtain ⟨time, ⟨g', hg', hfinished⟩, _⟩ := h.file g hfile hsame hup
          obtain rfl : g' = g := StoreFile.stored.inj (hg'.symm.trans hfile)
          exact ⟨time, hfinished.kept⟩
        constructor
        · intro g' hg'
          obtain rfl : g = g' := Option.some_inj.mp hg'
          refine ⟨hsame, fun hup => ?_⟩
          obtain ⟨time, _, hmemory⟩ := hkept hup
          exact ⟨time, hmemory g rfl⟩
        · intro g' hg' _ hup
          obtain rfl : g = g' := StoreFile.stored.inj hg'
          exact hkept hup
  · rw [if_pos (by simpa using hsame)]
    have hfresh : Timed hostSession (fresh hostSession : PersistedTrainStore Sample) := by
      refine ⟨?_, fun hup => nomatch hup⟩
      unfold fresh
      rw [if_neg (by simpa [String.isEmpty_iff] using hsession)]
    refine agreeing_save h hfresh ?_ endReset
    rintro time ⟨⟨g, hfile, hfinished⟩, _⟩
    rw [hfile] at hsame
    exact (hsame hfinished.session).elim

/-- The check at start-up sets flag and time together, so file and memory go on
agreeing. -/
theorem agreeing_complete {m : TrainHost Sample} (h : Agreeing hostSession m) (now : Int)
    (endDone : SaveEnd) : Agreeing hostSession (complete opts now endDone m) := by
  unfold complete
  cases hmemory : m.memory with
  | none => exact h
  | some g =>
      dsimp only
      split
      · rename_i hdone
        have hdown : g.trainingComplete = false := by
          cases hup : g.trainingComplete with
          | false => rfl
          | true =>
              rw [hup] at hdone
              cases hdone
        have hid := (h.memory g hmemory).1
        have htimed : Timed hostSession (markComplete now g) := by
          refine ⟨hid, fun _ => ?_⟩
          cases hat : g.completedAtUnixMs with
          | none => exact ⟨now, hid, rfl, by rw [markComplete, hat]; rfl⟩
          | some time => exact ⟨time, hid, rfl, by rw [markComplete, hat]; rfl⟩
        refine agreeing_save h htimed ?_ endDone
        · intro time hkept
          have hup := (hkept.2 g hmemory).complete
          rw [hdown] at hup
          cases hup
      · exact h

/-- One event keeps the flag on file in agreement with the time next to it,
which a run from any file then inherits. -/
theorem agreeing_step (hsession : hostSession ≠ "") {m m' : TrainHost Sample} {ev : Event Sample}
    (h : Agreeing hostSession m) (hstep : Step opts hostSession m ev m') :
    Agreeing hostSession m' := by
  cases ev with
  | start now endReset endDone =>
      obtain rfl := hstep
      exact agreeing_complete (agreeing_load hsession h endReset) now endDone
  | record call endSave =>
      obtain ⟨g, hg, rfl⟩ := hstep
      refine agreeing_save h ((h.memory g hg).record call) ?_ endSave
      exact fun time hkept => (hkept.2 g hg).record call
  | crash =>
      obtain rfl := hstep
      constructor
      · intro g hg
        cases hg
      · intro g hfile hid hup
        obtain ⟨time, hkept⟩ := h.file g hfile hid hup
        exact ⟨time, hkept.1, (fun g hg => nomatch hg)⟩

end Session

/-- What survives in the runs of one session: after a start, the routes of some
of the calls made so far and of all those saved; and a completion that is on
file, with its time. -/
structure Survives (hostSession : String)
    (es : List (Transition (TrainHost Sample) (Event Sample))) : Prop where
  routes : ∀ pre e post, es = pre ++ e :: post →
    (∃ now endReset endDone, e.label = .start now endReset endDone) →
      ∀ g ∈ e.after.memory, ∃ log, (saved pre).Sublist log ∧ log.Sublist (made pre) ∧
        g.routes = PersistedTrainStore.routesOf log
  complete : ∀ pre e post, es = pre ++ e :: post →
    ∀ g, e.after.file = .stored g → g.hostSessionId = some hostSession →
      g.trainingComplete = true →
        ∃ time, g.completedAtUnixMs = some time ∧ ∀ e' ∈ post, Kept hostSession time e'.after

/-- **The store survives** restarts, crashes and failed saves: each start goes
on with a subsequence of the calls that contains all that were saved, and
completion is kept. -/
theorem store_survives (opts : TrainOptions) (hostSession : String) (hsession : hostSession ≠ "")
    {m₀ m : TrainHost Sample} {es : List (Transition (TrainHost Sample) (Event Sample))}
    (hfresh : (loadFromDisk m₀.file).hostSessionId ≠ some hostSession) (hdown : m₀.memory = none)
    (run : Trace (Step opts hostSession) m₀ es m) : Survives hostSession es := by
  constructor
  · rintro pre e post rfl ⟨now, endReset, endDone, hlabel⟩ g hg
    obtain ⟨hinit, hlast, _⟩ := run.cut
    have hafter := holds_step hsession (holds_of_run hsession hfresh hdown hinit) hlast
    rw [hlabel, Event.saved, Event.made, List.append_nil, List.append_nil] at hafter
    obtain ⟨log, hsaved, hmade, _, hroutes⟩ := hafter.memory g hg
    exact ⟨log, hsaved, hmade, hroutes⟩
  · rintro pre e post rfl g hfile hid hup
    obtain ⟨hinit, hlast, hrest⟩ := run.cut
    have hstart : Agreeing hostSession m₀ := by
      constructor
      · intro g' hg'
        rw [hdown] at hg'
        cases hg'
      · intro g' hg' hid' _
        rw [hg'] at hfresh
        exact (hfresh hid').elim
    have hagree : Agreeing hostSession e.after :=
      (hinit.snoc hlast).invariant (fun _ _ _ hstep hbefore => agreeing_step hsession hbefore hstep)
        hstart
    obtain ⟨time, hkept⟩ := hagree.file g hfile hid hup
    obtain ⟨g', hg', hfinished⟩ := hkept.1
    obtain rfl : g' = g := StoreFile.stored.inj (hg'.symm.trans hfile)
    refine ⟨time, hfinished.completedAt, ?_⟩
    intro e' he'
    obtain ⟨before, after, rfl, hpre, hstep, _⟩ := hrest.split he'
    exact (hpre.snoc hstep).invariant (fun _ _ _ h hbefore => Kept.step hsession hbefore h) hkept

/-- Two samples are enough. -/
def twoSamples : TrainOptions :=
  ⟨.total, 1, 2, 1, by decide, by decide, by decide⟩

/-- A store that is starting for the first time, but fails to save that. -/
def firstStart : TrainHost Nat :=
  fromEnv twoSamples "session" 0 .failed .done .missing

/-- It has recorded a sample. -/
def oneRecorded : TrainHost Nat :=
  save .stored .missing ((fresh "session").record twoSamples ⟨"GET|/", 7, 1⟩) .done

/-- **A crash** after one saved sample: the next start goes on with it, and
nothing else was made or lost. -/
theorem survives_crash :
    Survives "session"
      [⟨⟨.missing, none⟩, .start 0 .failed .done, firstStart⟩,
        ⟨firstStart, .record ⟨"GET|/", 7, 1⟩ .done, oneRecorded⟩,
        ⟨oneRecorded, .crash, ⟨oneRecorded.file, none⟩⟩,
        ⟨⟨oneRecorded.file, none⟩, .start 2 .done .done,
          fromEnv twoSamples "session" 2 .done .done oneRecorded.file⟩] :=
  store_survives twoSamples "session" (by decide) (by exact (Option.some_ne_none "session").symm) rfl
    ((((Trace.nil.snoc rfl).snoc ⟨fresh "session", rfl, rfl⟩).snoc rfl).snoc rfl)

end TrainHost

end Zona
