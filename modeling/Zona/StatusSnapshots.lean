import Zona.LockedReads
import Zona.RouteCounts
import Zona.TrainRestarts

/-!
# The training status

`GET /training-status` calls one getter of the store after another, and each of
them takes the lock for itself.  Between two getters other requests may record
samples.  The sibling `GET /train-store` takes the lock once.

The total tells the states of a run apart, so the answer shows the one in which
the total was read, or none.  `status_snapshot_iff` says from the calls recorded
between the getters when it shows that one.
-/

namespace Zona

open PersistedTrainStore Reader Snapshots

/-- A store besides the state that its lock guards. -/
structure TrainStore where
  options : TrainOptions
  dataPath : Option String

structure TrainingStatusResponse where
  trainingComplete : Bool
  doneMode : String
  totalSamples : Nat
  routeCount : Nat
  minSamplesPerRoute : Nat
  minReadyRoutes : Nat
  routesMeetingMinSamples : Nat
  totalThreshold : Nat
  minRouteSampleCount : Option Nat
  completedAtUnixMs : Option Int
  dataDirectory : Option String
  deriving DecidableEq

def modeStr : TrainingDoneMode → String
  | .total => "total"
  | .allRoutes => "allRoutes"

variable {Sample : Type}

/-- The handler, with its six turns at the lock. -/
def trainingStatus (store : TrainStore) :
    Reader (PersistedTrainStore Sample) TrainingStatusResponse :=
  .lock fun flag => .lock fun total => .lock fun routes => .lock fun ready =>
    .lock fun least => .lock fun time => .done
      { trainingComplete := flag.trainingComplete
        doneMode := modeStr store.options.doneMode
        totalSamples := total.totalSampleCount
        routeCount := routes.routeCount
        minSamplesPerRoute := store.options.minSamples
        minReadyRoutes := store.options.minReadyRoutes
        routesMeetingMinSamples := ready.routesMeetingMinSamples store.options
        totalThreshold := store.options.totalThreshold
        minRouteSampleCount := least.minRouteSampleCount
        completedAtUnixMs := time.completedAtUnixMs
        dataDirectory := store.dataPath }

/-- All fields as they are in one state. -/
def statusOf (store : TrainStore) (g : PersistedTrainStore Sample) : TrainingStatusResponse where
  trainingComplete := g.trainingComplete
  doneMode := modeStr store.options.doneMode
  totalSamples := g.totalSampleCount
  routeCount := g.routeCount
  minSamplesPerRoute := store.options.minSamples
  minReadyRoutes := store.options.minReadyRoutes
  routesMeetingMinSamples := g.routesMeetingMinSamples store.options
  totalThreshold := store.options.totalThreshold
  minRouteSampleCount := g.minRouteSampleCount
  completedAtUnixMs := g.completedAtUnixMs
  dataDirectory := store.dataPath

/-- The totals or the ready routes of an answer meet the condition of the store. -/
def TrainingStatusResponse.MeetsCondition (opts : TrainOptions)
    (response : TrainingStatusResponse) : Prop :=
  match opts.doneMode with
  | .total => opts.totalThreshold ≤ response.totalSamples
  | .allRoutes => opts.minReadyRoutes ≤ response.routesMeetingMinSamples

/-- The states of a store: as it is made, and after calls of `record`. -/
inductive Made (opts : TrainOptions) : PersistedTrainStore Sample → Prop
  | new : Made opts .default
  | fromEnv {hostSession : String} {now : Int} {endReset endDone : SaveEnd}
      {file : StoreFile Sample} {g : PersistedTrainStore Sample}
      (h : (TrainHost.fromEnv opts hostSession now endReset endDone file).memory = some g) :
      Made opts g
  | record {g : PersistedTrainStore Sample} (h : Made opts g) (call : RecordCall Sample) :
      Made opts (g.record opts call)

/-- Stores that are made by calls from the empty one are settled: a status
request never reads counts that meet the condition from a store without the
flag. -/
theorem Made.settled {opts : TrainOptions} {g : PersistedTrainStore Sample} (h : Made opts g) :
    g.Settled opts := by
  cases h with
  | new => exact default_settled opts
  | record h call => exact record_settled _ call
  | @fromEnv hostSession now endReset endDone file g h =>
      unfold TrainHost.fromEnv TrainHost.complete at h
      cases hloaded : (TrainHost.load hostSession endReset file).memory with
      | none =>
          rw [hloaded] at h
          dsimp only at h
          rw [hloaded] at h
          cases h
      | some persisted =>
          rw [hloaded] at h
          dsimp only at h
          by_cases hdue : (!persisted.trainingComplete && persisted.checkTrainingDone opts) = true
          · rw [if_pos hdue] at h
            have hmarked : g = TrainHost.markComplete now persisted := (save_cases _ _ _ _).2 g h
            rw [hmarked]
            exact fun _ => rfl
          · rw [if_neg hdue, hloaded] at h
            obtain rfl := Option.some_inj.mp h
            intro hdone
            rw [hdone, Bool.and_true, Bool.not_eq_true, Bool.not_eq_false'] at hdue
            exact hdue

/-- The calls recorded before, between and after the getters. -/
structure Windows (Sample : Type) where
  before : List (RecordCall Sample)
  flagToTotal : List (RecordCall Sample)
  totalToRoutes : List (RecordCall Sample)
  routesToReady : List (RecordCall Sample)
  readyToLeast : List (RecordCall Sample)
  leastToTime : List (RecordCall Sample)
  after : List (RecordCall Sample)

namespace Windows

/-- Who had the lock. -/
def turns (w : Windows Sample) : List (Option (RecordCall Sample)) :=
  w.before.map some ++ none :: (w.flagToTotal.map some ++ none :: (w.totalToRoutes.map some ++
    none :: (w.routesToReady.map some ++ none :: (w.readyToLeast.map some ++
      none :: (w.leastToTime.map some ++ none :: w.after.map some)))))

/-- All calls. -/
def calls (w : Windows Sample) : List (RecordCall Sample) :=
  w.before ++ (w.flagToTotal ++ (w.totalToRoutes ++ (w.routesToReady ++ (w.readyToLeast ++
    (w.leastToTime ++ w.after)))))

/-- The state in which the flag is read. -/
def flagState (opts : TrainOptions) (g : PersistedTrainStore Sample) (w : Windows Sample) :
    PersistedTrainStore Sample :=
  g.recordFrom opts w.before

/-- The state in which the total is read. -/
def totalState (opts : TrainOptions) (g : PersistedTrainStore Sample) (w : Windows Sample) :
    PersistedTrainStore Sample :=
  (w.flagState opts g).recordFrom opts w.flagToTotal

/-- What the handler answers. -/
def answer (store : TrainStore) (g : PersistedTrainStore Sample) (w : Windows Sample) :
    TrainingStatusResponse :=
  let flag := w.flagState store.options g
  let total := w.totalState store.options g
  let routes := total.recordFrom store.options w.totalToRoutes
  let ready := routes.recordFrom store.options w.routesToReady
  let least := ready.recordFrom store.options w.readyToLeast
  let time := least.recordFrom store.options w.leastToTime
  { trainingComplete := flag.trainingComplete
    doneMode := modeStr store.options.doneMode
    totalSamples := total.totalSampleCount
    routeCount := routes.routeCount
    minSamplesPerRoute := store.options.minSamples
    minReadyRoutes := store.options.minReadyRoutes
    routesMeetingMinSamples := ready.routesMeetingMinSamples store.options
    totalThreshold := store.options.totalThreshold
    minRouteSampleCount := least.minRouteSampleCount
    completedAtUnixMs := time.completedAtUnixMs
    dataDirectory := store.dataPath }

/-- No recorded call disturbs the answer: none between the first two getters
completes the training, and after the second none, up to the getter of each
field, comes on an unknown route, gives a route enough samples, changes the
least number of samples, or completes the training at another time than the one
stored. -/
structure Undisturbed (opts : TrainOptions) (g : PersistedTrainStore Sample)
    (w : Windows Sample) : Prop where
  flag : (w.flagState opts g).trainingComplete = true ∨
    completing opts (w.flagState opts g) w.flagToTotal = none
  routes : ∀ key ∈ RecordCall.keys w.totalToRoutes, key ∈ (w.totalState opts g).routes
  ready : ∀ key, opts.minSamples ≤ (w.totalState opts g).countsFor key +
      callsOf key (w.totalToRoutes ++ w.routesToReady) →
    opts.minSamples ≤ (w.totalState opts g).countsFor key
  least : LeastKept (w.totalState opts g)
    (w.totalToRoutes ++ w.routesToReady ++ w.readyToLeast)
  time : (w.totalState opts g).trainingComplete = true ∨
    ∀ call, completing opts (w.totalState opts g)
        (w.totalToRoutes ++ w.routesToReady ++ w.readyToLeast ++ w.leastToTime) = some call →
      (w.totalState opts g).completedAtUnixMs = some call.now

end Windows

/-- Updates of the guarded state by `record`. -/
abbrev StatusStep (store : TrainStore) :=
  @Reader.Step (PersistedTrainStore Sample) TrainingStatusResponse (RecordCall Sample)
    (record store.options)

variable {store : TrainStore} {g₀ : PersistedTrainStore Sample}

/-- **Every run** of the handler that answers is one with calls in its windows,
so statements about windows are statements about all runs. -/
theorem exists_windows {g : PersistedTrainStore Sample} {response : TrainingStatusResponse}
    {es : List (Transition (Moment (PersistedTrainStore Sample) TrainingStatusResponse)
      (Option (RecordCall Sample)))}
    (run : Trace (StatusStep store) ⟨g₀, trainingStatus store⟩ es ⟨g, .done response⟩) :
    ∃ w : Windows Sample, turns es = w.turns ∧ response = w.answer store g₀ := by
  obtain ⟨before, rest₁, hturns₁, run₁⟩ := run_lock run
  obtain ⟨flagToTotal, rest₂, hturns₂, run₂⟩ := run_lock run₁
  obtain ⟨totalToRoutes, rest₃, hturns₃, run₃⟩ := run_lock run₂
  obtain ⟨routesToReady, rest₄, hturns₄, run₄⟩ := run_lock run₃
  obtain ⟨readyToLeast, rest₅, hturns₅, run₅⟩ := run_lock run₄
  obtain ⟨leastToTime, rest₆, hturns₆, run₆⟩ := run_lock run₅
  obtain ⟨hdone, hturns₇⟩ := run_done run₆
  refine ⟨⟨before, flagToTotal, totalToRoutes, routesToReady, readyToLeast, leastToTime,
    updates rest₆⟩, ?_, ?_⟩
  · rw [hturns₁, hturns₂, hturns₃, hturns₄, hturns₅, hturns₆, hturns₇]
    rfl
  · have hresult := congrArg Moment.request hdone
    cases hresult
    rfl

/-- **Every choice of calls** for the windows is a run, so a counterexample may
be given by choosing calls. -/
theorem exists_run (store : TrainStore) (g₀ : PersistedTrainStore Sample) (w : Windows Sample) :
    ∃ es g, turns es = w.turns ∧
      Trace (StatusStep store) ⟨g₀, trainingStatus store⟩ es ⟨g, .done (w.answer store g₀)⟩ := by
  have start : Trace (StatusStep store) ⟨g₀, trainingStatus store⟩ [] ⟨g₀, trainingStatus store⟩ :=
    Trace.nil
  obtain ⟨es₁, hturns₁, run₁⟩ := exists_extension start w.before
  obtain ⟨es₂, hturns₂, run₂⟩ := exists_extension run₁ w.flagToTotal
  obtain ⟨es₃, hturns₃, run₃⟩ := exists_extension run₂ w.totalToRoutes
  obtain ⟨es₄, hturns₄, run₄⟩ := exists_extension run₃ w.routesToReady
  obtain ⟨es₅, hturns₅, run₅⟩ := exists_extension run₄ w.readyToLeast
  obtain ⟨es₆, hturns₆, run₆⟩ := exists_extension run₅ w.leastToTime
  obtain ⟨es₇, hturns₇, run₇⟩ := exists_run_updates _ _ w.after
  refine ⟨es₆ ++ es₇, _, ?_, run₆.append run₇⟩
  have happend : turns (es₆ ++ es₇) = turns es₆ ++ turns es₇ := List.map_append
  rw [happend, hturns₇, hturns₆, hturns₅, hturns₄, hturns₃, hturns₂, hturns₁]
  simp [turns, Windows.turns]

/-- The answer shows all fields as they were in one state of the run: after some
of the calls, in their order. -/
def IsSnapshot (store : TrainStore) (g₀ : PersistedTrainStore Sample)
    (calls : List (RecordCall Sample)) (response : TrainingStatusResponse) : Prop :=
  ∃ seen, seen <+: calls ∧ response = statusOf store (g₀.recordFrom store.options seen)

/-- The updates between the turns of a request are the calls in its windows, so
a run of the request can be cut at its own turns. -/
theorem updates_eq_calls {w : Windows Sample}
    {es : List (Transition (Moment (PersistedTrainStore Sample) TrainingStatusResponse)
      (Option (RecordCall Sample)))} (h : turns es = w.turns) : updates es = w.calls := by
  have hturns : updates es = (turns es).filterMap id := by
    rw [turns, List.filterMap_map]
    rfl
  rw [hturns, h]
  simp [Windows.turns, Windows.calls, List.filterMap_append]

/-- If any state is shown, it is the one in which the total was read. -/
theorem isSnapshot_iff (w : Windows Sample) :
    IsSnapshot store g₀ w.calls (w.answer store g₀) ↔
      w.answer store g₀ = statusOf store (w.totalState store.options g₀) := by
  have htotal : w.totalState store.options g₀ =
      g₀.recordFrom store.options (w.before ++ w.flagToTotal) :=
    (recordFrom_append w.before w.flagToTotal).symm
  have hprefix : w.before ++ w.flagToTotal <+: w.calls := by
    unfold Windows.calls
    rw [← List.append_assoc]
    exact List.prefix_append _ _
  constructor
  · intro hgiven
    obtain ⟨seen, hseen, hanswer⟩ := hgiven
    have hshown : (w.totalState store.options g₀).totalSampleCount =
        (g₀.recordFrom store.options seen).totalSampleCount :=
      congrArg TrainingStatusResponse.totalSamples hanswer
    rw [htotal, totalSampleCount_recordFrom, totalSampleCount_recordFrom] at hshown
    have hsame : seen = w.before ++ w.flagToTotal :=
      (List.prefix_of_prefix_length_le hseen hprefix (by omega)).eq_of_length (by omega)
    rw [hanswer, hsame, htotal]
  · intro hanswer
    exact ⟨_, hprefix, hanswer.trans (congrArg (statusOf store) htotal)⟩

/-- **Field by field.**  The answer is that of the moment at which the total is
read exactly if the calls in the other windows changed none of the numbers read
there. -/
theorem answer_eq_iff (w : Windows Sample) :
    w.answer store g₀ = statusOf store (w.totalState store.options g₀) ↔
      w.Undisturbed store.options g₀ := by
  have hflag := @trainingComplete_recordFrom_eq_iff _ store.options
    (w.flagState store.options g₀) w.flagToTotal
  have hroutes := @routeCount_recordFrom_eq_iff _ store.options
    (w.totalState store.options g₀) w.totalToRoutes
  have hready := @routesMeetingMinSamples_recordFrom_eq_iff _ store.options
    (w.totalState store.options g₀) (w.totalToRoutes ++ w.routesToReady)
  have hleast := @minRouteSampleCount_recordFrom_eq_iff _ store.options
    (w.totalState store.options g₀) (w.totalToRoutes ++ w.routesToReady ++ w.readyToLeast)
  have htime := @completedAtUnixMs_recordFrom_eq_iff _ store.options
    (w.totalState store.options g₀)
    (w.totalToRoutes ++ w.routesToReady ++ w.readyToLeast ++ w.leastToTime)
  simp only [recordFrom_append] at hready hleast htime
  constructor
  · intro hanswer
    simp only [Windows.answer, statusOf, TrainingStatusResponse.mk.injEq, true_and,
      and_true] at hanswer
    obtain ⟨hshownFlag, hshownRoutes, hshownReady, hshownLeast, hshownTime⟩ := hanswer
    exact ⟨hflag.mp hshownFlag.symm, hroutes.mp hshownRoutes, hready.mp hshownReady,
      hleast.mp hshownLeast, htime.mp hshownTime⟩
  · intro h
    simp only [Windows.answer, statusOf, TrainingStatusResponse.mk.injEq, true_and, and_true]
    exact ⟨(hflag.mpr h.flag).symm, hroutes.mpr h.routes, hready.mpr h.ready, hleast.mpr h.least,
      htime.mpr h.time⟩

/-- An answer that shows one state of a store never says that training goes on
when it shows that it is done. -/
theorem not_meetsCondition {g : PersistedTrainStore Sample} (h : g.Settled store.options)
    (hflag : (statusOf store g).trainingComplete = false) :
    ¬ (statusOf store g).MeetsCondition store.options := by
  intro hmeets
  have hdone : checkTrainingDone store.options g = true := by
    rw [checkTrainingDone_eq]
    unfold TrainingStatusResponse.MeetsCondition at hmeets
    cases hmode : store.options.doneMode with
    | total =>
        rw [hmode] at hmeets
        exact decide_eq_true hmeets
    | allRoutes =>
        rw [hmode] at hmeets
        exact decide_eq_true hmeets
  have hup : g.trainingComplete = true := h hdone
  rw [show (statusOf store g).trainingComplete = g.trainingComplete from rfl, hup] at hflag
  cases hflag

/-- **Snapshots.**  In every run of the handler among other requests that
record, from any state of a store, the answer shows one state of the run exactly
when no call disturbs it; and then it does not say that training goes on when it
shows that it is done. -/
theorem status_snapshot_iff {g : PersistedTrainStore Sample} {response : TrainingStatusResponse}
    {es : List (Transition (Moment (PersistedTrainStore Sample) TrainingStatusResponse)
      (Option (RecordCall Sample)))}
    (hmade : Made store.options g₀)
    (run : Trace (StatusStep store) ⟨g₀, trainingStatus store⟩ es ⟨g, .done response⟩) :
    ∃ w : Windows Sample, turns es = w.turns ∧
      (IsSnapshot store g₀ (updates es) response ↔ w.Undisturbed store.options g₀) ∧
      (w.Undisturbed store.options g₀ → response.trainingComplete = false →
        ¬ response.MeetsCondition store.options) := by
  obtain ⟨w, hturns, rfl⟩ := exists_windows run
  refine ⟨w, hturns, ?_, ?_⟩
  · rw [updates_eq_calls hturns, isSnapshot_iff, answer_eq_iff]
  · intro hundisturbed hflag
    rw [(answer_eq_iff w).mpr hundisturbed] at hflag ⊢
    have hsettled : (w.totalState store.options g₀).Settled store.options :=
      (hmade.settled.recordFrom w.before).recordFrom w.flagToTotal
    exact not_meetsCondition hsettled hflag

/-- One sample is enough. -/
def oneSampleStore : TrainStore where
  options :=
    { doneMode := .total
      minSamples := 1
      totalThreshold := 1
      minReadyRoutes := 1
      minSamples_pos := Nat.one_pos
      totalThreshold_pos := Nat.one_pos
      minReadyRoutes_pos := Nat.one_pos }
  dataPath := none

/-- A call between the getters of the flag and of the total. -/
def tornWindows : Windows Unit where
  before := []
  flagToTotal := [⟨"GET|/", (), 7⟩]
  totalToRoutes := []
  routesToReady := []
  readyToLeast := []
  leastToTime := []
  after := []

/-- The flag of one state is shown with the total of another. -/
theorem torn_status :
    ∃ es g response,
      Trace (StatusStep oneSampleStore)
          ⟨(default : PersistedTrainStore Unit), trainingStatus oneSampleStore⟩ es
          ⟨g, .done response⟩ ∧
        response.trainingComplete = false ∧ response.MeetsCondition oneSampleStore.options ∧
          ¬ IsSnapshot oneSampleStore (default : PersistedTrainStore Unit) (updates es)
            response := by
  obtain ⟨es, g, hturns, run⟩ := exists_run oneSampleStore default tornWindows
  have henough : 1 ≤ (tornWindows.answer oneSampleStore default).totalSamples := by
    decide +kernel
  refine ⟨es, g, _, run, by decide +kernel, henough, ?_⟩
  rw [updates_eq_calls hturns, isSnapshot_iff]
  decide +kernel

/-- A request that nobody disturbs gets a snapshot: with no call between its
turns, all fields are read from one state. -/
theorem quiet_status :
    ∃ es g response,
      Trace (StatusStep oneSampleStore)
          ⟨(default : PersistedTrainStore Unit), trainingStatus oneSampleStore⟩ es
          ⟨g, .done response⟩ ∧
        IsSnapshot oneSampleStore (default : PersistedTrainStore Unit) (updates es) response := by
  obtain ⟨es, g, hquiet, run⟩ := exists_run oneSampleStore (default : PersistedTrainStore Unit)
    ⟨[], [], [], [], [], [], []⟩
  obtain ⟨w, hturns, hsnapshot, -⟩ := status_snapshot_iff .new run
  have hnone : w.calls = [] := (updates_eq_calls hturns).symm.trans (updates_eq_calls hquiet)
  refine ⟨es, g, _, run, hsnapshot.mpr ?_⟩
  obtain ⟨before, flagToTotal, totalToRoutes, routesToReady, readyToLeast, leastToTime, after⟩ := w
  simp only [Windows.calls, List.append_eq_nil_iff] at hnone
  obtain ⟨rfl, rfl, rfl, rfl, rfl, rfl, rfl⟩ := hnone
  exact ⟨Or.inr rfl, fun _ hkey => absurd hkey (List.not_mem_nil ∘ List.mem_toFinset.mp),
    fun _ hready => hready, Or.inl rfl, Or.inr fun _ hcompleting =>
      absurd hcompleting (by simp [completing])⟩

end Zona
