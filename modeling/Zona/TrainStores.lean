import Zona.HashMaps
import Mathlib.Algebra.BigOperators.Ring.Finset

/-!
# The train store

While a host is being observed, every request it answers is recorded as a sample
under its route.  Training is complete when there are enough samples, all
together or on enough routes.  The store looks at all its routes after each
sample, as long as the flag is down; once it is up it stays.

`training_latch` says what the store holds after any calls of `record`, in the
order in which they took the lock: the samples of each route, and a flag and a
time that belong to the first call after which there were enough.  What a sample
consists of does not matter here.
-/

namespace HashMap

variable {κ ν : Type} [DecidableEq κ]

/-- A sum over the values of a map is one over its keys. -/
theorem sum_values (m : HashMap κ ν) (f : ν → Nat) :
    (m.values.map f).sum = ∑ k ∈ m.keys.toFinset, ((m.lookup k).map f).getD 0 := by
  have hkeys : m.values.map f = m.keys.map fun k => ((m.lookup k).map f).getD 0 := by
    rw [values, AList.keys, List.keys, List.map_map, List.map_map]
    refine List.map_congr_left fun e he => ?_
    have hlookup : m.lookup e.1 = some e.2 := lookup_eq_some.mpr he
    simp [hlookup]
  rw [hkeys]
  exact (List.sum_toFinset _ m.keys_nodup).symm

/-- The values with a property are counted by their keys. -/
theorem countP_values (m : HashMap κ ν) (p : ν → Bool) :
    m.values.countP p = (m.keys.toFinset.filter fun k => (m.lookup k).any p).card := by
  have hsum : ∀ vs : List ν, vs.countP p = (vs.map fun v => if p v then 1 else 0).sum := by
    intro vs
    induction vs with
    | nil => rfl
    | cons v vs ih => rw [List.countP_cons, ih, List.map_cons, List.sum_cons, Nat.add_comm]
  rw [hsum, sum_values, Finset.card_filter]
  refine Finset.sum_congr rfl fun k _ => ?_
  cases m.lookup k with
  | _ => rfl

end HashMap

namespace Zona

/-- When training is done: on the samples of all routes together, or on enough
routes that have enough samples each. -/
inductive TrainingDoneMode
  | total
  | allRoutes
  deriving DecidableEq

/-- The thresholds of a store; every constructor takes care that they are positive. -/
structure TrainOptions where
  doneMode : TrainingDoneMode
  minSamples : Nat
  totalThreshold : Nat
  minReadyRoutes : Nat
  minSamples_pos : 0 < minSamples
  totalThreshold_pos : 0 < totalThreshold
  minReadyRoutes_pos : 0 < minReadyRoutes

/-- What a store holds in memory and writes to disk. -/
structure PersistedTrainStore (Sample : Type) where
  v : UInt8
  trainingComplete : Bool
  completedAtUnixMs : Option Int
  hostSessionId : Option String
  routes : HashMap String (List Sample)

/-- The arguments of a call of `record`, and the time at which it runs. -/
structure RecordCall (Sample : Type) where
  key : String
  sample : Sample
  now : Int

namespace PersistedTrainStore

variable {Sample : Type}

def default : PersistedTrainStore Sample where
  v := 1
  trainingComplete := false
  completedAtUnixMs := none
  hostSessionId := none
  routes := ∅

/-- `check_training_done`. -/
def checkTrainingDone (opts : TrainOptions) (state : PersistedTrainStore Sample) : Bool :=
  match opts.doneMode with
  | .total => decide (opts.totalThreshold ≤ (state.routes.values.map List.length).sum)
  | .allRoutes =>
      decide (opts.minReadyRoutes ≤
        state.routes.values.countP fun v => decide (opts.minSamples ≤ v.length))

/-- `routes.entry(key).or_default().push(sample)`. -/
def push (routes : HashMap String (List Sample)) (call : RecordCall Sample) :
    HashMap String (List Sample) :=
  routes.put call.key ((routes.lookup call.key).getD [] ++ [call.sample])

/-- `record`, up to the save. -/
def record (opts : TrainOptions) (g : PersistedTrainStore Sample) (call : RecordCall Sample) :
    PersistedTrainStore Sample :=
  let pushed := { g with routes := push g.routes call }
  if !g.trainingComplete && checkTrainingDone opts pushed then
    { pushed with trainingComplete := true, completedAtUnixMs := some call.now }
  else pushed

/-- The routes after some calls, from none. -/
def routesOf (calls : List (RecordCall Sample)) : HashMap String (List Sample) :=
  calls.foldl push ∅

variable {opts : TrainOptions} {g : PersistedTrainStore Sample} {call : RecordCall Sample}

/-- What a call does to the routes is to push its sample.  Saving and the check
of the thresholds leave them alone. -/
@[simp]
theorem record_routes : (record opts g call).routes = push g.routes call := by
  unfold record
  dsimp only
  split <;> rfl

/-- A call keeps the session of the host, which is written at start-up only. -/
@[simp]
theorem record_hostSessionId : (record opts g call).hostSessionId = g.hostSessionId := by
  unfold record
  dsimp only
  split <;> rfl

/-- The condition is read off the routes, so two stores with the same routes
meet it together, whatever their flags are. -/
theorem checkTrainingDone_congr {g' : PersistedTrainStore Sample} (h : g.routes = g'.routes) :
    checkTrainingDone opts g = checkTrainingDone opts g' := by
  unfold checkTrainingDone
  rw [h]

/-- A flag that is up stays up, with its time. -/
theorem record_of_complete (h : g.trainingComplete = true) :
    record opts g call = { g with routes := push g.routes call } := by
  unfold record
  dsimp only
  rw [h]
  rfl

/-- The flag goes up when the condition is met. -/
theorem record_of_done (h : g.trainingComplete = false)
    (hdone : checkTrainingDone opts (record opts g call) = true) :
    (record opts g call).trainingComplete = true ∧
      (record opts g call).completedAtUnixMs = some call.now := by
  have hpushed : checkTrainingDone opts { g with routes := push g.routes call } = true := by
    rw [← hdone]
    exact checkTrainingDone_congr record_routes.symm
  unfold record
  dsimp only
  rw [if_pos (by rw [hpushed, h]; rfl)]
  exact ⟨rfl, rfl⟩

/-- As long as the condition fails, a call leaves the flag and the time of
completion as they are. -/
theorem record_of_not_done (h : g.trainingComplete = false)
    (hdone : checkTrainingDone opts (record opts g call) = false) :
    (record opts g call).trainingComplete = false ∧
      (record opts g call).completedAtUnixMs = g.completedAtUnixMs := by
  have hpushed : checkTrainingDone opts { g with routes := push g.routes call } = false := by
    rw [← hdone]
    exact checkTrainingDone_congr record_routes.symm
  unfold record
  dsimp only
  rw [if_neg (by rw [hpushed, h]; exact Bool.false_ne_true)]
  exact ⟨h, rfl⟩

end PersistedTrainStore

namespace RecordCall

variable {Sample : Type}

/-- The keys that are called with. -/
def keys (calls : List (RecordCall Sample)) : Finset String :=
  (calls.map RecordCall.key).toFinset

/-- The samples recorded under a key, in order. -/
def samplesFor (calls : List (RecordCall Sample)) (key : String) : List Sample :=
  (calls.filter fun c => c.key = key).map RecordCall.sample

/-- There are enough samples. -/
def Enough (opts : TrainOptions) (calls : List (RecordCall Sample)) : Prop :=
  match opts.doneMode with
  | .total => opts.totalThreshold ≤ calls.length
  | .allRoutes =>
      opts.minReadyRoutes ≤
        ((keys calls).filter fun k => opts.minSamples ≤ (samplesFor calls k).length).card

/-- The number of samples under a key is the number of calls with that key, so
thresholds can be stated by counting calls. -/
theorem samplesFor_length (calls : List (RecordCall Sample)) (key : String) :
    (samplesFor calls key).length = (calls.map RecordCall.key).count key := by
  rw [samplesFor, List.length_map, ← List.countP_eq_length_filter, List.count, List.countP_map]
  refine List.countP_congr fun c _ => ?_
  simp

/-- Samples are kept in the order of the calls: later calls come at the end of
the list of their key. -/
theorem samplesFor_append (calls more : List (RecordCall Sample)) (key : String) :
    samplesFor (calls ++ more) key = samplesFor calls key ++ samplesFor more key := by
  simp [samplesFor]

/-- A key that no call has got no samples, so it is not among the routes. -/
theorem samplesFor_of_not_mem {calls : List (RecordCall Sample)} {key : String}
    (h : key ∉ keys calls) : samplesFor calls key = [] := by
  rw [keys, List.mem_toFinset] at h
  rw [← List.length_eq_zero_iff, samplesFor_length]
  exact List.count_eq_zero.mpr h

/-- More calls never take anything away: a condition that is met stays met, in
both modes. -/
theorem Enough.append {opts : TrainOptions} {calls : List (RecordCall Sample)}
    (h : Enough opts calls) (more : List (RecordCall Sample)) : Enough opts (calls ++ more) := by
  unfold Enough at h ⊢
  cases hmode : opts.doneMode with
  | total =>
      simp only [hmode, List.length_append] at h ⊢
      omega
  | allRoutes =>
      simp only [hmode] at h ⊢
      refine h.trans (Finset.card_le_card ?_)
      intro k hk
      obtain ⟨hkey, hready⟩ := Finset.mem_filter.mp hk
      refine Finset.mem_filter.mpr ⟨?_, ?_⟩
      · rw [keys, List.mem_toFinset] at hkey ⊢
        rw [List.map_append]
        exact List.mem_append_left _ hkey
      · rw [samplesFor_append, List.length_append]
        omega

/-- Without calls there is never enough, as all the thresholds are positive.  A
fresh store is therefore not complete. -/
theorem not_enough_nil (opts : TrainOptions) : ¬ Enough opts ([] : List (RecordCall Sample)) := by
  unfold Enough
  cases opts.doneMode with
  | total =>
      have := opts.totalThreshold_pos
      simp only [List.length_nil]
      omega
  | allRoutes =>
      have := opts.minReadyRoutes_pos
      simp only [keys, List.map_nil, List.toFinset_nil, Finset.filter_empty, Finset.card_empty]
      omega

end RecordCall

namespace PersistedTrainStore

open RecordCall

variable {Sample : Type} {opts : TrainOptions}

/-- The routes hold exactly the samples of the calls. -/
theorem lookup_routesOf (calls : List (RecordCall Sample)) (key : String) :
    (routesOf calls).lookup key =
      if key ∈ keys calls then some (samplesFor calls key) else none := by
  induction calls using List.reverseRecOn with
  | nil => rfl
  | append_singleton calls call ih =>
      have hpush : routesOf (calls ++ [call]) = push (routesOf calls) call := by
        rw [routesOf, List.foldl_append]
        rfl
      have hkeys : key ∈ keys (calls ++ [call]) ↔ key ∈ keys calls ∨ key = call.key := by
        simp [keys, or_comm, eq_comm]
      have hbefore : ((routesOf calls).lookup key).getD [] = samplesFor calls key := by
        rw [ih]
        by_cases hin : key ∈ keys calls
        · rw [if_pos hin, Option.getD_some]
        · rw [if_neg hin, samplesFor_of_not_mem hin, Option.getD_none]
      rw [hpush, push, HashMap.lookup_put, samplesFor_append]
      by_cases hkey : key = call.key
      · rw [if_pos hkey, if_pos (hkeys.mpr (Or.inr hkey)), ← hkey, hbefore]
        simp [samplesFor, hkey]
      · rw [if_neg hkey, ih]
        have hother : samplesFor [call] key = [] := by
          simp [samplesFor, Ne.symm hkey]
        rw [hother, List.append_nil]
        simp only [hkeys, hkey, or_false]

/-- The routes of a list of calls are the keys that occur in it, so counting
routes is counting keys. -/
theorem keys_routesOf (calls : List (RecordCall Sample)) :
    (routesOf calls).keys.toFinset = keys calls := by
  ext key
  rw [List.mem_toFinset, ← AList.mem_keys, ← AList.lookup_isSome, lookup_routesOf]
  by_cases hin : key ∈ keys calls <;> simp [hin]

theorem sum_routesOf (calls : List (RecordCall Sample)) (f : List Sample → Nat) :
    ((routesOf calls).values.map f).sum = ∑ k ∈ keys calls, f (samplesFor calls k) := by
  rw [HashMap.sum_values, keys_routesOf]
  refine Finset.sum_congr rfl fun k hk => ?_
  rw [lookup_routesOf, if_pos hk]
  rfl

/-- **The condition**, read off the calls: the check that the source makes on
its map holds exactly if the calls are enough, in either mode. -/
theorem checkTrainingDone_iff {g : PersistedTrainStore Sample} {calls : List (RecordCall Sample)}
    (h : g.routes = routesOf calls) : checkTrainingDone opts g = true ↔ Enough opts calls := by
  unfold checkTrainingDone Enough
  cases opts.doneMode with
  | total =>
      have hsum : (g.routes.values.map List.length).sum = calls.length := by
        calc (g.routes.values.map List.length).sum
            = ∑ k ∈ keys calls, (samplesFor calls k).length := by rw [h, sum_routesOf]
          _ = ∑ k ∈ keys calls, (calls.map RecordCall.key).count k :=
              Finset.sum_congr rfl fun k _ => samplesFor_length calls k
          _ = calls.length := by
              rw [keys, List.sum_toFinset_count_eq_length, List.length_map]
      simp only [hsum, decide_eq_true_eq]
  | allRoutes =>
      have hcount : (g.routes.values.countP fun v => decide (opts.minSamples ≤ v.length)) =
          ((keys calls).filter fun k => opts.minSamples ≤ (samplesFor calls k).length).card := by
        rw [h, HashMap.countP_values, keys_routesOf]
        refine congrArg Finset.card (Finset.filter_congr fun k hk => ?_)
        rw [lookup_routesOf, if_pos hk, Option.any_some, decide_eq_true_eq]
      simp only [hcount, decide_eq_true_eq]

/-- The store after some calls, in the order in which they took the lock. -/
def recordAll (opts : TrainOptions) (calls : List (RecordCall Sample)) :
    PersistedTrainStore Sample :=
  calls.foldl (record opts) default

/-- The last of a list of calls is recorded last.  Inductions over a run take
it off at this end. -/
theorem recordAll_snoc (calls : List (RecordCall Sample)) (call : RecordCall Sample) :
    recordAll opts (calls ++ [call]) = record opts (recordAll opts calls) call := by
  rw [recordAll, List.foldl_append]
  rfl

/-- After a list of calls from the empty store the routes are those of the
list, whatever the options are. -/
theorem recordAll_routes (calls : List (RecordCall Sample)) :
    (recordAll opts calls).routes = routesOf calls := by
  induction calls using List.reverseRecOn with
  | nil => rfl
  | append_singleton calls call ih =>
      rw [recordAll_snoc, record_routes, ih, routesOf, routesOf, List.foldl_append]
      rfl

/-- The condition after a list of calls from the empty store says that the
calls are enough. -/
theorem checkTrainingDone_recordAll (calls : List (RecordCall Sample)) :
    checkTrainingDone opts (recordAll opts calls) = true ↔ Enough opts calls :=
  checkTrainingDone_iff (recordAll_routes calls)

/-- The flag is up exactly when there are enough samples; before that there is
no time. -/
theorem recordAll_complete (calls : List (RecordCall Sample)) :
    ((recordAll opts calls).trainingComplete = true ↔ Enough opts calls) ∧
      (¬ Enough opts calls → (recordAll opts calls).completedAtUnixMs = none) := by
  induction calls using List.reverseRecOn with
  | nil => exact ⟨iff_of_false Bool.false_ne_true (not_enough_nil opts), fun _ => rfl⟩
  | append_singleton calls call ih =>
      obtain ⟨hflag, htime⟩ := ih
      have hcheck : checkTrainingDone opts (recordAll opts (calls ++ [call])) = true ↔
          Enough opts (calls ++ [call]) := checkTrainingDone_recordAll (calls ++ [call])
      rw [recordAll_snoc] at hcheck ⊢
      by_cases henough : Enough opts calls
      · have hmore := henough.append [call]
        rw [record_of_complete (hflag.mpr henough)]
        exact ⟨iff_of_true (hflag.mpr henough) hmore, fun hnot => (hnot hmore).elim⟩
      · have hdown : (recordAll opts calls).trainingComplete = false :=
          Bool.eq_false_iff.mpr (mt hflag.mp henough)
        by_cases hmore : Enough opts (calls ++ [call])
        · obtain ⟨hup, _⟩ := record_of_done hdown (hcheck.mpr hmore)
          exact ⟨iff_of_true hup hmore, fun hnot => (hnot hmore).elim⟩
        · obtain ⟨hstill, hsame⟩ :=
            record_of_not_done hdown (Bool.eq_false_iff.mpr (mt hcheck.mp hmore))
          rw [hstill, hsame]
          exact ⟨iff_of_false Bool.false_ne_true hmore, fun _ => htime henough⟩

/-- Once the flag is up, further calls change nothing but the routes. -/
theorem recordAll_append {calls : List (RecordCall Sample)}
    (h : (recordAll opts calls).trainingComplete = true) (more : List (RecordCall Sample)) :
    (recordAll opts (calls ++ more)).trainingComplete = true ∧
      (recordAll opts (calls ++ more)).completedAtUnixMs =
        (recordAll opts calls).completedAtUnixMs := by
  induction more using List.reverseRecOn with
  | nil =>
      rw [List.append_nil]
      exact ⟨h, rfl⟩
  | append_singleton more call ih =>
      rw [← List.append_assoc, recordAll_snoc, record_of_complete ih.1]
      exact ih

/-- What a store holds after some calls: the samples of each key in the order of
the calls, and a flag that goes up with the first call after which there are
enough, at whose time it stays. -/
structure Latched (opts : TrainOptions) (calls : List (RecordCall Sample)) : Prop where
  samples : ∀ key, (recordAll opts calls).routes.lookup key =
    if key ∈ keys calls then some (samplesFor calls key) else none
  complete : (recordAll opts calls).trainingComplete = true ↔
    checkTrainingDone opts (recordAll opts calls) = true
  enough : (recordAll opts calls).trainingComplete = true ↔ Enough opts calls
  stays : ∀ more, (recordAll opts calls).trainingComplete = true →
    (recordAll opts (calls ++ more)).trainingComplete = true ∧
      (recordAll opts (calls ++ more)).completedAtUnixMs =
        (recordAll opts calls).completedAtUnixMs
  before : (recordAll opts calls).trainingComplete = false →
    (recordAll opts calls).completedAtUnixMs = none
  first : ∀ call more, (recordAll opts calls).trainingComplete = false →
    Enough opts (calls ++ [call]) →
      (recordAll opts (calls ++ call :: more)).completedAtUnixMs = some call.now

/-- **The completion latch.**  This is what a fresh store holds after any
calls: the flag goes up with the first call that makes enough, at its time, and
stays. -/
theorem training_latch (opts : TrainOptions) (calls : List (RecordCall Sample)) :
    Latched opts calls := by
  have hflag : (recordAll opts calls).trainingComplete = true ↔ Enough opts calls :=
    (recordAll_complete calls).1
  have htime : ¬ Enough opts calls → (recordAll opts calls).completedAtUnixMs = none :=
    (recordAll_complete calls).2
  refine ⟨?_, ?_, hflag, fun more hup => recordAll_append hup more, ?_, ?_⟩
  · intro key
    rw [recordAll_routes]
    exact lookup_routesOf calls key
  · rw [checkTrainingDone_recordAll]
    exact hflag
  · intro hdown
    exact htime (mt hflag.mpr (Bool.eq_false_iff.mp hdown))
  · intro call more hdown henough
    have hdone : checkTrainingDone opts (record opts (recordAll opts calls) call) = true := by
      rw [← recordAll_snoc]
      exact (checkTrainingDone_recordAll _).mpr henough
    obtain ⟨hup, hat⟩ := record_of_done hdown hdone
    rw [← recordAll_snoc] at hup hat
    rw [List.append_cons]
    exact ((recordAll_append hup more).2).trans hat

end PersistedTrainStore

end Zona
