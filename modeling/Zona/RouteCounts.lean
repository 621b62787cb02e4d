import Zona.TrainStores

/-!
# Counting the samples of a train store

The getters of the store count samples: all of them, the routes, the routes
that have enough, the least number on any route.  Each of these is a function of
the number of samples under each key, and a call of `record` adds one to the
number under its key (`countsFor_recordFrom`).

What follows are the conditions under which some calls leave a getter as it is.
-/

namespace Zona

namespace PersistedTrainStore

variable {Sample : Type}

def totalSampleCount (g : PersistedTrainStore Sample) : Nat :=
  (g.routes.values.map List.length).sum

def routeCount (g : PersistedTrainStore Sample) : Nat :=
  g.routes.entries.length

/-- The least number of samples on a route, if there are routes. -/
def minRouteSampleCount (g : PersistedTrainStore Sample) : Option Nat :=
  (g.routes.values.map List.length).min?

/-- The number of routes with enough samples. -/
def routesMeetingMinSamples (opts : TrainOptions) (g : PersistedTrainStore Sample) : Nat :=
  (g.routes.values.filter fun v => decide (opts.minSamples ≤ v.length)).length

def countsFor (g : PersistedTrainStore Sample) (key : String) : Nat :=
  ((g.routes.lookup key).map List.length).getD 0

/-- The keys of the routes. -/
def routeKeys (g : PersistedTrainStore Sample) : Finset String :=
  g.routes.keys.toFinset

variable {opts : TrainOptions} {g : PersistedTrainStore Sample}

/-- The set of keys is that of the map, so statements about sets of routes can
be checked by a lookup. -/
theorem mem_routeKeys {key : String} : key ∈ g.routeKeys ↔ key ∈ g.routes := by
  rw [routeKeys, List.mem_toFinset, AList.mem_keys]

/-- A key that is not in the map counts zero samples, as `counts_for` returns
zero where the lookup fails. -/
theorem countsFor_of_not_mem {key : String} (h : key ∉ g.routeKeys) : g.countsFor key = 0 := by
  rw [mem_routeKeys] at h
  rw [countsFor, AList.lookup_eq_none.mpr h]
  rfl

/-- The total is the sum of the counters over the keys.  The source sums over
the values of the map, in whatever order it iterates. -/
theorem totalSampleCount_eq : g.totalSampleCount = ∑ key ∈ g.routeKeys, g.countsFor key :=
  HashMap.sum_values g.routes List.length

/-- The number of routes is that of the keys, as a map has each key once. -/
theorem routeCount_eq : g.routeCount = g.routeKeys.card := by
  rw [routeKeys, List.toFinset_card_of_nodup g.routes.keys_nodup, AList.keys, List.keys,
    List.length_map, routeCount]

/-- The counter of ready routes is the number of keys whose own counter reaches
the threshold. -/
theorem routesMeetingMinSamples_eq :
    g.routesMeetingMinSamples opts =
      (g.routeKeys.filter fun key => opts.minSamples ≤ g.countsFor key).card := by
  rw [routesMeetingMinSamples, ← List.countP_eq_length_filter, HashMap.countP_values, routeKeys]
  refine congrArg Finset.card (Finset.filter_congr ?_)
  intro key hkey
  obtain ⟨v, hv⟩ := Option.isSome_iff_exists.mp
    (AList.lookup_isSome.mpr (AList.mem_keys.mpr (List.mem_toFinset.mp hkey)))
  simp [countsFor, hv]

/-- The smallest counter, characterised without reference to an order: some key
has it, and no key has less. -/
theorem minRouteSampleCount_eq_some {m : Nat} :
    g.minRouteSampleCount = some m ↔
      (∃ key ∈ g.routeKeys, g.countsFor key = m) ∧ ∀ key ∈ g.routeKeys, m ≤ g.countsFor key := by
  have hcounts : ∀ n, n ∈ g.routes.values.map List.length ↔
      ∃ key ∈ g.routeKeys, g.countsFor key = n := by
    intro n
    rw [List.mem_map]
    constructor
    · intro hgiven
      obtain ⟨v, hv, rfl⟩ := hgiven
      obtain ⟨key, hlookup⟩ := HashMap.mem_values.mp hv
      refine ⟨key, mem_routeKeys.mpr (HashMap.mem_of_lookup hlookup), ?_⟩
      simp [countsFor, hlookup]
    · intro hgiven
      obtain ⟨key, hkey, rfl⟩ := hgiven
      obtain ⟨v, hv⟩ := Option.isSome_iff_exists.mp
        (AList.lookup_isSome.mpr (mem_routeKeys.mp hkey))
      refine ⟨v, HashMap.mem_values.mpr ⟨key, hv⟩, ?_⟩
      simp [countsFor, hv]
  rw [minRouteSampleCount, List.min?_eq_some_iff, hcounts]
  refine and_congr_right' ⟨?_, ?_⟩
  · intro hleast key hkey
    exact hleast _ ((hcounts _).mpr ⟨key, hkey, rfl⟩)
  · intro hleast n hn
    obtain ⟨key, hkey, rfl⟩ := (hcounts n).mp hn
    exact hleast key hkey

/-- There is no smallest counter exactly if there are no routes, where the
source shows null. -/
theorem minRouteSampleCount_eq_none : g.minRouteSampleCount = none ↔ g.routeKeys = ∅ := by
  rw [minRouteSampleCount, List.min?_eq_none_iff, List.map_eq_nil_iff, HashMap.values,
    List.map_eq_nil_iff, routeKeys, List.toFinset_eq_empty_iff, AList.keys, List.keys,
    List.map_eq_nil_iff]

/-- The condition of the store, read off its getters. -/
theorem checkTrainingDone_eq :
    checkTrainingDone opts g =
      match opts.doneMode with
      | .total => decide (opts.totalThreshold ≤ g.totalSampleCount)
      | .allRoutes => decide (opts.minReadyRoutes ≤ g.routesMeetingMinSamples opts) := by
  unfold checkTrainingDone routesMeetingMinSamples
  rw [List.countP_eq_length_filter]
  rfl

/-- The store after some calls, from any state. -/
def recordFrom (opts : TrainOptions) (g : PersistedTrainStore Sample)
    (calls : List (RecordCall Sample)) : PersistedTrainStore Sample :=
  calls.foldl (record opts) g

/-- Recording two lists of calls one after the other is recording their
concatenation.  Snapshots taken in between rely on it. -/
theorem recordFrom_append (calls more : List (RecordCall Sample)) :
    g.recordFrom opts (calls ++ more) = (g.recordFrom opts calls).recordFrom opts more :=
  List.foldl_append

/-- How often a key is called with. -/
def callsOf (key : String) (calls : List (RecordCall Sample)) : Nat :=
  (calls.map RecordCall.key).count key

/-- One call raises the counter of its own key by one and leaves all others
alone.  This is the step behind every count below. -/
theorem countsFor_record (call : RecordCall Sample) (key : String) :
    (record opts g call).countsFor key = g.countsFor key + if call.key = key then 1 else 0 := by
  rw [countsFor, record_routes, push, HashMap.lookup_put]
  by_cases hkey : key = call.key
  · rw [if_pos hkey, if_pos hkey.symm, hkey, countsFor]
    cases g.routes.lookup call.key with
    | none => rfl
    | some v => simp
  · rw [if_neg hkey, if_neg fun h => hkey h.symm]
    rfl

/-- One call adds its own key to the set of keys and removes none, since routes
are never taken out while a store is in use. -/
theorem routeKeys_record (call : RecordCall Sample) :
    (record opts g call).routeKeys = insert call.key g.routeKeys := by
  ext key
  rw [mem_routeKeys, record_routes, push, HashMap.mem_put, Finset.mem_insert, mem_routeKeys]

/-- **Every call counts once**, under its key: after any list of calls a
counter has grown by the number of calls with that key. -/
theorem countsFor_recordFrom (calls : List (RecordCall Sample)) (key : String) :
    (g.recordFrom opts calls).countsFor key = g.countsFor key + callsOf key calls := by
  induction calls generalizing g with
  | nil => rfl
  | cons call calls ih =>
      have hstep : g.recordFrom opts (call :: calls) =
          (record opts g call).recordFrom opts calls := rfl
      rw [hstep, ih, countsFor_record, callsOf, callsOf, List.map_cons, List.count_cons]
      simp only [beq_iff_eq]
      omega

/-- The keys after a list of calls are the keys before it and the keys of the
calls. -/
theorem routeKeys_recordFrom (calls : List (RecordCall Sample)) :
    (g.recordFrom opts calls).routeKeys = g.routeKeys ∪ RecordCall.keys calls := by
  induction calls generalizing g with
  | nil => simp [recordFrom, RecordCall.keys]
  | cons call calls ih =>
      have hstep : g.recordFrom opts (call :: calls) =
          (record opts g call).recordFrom opts calls := rfl
      have hkeys : RecordCall.keys (call :: calls) = insert call.key (RecordCall.keys calls) := by
        rw [RecordCall.keys, List.map_cons, List.toFinset_cons]
        rfl
      rw [hstep, ih, routeKeys_record, hkeys, Finset.insert_union, Finset.union_insert]

/-- Some call has the key exactly if it is among the keys of the list, which
turns a count into a membership. -/
theorem callsOf_pos {key : String} {calls : List (RecordCall Sample)} :
    0 < callsOf key calls ↔ key ∈ RecordCall.keys calls := by
  rw [callsOf, List.count_pos_iff, RecordCall.keys, List.mem_toFinset]

/-- The total counts the calls: it grows by one with each of them, whatever
their keys are. -/
theorem totalSampleCount_recordFrom (calls : List (RecordCall Sample)) :
    (g.recordFrom opts calls).totalSampleCount = g.totalSampleCount + calls.length := by
  have hbefore : ∑ key ∈ g.routeKeys ∪ RecordCall.keys calls, g.countsFor key =
      g.totalSampleCount := by
    rw [totalSampleCount_eq]
    refine (Finset.sum_subset Finset.subset_union_left ?_).symm
    intro key _ hkey
    exact countsFor_of_not_mem hkey
  have hcalls : ∑ key ∈ g.routeKeys ∪ RecordCall.keys calls, callsOf key calls = calls.length := by
    have hsum : ∑ key ∈ RecordCall.keys calls, callsOf key calls = calls.length := by
      unfold callsOf RecordCall.keys
      rw [List.sum_toFinset_count_eq_length, List.length_map]
    rw [← hsum]
    refine (Finset.sum_subset Finset.subset_union_right ?_).symm
    intro key _ hkey
    have hzero := mt callsOf_pos.mp hkey
    omega
  rw [totalSampleCount_eq, routeKeys_recordFrom]
  simp only [countsFor_recordFrom]
  rw [Finset.sum_add_distrib, hbefore, hcalls]

/-- **The number of routes** stays if all calls are for known routes, and only
then, as routes are never removed. -/
theorem routeCount_recordFrom_eq_iff (calls : List (RecordCall Sample)) :
    (g.recordFrom opts calls).routeCount = g.routeCount ↔
      ∀ key ∈ RecordCall.keys calls, key ∈ g.routes := by
  rw [routeCount_eq, routeCount_eq, routeKeys_recordFrom]
  constructor
  · intro hcard key hkey
    have hgrow : g.routeKeys ⊆ g.routeKeys ∪ RecordCall.keys calls := Finset.subset_union_left
    have hsame := Finset.eq_of_subset_of_card_le hgrow hcard.le
    rw [← mem_routeKeys, hsame]
    exact Finset.mem_union_right _ hkey
  · intro hknown
    rw [Finset.union_eq_left.mpr fun key hkey => mem_routeKeys.mpr (hknown key hkey)]

/-- **The number of ready routes** stays if no route gets enough samples that
did not have them. -/
theorem routesMeetingMinSamples_recordFrom_eq_iff (calls : List (RecordCall Sample)) :
    (g.recordFrom opts calls).routesMeetingMinSamples opts = g.routesMeetingMinSamples opts ↔
      ∀ key, opts.minSamples ≤ g.countsFor key + callsOf key calls →
        opts.minSamples ≤ g.countsFor key := by
  have hpos := opts.minSamples_pos
  rw [routesMeetingMinSamples_eq, routesMeetingMinSamples_eq]
  simp only [routeKeys_recordFrom, countsFor_recordFrom]
  have hgrow : (g.routeKeys.filter fun key => opts.minSamples ≤ g.countsFor key) ⊆
      (g.routeKeys ∪ RecordCall.keys calls).filter fun key =>
        opts.minSamples ≤ g.countsFor key + callsOf key calls := by
    intro key hkey
    obtain ⟨hin, hready⟩ := Finset.mem_filter.mp hkey
    exact Finset.mem_filter.mpr ⟨Finset.mem_union_left _ hin, by omega⟩
  constructor
  · intro hcard key hready
    have hsame := Finset.eq_of_subset_of_card_le hgrow hcard.le
    have hin : key ∈ g.routeKeys ∪ RecordCall.keys calls := by
      by_contra hout
      obtain ⟨hold, hnew⟩ := not_or.mp (mt Finset.mem_union.mpr hout)
      have hzero := countsFor_of_not_mem hold
      have hnever := mt callsOf_pos.mp hnew
      omega
    have hfiltered : key ∈ (g.routeKeys ∪ RecordCall.keys calls).filter fun key =>
        opts.minSamples ≤ g.countsFor key + callsOf key calls :=
      Finset.mem_filter.mpr ⟨hin, hready⟩
    rw [← hsame] at hfiltered
    exact (Finset.mem_filter.mp hfiltered).2
  · intro hnone
    refine congrArg Finset.card (Finset.Subset.antisymm ?_ hgrow)
    intro key hkey
    have hready := hnone key (Finset.mem_filter.mp hkey).2
    refine Finset.mem_filter.mpr ⟨?_, hready⟩
    by_contra hout
    have hzero := countsFor_of_not_mem hout
    omega

/-- The least number of samples on a route stays: there are no calls, or some
route keeps that number and no new one stays below it. -/
def LeastKept (g : PersistedTrainStore Sample) (calls : List (RecordCall Sample)) : Prop :=
  calls = [] ∨ ∃ m, g.minRouteSampleCount = some m ∧
    (∀ key ∈ RecordCall.keys calls, key ∉ g.routes → m ≤ callsOf key calls) ∧
    ∃ key, (key ∈ g.routes ∨ key ∈ RecordCall.keys calls) ∧
      g.countsFor key + callsOf key calls = m

/-- When the smallest counter stays as it was: there were no calls, or no new
key came in below it and some key still counts just as many samples. -/
theorem minRouteSampleCount_recordFrom_eq_iff (calls : List (RecordCall Sample)) :
    (g.recordFrom opts calls).minRouteSampleCount = g.minRouteSampleCount ↔
      LeastKept g calls := by
  have hkeys : (g.recordFrom opts calls).routeKeys = g.routeKeys ∪ RecordCall.keys calls :=
    routeKeys_recordFrom calls
  constructor
  · intro hsame
    cases hleast : g.minRouteSampleCount with
    | none =>
        rw [hleast, minRouteSampleCount_eq_none, hkeys, Finset.union_eq_empty] at hsame
        have hempty := hsame.2
        rw [RecordCall.keys, List.toFinset_eq_empty_iff, List.map_eq_nil_iff] at hempty
        exact Or.inl hempty
    | some m =>
        rw [hleast, minRouteSampleCount_eq_some, hkeys] at hsame
        simp only [countsFor_recordFrom, Finset.mem_union] at hsame
        obtain ⟨⟨key, hkey, hcount⟩, hbound⟩ := hsame
        refine Or.inr ⟨m, hleast, ?_, key, hkey.imp_left mem_routeKeys.mp, hcount⟩
        intro key hcalled hnew
        have hzero := countsFor_of_not_mem (mt mem_routeKeys.mp hnew)
        have hle := hbound key (Or.inr hcalled)
        omega
  · rintro (rfl | ⟨m, hleast, hnew, key, hkey, hcount⟩)
    · rfl
    · have hold := (minRouteSampleCount_eq_some.mp hleast).2
      rw [hleast, minRouteSampleCount_eq_some, hkeys]
      simp only [countsFor_recordFrom, Finset.mem_union]
      refine ⟨⟨key, hkey.imp_left mem_routeKeys.mpr, hcount⟩, ?_⟩
      intro key hin
      by_cases hknown : key ∈ g.routeKeys
      · have hle := hold key hknown
        omega
      · have hcalled := hin.resolve_left hknown
        have hle := hnew key hcalled (mt mem_routeKeys.mpr hknown)
        omega

/-- The first of the calls after which training is done. -/
def completing (opts : TrainOptions) (g : PersistedTrainStore Sample) :
    List (RecordCall Sample) → Option (RecordCall Sample)
  | [] => none
  | call :: calls =>
      if checkTrainingDone opts (record opts g call) then some call
      else completing opts (record opts g call) calls

/-- The flag after a call: it was set before, or the condition holds of the
store with the new sample in it. -/
theorem record_flag (call : RecordCall Sample) :
    (record opts g call).trainingComplete =
      (g.trainingComplete || checkTrainingDone opts (record opts g call)) := by
  cases hflag : g.trainingComplete with
  | true => rw [record_of_complete hflag, hflag, Bool.true_or]
  | false =>
      cases hdone : checkTrainingDone opts (record opts g call) with
      | true => rw [(record_of_done hflag hdone).1, Bool.or_true]
      | false => rw [(record_of_not_done hflag hdone).1, Bool.or_false]

/-- Once the flag is up it stays, at its time. -/
theorem recordFrom_of_complete (h : g.trainingComplete = true)
    (calls : List (RecordCall Sample)) :
    (g.recordFrom opts calls).trainingComplete = true ∧
      (g.recordFrom opts calls).completedAtUnixMs = g.completedAtUnixMs := by
  induction calls generalizing g with
  | nil => exact ⟨h, rfl⟩
  | cons call calls ih =>
      have hstep : record opts g call = { g with routes := push g.routes call } :=
        record_of_complete h
      obtain ⟨hflag, htime⟩ := ih (g := record opts g call) (by rw [hstep]; exact h)
      refine ⟨hflag, htime.trans ?_⟩
      rw [hstep]

/-- **The flag** goes up with the completing call, at its time, and stays down
if there is none. -/
theorem recordFrom_of_incomplete (h : g.trainingComplete = false)
    (calls : List (RecordCall Sample)) :
    (g.recordFrom opts calls).trainingComplete = (completing opts g calls).isSome ∧
      (g.recordFrom opts calls).completedAtUnixMs =
        ((completing opts g calls).map fun call => some call.now).getD g.completedAtUnixMs := by
  induction calls generalizing g with
  | nil => exact ⟨h, rfl⟩
  | cons call calls ih =>
      have hstep : g.recordFrom opts (call :: calls) =
          (record opts g call).recordFrom opts calls := rfl
      rw [hstep, completing]
      cases hdone : checkTrainingDone opts (record opts g call) with
      | true =>
          obtain ⟨hflag, htime⟩ := record_of_done h hdone
          obtain ⟨hup, hstays⟩ := @recordFrom_of_complete _ opts _ hflag calls
          exact ⟨hup, hstays.trans htime⟩
      | false =>
          obtain ⟨hflag, htime⟩ := record_of_not_done h hdone
          obtain ⟨hup, hat⟩ := ih hflag
          rw [htime] at hat
          exact ⟨hup, hat⟩

/-- **The flag** stays if it is up or no call completes the training.  A status
request may therefore read it early. -/
theorem trainingComplete_recordFrom_eq_iff (calls : List (RecordCall Sample)) :
    (g.recordFrom opts calls).trainingComplete = g.trainingComplete ↔
      g.trainingComplete = true ∨ completing opts g calls = none := by
  cases hflag : g.trainingComplete with
  | true => simp [(@recordFrom_of_complete _ opts _ hflag calls).1]
  | false =>
      rw [(recordFrom_of_incomplete hflag calls).1]
      simp

/-- **The time** stays if the flag is up or no call completes the training at
another one. -/
theorem completedAtUnixMs_recordFrom_eq_iff (calls : List (RecordCall Sample)) :
    (g.recordFrom opts calls).completedAtUnixMs = g.completedAtUnixMs ↔
      g.trainingComplete = true ∨
        ∀ call, completing opts g calls = some call → g.completedAtUnixMs = some call.now := by
  cases hflag : g.trainingComplete with
  | true => simp [(@recordFrom_of_complete _ opts _ hflag calls).2]
  | false =>
      rw [(recordFrom_of_incomplete hflag calls).2]
      cases completing opts g calls with
      | none => simp
      | some call => simp [eq_comm]

/-- The flag is up whenever training is done. -/
def Settled (opts : TrainOptions) (g : PersistedTrainStore Sample) : Prop :=
  checkTrainingDone opts g = true → g.trainingComplete = true

/-- A fresh store is settled, because its condition fails: the thresholds are
positive and there are no samples. -/
theorem default_settled (opts : TrainOptions) :
    (default : PersistedTrainStore Sample).Settled opts := by
  intro hdone
  have hnone : RecordCall.Enough opts ([] : List (RecordCall Sample)) :=
    (checkTrainingDone_iff (g := default) rfl).mp hdone
  exact absurd hnone (RecordCall.not_enough_nil opts)

/-- After a call the store is settled, whatever it was like before, since each
call checks the condition again before it returns. -/
theorem record_settled (g : PersistedTrainStore Sample) (call : RecordCall Sample) :
    (record opts g call).Settled opts := by
  intro hdone
  rw [record_flag, hdone, Bool.or_true]

/-- A settled store stays settled along a list of calls: wherever the condition
holds, the flag is set. -/
theorem Settled.recordFrom (h : g.Settled opts) (calls : List (RecordCall Sample)) :
    (g.recordFrom opts calls).Settled opts := by
  induction calls generalizing g with
  | nil => exact h
  | cons call calls ih => exact ih (record_settled g call)

end PersistedTrainStore

end Zona
