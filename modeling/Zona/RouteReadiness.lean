import Zona.ProfilePanics
import Mathlib.Data.Finset.Sort
import Mathlib.Data.List.ReduceOption

/-!
# Which routes are ready

A route is ready if it has enough samples.  The two endpoints decide this in
different ways: `GET /mask-profiles` builds an entry for every route and drops
those that are not ready, `GET /signature-samples` builds entries for the ready
ones alone.  The store counts them once more.

All of them agree (`listed_maskProfiles`, `listed_signatureSamples`,
`length_readyKeys`), as far as both endpoints answer.
-/

namespace Zona

open PersistedTrainStore

namespace PersistedTrainStore

variable {opts : TrainOptions}

/-- The keys with enough samples, in order. -/
def readyKeys {Sample : Type} (opts : TrainOptions) (g : PersistedTrainStore Sample) :
    List String :=
  (g.routeKeys.filter fun key => opts.minSamples ≤ g.countsFor key).sort

variable {Sample : Type} {g : PersistedTrainStore Sample}

/-- A key is ready exactly if its counter reaches the threshold.  The threshold
is positive, so such a key has samples. -/
theorem mem_readyKeys {key : String} :
    key ∈ g.readyKeys opts ↔ opts.minSamples ≤ g.countsFor key := by
  rw [readyKeys, Finset.mem_sort, Finset.mem_filter, and_iff_right_iff_imp]
  intro henough
  by_contra hnone
  have hzero := countsFor_of_not_mem hnone
  have hpos := opts.minSamples_pos
  omega

/-- The counter of the store counts them: `routes_meeting_min_samples` runs
over the map in its own order, and the sorted list has each key once. -/
theorem length_readyKeys : (g.readyKeys opts).length = g.routesMeetingMinSamples opts := by
  rw [readyKeys, Finset.length_sort, routesMeetingMinSamples_eq]

/-- The counter of a key is the number of samples that the map holds under it,
so the handlers may count what they have read. -/
theorem countsFor_of_lookup {key : String} {samples : List Sample}
    (h : g.routes.lookup key = some samples) : g.countsFor key = samples.length := by
  rw [countsFor, h]
  rfl

/-- The keys of all routes, in order: what the handlers walk through is the
sorted set of keys, each of them once. -/
theorem map_fst_routesWithSamples : g.routesWithSamples.map Prod.fst = g.routeKeys.sort := by
  have hkeys : (g.routesWithSamples.map Prod.fst).Perm g.routes.keys := by
    have hperm := (List.perm_insertionSort (fun a b : String × List Sample => a.1 ≤ b.1)
      (g.routes.entries.map fun e => (e.1, e.2))).map Prod.fst
    rw [List.map_map] at hperm
    exact hperm
  have hnodup : (g.routesWithSamples.map Prod.fst).Nodup :=
    hkeys.nodup_iff.mpr g.routes.keys_nodup
  have hsorted : (g.routesWithSamples.map Prod.fst).Pairwise (· ≤ ·) := by
    have htotal : Std.Total fun a b : String × List Sample => a.1 ≤ b.1 :=
      ⟨fun a b => le_total a.1 b.1⟩
    have htrans : IsTrans (String × List Sample) fun a b => a.1 ≤ b.1 :=
      ⟨fun _ _ _ => le_trans⟩
    rw [List.pairwise_map]
    exact List.pairwise_insertionSort _ _
  have hset : (g.routesWithSamples.map Prod.fst).toFinset = g.routeKeys :=
    List.toFinset_eq_of_perm _ _ hkeys
  rw [← hset]
  exact ((List.toFinset_sort (· ≤ ·) hnodup).mpr hsorted).symm

/-- The ready ones among all keys, in order.  This is the list that both pages
and the counter are compared with. -/
theorem filter_keys_eq_readyKeys :
    ((g.routesWithSamples.map Prod.fst).filter fun key => opts.minSamples ≤ g.countsFor key) =
      g.readyKeys opts := by
  have hnodup : (g.routeKeys.sort.filter fun key => opts.minSamples ≤ g.countsFor key).Nodup :=
    (Finset.sort_nodup _ _).filter _
  have hsorted : (g.routeKeys.sort.filter fun key =>
      opts.minSamples ≤ g.countsFor key).Pairwise (· ≤ ·) :=
    (Finset.pairwise_sort _ _).filter _
  have hset : (g.routeKeys.sort.filter fun key => opts.minSamples ≤ g.countsFor key).toFinset =
      g.routeKeys.filter fun key => opts.minSamples ≤ g.countsFor key := by
    rw [List.toFinset_filter, Finset.sort_toFinset]
    simp only [decide_eq_true_eq]
  rw [map_fst_routesWithSamples, readyKeys, ← hset]
  exact ((List.toFinset_sort (· ≤ ·) hnodup).mpr hsorted).symm

/-- A route and its number of samples, if they are enough. -/
def shownRoute (opts : TrainOptions) (route : String × List Sample) : Option (String × Nat) :=
  if opts.minSamples ≤ route.2.length then some (route.1, route.2.length) else none

/-- **Of all routes**, the ready ones are shown, in order, with the number of
samples that the counter gives. -/
theorem shown_routesWithSamples :
    g.routesWithSamples.filterMap (shownRoute opts) =
      (g.readyKeys opts).map fun key => (key, g.countsFor key) := by
  have hshown : g.routesWithSamples.filterMap (shownRoute opts) =
      (g.routesWithSamples.map Prod.fst).filterMap fun key =>
        if opts.minSamples ≤ g.countsFor key then some (key, g.countsFor key) else none := by
    rw [List.filterMap_map]
    refine List.filterMap_congr ?_
    intro route hroute
    have hcount := countsFor_of_lookup (mem_routesWithSamples.mp hroute)
    rw [Function.comp_apply, hcount, shownRoute]
  rw [hshown, ← filter_keys_eq_readyKeys]
  generalize g.routesWithSamples.map Prod.fst = keys
  induction keys with
  | nil => rfl
  | cons key keys ih =>
      rw [List.filterMap_cons, List.filter_cons, ih]
      by_cases henough : opts.minSamples ≤ g.countsFor key
      · simp [henough]
      · simp [henough]

/-- The same route is shown, or not, if it is asked for. -/
theorem shownRoute_samplesFor (key : String) :
    shownRoute opts (key, (g.samplesFor key).getD []) =
      if key ∈ g.readyKeys opts then some (key, g.countsFor key) else none := by
  have hcount : ((g.samplesFor key).getD []).length = g.countsFor key := by
    rw [samplesFor, countsFor]
    cases g.routes.lookup key with
    | none => rfl
    | some samples => rfl
  simp only [shownRoute, hcount, mem_readyKeys]

end PersistedTrainStore

/-- The routes that are asked for, as far as they are ready. -/
def readyRoutes {Sample : Type} (opts : TrainOptions) (g : PersistedTrainStore Sample)
    (q : MaskProfilesQuery) : List (String × Nat) :=
  if isSpecificRouteKey q then
    if q.key ∈ g.readyKeys opts then [(q.key, g.countsFor q.key)] else []
  else (g.readyKeys opts).map fun key => (key, g.countsFor key)

section Listings

variable {F : Type} [FloatOps F] {opts : TrainOptions} {exp : F → F} {rng : Randomness F}
  {g : PersistedTrainStore (Sample F)} {q : MaskProfilesQuery}

def MaskProfilesResponse.listed (r : MaskProfilesResponse F) : List (String × Nat) :=
  r.routes.map fun e => (e.routeKey, e.sampleCount)

def SignatureSamplesResponse.listed (r : SignatureSamplesResponse) : List (String × Nat) :=
  r.routes.map fun e => (e.routeKey, e.sampleCount)

/-- What a ready entry shows. -/
def MaskProfilesRouteEntry.shown (e : MaskProfilesRouteEntry F) : Option (String × Nat) :=
  if e.ready then some (e.routeKey, e.sampleCount) else none

/-- What an entry of the profile page shows of its route: the key and the
number of samples if the threshold is met, and nothing otherwise. -/
theorem entryForSamples_shown {key : String} {samples : List (Sample F)}
    {e : MaskProfilesRouteEntry F} (h : entryForSamples exp key samples opts.minSamples = .ok e) :
    e.shown = shownRoute opts (key, samples) := by
  unfold entryForSamples at h
  dsimp only at h
  by_cases henough : opts.minSamples ≤ samples.length
  · rw [if_pos (decide_eq_true henough)] at h
    obtain ⟨variants, hvariants, -⟩ := noPanic_bind.mp ⟨e, h⟩
    rw [hvariants] at h
    cases h
    rw [MaskProfilesRouteEntry.shown, shownRoute, if_pos henough, if_pos (decide_eq_true henough)]
  · have hflag : ¬ decide (opts.minSamples ≤ samples.length) = true := by
      rwa [decide_eq_true_eq]
    rw [if_neg hflag] at h
    cases h
    rw [MaskProfilesRouteEntry.shown, shownRoute, if_neg henough, if_neg hflag]

/-- The signature page shows the same of a route as the profile page does,
although it makes its decision before the entry is built. -/
theorem entryForRoute_shown {key : String} {samples : List (Sample F)}
    {e : Option SignatureRouteEntry}
    (h : entryForRoute exp rng key samples opts.minSamples = .ok e) :
    e.map (fun e => (e.routeKey, e.sampleCount)) = shownRoute opts (key, samples) := by
  unfold entryForRoute at h
  dsimp only at h
  by_cases hmin : opts.minSamples ≤ samples.length
  · rw [if_neg (by omega)] at h
    obtain ⟨variants, hvariants, hrest⟩ := noPanic_bind.mp ⟨e, h⟩
    obtain ⟨dtos, hdtos, -⟩ := noPanic_bind.mp hrest
    rw [hvariants] at h
    simp only [bind, Except.bind, hdtos] at h
    cases h
    rw [shownRoute, if_pos hmin]
    rfl
  · rw [if_pos (by omega)] at h
    cases h
    rw [shownRoute, if_neg hmin]
    rfl

omit [FloatOps F] in
/-- Dropping the entries that are not ready and then reading off the routes is
reading off what the entries show. -/
theorem map_filter_ready (entries : List (MaskProfilesRouteEntry F)) :
    (entries.filter MaskProfilesRouteEntry.ready).map (fun e => (e.routeKey, e.sampleCount)) =
      entries.filterMap MaskProfilesRouteEntry.shown := by
  induction entries with
  | nil => rfl
  | cons e entries ih =>
      rw [List.filter_cons, List.filterMap_cons, ← ih, MaskProfilesRouteEntry.shown]
      cases e.ready <;> rfl

/-- **`GET /mask-profiles`** lists the ready routes: all of them in order, or
the one that was asked for if it is among them. -/
theorem listed_maskProfiles {r : MaskProfilesResponse F} (h : maskProfiles opts exp g q = .ok r) :
    r.listed = readyRoutes opts g q := by
  by_cases hspecific : isSpecificRouteKey q = true
  · rw [maskProfiles_specific hspecific] at h
    obtain ⟨e, he, -⟩ := noPanic_bind.mp ⟨r, h⟩
    have hshown := entryForSamples_shown he
    rw [shownRoute_samplesFor, MaskProfilesRouteEntry.shown] at hshown
    rw [he] at h
    cases h
    rw [readyRoutes, if_pos hspecific, MaskProfilesResponse.listed]
    by_cases hready : q.key ∈ g.readyKeys opts
    · rw [if_pos hready] at hshown ⊢
      cases hflag : e.ready <;> simp [hflag] at hshown ⊢
      exact hshown
    · rw [if_neg hready] at hshown ⊢
      cases hflag : e.ready <;> simp [hflag] at hshown ⊢
  · rw [maskProfiles_all hspecific] at h
    obtain ⟨entries, hentries, -⟩ := noPanic_bind.mp ⟨r, h⟩
    rw [hentries] at h
    cases h
    have hpointwise := map_eq_of_forall₂ (forall₂_of_mapM_ok hentries)
      fun route e he => entryForSamples_shown he
    rw [readyRoutes, if_neg hspecific, ← shown_routesWithSamples, MaskProfilesResponse.listed,
      map_filter_ready]
    have hreduce := congrArg List.reduceOption hpointwise
    simpa [List.reduceOption, List.filterMap_map] using hreduce

/-- **`GET /signature-samples`** lists the same ones, if it answers: synthesis
may panic, but it leaves no ready route out. -/
theorem listed_signatureSamples {r : SignatureSamplesResponse}
    (h : signatureSamples opts exp rng g q = .ok r) : r.listed = readyRoutes opts g q := by
  by_cases hspecific : isSpecificRouteKey q = true
  · rw [signatureSamples_specific hspecific] at h
    obtain ⟨e, he, -⟩ := noPanic_bind.mp ⟨r, h⟩
    have hshown := entryForRoute_shown he
    rw [shownRoute_samplesFor] at hshown
    rw [he] at h
    cases h
    rw [readyRoutes, if_pos hspecific, SignatureSamplesResponse.listed]
    by_cases hready : q.key ∈ g.readyKeys opts
    · rw [if_pos hready] at hshown ⊢
      cases e with
      | none => cases hshown
      | some e =>
          rw [Option.map_some, Option.some.injEq] at hshown
          rw [Option.toList_some, List.map_singleton, hshown]
    · rw [if_neg hready] at hshown ⊢
      rw [Option.map_eq_none_iff.mp hshown]
      rfl
  · rw [signatureSamples_all hspecific] at h
    obtain ⟨entries, hentries, -⟩ := noPanic_bind.mp ⟨r, h⟩
    rw [hentries] at h
    cases h
    have hpointwise := map_eq_of_forall₂ (forall₂_of_mapM_ok hentries)
      fun route e he => entryForRoute_shown he
    rw [readyRoutes, if_neg hspecific, ← shown_routesWithSamples, SignatureSamplesResponse.listed,
      ← List.reduceOption_map, hpointwise]
    simp [List.reduceOption, List.filterMap_map]

end Listings

/-- **Readiness is the same everywhere**, as far as both endpoints answer.  The
ready keys are those with enough samples, in order and without repetition, and
the store counts as many; `GET /mask-profiles` lists them, or the one that was
asked for if it is among them.  `GET /signature-samples` lists the same if and
only if the lengths of the listed routes fit. -/
theorem readiness_iff (opts : TrainOptions) (exp : Binary64 → Binary64)
    (rng : Randomness Binary64) {g : PersistedTrainStore (Sample Binary64)}
    (hg : g.Every Sample.Decoded) (q : MaskProfilesQuery) :
    (g.readyKeys opts).Pairwise (· < ·) ∧
      (∀ key, key ∈ g.readyKeys opts ↔ opts.minSamples ≤ g.countsFor key) ∧
      (g.readyKeys opts).length = g.routesMeetingMinSamples opts ∧
      ∃ profiles, maskProfiles opts exp g q = .ok profiles ∧
        profiles.listed = readyRoutes opts g q ∧
        ((∃ signatures, signatureSamples opts exp rng g q = .ok signatures ∧
            signatures.listed = profiles.listed) ↔
          ∀ key samples, ListedRoute opts g q key samples → LengthsFit samples) := by
  obtain ⟨profiles, hprofiles⟩ := @noPanic_maskProfiles opts exp g hg q
  have hlisted := listed_maskProfiles hprofiles
  refine ⟨(Finset.sortedLT_sort _).pairwise, fun key => mem_readyKeys, length_readyKeys, profiles,
    hprofiles, hlisted, ?_⟩
  rw [← @noPanic_signatureSamples opts exp g hg rng q]
  constructor
  · intro hgiven
    obtain ⟨signatures, hsignatures, -⟩ := hgiven
    exact ⟨signatures, hsignatures⟩
  · intro hgiven
    obtain ⟨signatures, hsignatures⟩ := hgiven
    exact ⟨signatures, hsignatures, (listed_signatureSamples hsignatures).trans hlisted.symm⟩

/-- After one upload of usual size, both endpoints list its route. -/
theorem upload_listed_twice : ∃ profiles signatures,
    maskProfiles oneSample (fun x => x) (default.taught oneSample formUrlencoded
      [(uploadOf 1000, 7)]) everyRoute = .ok profiles ∧
    signatureSamples oneSample (fun x => x) (fun _ _ _ => leastDraws)
      (default.taught oneSample formUrlencoded [(uploadOf 1000, 7)]) everyRoute = .ok signatures ∧
    signatures.listed = profiles.listed ∧ profiles.listed = [("POST|/upload", 1)] := by
  have hdecoded : (default.taught oneSample formUrlencoded [(uploadOf 1000, 7)]).Every
      Sample.Decoded := by
    refine every_default.taught ?_
    intro body hbody
    rw [List.mem_singleton.mp hbody]
    exact decoded_teach (decoded_uploadOf 1000) 7
  have hshort : (default.taught oneSample formUrlencoded [(uploadOf 1000, 7)]).Every
      Sample.Short :=
    every_default.taught (by decide +kernel)
  obtain ⟨-, -, -, profiles, hprofiles, hlisted, hboth⟩ := readiness_iff oneSample (fun x => x)
    (fun _ _ _ => leastDraws) hdecoded everyRoute
  obtain ⟨signatures, hsignatures, hsame⟩ := hboth.mpr fun key samples hroute =>
    lengthsFit_of_le (hshort key samples hroute.stored)
  refine ⟨profiles, signatures, hprofiles, hsignatures, hsame, hlisted.trans ?_⟩
  decide +kernel

/-- After one upload of the largest length, only one of them does. -/
theorem upload_listed_once :
    (maskProfiles oneSample (fun x => x) (default.taught oneSample formUrlencoded
      [(uploadOf 18446744073709551615, 7)]) everyRoute).map MaskProfilesResponse.listed =
        .ok [("POST|/upload", 1)] ∧
    (signatureSamples oneSample (fun x => x) (fun _ _ _ => leastDraws)
      (default.taught oneSample formUrlencoded [(uploadOf 18446744073709551615, 7)]) everyRoute).map
        SignatureSamplesResponse.listed = .error .capacityOverflow := by
  decide +kernel

end Zona
