import Mathlib.Data.List.AList

/-!
# Hash maps

`HashMap κ ν` is the standard map with unordered keys, taken as an association
list that carries the distinctness of its keys.  Iteration visits the entries
in list order; the order has no meaning, and a statement about all maps covers
every order.

`put` stores a value and keeps the place of a key that is there already, so
that storing what a map holds changes nothing (`put_self`); `retain` drops
entries.  `lookup_put`, `lookup_erase` and `lookup_of_retain` say what a reader
sees.
-/

/-- A finite map. -/
abbrev HashMap (κ ν : Type) := AList (fun _ : κ => ν)

namespace HashMap

variable {κ ν : Type} [DecidableEq κ]

/-- `map.values()`. -/
def values (m : HashMap κ ν) : List ν :=
  m.entries.map Sigma.snd

/-- `map.insert(k, v)`, and the assignment through an entry. -/
def put (m : HashMap κ ν) (k : κ) (v : ν) : HashMap κ ν :=
  if k ∈ m then m.replace k v else m.insert k v

/-- `map.retain(f)`. -/
def retain (f : κ → ν → Bool) (m : HashMap κ ν) : HashMap κ ν where
  entries := m.entries.filter fun e => f e.1 e.2
  nodupKeys := List.NodupKeys.sublist List.filter_sublist m.nodupKeys

/-- A value is found under a key exactly if the pair is an entry, since no key
occurs twice. -/
theorem lookup_eq_some {m : HashMap κ ν} {k : κ} {v : ν} :
    m.lookup k = some v ↔ ⟨k, v⟩ ∈ m.entries :=
  AList.mem_lookup_iff

/-- The values of a map are what some key is mapped to. -/
theorem mem_values {m : HashMap κ ν} {v : ν} : v ∈ m.values ↔ ∃ k, m.lookup k = some v := by
  simp [values, lookup_eq_some]

/-- A replacement in an association list, seen at any key. -/
theorem dlookup_kreplace (l : List (Sigma fun _ : κ => ν)) {k : κ} (v : ν) (k' : κ)
    (hk : k ∈ l.keys) :
    (l.kreplace k v).dlookup k' = if k' = k then some v else l.dlookup k' := by
  induction l with
  | nil => cases hk
  | cons e l ih =>
      obtain ⟨a, w⟩ := e
      by_cases ha : k = a
      · subst ha
        have hhead : List.kreplace k v (⟨k, w⟩ :: l) = ⟨k, v⟩ :: l := by
          simp [List.kreplace]
        rw [hhead]
        by_cases hk' : k' = k
        · subst hk'
          simp
        · rw [if_neg hk', List.dlookup_cons_ne _ _ hk', List.dlookup_cons_ne _ _ hk']
      · have htail : List.kreplace k v (⟨a, w⟩ :: l) = ⟨a, w⟩ :: List.kreplace k v l := by
          simp [List.kreplace, ha]
        have hin : k ∈ l.keys := by
          simpa [ha] using hk
        rw [htail]
        by_cases hk' : k' = a
        · subst hk'
          rw [List.dlookup_cons_eq, List.dlookup_cons_eq, if_neg (fun h => ha h.symm)]
        · rw [List.dlookup_cons_ne _ _ hk', List.dlookup_cons_ne _ _ hk', ih hin]

/-- A stored value seen at any key: under its own it is found, and under
another one nothing has changed. -/
theorem lookup_put {m : HashMap κ ν} {k k' : κ} {v : ν} :
    (m.put k v).lookup k' = if k' = k then some v else m.lookup k' := by
  unfold put
  by_cases hk : k ∈ m
  · rw [if_pos hk]
    exact dlookup_kreplace m.entries v k' (AList.mem_keys.mp hk)
  · rw [if_neg hk]
    by_cases hk' : k' = k
    · subst hk'
      simp
    · rw [if_neg hk', AList.lookup_insert_ne hk']

@[simp]
theorem lookup_put_self {m : HashMap κ ν} {k : κ} {v : ν} : (m.put k v).lookup k = some v := by
  rw [lookup_put, if_pos rfl]

/-- Storing under one key leaves the values of the others alone. -/
theorem lookup_put_of_ne {m : HashMap κ ν} {k k' : κ} {v : ν} (h : k' ≠ k) :
    (m.put k v).lookup k' = m.lookup k' := by
  rw [lookup_put, if_neg h]

/-- After storing, the keys are the ones before and the one stored. -/
theorem mem_put {m : HashMap κ ν} {k k' : κ} {v : ν} : k' ∈ m.put k v ↔ k' = k ∨ k' ∈ m := by
  rw [← AList.lookup_isSome, lookup_put, ← AList.lookup_isSome]
  by_cases h : k' = k
  · simp [h]
  · simp [h]

theorem mem_of_lookup {m : HashMap κ ν} {k : κ} {v : ν} (h : m.lookup k = some v) : k ∈ m := by
  rw [← AList.lookup_isSome, h]
  rfl

/-- Storing what the map holds already changes nothing, not even the order of
the entries. -/
theorem put_self {m : HashMap κ ν} {k : κ} {v : ν} (h : m.lookup k = some v) : m.put k v = m := by
  rw [put, if_pos (mem_of_lookup h)]
  exact AList.ext (List.kreplace_self m.nodupKeys (lookup_eq_some.mp h))

/-- What holds of every entry and of the stored one still holds of every entry. -/
theorem forall_put {P : κ → ν → Prop} {m : HashMap κ ν} {k : κ} {v : ν}
    (h : ∀ k' v', m.lookup k' = some v' → P k' v') (hv : P k v) :
    ∀ k' v', (m.put k v).lookup k' = some v' → P k' v' := by
  intro k' v' hlookup
  rw [lookup_put] at hlookup
  by_cases hk : k' = k
  · rw [if_pos hk, Option.some.injEq] at hlookup
    rw [hk, ← hlookup]
    exact hv
  · rw [if_neg hk] at hlookup
    exact h k' v' hlookup

/-- A map without one entry, seen at any key. -/
theorem lookup_erase (m : HashMap κ ν) (k k' : κ) :
    (m.erase k).lookup k' = if k' = k then none else m.lookup k' := by
  by_cases hk : k' = k
  · rw [if_pos hk, hk, AList.lookup_erase]
  · rw [if_neg hk, AList.lookup_erase_ne hk]

/-- What is left after erasing was there before, with the same value. -/
theorem lookup_of_erase {m : HashMap κ ν} {k k' : κ} {v : ν}
    (h : (m.erase k).lookup k' = some v) : m.lookup k' = some v := by
  rw [lookup_erase] at h
  by_cases hk : k' = k
  · rw [if_pos hk] at h
    cases h
  · rw [if_neg hk] at h
    exact h

/-- What satisfies the condition is retained with its value. -/
theorem lookup_retain_of_pos {f : κ → ν → Bool} {m : HashMap κ ν} {k : κ} {v : ν}
    (h : m.lookup k = some v) (hf : f k v = true) : (m.retain f).lookup k = some v :=
  lookup_eq_some.mpr (List.mem_filter.mpr ⟨lookup_eq_some.mp h, hf⟩)

/-- What is retained was there before with the same value. -/
theorem lookup_of_retain {f : κ → ν → Bool} {m : HashMap κ ν} {k : κ} {v : ν}
    (h : (m.retain f).lookup k = some v) : m.lookup k = some v := by
  have hmem : (⟨k, v⟩ : Sigma fun _ => ν) ∈ (m.retain f).entries := lookup_eq_some.mp h
  exact lookup_eq_some.mpr (List.mem_filter.mp hmem).1

/-- What is retained satisfies the condition.  With the two lemmas above this
determines the retained map. -/
theorem exists_of_mem_retain {f : κ → ν → Bool} {m : HashMap κ ν} {k : κ} (h : k ∈ m.retain f) :
    ∃ v, m.lookup k = some v ∧ f k v = true := by
  obtain ⟨v, hlookup⟩ := Option.isSome_iff_exists.mp (AList.lookup_isSome.mpr h)
  have hmem : (⟨k, v⟩ : Sigma fun _ => ν) ∈ (m.retain f).entries := lookup_eq_some.mp hlookup
  exact ⟨v, lookup_of_retain hlookup, (List.mem_filter.mp hmem).2⟩

/-- What a run of insertions leaves under a key: the last value stored there,
and otherwise what was there before. -/
theorem lookup_foldl_put {ε : Type} (key : ε → κ) (value : ε → ν) (es : List ε) (m : HashMap κ ν)
    (k : κ) :
    (es.foldl (fun out e => out.put (key e) (value e)) m).lookup k =
      ((es.reverse.find? fun e => key e = k).map value).or (m.lookup k) := by
  induction es generalizing m with
  | nil => rfl
  | cons e es ih =>
      rw [List.foldl_cons, ih, List.reverse_cons, List.find?_append, lookup_put]
      cases es.reverse.find? fun e => key e = k with
      | some found => rfl
      | none =>
          by_cases hk : k = key e
          · rw [if_pos hk, Option.none_or, List.find?_cons_of_pos (by simp [hk])]
            rfl
          · rw [if_neg hk, Option.none_or,
              List.find?_cons_of_neg (by simpa using fun h => hk h.symm)]
            rfl

end HashMap
