import Zona.HashMaps

/-!
# Maps with other values

`mapValues` changes the values of a map and leaves its keys alone, so that it
goes along with `put` (`mapValues_put`).  `ofEntries` is the map that a list of
entries leaves when they are inserted in turn (`lookup_ofEntries`); from the
entries of a map it is the map again, value by value (`ofEntries_entries`).
-/

namespace HashMap

variable {κ ν ν' ν'' : Type}

/-- Changing values leaves the keys alone, so the entries still form a map. -/
theorem keys_map_entries (f : ν → ν') (es : List (Sigma fun _ : κ => ν)) :
    List.keys (es.map fun e => (⟨e.1, f e.2⟩ : Sigma fun _ : κ => ν')) = es.keys := by
  unfold List.keys
  rw [List.map_map]
  rfl

/-- The map with each value changed. -/
def mapValues (f : ν → ν') (m : HashMap κ ν) : HashMap κ ν' where
  entries := m.entries.map fun e => ⟨e.1, f e.2⟩
  nodupKeys := by
    unfold List.NodupKeys
    rw [keys_map_entries]
    exact m.nodupKeys

/-- The entries of the changed map are the changed entries, in the same order. -/
@[simp]
theorem entries_mapValues (f : ν → ν') (m : HashMap κ ν) :
    (m.mapValues f).entries = m.entries.map fun e => ⟨e.1, f e.2⟩ :=
  rfl

/-- The values of the changed map are the changed values, in the same order. -/
theorem values_mapValues (f : ν → ν') (m : HashMap κ ν) :
    (m.mapValues f).values = m.values.map f := by
  unfold values mapValues
  rw [List.map_map, List.map_map]
  rfl

/-- Two changes in a row are their composite, so a map that was written and
read again needs one change only. -/
theorem mapValues_mapValues (f : ν → ν') (g : ν' → ν'') (m : HashMap κ ν) :
    (m.mapValues f).mapValues g = m.mapValues (g ∘ f) := by
  apply AList.ext
  rw [entries_mapValues, entries_mapValues, entries_mapValues, List.map_map]
  rfl

variable [DecidableEq κ]

/-- Looking up in the changed map is looking up first and changing what was
found, if anything was. -/
theorem lookup_mapValues (f : ν → ν') (m : HashMap κ ν) (k : κ) :
    (m.mapValues f).lookup k = (m.lookup k).map f := by
  change (m.entries.map fun e => (⟨e.1, f e.2⟩ : Sigma fun _ : κ => ν')).dlookup k =
    (m.entries.dlookup k).map f
  induction m.entries with
  | nil => rfl
  | cons e es ih =>
      obtain ⟨a, v⟩ := e
      rw [List.map_cons]
      by_cases hk : k = a
      · subst hk
        rw [List.dlookup_cons_eq, List.dlookup_cons_eq]
        rfl
      · rw [List.dlookup_cons_ne _ _ hk, List.dlookup_cons_ne _ _ hk, ih]

/-- The changed map has the same keys as before. -/
theorem mem_mapValues (f : ν → ν') (m : HashMap κ ν) {k : κ} : k ∈ m.mapValues f ↔ k ∈ m := by
  rw [← AList.lookup_isSome, ← AList.lookup_isSome, lookup_mapValues, Option.isSome_map]

/-- Replacing the value of a key and changing all values can be done in either
order, on the level of the entries. -/
theorem map_kreplace (f : ν → ν') (k : κ) (v : ν) (es : List (Sigma fun _ : κ => ν)) :
    (es.kreplace k v).map (fun e => (⟨e.1, f e.2⟩ : Sigma fun _ : κ => ν')) =
      (es.map fun e => (⟨e.1, f e.2⟩ : Sigma fun _ : κ => ν')).kreplace k (f v) := by
  induction es with
  | nil => rfl
  | cons e es ih =>
      obtain ⟨a, w⟩ := e
      by_cases hk : k = a
      · subst hk
        simp [List.kreplace]
      · have hbefore : List.kreplace k v (⟨a, w⟩ :: es) = ⟨a, w⟩ :: es.kreplace k v := by
          simp [List.kreplace, hk]
        have hafter : List.kreplace k (f v)
            (⟨a, f w⟩ :: es.map fun e => (⟨e.1, f e.2⟩ : Sigma fun _ : κ => ν')) =
              ⟨a, f w⟩ :: List.kreplace k (f v)
                (es.map fun e => (⟨e.1, f e.2⟩ : Sigma fun _ : κ => ν')) := by
          simp [List.kreplace, hk]
        rw [hbefore, List.map_cons, List.map_cons, hafter, ih]

/-- **Values change along with the map.**  Inserting and then changing is
changing and then inserting the changed value. -/
theorem mapValues_put (f : ν → ν') (m : HashMap κ ν) (k : κ) (v : ν) :
    (m.put k v).mapValues f = (m.mapValues f).put k (f v) := by
  apply AList.ext
  unfold put
  by_cases hk : k ∈ m
  · rw [if_pos hk, if_pos ((mem_mapValues f m).mpr hk)]
    exact map_kreplace f k v m.entries
  · have hnot : k ∉ m.mapValues f := fun h => hk ((mem_mapValues f m).mp h)
    rw [if_neg hk, if_neg hnot, AList.entries_insert_of_notMem hnot, entries_mapValues,
      AList.entries_insert_of_notMem hk]
    rfl

/-- The map that has the last value given for each key. -/
def ofEntries (es : List (κ × ν)) : HashMap κ ν :=
  es.foldr (fun e m => if e.1 ∈ m then m else m.insert e.1 e.2) ∅

/-- The first entry counts only where no later one has its key, as later
insertions overwrite earlier ones. -/
theorem lookup_ofEntries_cons (e : κ × ν) (es : List (κ × ν)) (k : κ) :
    (ofEntries (e :: es)).lookup k =
      ((ofEntries es).lookup k).or (if e.1 = k then some e.2 else none) := by
  change (if e.1 ∈ ofEntries es then ofEntries es else (ofEntries es).insert e.1 e.2).lookup k = _
  by_cases hin : e.1 ∈ ofEntries es
  · rw [if_pos hin]
    by_cases hk : e.1 = k
    · subst hk
      obtain ⟨v, hv⟩ := Option.isSome_iff_exists.mp (AList.lookup_isSome.mpr hin)
      rw [hv]
      rfl
    · rw [if_neg hk, Option.or_none]
  · rw [if_neg hin]
    by_cases hk : e.1 = k
    · subst hk
      rw [AList.lookup_eq_none.mpr hin, if_pos rfl, AList.lookup_insert]
      rfl
    · rw [if_neg hk, Option.or_none, AList.lookup_insert_ne (fun h => hk h.symm)]

/-- A reader sees what the insertions leave, so a map that is read entry by
entry is the map of its insertions. -/
theorem lookup_ofEntries (es : List (κ × ν)) (k : κ) :
    (ofEntries es).lookup k = (es.foldl (fun (m : HashMap κ ν) e => m.put e.1 e.2) ∅).lookup k := by
  have hempty : (∅ : HashMap κ ν).lookup k = none := AList.lookup_empty k
  rw [lookup_foldl_put Prod.fst Prod.snd es ∅ k, hempty, Option.or_none]
  induction es with
  | nil => exact hempty
  | cons e es ih =>
      rw [lookup_ofEntries_cons, ih, List.reverse_cons, List.find?_append]
      cases es.reverse.find? fun e => e.1 = k with
      | some found => rfl
      | none =>
          by_cases hk : e.1 = k
          · simp [hk]
          · simp [hk]

/-- **The entries of a map make it again**, in the same order, with each value
changed on the way. -/
theorem ofEntries_entries (f : ν → ν') (m : HashMap κ ν) :
    ofEntries (m.entries.map fun e => (e.1, f e.2)) = m.mapValues f := by
  apply AList.ext
  have hnodup := m.nodupKeys
  rw [entries_mapValues]
  generalize m.entries = entries at hnodup
  induction entries with
  | nil => rfl
  | cons e es ih =>
      obtain ⟨hnew, hrest⟩ := List.nodupKeys_cons.mp hnodup
      have htail := ih hrest
      have hnot : e.1 ∉ ofEntries (es.map fun e => (e.1, f e.2)) := by
        intro hin
        have hkeys : e.1 ∈ (ofEntries (es.map fun e => (e.1, f e.2))).entries.keys :=
          AList.mem_keys.mp hin
        rw [htail, keys_map_entries] at hkeys
        exact hnew hkeys
      rw [List.map_cons, List.map_cons]
      change (if e.1 ∈ ofEntries (es.map fun e => (e.1, f e.2)) then _
        else (ofEntries (es.map fun e => (e.1, f e.2))).insert e.1 (f e.2)).entries = _
      rw [if_neg hnot, AList.entries_insert_of_notMem hnot, htail]

end HashMap
