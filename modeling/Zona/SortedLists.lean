import Mathlib.Data.List.Sort

/-!
# Sorted lists

Sorting forgets the order of a list and nothing else
(`insertionSort_eq_iff_perm`), and puts a least element first
(`le_of_insertionSort_eq_cons`).
-/

section Total

variable {α : Type} {r : α → α → Prop} [DecidableRel r] [Std.Total r] [IsTrans α r]
  [Std.Antisymm r]

/-- Two lists sort alike exactly when they have the same elements. -/
theorem insertionSort_eq_iff_perm {l l' : List α} :
    l.insertionSort r = l'.insertionSort r ↔ l.Perm l' := by
  constructor
  · intro h
    have hperm := List.perm_insertionSort r l
    rw [h] at hperm
    exact hperm.symm.trans (List.perm_insertionSort r l')
  · intro h
    have hperm := ((List.perm_insertionSort r l).trans h).trans (List.perm_insertionSort r l').symm
    exact hperm.eq_of_pairwise' (List.pairwise_insertionSort r l) (List.pairwise_insertionSort r l')

end Total

section Least

variable {α β : Type} [LinearOrder β]

/-- The head of a list sorted by `f` has the least value of `f`. -/
theorem le_of_insertionSort_eq_cons {f : α → β} {l rest : List α} {a : α}
    (h : (l.insertionSort fun x y => f x ≤ f y) = a :: rest) :
    a ∈ l ∧ ∀ b ∈ l, f a ≤ f b := by
  have hsorted := List.pairwise_insertionSort (fun x y => f x ≤ f y) l
  rw [h] at hsorted
  obtain ⟨hbelow, -⟩ := List.pairwise_cons.mp hsorted
  have hmem : ∀ b, b ∈ a :: rest ↔ b ∈ l := by
    intro b
    rw [← h]
    exact List.mem_insertionSort _
  refine ⟨(hmem a).mp List.mem_cons_self, ?_⟩
  intro b hb
  rcases List.mem_cons.mp ((hmem b).mpr hb) with rfl | hin
  · exact le_refl _
  · exact hbelow b hin

end Least
