import Mathlib.Data.List.Forall2
import Mathlib.Tactic.Common
import Mathlib.Tactic.SplitIfs

/-!
# Code that may panic

Code that would panic returns an error that names the check that failed.
`NoPanic` says that it does not: a sequence of steps does not panic if none of
them does (`noPanic_bind`, `noPanic_mapM`).
-/

/-- The check that fails. -/
inductive Panic
  | unwrapNone
  | indexOutOfBounds
  | subtractOverflow
  | capacityOverflow
  deriving DecidableEq

/-- `v[i]`. -/
def index {α : Type} (v : List α) (i : Nat) : Except Panic α :=
  match v[i]? with
  | some a => .ok a
  | none => .error .indexOutOfBounds

/-- Indexing inside the vector gives the element.  Everywhere else it is the
panic that ends the request. -/
theorem index_of_lt {α : Type} {v : List α} {i : Nat} (h : i < v.length) :
    index v i = .ok v[i] := by
  rw [index, List.getElem?_eq_getElem h]

/-- `a - b`. -/
def checkedSub (a b : Nat) : Except Panic Nat :=
  if b ≤ a then .ok (a - b) else .error .subtractOverflow

/-- `isize::MAX` of a 64-bit target. -/
def isizeMax : Nat := 0x7FFFFFFFFFFFFFFF

/-- The check of `Vec::with_capacity` for bytes; memory does not run out. -/
def checkCapacity (n : Nat) : Except Panic Unit :=
  if n ≤ isizeMax then .ok () else .error .capacityOverflow

/-- `out.extend_from_slice(tail)`: a vector of bytes has no more than `isize::MAX`. -/
def extendFromSlice {α : Type} (out tail : List α) : Except Panic (List α) := do
  checkCapacity (out.length + tail.length)
  return out ++ tail

/-- Steps that all succeed: then the whole list does, and what is known of the
result of each step is known along the list. -/
theorem exists_mapM_ok {ε α β : Type} {f : α → Except ε β} {P : α → β → Prop} {l : List α}
    (h : ∀ x ∈ l, ∃ y, f x = .ok y ∧ P x y) :
    ∃ ys, l.mapM f = .ok ys ∧ List.Forall₂ P l ys := by
  induction l with
  | nil => exact ⟨[], rfl, .nil⟩
  | cons x l ih =>
      obtain ⟨⟨y, hy, hP⟩, hrest⟩ := List.forall_mem_cons.mp h
      obtain ⟨ys, hys, hall⟩ := ih hrest
      refine ⟨y :: ys, ?_, .cons hP hall⟩
      rw [List.mapM_cons, hy, hys]
      rfl

/-- Steps that all succeed, with known results, give the list of these results. -/
theorem mapM_ok {ε α β : Type} {f : α → Except ε β} {g : α → β} {l : List α}
    (h : ∀ x ∈ l, f x = .ok (g x)) : l.mapM f = .ok (l.map g) := by
  induction l with
  | nil => rfl
  | cons x l ih =>
      obtain ⟨hx, hrest⟩ := List.forall_mem_cons.mp h
      rw [List.mapM_cons, hx, ih hrest]
      rfl

theorem mapM_congr {ε α β : Type} {f g : α → Except ε β} {l : List α}
    (h : ∀ x ∈ l, f x = g x) : l.mapM f = l.mapM g := by
  induction l with
  | nil => rfl
  | cons x l ih =>
      obtain ⟨hx, hrest⟩ := List.forall_mem_cons.mp h
      rw [List.mapM_cons, List.mapM_cons, hx, ih hrest]

/-- The code does not panic. -/
def NoPanic {α : Type} (x : Except Panic α) : Prop :=
  ∃ a, x = .ok a

section NoPanic

variable {α β : Type} {x : Except Panic α} {f : α → Except Panic β}

/-- A result is no panic.  With the next lemma this decides the two ends of a
computation. -/
theorem noPanic_ok (a : α) : NoPanic (.ok a : Except Panic α) :=
  ⟨a, rfl⟩

theorem not_noPanic_error (e : Panic) : ¬ NoPanic (.error e : Except Panic α) := by
  intro hgiven
  obtain ⟨a, ha⟩ := hgiven
  cases ha

/-- Two steps in a row do not panic exactly if the first one has a result and
the second one does not panic on it. -/
theorem noPanic_bind : NoPanic (x >>= f) ↔ ∃ a, x = .ok a ∧ NoPanic (f a) := by
  cases x with
  | error e =>
      constructor
      · exact fun h => absurd h (not_noPanic_error e)
      · intro hgiven
        obtain ⟨a, ha, -⟩ := hgiven
        cases ha
  | ok a =>
      constructor
      · exact fun h => ⟨a, rfl, h⟩
      · intro hgiven
        obtain ⟨a', ha, h⟩ := hgiven
        cases ha
        exact h

/-- If two steps in a row do not panic, then neither does the first. -/
theorem NoPanic.of_bind (h : NoPanic (x >>= f)) : NoPanic x := by
  obtain ⟨a, ha, -⟩ := noPanic_bind.mp h
  exact ⟨a, ha⟩

/-- What follows does not panic either, whatever the first step returned: then
the first step alone decides. -/
theorem noPanic_bind_iff (hf : ∀ a, x = .ok a → NoPanic (f a)) :
    NoPanic (x >>= f) ↔ NoPanic x := by
  refine ⟨NoPanic.of_bind, ?_⟩
  intro hgiven
  obtain ⟨a, ha⟩ := hgiven
  exact noPanic_bind.mpr ⟨a, ha, hf a ha⟩

/-- Wrapping a result in a record, as the handlers do in their last line, adds
no panic and hides none. -/
theorem noPanic_bind_pure (g : α → β) : NoPanic (x >>= fun a => pure (g a)) ↔ NoPanic x :=
  noPanic_bind_iff fun a _ => noPanic_ok (g a)

/-- Steps along a list do not panic exactly if none of them does. -/
theorem noPanic_mapM {l : List α} : NoPanic (l.mapM f) ↔ ∀ a ∈ l, NoPanic (f a) := by
  induction l with
  | nil => exact iff_of_true (noPanic_ok []) fun a ha => absurd ha List.not_mem_nil
  | cons a l ih =>
      rw [List.mapM_cons, List.forall_mem_cons, ← ih, noPanic_bind]
      constructor
      · intro hgiven
        obtain ⟨b, hb, hrest⟩ := hgiven
        obtain ⟨bs, hbs, -⟩ := noPanic_bind.mp hrest
        exact ⟨⟨b, hb⟩, bs, hbs⟩
      · intro hgiven
        obtain ⟨⟨b, hb⟩, bs, hbs⟩ := hgiven
        refine ⟨b, hb, ?_⟩
        rw [hbs]
        exact noPanic_ok _

/-- The results of steps that all succeeded stand in the order of their
arguments, one for each. -/
theorem forall₂_of_mapM_ok {l : List α} {bs : List β} (h : l.mapM f = .ok bs) :
    List.Forall₂ (fun a b => f a = .ok b) l bs := by
  induction l generalizing bs with
  | nil =>
      cases h
      exact .nil
  | cons a l ih =>
      rw [List.mapM_cons] at h
      cases ha : f a with
      | error e =>
          rw [ha] at h
          cases h
      | ok b =>
          cases hl : l.mapM f with
          | error e =>
              rw [ha, hl] at h
              cases h
          | ok rest =>
              rw [ha, hl] at h
              cases h
              exact .cons ha (ih hl)

/-- There are as many results as arguments, so a list that was mapped can be
indexed like the one it came from. -/
theorem length_of_mapM_ok {l : List α} {bs : List β} (h : l.mapM f = .ok bs) :
    bs.length = l.length :=
  (forall₂_of_mapM_ok h).length_eq.symm

theorem noPanic_index {v : List α} {i : Nat} (h : i < v.length) : NoPanic (index v i) :=
  ⟨v[i], index_of_lt h⟩

/-- Making a vector panics exactly if the capacity exceeds `isize::MAX` bytes.
Memory is not limited here in any other way. -/
theorem noPanic_checkCapacity {n : Nat} : NoPanic (checkCapacity n) ↔ n ≤ isizeMax := by
  unfold checkCapacity
  split_ifs with hn
  · exact iff_of_true (noPanic_ok ()) hn
  · exact iff_of_false (not_noPanic_error _) hn

end NoPanic

theorem map_eq_of_forall₂ {α β γ : Type} {P : α → β → Prop} {f : α → γ} {g : β → γ} {l : List α}
    {l' : List β} (h : List.Forall₂ P l l') (hP : ∀ x y, P x y → g y = f x) :
    l'.map g = l.map f := by
  induction h with
  | nil => rfl
  | cons hhead _ ih => rw [List.map_cons, List.map_cons, hP _ _ hhead, ih]
