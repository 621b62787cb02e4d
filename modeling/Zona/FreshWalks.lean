import Mathlib.Data.Fintype.Card
import Mathlib.Data.Finset.Filter
import Mathlib.Logic.Relation

/-!
# Walks that avoid what was visited

The vertices of a relation have names, and a list of names is forbidden.  A
search that adds the name of every vertex it enters to the list finds whatever
a walk finds that avoids the list at the start: the walk can be made not to
come back to a vertex it has left.

`FreshWalk.explore` is the induction rule for such a search.
-/

namespace FreshWalk

open Relation

variable {κ ν : Type} {r : κ → κ → Prop} {name : κ → ν} {p q : List ν} {u v w : κ}

/-- Go on to a vertex whose name is not forbidden. -/
def Avoiding (r : κ → κ → Prop) (name : κ → ν) (p : List ν) (u v : κ) : Prop :=
  r u v ∧ name v ∉ p

/-- A walk that avoids many vertices avoids fewer of them too. -/
theorem Avoiding.mono (hsub : p ⊆ q) (h : Avoiding r name q u v) : Avoiding r name p u v :=
  ⟨h.1, fun hmem => h.2 (hsub hmem)⟩

/-- **A walk need not come back** to where it starts: the part before the last
return can be left out. -/
theorem not_returning (hname : Function.Injective name)
    (h : ReflTransGen (Avoiding r name p) u v) :
    ReflTransGen (Avoiding r name (p ++ [name u])) u v := by
  induction h with
  | refl => exact .refl
  | @tail b c init last ih =>
      by_cases hback : c = u
      · rw [hback]
      · refine ih.tail ⟨last.1, ?_⟩
        intro hmem
        rcases List.mem_append.mp hmem with hold | hnew
        · exact last.2 hold
        · exact hback (hname (List.mem_singleton.mp hnew))

section Finite

variable [Fintype κ] [DecidableEq ν]

/-- The vertices whose names are not forbidden. -/
def unvisited (name : κ → ν) (p : List ν) : Finset κ :=
  Finset.univ.filter fun v => name v ∉ p

/-- Entering a vertex uses it up, so the number of vertices left bounds the
length of a walk. -/
theorem card_unvisited_lt (h : name w ∉ p) :
    (unvisited name (p ++ [name w])).card < (unvisited name p).card := by
  refine Finset.card_lt_card (Finset.ssubset_iff_of_subset ?_ |>.mpr ⟨w, ?_, ?_⟩)
  · intro v hv
    exact Finset.mem_filter.mpr ⟨Finset.mem_univ v,
      fun hmem => (Finset.mem_filter.mp hv).2 (List.mem_append_left _ hmem)⟩
  · exact Finset.mem_filter.mpr ⟨Finset.mem_univ w, h⟩
  · intro hmem
    exact (Finset.mem_filter.mp hmem).2 (by simp)

/-- **Exploring.**  What holds at the goal under every list, and at a vertex
when it holds at a fresh neighbour under the longer list, holds wherever a walk
to the goal avoids the list. -/
theorem explore {motive : List ν → κ → Prop} {goal : κ} (hname : Function.Injective name)
    (hgoal : ∀ p, motive p goal)
    (hhop : ∀ p u w, Avoiding r name p u w → motive (p ++ [name w]) w → motive p u)
    (h : ReflTransGen (Avoiding r name p) u goal) : motive p u := by
  induction hleft : (unvisited name p).card using Nat.strong_induction_on generalizing p u with
  | _ left ih =>
      rcases ReflTransGen.cases_head h with rfl | ⟨w, hfirst, hrest⟩
      · exact hgoal p
      · refine hhop p u w hfirst (ih _ ?_ (not_returning hname hrest) rfl)
        rw [← hleft]
        exact card_unvisited_lt hfirst.2

end Finite

end FreshWalk
