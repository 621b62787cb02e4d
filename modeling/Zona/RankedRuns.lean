import Zona.LabelledRuns
import Mathlib.Algebra.GroupWithZero.Nat
import Mathlib.Data.Fintype.Card
import Mathlib.Order.WellFounded

/-!
# Runs that lose rank

A system whose states have a rank that every step lowers visits no state twice,
stays within the number of its states, and comes to rest whatever labels it is
offered.  Where only some steps cost something, and what they cost is taken
from a potential, the potential at the start pays for the whole run.
-/

namespace Trace

variable {σ ι β : Type} {step : σ → ι → σ → Prop} {s t : σ} {es : List (Transition σ ι)}

/-- The states a run visits, in order. -/
def visited (s : σ) (es : List (Transition σ ι)) : List σ :=
  s :: es.map Transition.after

/-- The states visited with one more transition are those before it and the one
that it leads to. -/
theorem visited_snoc (s : σ) (es : List (Transition σ ι)) (e : Transition σ ι) :
    visited s (es ++ [e]) = visited s es ++ [e.after] := by
  simp [visited]

/-- A run ends in the last state it visits. -/
theorem mem_visited (h : Trace step s es t) : t ∈ visited s es := by
  cases h with
  | nil => exact List.mem_cons_self
  | snoc init last => simp [visited]

section Rank

variable [Preorder β] {rank : σ → β}

/-- **Losing rank.**  Later states have a lower rank than earlier ones, so a
run cannot be longer than the first rank. -/
theorem pairwise_visited (hrank : ∀ t i u, step t i u → rank u < rank t)
    (h : Trace step s es t) :
    (visited s es).Pairwise (fun a b => rank b < rank a) ∧
      ∀ a ∈ visited s es, rank t ≤ rank a := by
  induction h with
  | nil => simp [visited]
  | @snoc t u i es init last ih =>
      obtain ⟨hpairs, hleast⟩ := ih
      have hless := hrank t i u last
      rw [visited_snoc]
      refine ⟨?_, ?_⟩
      · refine List.pairwise_append.mpr ⟨hpairs, List.pairwise_singleton _ _, ?_⟩
        intro a ha b hb
        rw [List.mem_singleton.mp hb]
        exact lt_of_lt_of_le hless (hleast a ha)
      · intro a ha
        rcases List.mem_append.mp ha with hold | hnew
        · exact le_of_lt (lt_of_lt_of_le hless (hleast a hold))
        · rw [List.mem_singleton.mp hnew]

/-- If every step lowers a rank, no state is visited twice. -/
theorem nodup_visited (hrank : ∀ t i u, step t i u → rank u < rank t)
    (h : Trace step s es t) : (visited s es).Nodup := by
  refine (pairwise_visited hrank h).1.imp ?_
  intro a b hless heq
  rw [heq] at hless
  exact lt_irrefl _ hless

/-- A run takes fewer steps than there are states. -/
theorem length_lt_card [Fintype σ] (hrank : ∀ t i u, step t i u → rank u < rank t)
    (h : Trace step s es t) : es.length < Fintype.card σ := by
  have hlength := (nodup_visited hrank h).length_le_card
  rw [visited, List.length_cons, List.length_map] at hlength
  exact hlength

/-- **Coming to rest.**  Offered a label at every step, by the number of the
step and the state it is in, the system stops somewhere. -/
theorem exists_rest [WellFoundedLT β] (hrank : ∀ t i u, step t i u → rank u < rank t)
    (offer : Nat → σ → ι) (n : Nat) (s : σ) :
    ∃ es t, Trace step s es t ∧
      (∀ k e, es[k]? = some e → e.label = offer (n + k) e.before) ∧
        ∀ u, ¬ step t (offer (n + es.length) t) u := by
  induction hlevel : rank s using WellFoundedLT.induction generalizing n s with
  | _ level ih =>
      by_cases hstuck : ∃ u, step s (offer n s) u
      · obtain ⟨u, hstep⟩ := hstuck
        obtain ⟨es, t, run, hlabels, hrest⟩ :=
          ih (rank u) (hlevel ▸ hrank s _ u hstep) (n + 1) u rfl
        refine ⟨⟨s, offer n s, u⟩ :: es, t, cons hstep run, ?_, ?_⟩
        · intro k e hk
          cases k with
          | zero =>
              rw [List.getElem?_cons_zero, Option.some.injEq] at hk
              rw [← hk, Nat.add_zero]
          | succ k =>
              rw [List.getElem?_cons_succ] at hk
              rw [hlabels k e hk, Nat.add_right_comm, Nat.add_assoc]
        · rw [List.length_cons, ← Nat.add_assoc, Nat.add_right_comm]
          exact hrest
      · exact ⟨[], s, nil, by simp, fun u hu => hstuck ⟨u, hu⟩⟩

end Rank

/-- **Potentials.**  A run whose every step pays its cost out of the potential
costs no more than the potential it starts with. -/
theorem sum_cost_le (cost : Transition σ ι → Nat) (potential : σ → Nat)
    (h : Trace step s es t)
    (hpays : ∀ e ∈ es, cost e + potential e.after ≤ potential e.before) :
    (es.map cost).sum + potential t ≤ potential s := by
  induction h with
  | nil => simp
  | @snoc t u i es init last ih =>
      have hinit := ih (fun e he => hpays e (List.mem_append_left _ he))
      have hlast : cost ⟨t, i, u⟩ + potential u ≤ potential t := hpays ⟨t, i, u⟩ (by simp)
      rw [List.map_append, List.sum_append_nat, List.map_singleton, List.sum_singleton]
      omega

end Trace
