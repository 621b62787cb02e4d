import Mathlib.Tactic.Common

/-!
# Rounds of messages

A system works in rounds.  In each round everything that waits in its queue is
handled, and what handling it gives rise to waits for the next round.

`Rounds.exists_empty` is the rule for quiescence: when every waiting message
stems from one of the round before, and has a smaller rank, the queue runs
empty.  `Rounds.never_empty` is the rule for the opposite: some message is
alive, and a live one gives rise to another.
-/

namespace Rounds

variable {σ μ : Type}

/-- The state after some rounds; the rounds need not be alike. -/
def after (step : Nat → σ → σ) (s : σ) : Nat → σ
  | 0 => s
  | k + 1 => step k (after step s k)

variable {step : Nat → σ → σ} {queue : σ → List μ} {inv : σ → Prop} {s : σ}

/-- What every round preserves holds after all of them. -/
theorem invariant (hstep : ∀ k t, inv t → inv (step k t)) (hs : inv s) (k : Nat) :
    inv (after step s k) := by
  induction k with
  | zero => exact hs
  | succ k ih => exact hstep k _ ih

section Quiescence

variable {rank : μ → Nat}

/-- What waits after some rounds has lost as much of its rank. -/
theorem rank_add_le (hstep : ∀ k t, inv t → inv (step k t))
    (hrank : ∀ k t, inv t → ∀ m ∈ queue (step k t), ∃ m' ∈ queue t, rank m < rank m')
    (hs : inv s) {bound : Nat} (hbound : ∀ m ∈ queue s, rank m ≤ bound) (k : Nat) :
    ∀ m ∈ queue (after step s k), rank m + k ≤ bound := by
  induction k with
  | zero => exact hbound
  | succ k ih =>
      intro m hm
      obtain ⟨m', hm', hless⟩ := hrank k _ (invariant hstep hs k) m hm
      have hbefore := ih m' hm'
      omega

/-- The ranks in a list are bounded, so a queue dies out after that many
rounds. -/
theorem exists_bound (rank : μ → Nat) (l : List μ) : ∃ bound, ∀ m ∈ l, rank m ≤ bound := by
  induction l with
  | nil => exact ⟨0, by simp⟩
  | cons a l ih =>
      obtain ⟨bound, hbound⟩ := ih
      refine ⟨rank a + bound, ?_⟩
      intro m hm
      rcases List.mem_cons.mp hm with rfl | hin
      · omega
      · have hle := hbound m hin
        omega

/-- **Quiescence.**  A queue whose messages lose rank from round to round runs
empty, since the ranks at the beginning are bounded. -/
theorem exists_empty (hstep : ∀ k t, inv t → inv (step k t))
    (hrank : ∀ k t, inv t → ∀ m ∈ queue (step k t), ∃ m' ∈ queue t, rank m < rank m')
    (hs : inv s) : ∃ k, queue (after step s k) = [] := by
  obtain ⟨bound, hbound⟩ := exists_bound rank (queue s)
  refine ⟨bound + 1, List.eq_nil_iff_forall_not_mem.mpr ?_⟩
  intro m hm
  have hle := rank_add_le hstep hrank hs hbound (bound + 1) m hm
  omega

end Quiescence

/-- **Endless traffic.**  A queue in which a live message gives rise to another
one is never empty. -/
theorem never_empty {live : μ → Prop}
    (hstep : ∀ k t, inv t → (∃ m ∈ queue t, live m) →
      inv (step k t) ∧ ∃ m ∈ queue (step k t), live m)
    (hs : inv s) (hlive : ∃ m ∈ queue s, live m) (k : Nat) : queue (after step s k) ≠ [] := by
  have hboth : inv (after step s k) ∧ ∃ m ∈ queue (after step s k), live m := by
    induction k with
    | zero => exact ⟨hs, hlive⟩
    | succ k ih => exact hstep k _ ih.1 ih.2
  obtain ⟨_, m, hm, _⟩ := hboth
  exact List.ne_nil_of_mem hm

end Rounds
