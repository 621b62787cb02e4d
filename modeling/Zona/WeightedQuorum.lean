import Mathlib.Algebra.BigOperators.Group.Finset.Basic
import Mathlib.Algebra.Order.BigOperators.Group.Finset
import Mathlib.Algebra.Order.Ring.Nat

/-!
# Weighted quorums over a keyed list

A list of entries assigns a weight to a key by its first entry with that key.
Keys may repeat and weights may be zero.  Whatever set of keys is looked up,
each key counted once, the weights found never exceed the weight of the whole
list (`sum_keyWeight_le`).  Inclusion and exclusion then give the
intersection property of two-thirds quorums (`quorum_inter`): two sets of
keys that each hold more than two thirds share more than one third.
-/

namespace WeightedQuorum

variable {ι K : Type} [DecidableEq K]

/-- The weight of the whole list. -/
def totalWeight (weight : ι → Nat) (xs : List ι) : Nat :=
  (xs.map weight).sum

/-- The weight of the first entry with key `k`, and zero without one. -/
def keyWeight (key : ι → K) (weight : ι → Nat) (xs : List ι) (k : K) : Nat :=
  ((xs.find? (fun x => key x = k)).map weight).getD 0

/-- The weight of a set of keys, each counted once. -/
def keysWeight (key : ι → K) (weight : ι → Nat) (xs : List ι) (s : Finset K) : Nat :=
  ∑ k ∈ s, keyWeight key weight xs k

variable {key : ι → K} {weight : ι → Nat}

/-- The first entry with a key decides its weight. -/
theorem keyWeight_cons_self (x : ι) (xs : List ι) :
    keyWeight key weight (x :: xs) (key x) = weight x := by
  simp [keyWeight]

theorem keyWeight_cons_ne {x : ι} {k : K} (xs : List ι) (h : k ≠ key x) :
    keyWeight key weight (x :: xs) k = keyWeight key weight xs k := by
  simp [keyWeight, h.symm]

/-- Looking keys up once each never finds more than the list holds. -/
theorem sum_keyWeight_le (key : ι → K) (weight : ι → Nat) (xs : List ι) (s : Finset K) :
    keysWeight key weight xs s ≤ totalWeight weight xs := by
  induction xs generalizing s with
  | nil => simp [keysWeight, keyWeight]
  | cons x xs ih =>
      have hrest : ∀ t : Finset K, key x ∉ t →
          keysWeight key weight (x :: xs) t ≤ totalWeight weight xs := by
        intro t ht
        refine le_trans (le_of_eq ?_) (ih t)
        refine Finset.sum_congr rfl fun k hk => ?_
        exact keyWeight_cons_ne xs (fun h => ht (h ▸ hk))
      have htotal : totalWeight weight (x :: xs) = weight x + totalWeight weight xs := by
        simp [totalWeight]
      by_cases hx : key x ∈ s
      · have hsplit : keysWeight key weight (x :: xs) s
            = weight x + keysWeight key weight (x :: xs) (s.erase (key x)) := by
          rw [keysWeight, ← Finset.add_sum_erase s _ hx, keyWeight_cons_self]
          rfl
        have herase := hrest (s.erase (key x)) (Finset.notMem_erase _ _)
        omega
      · have := hrest s hx
        omega

/-- What two sets of keys hold together they hold in common, up to the weight
of the list. -/
theorem keysWeight_add_le (key : ι → K) (weight : ι → Nat) (xs : List ι)
    (s t : Finset K) :
    keysWeight key weight xs s + keysWeight key weight xs t
      ≤ totalWeight weight xs + keysWeight key weight xs (s ∩ t) := by
  have hincl : keysWeight key weight xs (s ∪ t) + keysWeight key weight xs (s ∩ t)
      = keysWeight key weight xs s + keysWeight key weight xs t :=
    Finset.sum_union_inter
  have hunion := sum_keyWeight_le key weight xs (s ∪ t)
  omega

/-- **Quorum intersection.**  Two sets of keys that both reach `⌊2W/3⌋ + 1`
share keys of weight more than `W/3`. -/
theorem quorum_inter {xs : List ι} {s t : Finset K}
    (hs : 2 * totalWeight weight xs / 3 + 1 ≤ keysWeight key weight xs s)
    (ht : 2 * totalWeight weight xs / 3 + 1 ≤ keysWeight key weight xs t) :
    totalWeight weight xs < 3 * keysWeight key weight xs (s ∩ t) := by
  have h := keysWeight_add_le key weight xs s t
  omega

end WeightedQuorum
