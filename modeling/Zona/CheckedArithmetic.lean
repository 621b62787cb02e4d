import Mathlib.Algebra.BigOperators.Group.List.Basic
import Mathlib.Algebra.Order.Ring.Nat

/-!
# Outcomes and machine arithmetic

A call in the source language ends in one of three ways: it returns a value,
it returns an error, or it panics.  Unsigned additions and multiplications
take part in the third: a debug build panics when the exact result does not
fit, a release build keeps the low bits.  Both profiles are kept, since code
that is safe in one may be wrong in the other.

`bind_eq_ok` takes a successful sequence of calls apart; `addU64_eq_ok` and
`sumU64_eq_ok` say when the machine result is the exact one.
-/

/-- The two ways a crate is compiled. -/
inductive Build
  | debug
  | release
  deriving DecidableEq

/-- How a call ends. -/
inductive Outcome (E α : Type)
  | ok (value : α)
  | err (error : E)
  | panic
  deriving DecidableEq

namespace Outcome

variable {E α β : Type}

/-- Run `f` on a returned value; errors and panics end the caller too. -/
protected def bind : Outcome E α → (α → Outcome E β) → Outcome E β
  | ok a, f => f a
  | err e, _ => err e
  | panic, _ => panic

instance : Monad (Outcome E) where
  pure := ok
  bind := Outcome.bind

/-- Returning a value is succeeding with it.  This and the next three lemmas
let `simp` run a computation. -/
@[simp]
theorem pure_eq (a : α) : (pure a : Outcome E α) = ok a := rfl

/-- After a success the computation goes on with the value. -/
@[simp]
theorem ok_bind (a : α) (f : α → Outcome E β) : (ok a >>= f) = f a := rfl

@[simp]
theorem err_bind (e : E) (f : α → Outcome E β) :
    ((err e : Outcome E α) >>= f) = err e := rfl

@[simp]
theorem panic_bind (f : α → Outcome E β) :
    ((panic : Outcome E α) >>= f) = panic := rfl

/-- **Sequencing.**  A sequence returns exactly when its first call returns
and its second one does on that value. -/
theorem bind_eq_ok {x : Outcome E α} {f : α → Outcome E β} {b : β} :
    (x >>= f) = ok b ↔ ∃ a, x = ok a ∧ f a = ok b := by
  cases x with
  | ok a => simp
  | err e => simp
  | panic => simp

/-- `option.ok_or(e)`. -/
def ofOption (e : E) : Option α → Outcome E α
  | some a => ok a
  | none => err e

/-- A lookup with an error for the missing case succeeds exactly if there is
something to find. -/
theorem ofOption_eq_ok {e : E} {o : Option α} {a : α} :
    ofOption e o = ok a ↔ o = some a := by
  cases o <;> simp [ofOption]

end Outcome

variable {E : Type}

/-- `x + y` on `u64`. -/
def addU64 (b : Build) (x y : UInt64) : Outcome E UInt64 :=
  if x.toNat + y.toNat < 2 ^ 64 then .ok (x + y)
  else
    match b with
    | .debug => .panic
    | .release => .ok (x + y)

/-- `x * y` on `u64`. -/
def mulU64 (b : Build) (x y : UInt64) : Outcome E UInt64 :=
  if x.toNat * y.toNat < 2 ^ 64 then .ok (x * y)
  else
    match b with
    | .debug => .panic
    | .release => .ok (x * y)

/-- `x + y` on `u32`. -/
def addU32 (b : Build) (x y : UInt32) : Outcome E UInt32 :=
  if x.toNat + y.toNat < 2 ^ 32 then .ok (x + y)
  else
    match b with
    | .debug => .panic
    | .release => .ok (x + y)

/-- A sum that fits into 64 bits is computed in both build profiles: the debug
build has no reason to panic. -/
theorem addU64_of_lt {b : Build} {x y : UInt64}
    (h : x.toNat + y.toNat < 2 ^ 64) :
    addU64 (E := E) b x y = .ok (x + y) :=
  if_pos h

/-- Whatever the profile, a returned sum is the sum modulo `2 ^ 64`. -/
theorem addU64_eq_ok {b : Build} {x y z : UInt64}
    (h : addU64 (E := E) b x y = .ok z) : z = x + y := by
  unfold addU64 at h
  split at h
  · simpa using h.symm
  · cases b with
    | debug => simp at h
    | release => simpa using h.symm

/-- The same on `u32`: whatever the profile, a sum that is returned is the sum
of the words. -/
theorem addU32_eq_ok {b : Build} {x y z : UInt32}
    (h : addU32 (E := E) b x y = .ok z) : z = x + y := by
  unfold addU32 at h
  split at h
  · simpa using h.symm
  · cases b with
    | debug => simp at h
    | release => simpa using h.symm

theorem addU64_release (x y : UInt64) :
    addU64 (E := E) .release x y = .ok (x + y) := by
  unfold addU64
  split <;> rfl

/-- A sum that fits has the value of the sum. -/
theorem toNat_add_of_lt {x y : UInt64} (h : x.toNat + y.toNat < 2 ^ 64) :
    (x + y).toNat = x.toNat + y.toNat := by
  rw [UInt64.toNat_add, Nat.mod_eq_of_lt h]

/-- A sum returned by a debug build is the exact one. -/
theorem toNat_of_addU64_debug {x y z : UInt64}
    (h : addU64 (E := E) .debug x y = .ok z) : z.toNat = x.toNat + y.toNat := by
  have hsum := addU64_eq_ok h
  by_cases hfit : x.toNat + y.toNat < 2 ^ 64
  · rw [hsum, toNat_add_of_lt hfit]
  · rw [addU64, if_neg hfit] at h
    cases h

/-- A product that fits into 64 bits is computed in both build profiles. -/
theorem mulU64_of_lt {b : Build} {x y : UInt64}
    (h : x.toNat * y.toNat < 2 ^ 64) :
    mulU64 (E := E) b x y = .ok (x * y) :=
  if_pos h

/-- A product that fits has the value of the product. -/
theorem toNat_mul_of_lt {x y : UInt64} (h : x.toNat * y.toNat < 2 ^ 64) :
    (x * y).toNat = x.toNat * y.toNat := by
  rw [UInt64.toNat_mul, Nat.mod_eq_of_lt h]

/-- A product returned by a debug build is the exact one. -/
theorem toNat_of_mulU64_debug {x y z : UInt64}
    (h : mulU64 (E := E) .debug x y = .ok z) : z.toNat = x.toNat * y.toNat := by
  unfold mulU64 at h
  split at h
  · rename_i hfit
    obtain rfl : x * y = z := by simpa using h
    exact toNat_mul_of_lt hfit
  · cases h

/-- Adding one on `u64` forgets nothing, even where it wraps around. -/
theorem u64_add_one_inj {x y : UInt64} (h : x + 1 = y + 1) : x = y :=
  (UInt64.add_left_inj 1).mp h

/-- `acc + w₀ + w₁ + …` on `u64`, from the front: the loop of `.sum()`. -/
def sumU64From (b : Build) : UInt64 → List UInt64 → Outcome E UInt64
  | acc, [] => .ok acc
  | acc, w :: ws => do
      let next ← addU64 b acc w
      sumU64From b next ws

/-- `iter.sum::<u64>()`. -/
def sumU64 (b : Build) (ws : List UInt64) : Outcome E UInt64 :=
  sumU64From b 0 ws

/-- A list of weights whose sum fits is added up in both build profiles, and
the result has the value of the sum. -/
theorem sumU64From_of_lt {b : Build} (ws : List UInt64) {acc : UInt64}
    (h : acc.toNat + (ws.map UInt64.toNat).sum < 2 ^ 64) :
    ∃ total, sumU64From (E := E) b acc ws = .ok total ∧
      total.toNat = acc.toNat + (ws.map UInt64.toNat).sum := by
  induction ws generalizing acc with
  | nil => exact ⟨acc, rfl, by simp⟩
  | cons w ws ih =>
      simp only [List.map_cons, List.sum_cons] at h ⊢
      have hfit : acc.toNat + w.toNat < 2 ^ 64 := by omega
      have hnext := toNat_add_of_lt hfit
      obtain ⟨total, hrun, htotal⟩ := ih (by omega : (acc + w).toNat + _ < _)
      refine ⟨total, ?_, by omega⟩
      simp only [sumU64From, addU64_of_lt hfit, Outcome.ok_bind, hrun]

/-- A sum whose exact value fits is exact in both profiles. -/
theorem sumU64_of_lt {b : Build} (ws : List UInt64)
    (h : (ws.map UInt64.toNat).sum < 2 ^ 64) :
    ∃ total, sumU64 (E := E) b ws = .ok total ∧
      total.toNat = (ws.map UInt64.toNat).sum := by
  obtain ⟨total, hrun, htotal⟩ :=
    sumU64From_of_lt (E := E) (b := b) ws
      (by simpa using h : (0 : UInt64).toNat + _ < 2 ^ 64)
  exact ⟨total, hrun, by simpa using htotal⟩

/-- In a debug build a total that is returned did not overflow at any point, so
it has the value of the sum. -/
theorem toNat_of_sumU64From_debug {ws : List UInt64} {acc total : UInt64}
    (h : sumU64From (E := E) .debug acc ws = .ok total) :
    total.toNat = acc.toNat + (ws.map UInt64.toNat).sum := by
  induction ws generalizing acc with
  | nil =>
      obtain rfl : acc = total := by simpa [sumU64From] using h
      simp
  | cons w ws ih =>
      obtain ⟨next, hnext, hrest⟩ := Outcome.bind_eq_ok.mp h
      rw [ih hrest, toNat_of_addU64_debug hnext, List.map_cons, List.sum_cons]
      omega

/-- A sum that a debug build returns is the exact one. -/
theorem toNat_of_sumU64_debug {ws : List UInt64} {total : UInt64}
    (h : sumU64 (E := E) .debug ws = .ok total) : total.toNat = (ws.map UInt64.toNat).sum := by
  rw [toNat_of_sumU64From_debug h]
  exact Nat.zero_add _
