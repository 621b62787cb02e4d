import Mathlib.Data.List.Sublists

/-!
# Snapshots of a running process

A process keeps its state in memory and saves it as a whole: a save replaces the
file in one step, or leaves it alone.  It may fail, and the process may crash
before or after the replacement; what is in memory is then lost.

A state `holds` a log of updates.  `Sound` says that the logs held by the file
and by the memory consist of updates that were made, in their order, and miss
none that was saved.  The rules below carry this over a save (`Sound.save`) and
over an update with the save that follows it (`Sound.update`).
-/

namespace Snapshots

variable {φ σ τ ι : Type}

/-- How a save ends. -/
inductive SaveEnd
  | done
  | failed
  | crashed (replaced : Bool)
  deriving DecidableEq

/-- A process with its file; without a memory it is not running. -/
structure Process (φ σ : Type) where
  file : φ
  memory : Option σ

/-- Save a state, by a file that holds it. -/
def save (write : σ → φ) (file : φ) (s : σ) : SaveEnd → Process φ σ
  | .done => ⟨write s, some s⟩
  | .failed => ⟨file, some s⟩
  | .crashed true => ⟨write s, none⟩
  | .crashed false => ⟨file, none⟩

/-- What a save leaves is the old file or the new one, and in memory at most the
state saved. -/
theorem save_cases (write : σ → φ) (file : φ) (s : σ) (e : SaveEnd) :
    ((save write file s e).file = file ∨ (save write file s e).file = write s) ∧
      ∀ s' ∈ (save write file s e).memory, s' = s := by
  cases e with
  | done => exact ⟨Or.inr rfl, fun s' hs => (Option.some_inj.mp hs).symm⟩
  | failed => exact ⟨Or.inl rfl, fun s' hs => (Option.some_inj.mp hs).symm⟩
  | crashed replaced =>
      cases replaced with
      | true => exact ⟨Or.inr rfl, fun s' hs => nomatch hs⟩
      | false => exact ⟨Or.inl rfl, fun s' hs => nomatch hs⟩

/-- `x` holds a log of updates that were made, with all those that were saved. -/
def Covers (holds : τ → List ι → Prop) (saved made : List ι) (x : τ) : Prop :=
  ∃ log, saved.Sublist log ∧ log.Sublist made ∧ holds x log

namespace Covers

variable {holds : τ → List ι → Prop} {saved made : List ι} {x y : τ}

/-- What covers a list of updates covers them in any weaker sense. -/
theorem imp {υ : Type} {holds' : υ → List ι → Prop} {z : υ} (h : Covers holds saved made x)
    (himp : ∀ log, holds x log → holds' z log) : Covers holds' saved made z := by
  obtain ⟨log, hsaved, hmade, hlog⟩ := h
  exact ⟨log, hsaved, hmade, himp log hlog⟩

/-- Fewer saved updates and more made ones are covered all the more. -/
theorem mono {saved' made' : List ι} (h : Covers holds saved made x)
    (hsaved : saved'.Sublist saved) (hmade : made.Sublist made') :
    Covers holds saved' made' x := by
  obtain ⟨log, hin, hfrom, hlog⟩ := h
  exact ⟨log, hsaved.trans hin, hfrom.trans hmade, hlog⟩

/-- One update more: where it is saved as it is made, the log grows by it. -/
theorem snoc (h : Covers holds saved made x) {i : ι}
    (hupdate : ∀ log, holds x log → holds y (log ++ [i])) :
    Covers holds (saved ++ [i]) (made ++ [i]) y := by
  obtain ⟨log, hsaved, hmade, hlog⟩ := h
  exact ⟨log ++ [i], hsaved.append_right [i], hmade.append_right [i], hupdate log hlog⟩

end Covers

/-- The file and the memory hold what was saved, and nothing that was not made. -/
structure Sound (onFile : φ → List ι → Prop) (inMemory : σ → List ι → Prop)
    (saved made : List ι) (p : Process φ σ) : Prop where
  file : Covers onFile saved made p.file
  memory : ∀ s ∈ p.memory, Covers inMemory saved made s

namespace Sound

variable {onFile : φ → List ι → Prop} {inMemory : σ → List ι → Prop} {write : σ → φ}
  {saved made : List ι} {p : Process φ σ}

/-- A crash loses the memory and leaves the file, so what the file holds is
still sound. -/
theorem crash (h : Sound onFile inMemory saved made p) :
    Sound onFile inMemory saved made ⟨p.file, none⟩ :=
  ⟨h.file, fun _ hs => nomatch hs⟩

/-- A save of a state that holds what was saved. -/
theorem save (hwrite : ∀ s log, inMemory s log → onFile (write s) log) {file : φ} {s : σ}
    (hfile : Covers onFile saved made file) (hstate : Covers inMemory saved made s)
    (e : SaveEnd) : Sound onFile inMemory saved made (save write file s e) := by
  obtain ⟨hreplaced, hkept⟩ := save_cases write file s e
  constructor
  · rcases hreplaced with hold | hnew
    · rw [hold]
      exact hfile
    · rw [hnew]
      exact hstate.imp (hwrite s)
  · intro s' hs
    rw [hkept s' hs]
    exact hstate

/-- **An update and its save.**  The update counts as saved when the save is done. -/
theorem update (hwrite : ∀ s log, inMemory s log → onFile (write s) log)
    (h : Sound onFile inMemory saved made p) {s s' : σ} (hs : s ∈ p.memory) {i : ι}
    (hupdate : ∀ log, inMemory s log → inMemory s' (log ++ [i])) (e : SaveEnd) :
    Sound onFile inMemory (saved ++ if e = .done then [i] else []) (made ++ [i])
      (Snapshots.save write p.file s' e) := by
  have hstate : Covers inMemory (saved ++ [i]) (made ++ [i]) s' := (h.memory s hs).snoc hupdate
  have hless : saved.Sublist (saved ++ [i]) := List.sublist_append_left saved [i]
  have hmore : made.Sublist (made ++ [i]) := List.sublist_append_left made [i]
  by_cases hdone : e = .done
  · rw [hdone, if_pos rfl]
    refine ⟨hstate.imp (hwrite s'), ?_⟩
    intro s'' hs''
    rw [← Option.some_inj.mp hs'']
    exact hstate
  · rw [if_neg hdone, List.append_nil]
    exact save hwrite (h.file.mono (List.Sublist.refl saved) hmore)
      (hstate.mono hless (List.Sublist.refl _)) e

end Sound

end Snapshots
