import Mathlib.Data.List.Induction
import Mathlib.Tactic.Common

/-!
# Runs of a labelled transition system

A run is recorded transition by transition, each with the state before it,
its label and the state after it.  Properties of a system are properties of
such records: an invariant holds in every state a run visits, and a condition
on single transitions may be asked of a whole run.

`Trace.split` cuts a run at one of its transitions, and `Trace.exists_rise`
at the one in which something came about; `Trace.invariant` and
`Trace.invariant_of_all` are the two induction rules, the second for an
invariant that only transitions meeting a condition preserve.
`Trace.simulate` carries a run over to an abstraction of the system.
-/

/-- One recorded transition. -/
structure Transition (σ ι : Type) where
  before : σ
  label : ι
  after : σ

variable {σ ι : Type}

/-- The transitions of a run from one state to another, oldest first. -/
inductive Trace (step : σ → ι → σ → Prop) (s : σ) : List (Transition σ ι) → σ → Prop
  | nil : Trace step s [] s
  | snoc {t u : σ} {i : ι} {es : List (Transition σ ι)}
      (init : Trace step s es t) (last : step t i u) :
      Trace step s (es ++ [⟨t, i, u⟩]) u

/-- A state that some run from `s` ends in. -/
def Reachable (step : σ → ι → σ → Prop) (s t : σ) : Prop :=
  ∃ es, Trace step s es t

namespace Trace

variable {step : σ → ι → σ → Prop} {s t u : σ} {es fs : List (Transition σ ι)}

theorem single {i : ι} (h : step s i t) : Trace step s [⟨s, i, t⟩] t :=
  snoc nil h

/-- A step in front of a run makes a run.  The definition has the steps at the
end, so this takes an induction. -/
theorem cons {i : ι} (hfirst : step s i t) (h : Trace step t es u) :
    Trace step s (⟨s, i, t⟩ :: es) u := by
  induction h with
  | nil => exact single hfirst
  | snoc init last ih => exact snoc ih last

/-- Two runs in a row make a run, with the transitions of the first and then
those of the second. -/
theorem append (h : Trace step s es t) (h' : Trace step t fs u) : Trace step s (es ++ fs) u := by
  induction h' with
  | nil =>
      rw [List.append_nil]
      exact h
  | snoc init last ih =>
      rw [← List.append_assoc]
      exact snoc ih last

/-- The run of a system whose steps are a function, given the labels. -/
def record (f : σ → ι → σ) : σ → List ι → List (Transition σ ι)
  | _, [] => []
  | s, i :: labels => ⟨s, i, f s i⟩ :: record f (f s i) labels

/-- Applying a function to each label and recording what happens gives a run of
every relation that allows these steps. -/
theorem of_record {f : σ → ι → σ} (hf : ∀ s i, step s i (f s i)) (labels : List ι) (s : σ) :
    Trace step s (record f s labels) (labels.foldl f s) := by
  induction labels generalizing s with
  | nil => exact nil
  | cons i labels ih => exact cons (hf s i) (ih (f s i))

/-- The labels of a recorded run are the ones that were given. -/
theorem label_of_record {f : σ → ι → σ} {labels : List ι} {s : σ} {e : Transition σ ι}
    (he : e ∈ record f s labels) : e.label ∈ labels := by
  induction labels generalizing s with
  | nil => cases he
  | cons i labels ih =>
      rcases List.mem_cons.mp he with rfl | hrest
      · exact List.mem_cons_self
      · exact List.mem_cons_of_mem i (ih hrest)

/-- A recorded run has a transition for each label. -/
theorem length_record {f : σ → ι → σ} (labels : List ι) (s : σ) :
    (record f s labels).length = labels.length := by
  induction labels generalizing s with
  | nil => rfl
  | cons i labels ih => exact congrArg (· + 1) (ih (f s i))

/-- The last transition of a run: before it there is a run up to where it
starts, and it ends where the run does. -/
theorem snoc_inv {e : Transition σ ι} (h : Trace step s (es ++ [e]) t) :
    Trace step s es e.before ∧ step e.before e.label e.after ∧ t = e.after := by
  generalize hrun : es ++ [e] = run at h
  cases h with
  | nil => simp at hrun
  | snoc init last =>
      obtain ⟨rfl, hlast⟩ := List.append_inj' hrun rfl
      obtain rfl := List.singleton_inj.mp hlast
      exact ⟨init, last, rfl⟩

/-- A run can be cut in two at any place, with a state in between. -/
theorem append_inv (h : Trace step s (es ++ fs) t) :
    ∃ u, Trace step s es u ∧ Trace step u fs t := by
  induction fs using List.reverseRecOn generalizing t with
  | nil =>
      rw [List.append_nil] at h
      exact ⟨t, h, nil⟩
  | append_singleton fs e ih =>
      rw [← List.append_assoc] at h
      obtain ⟨hinit, hlast, rfl⟩ := snoc_inv h
      obtain ⟨u, hes, hfs⟩ := ih hinit
      exact ⟨u, hes, snoc hfs hlast⟩

theorem cut {e : Transition σ ι} (h : Trace step s (es ++ e :: fs) t) :
    Trace step s es e.before ∧ step e.before e.label e.after ∧ Trace step e.after fs t := by
  rw [List.append_cons] at h
  obtain ⟨u, hinit, hrest⟩ := append_inv h
  obtain ⟨hpre, hstep, rfl⟩ := snoc_inv hinit
  exact ⟨hpre, hstep, hrest⟩

/-- Cut a run at a transition that it records. -/
theorem split (h : Trace step s es t) {e : Transition σ ι} (he : e ∈ es) :
    ∃ pre post, es = pre ++ e :: post ∧ Trace step s pre e.before ∧
      step e.before e.label e.after ∧ Trace step e.after post t := by
  obtain ⟨pre, post, rfl⟩ := List.append_of_mem he
  exact ⟨pre, post, rfl, h.cut⟩

/-- Every recorded transition is a transition of the system. -/
theorem step_of_mem (h : Trace step s es t) {e : Transition σ ι} (he : e ∈ es) :
    step e.before e.label e.after := by
  obtain ⟨_, _, _, _, hstep, _⟩ := h.split he
  exact hstep

/-- **Causes.**  What fails at the start of a run and holds at its end came
about in one of its transitions, and has held ever since. -/
theorem exists_rise {p : σ → Prop} (h : Trace step s es t) (hs : ¬ p s) (ht : p t) :
    ∃ pre e post, es = pre ++ e :: post ∧ ¬ p e.before ∧ p e.after ∧ ∀ e' ∈ post, p e'.after := by
  induction h with
  | nil => exact (hs ht).elim
  | @snoc t u i es init last ih =>
      by_cases hearlier : p t
      · obtain ⟨pre, e, post, rfl, hbefore, hafter, hlasts⟩ := ih hearlier
        refine ⟨pre, e, post ++ [⟨t, i, u⟩], by simp, hbefore, hafter, ?_⟩
        intro e' he'
        rcases List.mem_append.mp he' with hin | hlast
        · exact hlasts e' hin
        · rw [List.mem_singleton.mp hlast]
          exact ht
      · exact ⟨es, ⟨t, i, u⟩, [], rfl, hearlier, ht, by simp⟩

/-- An invariant that transitions meeting `good` preserve holds at the end of
a run all of whose transitions meet `good`. -/
theorem invariant_of_all {inv : σ → Prop} {good : Transition σ ι → Prop}
    (hstep : ∀ e : Transition σ ι, step e.before e.label e.after →
      inv e.before → good e → inv e.after)
    (h : Trace step s es t) (hs : inv s) (hgood : ∀ e ∈ es, good e) : inv t := by
  induction h with
  | nil => exact hs
  | @snoc t u i es init last ih =>
      have hbefore := ih (fun e he => hgood e (List.mem_append_left _ he))
      exact hstep ⟨t, i, u⟩ last hbefore (hgood _ (by simp))

theorem invariant_before_of_all {inv : σ → Prop} {good : Transition σ ι → Prop}
    (hstep : ∀ e : Transition σ ι, step e.before e.label e.after →
      inv e.before → good e → inv e.after)
    (h : Trace step s es t) (hs : inv s) (hgood : ∀ e ∈ es, good e)
    {e : Transition σ ι} (he : e ∈ es) : inv e.before := by
  obtain ⟨pre, post, rfl, hpre, _, _⟩ := h.split he
  exact hpre.invariant_of_all hstep hs (fun e he => hgood e (List.mem_append_left _ he))

/-- **Invariants.**  What holds at the start and is preserved by every
transition holds at the end of every run. -/
theorem invariant {inv : σ → Prop}
    (hstep : ∀ t i u, step t i u → inv t → inv u)
    (h : Trace step s es t) (hs : inv s) : inv t :=
  have hall : ∀ e : Transition σ ι, step e.before e.label e.after →
      inv e.before → True → inv e.after :=
    fun _ he hinv _ => hstep _ _ _ he hinv
  h.invariant_of_all hall hs (fun _ _ => trivial)

/-- An invariant holds before every transition of a run. -/
theorem invariant_before {inv : σ → Prop}
    (hstep : ∀ t i u, step t i u → inv t → inv u)
    (h : Trace step s es t) (hs : inv s) {e : Transition σ ι} (he : e ∈ es) :
    inv e.before := by
  obtain ⟨_, _, _, hpre, _, _⟩ := h.split he
  exact hpre.invariant hstep hs

/-- A run of `step` seen through an abstraction of its states: the transitions
that `view` names, between abstract states. -/
def project {τ κ : Type} (abs : σ → τ) (view : Transition σ ι → Option κ)
    (es : List (Transition σ ι)) : List (Transition τ κ) :=
  es.filterMap fun e => (view e).map fun k => ⟨abs e.before, k, abs e.after⟩

/-- **Simulation.**  When every transition of a run is either silent on the
abstract state or a transition of the abstract system, its visible transitions
form an abstract run. -/
theorem simulate {τ κ : Type} {step' : τ → κ → τ → Prop} (h : Trace step s es t)
    (abs : σ → τ) (view : Transition σ ι → Option κ)
    (hsilent : ∀ e ∈ es, view e = none → abs e.after = abs e.before)
    (hvisible : ∀ e ∈ es, ∀ k, view e = some k → step' (abs e.before) k (abs e.after)) :
    Trace step' (abs s) (project abs view es) (abs t) := by
  induction h with
  | nil => exact nil
  | @snoc t u i es init last ih =>
      have hprefix := ih
        (fun e he => hsilent e (List.mem_append_left _ he))
        (fun e he => hvisible e (List.mem_append_left _ he))
      have hlast : (⟨t, i, u⟩ : Transition σ ι) ∈ es ++ [⟨t, i, u⟩] := by simp
      cases hview : view ⟨t, i, u⟩ with
      | none =>
          have hsame : abs u = abs t := hsilent _ hlast hview
          rw [hsame]
          simpa [project, hview] using hprefix
      | some k =>
          have hstep : step' (abs t) k (abs u) := hvisible _ hlast k hview
          simpa [project, hview] using snoc hprefix hstep

end Trace

namespace Reachable

variable {step : σ → ι → σ → Prop} {s t u : σ}

theorem refl (step : σ → ι → σ → Prop) (s : σ) : Reachable step s s :=
  ⟨[], .nil⟩

theorem single {i : ι} (h : step s i t) : Reachable step s t :=
  ⟨_, .single h⟩

/-- What can be reached from a reachable state can be reached. -/
theorem trans (h : Reachable step s t) (h' : Reachable step t u) : Reachable step s u := by
  obtain ⟨es, run⟩ := h
  obtain ⟨fs, run'⟩ := h'
  exact ⟨es ++ fs, run.append run'⟩

/-- What every transition preserves holds in every reachable state. -/
theorem invariant {inv : σ → Prop} (hstep : ∀ t i u, step t i u → inv t → inv u)
    (h : Reachable step s t) (hs : inv s) : inv t := by
  obtain ⟨es, run⟩ := h
  exact run.invariant hstep hs

end Reachable
