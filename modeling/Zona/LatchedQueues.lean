import Zona.LabelledRuns

/-!
# Queues behind a latch

One reader takes items from a queue, one at a time, and lets go of each before
it takes the next.  Once a latch is closed it drops what it takes.

`accounts` says where the items are that were put into the queue: those let go of
come first, then the one that is held, then those dropped, then those that still
wait.  `late_release`: after the latch is closed at most the item held is let go
of.

The first section has two rules for what goes in and out of a part of a system
along its runs.
-/

namespace Trace

variable {σ ι α : Type} {step : σ → ι → σ → Prop} {s t : σ} {es : List (Transition σ ι)}

/-- **In and out of a bag.**  If every step balances what it takes out with
what it puts in, so does the whole run, up to order. -/
theorem balance {bag : σ → List α} {ins outs : Transition σ ι → List α} (h : Trace step s es t)
    (hstep : ∀ e ∈ es, (bag e.after ++ outs e).Perm (bag e.before ++ ins e)) :
    (bag t ++ es.flatMap outs).Perm (bag s ++ es.flatMap ins) := by
  induction h with
  | nil => simp
  | @snoc t u i es init last ih =>
      have hinit := ih fun e he => hstep e (List.mem_append_left _ he)
      have hlast := hstep ⟨t, i, u⟩ (by simp)
      rw [List.flatMap_append, List.flatMap_append, List.flatMap_singleton, List.flatMap_singleton]
      generalize outs ⟨t, i, u⟩ = out at hlast
      generalize ins ⟨t, i, u⟩ = new at hlast
      calc List.Perm (bag u ++ (es.flatMap outs ++ out)) (bag u ++ (out ++ es.flatMap outs)) :=
            List.perm_append_comm.append_left (bag u)
        List.Perm _ (bag t ++ new ++ es.flatMap outs) := by
            rw [← List.append_assoc]
            exact hlast.append_right _
        List.Perm _ (bag t ++ es.flatMap outs ++ new) := by
            rw [List.append_assoc, List.append_assoc]
            exact List.perm_append_comm.append_left (bag t)
        List.Perm _ (bag s ++ (es.flatMap ins ++ new)) := by
            rw [← List.append_assoc]
            exact hinit.append_right new

/-- **In and out of a queue.**  If every step takes out at the front and puts
in at the end, what came out is a prefix of what was there and came in. -/
theorem conveys {q : σ → List α} {ins outs : Transition σ ι → List α}
    (h : Trace step s es t)
    (hstep : ∀ e ∈ es, outs e ++ q e.after = q e.before ++ ins e) :
    es.flatMap outs ++ q t = q s ++ es.flatMap ins := by
  induction h with
  | nil => simp
  | @snoc t u i es init last ih =>
      have hinit := ih fun e he => hstep e (List.mem_append_left _ he)
      have hlast := hstep ⟨t, i, u⟩ (by simp)
      rw [List.flatMap_append, List.flatMap_append, List.flatMap_singleton, List.flatMap_singleton,
        List.append_assoc, hlast, ← List.append_assoc, hinit, List.append_assoc]

/-- What is logged of the visible transitions of a run. -/
theorem flatMap_project {τ κ : Type} (abs : σ → τ) (view : Transition σ ι → Option κ)
    (log : κ → List α) (es : List (Transition σ ι)) :
    (project abs view es).flatMap (fun e => log e.label) =
      es.flatMap fun e => (view e).elim [] log := by
  induction es with
  | nil => rfl
  | cons e es ih =>
      cases hview : view e with
      | none => simpa [project, hview] using ih
      | some k => simpa [project, hview] using ih

end Trace

/-- A queue, a latch, and the item that the reader holds. -/
structure LatchedQueue (α : Type) where
  latched : Bool
  queue : List α
  held : Option α

namespace LatchedQueue

variable {α : Type}

inductive Event (α : Type)
  | put (a : α)
  | take (a : α)
  | drop (a : α)
  | release (a : α)
  | latch

inductive Step : LatchedQueue α → Event α → LatchedQueue α → Prop
  | put (q : LatchedQueue α) (a : α) : Step q (.put a) { q with queue := q.queue ++ [a] }
  | take {q : LatchedQueue α} {a : α} {rest : List α} (hfree : q.held = none)
      (hopen : q.latched = false) (hqueue : q.queue = a :: rest) :
      Step q (.take a) { q with queue := rest, held := some a }
  | drop {q : LatchedQueue α} {a : α} {rest : List α} (hfree : q.held = none)
      (hlatched : q.latched = true) (hqueue : q.queue = a :: rest) :
      Step q (.drop a) { q with queue := rest }
  | release {q : LatchedQueue α} {a : α} (hheld : q.held = some a) :
      Step q (.release a) { q with held := none }
  | latch (q : LatchedQueue α) : Step q .latch { q with latched := true }

def empty : LatchedQueue α where
  latched := false
  queue := []
  held := none

def Event.puts : Event α → List α
  | .put a => [a]
  | _ => []

def Event.drops : Event α → List α
  | .drop a => [a]
  | _ => []

def Event.releases : Event α → List α
  | .release a => [a]
  | _ => []

abbrev Run (α : Type) := List (Transition (LatchedQueue α) (Event α))

def puts (es : Run α) : List α :=
  es.flatMap fun e => e.label.puts

def drops (es : Run α) : List α :=
  es.flatMap fun e => e.label.drops

def releases (es : Run α) : List α :=
  es.flatMap fun e => e.label.releases

variable {q q' : LatchedQueue α} {es : Run α}

/-- The latch stays closed, whatever happens next, since no event opens it
again. -/
theorem Step.latched {ev : Event α} (h : Step q ev q') (hlatched : q.latched = true) :
    q'.latched = true := by
  cases h with
  | latch => rfl
  | _ => exact hlatched

/-- Items are only dropped behind a closed latch, by a reader that holds none. -/
theorem drops_latched (run : Trace Step empty es q) (h : drops es ≠ []) :
    q.latched = true ∧ q.held = none := by
  induction run with
  | nil => exact absurd rfl h
  | @snoc q q' ev es init last ih =>
      have hlog : drops (es ++ [⟨q, ev, q'⟩]) = drops es ++ ev.drops := by simp [drops]
      rw [hlog] at h
      cases last with
      | drop hfree hlatched _ => exact ⟨hlatched, hfree⟩
      | take _ hopen _ =>
          obtain ⟨hlatched, _⟩ := ih (by simpa [Event.drops] using h)
          rw [hopen] at hlatched
          cases hlatched
      | release _ => exact ⟨(ih (by simpa [Event.drops] using h)).1, rfl⟩
      | put _ => exact ih (by simpa [Event.drops] using h)
      | latch => exact ⟨rfl, (ih (by simpa [Event.drops] using h)).2⟩

/-- **Where the items are.**  What was put into the queue is let go of, held,
dropped or waits, in this order. -/
theorem accounts (run : Trace Step empty es q) :
    puts es = releases es ++ q.held.toList ++ drops es ++ q.queue := by
  induction run with
  | nil => rfl
  | @snoc q q' ev es init last ih =>
      have hputs : puts (es ++ [⟨q, ev, q'⟩]) = puts es ++ ev.puts := by simp [puts]
      have hdrops : drops (es ++ [⟨q, ev, q'⟩]) = drops es ++ ev.drops := by simp [drops]
      have hreleases : releases (es ++ [⟨q, ev, q'⟩]) = releases es ++ ev.releases := by
        simp [releases]
      rw [hputs, hdrops, hreleases, ih]
      -- a reader that lets go of an item, or takes one, has not dropped any
      have hnone : q.latched = false ∨ q.held ≠ none → drops es = [] := by
        intro hbusy
        by_contra hdropped
        obtain ⟨hlatched, hfree⟩ := drops_latched init hdropped
        rcases hbusy with hopen | hholds
        · rw [hlatched] at hopen
          cases hopen
        · exact hholds hfree
      cases last with
      | put _ => simp [Event.puts, Event.drops, Event.releases]
      | take hfree hopen hqueue =>
          simp [Event.puts, Event.drops, Event.releases, hfree, hqueue, hnone (Or.inl hopen)]
      | drop hfree _ hqueue =>
          simp [Event.puts, Event.drops, Event.releases, hfree, hqueue]
      | release hheld =>
          have hholds : q.held ≠ none := by simp [hheld]
          simp [Event.puts, Event.drops, Event.releases, hheld, hnone (Or.inr hholds)]
      | latch => simp [Event.puts, Event.drops, Event.releases]

/-- **After the latch** only the item that is held is let go of, since nothing
is taken out of the queue any more. -/
theorem late_release (run : Trace Step q es q') (h : q.latched = true) :
    q'.latched = true ∧ releases es ++ q'.held.toList = q.held.toList := by
  induction run with
  | nil => exact ⟨h, rfl⟩
  | @snoc q₁ q' ev es init last ih =>
      obtain ⟨hlatched, hheld⟩ := ih
      have hlog : releases (es ++ [⟨q₁, ev, q'⟩]) = releases es ++ ev.releases := by
        simp [releases]
      refine ⟨last.latched hlatched, ?_⟩
      rw [hlog, ← hheld]
      cases last with
      | take _ hopen _ =>
          rw [hopen] at hlatched
          cases hlatched
      | release hfree => simp [Event.releases, hfree]
      | _ => simp [Event.releases]

end LatchedQueue
