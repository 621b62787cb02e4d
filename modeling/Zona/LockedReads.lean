import Zona.LabelledRuns

/-!
# Requests that take a lock several times

Between two turns of a request at a lock others may take it and update what it
guards.  A `Reader` is such a request: each time it holds the lock it sees the
state, and goes on.

`run_lock` cuts a run at the next turn of the request: it sees the state after
some updates, in their order.  `run_done` says that nothing happens to a result.
`exists_extension` puts together what `run_lock` cuts.
-/

/-- A request that reads a state under its lock, any number of times. -/
inductive Reader (σ α : Type)
  | done (result : α)
  | lock (next : σ → Reader σ α)

namespace Reader

/-- The guarded state, and what is left of the request. -/
structure Moment (σ α : Type) where
  state : σ
  request : Reader σ α

variable {σ α γ : Type} {update : σ → γ → σ}

/-- Another one's update, or a turn of the request. -/
def Step (update : σ → γ → σ) : Moment σ α → Option γ → Moment σ α → Prop
  | ⟨s, request⟩, some call, m => m = ⟨update s call, request⟩
  | ⟨s, .lock next⟩, none, m => m = ⟨s, next s⟩
  | ⟨_, .done _⟩, none, _ => False

/-- The updates of a run, in their order. -/
def updates (es : List (Transition (Moment σ α) (Option γ))) : List γ :=
  es.filterMap Transition.label

/-- The labels of a run: who had the lock. -/
def turns (es : List (Transition (Moment σ α) (Option γ))) : List (Option γ) :=
  es.map Transition.label

/-- A result stays as it is while updates go on, so a request that is answered
cannot change its answer. -/
theorem run_done {s : σ} {a : α} {m : Moment σ α}
    {es : List (Transition (Moment σ α) (Option γ))}
    (run : Trace (Step update) ⟨s, .done a⟩ es m) :
    m = ⟨(updates es).foldl update s, .done a⟩ ∧ turns es = (updates es).map some := by
  induction run with
  | nil => exact ⟨rfl, rfl⟩
  | @snoc t m turn es init last ih =>
      obtain ⟨rfl, hturns⟩ := ih
      cases turn with
      | none => exact last.elim
      | some call =>
          have hnext : m = ⟨update ((updates es).foldl update s) call, .done a⟩ := last
          simp only [turns, updates] at hturns
          rw [hnext]
          simp [updates, turns, hturns]

/-- A request waits while others update, until its next turn. -/
theorem waits_or_turn {s : σ} {next : σ → Reader σ α} {m : Moment σ α}
    {es : List (Transition (Moment σ α) (Option γ))}
    (run : Trace (Step update) ⟨s, .lock next⟩ es m) :
    (m = ⟨(updates es).foldl update s, .lock next⟩ ∧ turns es = (updates es).map some) ∨
      ∃ (before : List γ) (rest : List (Transition (Moment σ α) (Option γ))),
        turns es = before.map some ++ none :: turns rest ∧
          Trace (Step update) ⟨before.foldl update s, next (before.foldl update s)⟩ rest m := by
  induction run with
  | nil => exact Or.inl ⟨rfl, rfl⟩
  | @snoc t m turn es init last ih =>
      rcases ih with ⟨rfl, hturns⟩ | ⟨before, rest, hturns, hrest⟩
      · simp only [turns, updates] at hturns
        cases turn with
        | none =>
            have hnext : m = ⟨(updates es).foldl update s, next ((updates es).foldl update s)⟩ :=
              last
            refine Or.inr ⟨updates es, [], ?_, ?_⟩
            · simp [turns, updates, hturns]
            · rw [hnext]
              exact Trace.nil
        | some call =>
            have hnext : m = ⟨update ((updates es).foldl update s) call, .lock next⟩ := last
            refine Or.inl ⟨?_, ?_⟩
            · rw [hnext]
              simp [updates]
            · simp [turns, updates, hturns]
      · refine Or.inr ⟨before, rest ++ [⟨t, turn, m⟩], ?_, Trace.snoc hrest last⟩
        simp only [turns, List.map_append, List.map_cons, List.map_nil] at hturns ⊢
        rw [hturns, List.append_assoc]
        rfl

/-- **The next turn** of a request comes after some updates, and sees them.
The run is cut there, and the rest starts from the new request. -/
theorem run_lock {s : σ} {next : σ → Reader σ α} {t : σ} {a : α}
    {es : List (Transition (Moment σ α) (Option γ))}
    (run : Trace (Step update) ⟨s, .lock next⟩ es ⟨t, .done a⟩) :
    ∃ (before : List γ) (rest : List (Transition (Moment σ α) (Option γ))),
      turns es = before.map some ++ none :: turns rest ∧
        Trace (Step update) ⟨before.foldl update s, next (before.foldl update s)⟩ rest
          ⟨t, .done a⟩ := by
  rcases waits_or_turn run with ⟨heq, -⟩ | hturn
  · exact absurd (congrArg Moment.request heq) (by simp)
  · exact hturn

/-- Updates are possible at any time, whatever the request has read so far and
how many there are. -/
theorem exists_run_updates (s : σ) (request : Reader σ α) (calls : List γ) :
    ∃ es : List (Transition (Moment σ α) (Option γ)), turns es = calls.map some ∧
      Trace (Step update) ⟨s, request⟩ es ⟨calls.foldl update s, request⟩ := by
  induction calls generalizing s with
  | nil => exact ⟨[], rfl, Trace.nil⟩
  | cons call calls ih =>
      obtain ⟨es, hturns, run⟩ := ih (update s call)
      have hfirst : Step update ⟨s, request⟩ (some call) ⟨update s call, request⟩ := by
        cases request with
        | done a => rfl
        | lock next => rfl
      refine ⟨⟨_, some call, _⟩ :: es, ?_, Trace.cons hfirst run⟩
      exact congrArg (some call :: ·) hturns

/-- A run goes on with any updates and the next turn. -/
theorem exists_extension {m₀ : Moment σ α} {s : σ} {next : σ → Reader σ α}
    {es : List (Transition (Moment σ α) (Option γ))}
    (run : Trace (Step update) m₀ es ⟨s, .lock next⟩) (before : List γ) :
    ∃ es' : List (Transition (Moment σ α) (Option γ)),
      turns es' = turns es ++ (before.map some ++ [none]) ∧
        Trace (Step update) m₀ es' ⟨before.foldl update s, next (before.foldl update s)⟩ := by
  obtain ⟨waiting, hturns, hwait⟩ := exists_run_updates s (.lock next) before
  have hturn : Step update ⟨before.foldl update s, .lock next⟩ none
      ⟨before.foldl update s, next (before.foldl update s)⟩ := rfl
  refine ⟨es ++ (waiting ++ [⟨_, none, _⟩]), ?_, run.append (hwait.append (Trace.single hturn))⟩
  simp only [turns, List.map_append, List.map_cons, List.map_nil] at hturns ⊢
  rw [hturns]

end Reader
