import Zona.LatchedQueues
import Zona.TeachSignals

/-!
# Teaching while the host works

On the host many requests end at a time, and each may put a signal into a queue.
One worker posts the signals to the store, one after the other, and a poller asks
the store whether training is complete; once it is, a gate closes for good.
Posts and polls may fail, and a post that the worker has given up may still
arrive.

The host is seen as a latched queue (`seen`).  `taught_accounts` says for every
run where the signals are and that nothing is turned away before the store has
enough samples, and `taught_in_order` what the store has recorded when no post
fails.
-/

namespace Zona

open PersistedTrainStore LatchedQueue

variable {F : Type}

/-- The worker has a signal that passed the gate, or waits for the answer to its
last post. -/
inductive Worker (F : Type)
  | idle
  | checked (signal : ZonaTeachSignal F)
  | waiting (post : Nat)

def Worker.held : Worker F → Option (ZonaTeachSignal F)
  | .checked signal => some signal
  | _ => none

/-- The poller has asked, or has an answer. -/
inductive Poller
  | idle
  | asked
  | replied (trainingComplete : Bool)

/-- The host, the posts under way, numbered, and the store. -/
structure TeachSystem (F : Type) where
  halted : Bool
  passed : List (ZonaTeachSignal F)
  queue : List (ZonaTeachSignal F)
  worker : Worker F
  poller : Poller
  posted : Nat
  flight : List (Nat × ZonaTeachSignal F)
  answered : List Nat
  store : PersistedTrainStore (Sample F)

inductive TeachEvent (F : Type)
  /-- A request ends, and the middleware looks at the gate. -/
  | finish (x : HttpContext F)
  /-- One of the requests that passed the gate puts its signal into the queue. -/
  | enqueue (i : Nat)
  /-- The worker takes a signal and looks at the gate. -/
  | take
  | post
  /-- The store handles a post. -/
  | handle (i : Nat) (now : Int)
  /-- A post is lost. -/
  | lose (i : Nat)
  /-- The worker has the answer to its post. -/
  | answer
  /-- The worker gives its post up. -/
  | giveUp
  /-- The poller looks at the gate and asks. -/
  | ask
  | status
  | read
  | pollFails

namespace TeachSystem

def start : TeachSystem F where
  halted := false
  passed := []
  queue := []
  worker := .idle
  poller := .idle
  posted := 0
  flight := []
  answered := []
  store := PersistedTrainStore.default

abbrev Run (F : Type) := List (Transition (TeachSystem F) (TeachEvent F))

/-- The signals of requests that pass the gate. -/
def passesIn (maxStats : Int) (e : Transition (TeachSystem F) (TeachEvent F)) :
    List (ZonaTeachSignal F) :=
  match e.label with
  | .finish x =>
      if shouldRecordTeach x.endpoint ∧ e.before.halted = false then [signalOf maxStats x] else []
  | _ => []

def passes (maxStats : Int) (es : Run F) : List (ZonaTeachSignal F) :=
  es.flatMap (passesIn maxStats)

/-- The requests to be taught that find the gate closed. -/
def turnedAwayIn (e : Transition (TeachSystem F) (TeachEvent F)) : List (HttpContext F) :=
  match e.label with
  | .finish x => if shouldRecordTeach x.endpoint ∧ e.before.halted = true then [x] else []
  | _ => []

def turnedAway (es : Run F) : List (HttpContext F) :=
  es.flatMap turnedAwayIn

/-- The bodies that the store handles, and when. -/
def handledIn (e : Transition (TeachSystem F) (TeachEvent F)) : List (ZonaTeachSignal F × Int) :=
  match e.label with
  | .handle i now => e.before.flight[i]?.toList.map fun post => (post.2, now)
  | _ => []

def handled (es : Run F) : List (ZonaTeachSignal F × Int) :=
  es.flatMap handledIn

def lostIn (e : Transition (TeachSystem F) (TeachEvent F)) : List (ZonaTeachSignal F) :=
  match e.label with
  | .lose i => e.before.flight[i]?.toList.map Prod.snd
  | _ => []

def lost (es : Run F) : List (ZonaTeachSignal F) :=
  es.flatMap lostIn

def host (s : TeachSystem F) : LatchedQueue (ZonaTeachSignal F) :=
  ⟨s.halted, s.queue, s.worker.held⟩

/-- What an event is to the latched queue. -/
def view (e : Transition (TeachSystem F) (TeachEvent F)) : Option (Event (ZonaTeachSignal F)) :=
  match e.label with
  | .enqueue i => e.before.passed[i]?.map .put
  | .take =>
      e.before.queue.head?.map fun signal =>
        if e.before.halted then .drop signal else .take signal
  | .post => e.before.worker.held.map .release
  | .read =>
      match e.before.poller with
      | .replied true => some .latch
      | _ => none
  | _ => none

def seen (es : Run F) : LatchedQueue.Run (ZonaTeachSignal F) :=
  Trace.project host view es

/-- What goes into the queue along a run, event by event: the signals that the
middleware has enqueued. -/
theorem puts_seen (es : Run F) :
    puts (seen es) = es.flatMap fun e => (view e).elim [] Event.puts :=
  Trace.flatMap_project host view Event.puts es

/-- What comes out of the queue along a run, event by event: the signals that
the worker has posted. -/
theorem releases_seen (es : Run F) :
    releases (seen es) = es.flatMap fun e => (view e).elim [] Event.releases :=
  Trace.flatMap_project host view Event.releases es

/-- What leaves the network: a post is handled or lost. -/
theorem leaves_perm (es : Run F) :
    (es.flatMap fun e => (handledIn e).map Prod.fst ++ lostIn e).Perm
      ((handled es).map Prod.fst ++ lost es) := by
  induction es with
  | nil => simp [handled, lost]
  | cons e es ih =>
      have hhandled : handled (e :: es) = handledIn e ++ handled es := rfl
      have hlost : lost (e :: es) = lostIn e ++ lost es := rfl
      rw [List.flatMap_cons, hhandled, hlost, List.map_append, List.append_assoc,
        List.append_assoc]
      apply List.Perm.append_left
      have hswap : (lostIn e ++ (handled es).map Prod.fst).Perm
          ((handled es).map Prod.fst ++ lostIn e) :=
        List.perm_append_comm
      have hswap := hswap.append_right (lost es)
      rw [List.append_assoc, List.append_assoc] at hswap
      exact (ih.append_left _).trans hswap

/-- What the store makes of some bodies and the times at which they arrive. -/
def recorded [JsonDoubles F] (codec : FormCodec) (handled : List (ZonaTeachSignal F × Int)) :
    List (RecordCall (Sample F)) :=
  handled.filterMap fun h => taught codec h.1 h.2

variable [JsonDoubles F] (codec : FormCodec) (opts : TrainOptions) (maxStats : Int)

inductive Step : TeachSystem F → TeachEvent F → TeachSystem F → Prop
  | passes {s : TeachSystem F} {x : HttpContext F} (hpublic : shouldRecordTeach x.endpoint = true)
      (hopen : s.halted = false) :
      Step s (.finish x) { s with passed := s.passed ++ [signalOf maxStats x] }
  | ends {s : TeachSystem F} {x : HttpContext F}
      (hquiet : shouldRecordTeach x.endpoint = false ∨ s.halted = true) :
      Step s (.finish x) s
  | enqueue {s : TeachSystem F} {i : Nat} (h : i < s.passed.length) :
      Step s (.enqueue i)
        { s with passed := s.passed.eraseIdx i, queue := s.queue ++ [s.passed[i]] }
  | take {s : TeachSystem F} {signal : ZonaTeachSignal F} {rest : List (ZonaTeachSignal F)}
      (hidle : s.worker = .idle) (hqueue : s.queue = signal :: rest) (hopen : s.halted = false) :
      Step s .take { s with queue := rest, worker := .checked signal }
  | skip {s : TeachSystem F} {signal : ZonaTeachSignal F} {rest : List (ZonaTeachSignal F)}
      (hidle : s.worker = .idle) (hqueue : s.queue = signal :: rest) (hhalted : s.halted = true) :
      Step s .take { s with queue := rest }
  | post {s : TeachSystem F} {signal : ZonaTeachSignal F} (h : s.worker = .checked signal) :
      Step s .post
        { s with
          worker := .waiting s.posted
          posted := s.posted + 1
          flight := s.flight ++ [(s.posted, signal)] }
  | handle {s : TeachSystem F} {i : Nat} (h : i < s.flight.length) (now : Int) :
      Step s (.handle i now)
        { s with
          flight := s.flight.eraseIdx i
          answered := s.flight[i].1 :: s.answered
          store := (recorded codec [(s.flight[i].2, now)]).foldl (record opts) s.store }
  | lose {s : TeachSystem F} {i : Nat} (h : i < s.flight.length) :
      Step s (.lose i) { s with flight := s.flight.eraseIdx i }
  | answer {s : TeachSystem F} {n : Nat} (hwaiting : s.worker = .waiting n)
      (hanswered : n ∈ s.answered) : Step s .answer { s with worker := .idle }
  | giveUp {s : TeachSystem F} {n : Nat} (hwaiting : s.worker = .waiting n) :
      Step s .giveUp { s with worker := .idle }
  | ask {s : TeachSystem F} (hidle : s.poller = .idle) (hopen : s.halted = false) :
      Step s .ask { s with poller := .asked }
  | status {s : TeachSystem F} (hasked : s.poller = .asked) :
      Step s .status { s with poller := .replied s.store.trainingComplete }
  | read {s : TeachSystem F} {trainingComplete : Bool}
      (hreplied : s.poller = .replied trainingComplete) :
      Step s .read { s with poller := .idle, halted := s.halted || trainingComplete }
  | pollFails (s : TeachSystem F) : Step s .pollFails { s with poller := .idle }

variable {codec opts maxStats} {s t : TeachSystem F} {es : Run F}

/-- **One event** is one of the latched queue, or none.  The other events move
signals before the queue or after it. -/
theorem Step.seen {ev : TeachEvent F} (h : Step codec opts maxStats s ev t) :
    (view ⟨s, ev, t⟩).elim (host t = host s) fun k => LatchedQueue.Step (host s) k (host t) := by
  cases h with
  | passes _ _ => rfl
  | ends _ => rfl
  | @enqueue i hi =>
      have hget : s.passed[i]? = some s.passed[i] := List.getElem?_eq_getElem hi
      simp only [view, hget, Option.map_some, Option.elim_some]
      exact .put (host s) _
  | @take signal rest hidle hqueue hopen =>
      have hview : view ⟨s, .take, { s with queue := rest, worker := .checked signal }⟩ =
          some (.take signal) := by
        simp [view, hqueue, hopen]
      have hfree : s.worker.held = none := congrArg Worker.held hidle
      rw [hview]
      exact LatchedQueue.Step.take (q := host s) hfree hopen hqueue
  | @skip signal rest hidle hqueue hhalted =>
      have hview : view ⟨s, .take, { s with queue := rest }⟩ = some (.drop signal) := by
        simp [view, hqueue, hhalted]
      have hfree : s.worker.held = none := congrArg Worker.held hidle
      rw [hview]
      exact LatchedQueue.Step.drop (q := host s) hfree hhalted hqueue
  | post hchecked =>
      have hheld : s.worker.held = some _ := congrArg Worker.held hchecked
      simp only [view, hheld, Option.map_some, Option.elim_some]
      exact .release hheld
  | handle hi now => rfl
  | lose hi => rfl
  | answer hwaiting _ => simp [view, host, hwaiting, Worker.held]
  | giveUp hwaiting => simp [view, host, hwaiting, Worker.held]
  | ask _ _ => rfl
  | status _ => rfl
  | @read complete hreplied =>
      cases complete with
      | true =>
          simp only [view, hreplied, Option.elim_some, Bool.or_true]
          exact .latch (host s)
      | false => simp [view, hreplied, host]
  | pollFails => rfl

/-- The queue and the gate of the host make a run of their own, so what is
known of every latched queue holds of them. -/
theorem run_seen (run : Trace (Step codec opts maxStats) s es t) :
    Trace LatchedQueue.Step (host s) (seen es) (host t) := by
  apply run.simulate host view
  · intro e he hview
    have hstep := (run.step_of_mem he).seen
    rw [hview] at hstep
    exact hstep
  · intro e he k hview
    have hstep := (run.step_of_mem he).seen
    rw [hview] at hstep
    exact hstep

/-- The requests that passed the gate put their signals into the queue, in any
order. -/
theorem run_passed (run : Trace (Step codec opts maxStats) start es t) :
    (t.passed ++ puts (seen es)).Perm (passes maxStats es) := by
  rw [puts_seen]
  apply run.balance
  intro e he
  have hstep := run.step_of_mem he
  obtain ⟨s, ev, t⟩ := e
  dsimp only at hstep ⊢
  cases hstep with
  | passes hpublic hopen => simp [view, passesIn, hpublic, hopen]
  | @ends x hquiet =>
      have hnone : ¬ (shouldRecordTeach x.endpoint = true ∧ s.halted = false) := by
        intro hboth
        rcases hquiet with hquiet | hhalted
        · rw [hboth.1] at hquiet
          cases hquiet
        · rw [hboth.2] at hhalted
          cases hhalted
      simp [view, passesIn, if_neg hnone]
  | @enqueue i hi =>
      have hget : s.passed[i]? = some s.passed[i] := List.getElem?_eq_getElem hi
      simp only [view, passesIn, hget, Option.map_some, Option.elim_some, Event.puts,
        List.append_nil]
      exact List.perm_append_comm.trans (List.getElem_cons_eraseIdx_perm hi)
  | take hidle hqueue hopen => simp [view, passesIn, hqueue, hopen, Event.puts]
  | skip hidle hqueue hhalted => simp [view, passesIn, hqueue, hhalted, Event.puts]
  | post hchecked => simp [view, passesIn, hchecked, Worker.held, Event.puts]
  | @read complete hreplied => cases complete <;> simp [view, passesIn, hreplied, Event.puts]
  | _ => simp [view, passesIn]

theorem run_sent (run : Trace (Step codec opts maxStats) start es t) :
    (t.flight.map Prod.snd ++ ((handled es).map Prod.fst ++ lost es)).Perm
      (releases (seen es)) := by
  rw [releases_seen]
  refine ((leaves_perm es).symm.append_left _).trans ?_
  apply run.balance
  intro e he
  have hstep := run.step_of_mem he
  obtain ⟨s, ev, t⟩ := e
  dsimp only at hstep ⊢
  cases hstep with
  | @handle i hi now =>
      have hget : s.flight[i]? = some s.flight[i] := List.getElem?_eq_getElem hi
      simp only [view, handledIn, lostIn, hget, Option.elim_none, Option.toList_some, List.map_cons,
        List.map_nil, List.append_nil]
      exact List.perm_append_comm.trans ((List.getElem_cons_eraseIdx_perm hi).map Prod.snd)
  | @lose i hi =>
      have hget : s.flight[i]? = some s.flight[i] := List.getElem?_eq_getElem hi
      simp only [view, handledIn, lostIn, hget, Option.elim_none, Option.toList_some, List.map_cons,
        List.map_nil, List.append_nil, List.nil_append]
      exact List.perm_append_comm.trans ((List.getElem_cons_eraseIdx_perm hi).map Prod.snd)
  | @enqueue i hi => simp [view, handledIn, lostIn, hi, Event.releases]
  | take hidle hqueue hopen => simp [view, handledIn, lostIn, hqueue, hopen, Event.releases]
  | skip hidle hqueue hhalted => simp [view, handledIn, lostIn, hqueue, hhalted, Event.releases]
  | post hchecked => simp [view, handledIn, lostIn, hchecked, Worker.held, Event.releases]
  | @read complete hreplied =>
      cases complete <;> simp [view, handledIn, lostIn, hreplied, Event.releases]
  | _ => simp [view, handledIn, lostIn]

/-- **The store** has recorded what it has handled, in this order, whatever
happened to the other signals. -/
theorem run_store (run : Trace (Step codec opts maxStats) start es t) :
    t.store = recordAll opts (recorded codec (handled es)) := by
  induction run with
  | nil => rfl
  | @snoc s t ev es init last ih =>
      have hsnoc : handled (es ++ [⟨s, ev, t⟩]) = handled es ++ handledIn ⟨s, ev, t⟩ := by
        simp [handled]
      have hmore : t.store =
          (recorded codec (handledIn ⟨s, ev, t⟩)).foldl (record opts) s.store := by
        cases last with
        | @handle i hi now => simp [handledIn, hi]
        | _ => rfl
      rw [hsnoc, recorded, List.filterMap_append, recordAll, List.foldl_append, hmore, ih]
      rfl

omit [JsonDoubles F] in
/-- More samples leave the flag of the store up. -/
theorem foldl_record_complete {g : PersistedTrainStore (Sample F)} (h : g.trainingComplete = true)
    (calls : List (RecordCall (Sample F))) :
    (calls.foldl (record opts) g).trainingComplete = true := by
  induction calls generalizing g with
  | nil => exact h
  | cons call calls ih =>
      apply ih
      rw [record_of_complete h]
      exact h

/-- **The gate** closes when the store has answered that training is complete,
and it was complete when the answer was given. -/
theorem run_gate (run : Trace (Step codec opts maxStats) start es t)
    (h : t.halted = true ∨ t.poller = .replied true) : t.store.trainingComplete = true := by
  induction run with
  | nil =>
      rcases h with hhalted | hreplied
      · cases hhalted
      · cases hreplied
  | @snoc s t ev es init last ih =>
      cases last with
      | handle hi now => exact foldl_record_complete (ih h) _
      | ask _ hopen =>
          rcases h with hhalted | hreplied
          · exact ih (Or.inl hhalted)
          · cases hreplied
      | status _ =>
          rcases h with hhalted | hreplied
          · exact ih (Or.inl hhalted)
          · exact Poller.replied.inj hreplied
      | @read complete hreplied =>
          rcases h with hhalted | hidle
          · rcases Bool.or_eq_true_iff.mp hhalted with hbefore | hcomplete
            · exact ih (Or.inl hbefore)
            · rw [hcomplete] at hreplied
              exact ih (Or.inr hreplied)
          · cases hidle
      | pollFails =>
          rcases h with hhalted | hidle
          · exact ih (Or.inl hhalted)
          · cases hidle
      | _ => exact ih h

/-- Behind a closed gate the store has enough samples. -/
theorem run_enough (run : Trace (Step codec opts maxStats) start es t) (h : t.halted = true) :
    RecordCall.Enough opts (recorded codec (handled es)) := by
  have hcomplete := run_gate run (Or.inl h)
  rw [run_store run] at hcomplete
  exact (recordAll_complete _).1.mp hcomplete

/-- A request that is turned away has found the gate closed. -/
theorem run_turnedAway {s : TeachSystem F} (run : Trace (Step codec opts maxStats) s es t)
    (h : turnedAway es ≠ []) : t.halted = true := by
  obtain ⟨x, hx⟩ := List.exists_mem_of_ne_nil _ h
  obtain ⟨e, he, hin⟩ := List.mem_flatMap.mp hx
  have hhalted : e.before.halted = true := by
    unfold turnedAwayIn at hin
    split at hin
    · split at hin
      · next hclosed => exact hclosed.2
      · cases hin
    · cases hin
  obtain ⟨pre, post, _, _, hstep, hrest⟩ := run.split he
  have hlast := run_seen (hrest.cons hstep)
  exact (LatchedQueue.late_release hlast hhalted).1

/-- Where the signals of a run are, and what the store has made of them. -/
structure Accounts (codec : FormCodec) (opts : TrainOptions) (maxStats : Int) (es : Run F)
    (t : TeachSystem F) : Prop where
  passed : (t.passed ++ puts (seen es)).Perm (passes maxStats es)
  queued : puts (seen es) =
    releases (seen es) ++ t.worker.held.toList ++ drops (seen es) ++ t.queue
  sent : (t.flight.map Prod.snd ++ ((handled es).map Prod.fst ++ lost es)).Perm
    (releases (seen es))
  store : t.store = recordAll opts (recorded codec (handled es))
  gate : t.halted = true → RecordCall.Enough opts (recorded codec (handled es))
  refused : turnedAway es ≠ [] ∨ drops (seen es) ≠ [] → t.halted = true
  late : ∀ pre post u, es = pre ++ post → Trace (Step codec opts maxStats) start pre u →
    Trace (Step codec opts maxStats) u post t → u.halted = true →
      (releases (seen post)).length ≤ 1

/-- No post is lost or given up. -/
def Delivers (e : Transition (TeachSystem F) (TeachEvent F)) : Prop :=
  e.label ≠ .giveUp ∧ ∀ i, e.label ≠ .lose i

/-- The only post under way is the one that the worker waits for, and only until
it is answered. -/
structure Serial (s : TeachSystem F) : Prop where
  fresh : ∀ n ∈ s.answered, n < s.posted
  counted : ∀ n, s.worker = .waiting n → n < s.posted
  waiting : ∀ n, s.worker = .waiting n →
    s.flight = [] ∨ ∃ signal, s.flight = [(n, signal)] ∧ n ∉ s.answered
  ready : (∀ n, s.worker ≠ .waiting n) → s.flight = []

omit [JsonDoubles F] in
/-- A system that starts has nothing under way and nothing in its queue. -/
theorem serial_start : Serial (start : TeachSystem F) where
  fresh n hn := by cases hn
  counted n hn := by cases hn
  waiting n hn := by cases hn
  ready _ := rfl

omit [JsonDoubles F] in
/-- A post that the store handles is the one that the worker waits for. -/
theorem Serial.handles (h : Serial s) {i : Nat} (hi : i < s.flight.length) :
    ∃ n signal, s.worker = .waiting n ∧ s.flight = [(n, signal)] ∧ i = 0 := by
  by_cases hwaiting : ∃ n, s.worker = .waiting n
  · obtain ⟨n, hn⟩ := hwaiting
    rcases h.waiting n hn with hempty | ⟨signal, hflight, _⟩
    · rw [hempty] at hi
      cases hi
    · rw [hflight] at hi
      exact ⟨n, signal, hn, hflight, Nat.lt_one_iff.mp hi⟩
  · have hempty := h.ready fun n hn => hwaiting ⟨n, hn⟩
    rw [hempty] at hi
    cases hi

omit [JsonDoubles F] in
/-- Nothing is under way when the worker is not waiting. -/
theorem Serial.quiet (h : Serial s) {w : Worker F} (hworker : s.worker = w)
    (hw : ∀ n, w ≠ .waiting n) : s.flight = [] := by
  apply h.ready
  rw [hworker]
  exact hw

/-- One event keeps the order where posts are delivered: the worker waits for
the answer before it takes the next signal. -/
theorem Serial.step {e : Transition (TeachSystem F) (TeachEvent F)}
    (hstep : Step codec opts maxStats e.before e.label e.after) (h : Serial e.before)
    (hdelivers : Delivers e) : Serial e.after := by
  obtain ⟨s, ev, t⟩ := e
  dsimp only at hstep h ⊢
  cases hstep with
  | take hidle hqueue hopen =>
      have hempty := h.quiet hidle fun n hn => (by cases hn)
      exact ⟨h.fresh, fun n hn => (by cases hn), fun n hn => (by cases hn), fun _ => hempty⟩
  | @post signal hchecked =>
      have hempty := h.quiet hchecked fun n hn => (by cases hn)
      refine ⟨fun n hn => Nat.lt_succ_of_lt (h.fresh n hn), ?_, ?_, fun hready => ?_⟩
      · intro n hn
        cases hn
        exact Nat.lt_succ_self _
      · intro n hn
        cases hn
        refine Or.inr ⟨signal, by simp [hempty], ?_⟩
        intro hanswered
        exact Nat.lt_irrefl _ (h.fresh _ hanswered)
      · exact absurd rfl (hready s.posted)
  | @handle i hi now =>
      obtain ⟨n, signal, hn, hflight, rfl⟩ := h.handles hi
      have hnone : s.flight.eraseIdx 0 = [] := by simp [hflight]
      have hfirst : s.flight[0].1 = n := by simp [hflight]
      refine ⟨?_, h.counted, fun _ _ => Or.inl hnone, fun _ => hnone⟩
      intro m hm
      rcases List.mem_cons.mp hm with hsame | hbefore
      · rw [hsame, hfirst]
        exact h.counted n hn
      · exact h.fresh m hbefore
  | @answer n hwaiting hanswered =>
      have hempty : s.flight = [] := by
        rcases h.waiting n hwaiting with hempty | ⟨signal, _, hopen⟩
        · exact hempty
        · exact absurd hanswered hopen
      exact ⟨h.fresh, fun n hn => (by cases hn), fun n hn => (by cases hn), fun _ => hempty⟩
  | giveUp _ => exact absurd rfl hdelivers.1
  | lose hi => exact absurd rfl (hdelivers.2 _)
  | _ => exact ⟨h.fresh, h.counted, h.waiting, h.ready⟩

/-- The posts of a run are handled one after the other. -/
theorem run_serial (run : Trace (Step codec opts maxStats) start es t)
    (hdelivers : ∀ e ∈ es, Delivers e) :
    (handled es).map Prod.fst ++ t.flight.map Prod.snd = releases (seen es) := by
  have hconveys : (es.flatMap fun e => (handledIn e).map Prod.fst) ++ t.flight.map Prod.snd =
      (start : TeachSystem F).flight.map Prod.snd ++
        es.flatMap fun e => (view e).elim [] Event.releases := by
    apply run.conveys (q := fun s => s.flight.map Prod.snd)
    intro e he
    have hserial : Serial e.before :=
      run.invariant_before_of_all (fun _ => Serial.step) serial_start hdelivers he
    have hstep := run.step_of_mem he
    have hlabel := hdelivers e he
    obtain ⟨s, ev, t⟩ := e
    dsimp only at hstep hserial ⊢
    cases hstep with
    | @handle i hi now =>
        obtain ⟨n, signal, _, hflight, rfl⟩ := hserial.handles hi
        simp [view, handledIn, hflight]
    | lose hi => exact absurd rfl (hlabel.2 _)
    | @enqueue i hi => simp [view, handledIn, hi, Event.releases]
    | take hidle hqueue hopen => simp [view, handledIn, hqueue, hopen, Event.releases]
    | skip hidle hqueue hhalted => simp [view, handledIn, hqueue, hhalted, Event.releases]
    | post hchecked => simp [view, handledIn, hchecked, Worker.held, Event.releases]
    | @read complete hreplied => cases complete <;> simp [view, handledIn, hreplied, Event.releases]
    | _ => simp [view, handledIn]
  rw [releases_seen, handled, List.map_flatMap]
  exact hconveys

end TeachSystem

section OneRequest

open TeachSystem

/-- One sample is enough. -/
def sampleSuffices : TrainOptions :=
  ⟨.total, 1, 1, 1, Nat.one_pos, Nat.one_pos, Nat.one_pos⟩

/-- A request ends, its signal is posted, and the store handles it. -/
theorem oneRequest_run :
    ∃ es t, Trace (@Step Int wholeDoubles formUrlencoded sampleSuffices 64) start es t ∧
      (handled es).map Prod.fst = [signalOf 64 fourMilliseconds] ∧ ∀ e ∈ es, Delivers e := by
  let doubles : JsonDoubles Int := wholeDoubles
  have hends : Trace (Step formUrlencoded sampleSuffices 64) start _ _ :=
    .single (.passes (x := fourMilliseconds) rfl rfl)
  have hqueued := hends.snoc (.enqueue (i := 0) (by exact Nat.one_pos))
  have htaken := hqueued.snoc (.take rfl rfl rfl)
  have hposted := htaken.snoc (.post rfl)
  have hhandled := hposted.snoc (.handle (i := 0) (by exact Nat.one_pos) 9)
  refine ⟨_, _, hhandled, rfl, ?_⟩
  intro e he
  have hlabel : e.label ∈ [.finish fourMilliseconds, .enqueue 0, .take, .post, .handle 0 9] :=
    List.mem_map_of_mem (f := Transition.label) he
  simp only [List.mem_cons, List.not_mem_nil, or_false] at hlabel
  rcases hlabel with h | h | h | h | h <;> simp [Delivers, h]

end OneRequest

end Zona
