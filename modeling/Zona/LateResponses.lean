import Zona.PendingTables

/-!
# Responses that come too late

The answer of a remote handler comes back as a relay request like any other.
What tells it from a request is that its id is in the pending table, and every
exit of a call takes its id out.  `responses_kept_iff` says for whole runs when
no answer is mistaken for a request: whenever one arrives, its call still waits
for it, or there is no handler that would take it.

`late_response_dispatched` is the run in which the call times out first.
-/

namespace Zona

namespace LockedProcess

/-- The request is what a remote server posts as the answer to the call with
the ticket. -/
def IsResponse (d : LockedProcess) (t : Ticket) (req : RelayRequest) : Prop :=
  t.toId ≠ d.proc.state.node.id ∧ ∃ (remote : ServerState) (path : List String),
    remote.node.id = t.toId ∧
      ∃ post ∈ (remote.deliver { Process.callRelay d.proc.state t with path := path }).posts,
        post.request = req

/-- An answer to a call of this server that comes in is not handed to a
handler. -/
def KeepsResponses (e : Transition LockedProcess Action) : Prop :=
  match e.label with
  | .deliver req =>
      ∀ t ∈ e.before.proc.tickets, e.before.IsResponse t req →
        ∀ tried, (e.before.proc.state.doRelay req tried).dispatched = none
  | _ => True

/-- What a transition does to the wait under an id: it begins when a call is
entered under the id, and ends when that call takes its entry out or a request
under the id is delivered. -/
def touch (cid : UInt64) (waits : Bool) (e : Transition LockedProcess Action) : Bool :=
  match e.label with
  | .enter t => if t.cid = cid then true else waits
  | .close k =>
      if e.before.proc.calls[k]?.any fun c => c.ticket.cid = cid then false else waits
  | .deliver req => if req.correlationId = some cid then false else waits
  | _ => waits

/-- A call waits under the id after these transitions. -/
def waits (cid : UInt64) (es : List (Transition LockedProcess Action)) : Bool :=
  es.foldl (touch cid) false

/-- An answer that comes in after these transitions finds its call waiting, or
no handler takes it. -/
def InTime (pre : List (Transition LockedProcess Action)) (e : Transition LockedProcess Action) :
    Prop :=
  match e.label with
  | .deliver req =>
      ∀ t ∈ e.before.proc.tickets, e.before.IsResponse t req →
        waits t.cid pre = true ∨
          handlerFor e.before.proc.state.handlers (Utf8.encode req.text) = none
  | _ => True

/-- An answer names the server that made the call, and its id. -/
theorem IsResponse.names {d : LockedProcess} {t : Ticket} {req : RelayRequest}
    (h : d.IsResponse t req) :
    NodeId.parse req.toId = some d.proc.state.node.id ∧ req.correlationId = some t.cid := by
  obtain ⟨_, remote, path, _, post, hpost, rfl⟩ := h
  rcases deliver_cases remote { Process.callRelay d.proc.state t with path := path } with
    ⟨hwaiting, _, _⟩ | ⟨cid, k, hwaiting, _, _, _⟩
  · rw [(ServerState.deliver_of_not_waiting hwaiting).2.2.2] at hpost
    split at hpost
    · rw [List.mem_singleton.mp hpost]
      exact ⟨NodeId.parse_hex _, rfl⟩
    · cases hpost
  · rw [(ServerState.deliver_of_waiting hwaiting).2.1] at hpost
    cases hpost

/-- The call that waits for a packet is looked up under the number of the
packet, whether this is a request or a response. -/
theorem waitingCall_of_cid {st : ServerState} {req : RelayRequest} {cid : UInt64}
    (h : req.correlationId = some cid) :
    st.waitingCall req = (st.pending.lookup cid).map fun k => (cid, k) := by
  rw [ServerState.waitingCall, h]
  rfl

/-- **An answer comes in.**  It is kept from the handlers exactly when its id is
in the table or no handler takes it. -/
theorem dispatched_of_response {d : LockedProcess} {t : Ticket} {req : RelayRequest}
    (h : d.IsResponse t req) :
    (∀ tried, (d.proc.state.doRelay req tried).dispatched = none) ↔
      (d.pending.lookup t.cid).isSome = true ∨
        handlerFor d.proc.state.handlers (Utf8.encode req.text) = none := by
  obtain ⟨hnames, hcid⟩ := h.names
  have hdeliver : ∀ tried, d.proc.state.doRelay req tried = d.proc.state.deliver req :=
    fun tried => ServerState.doRelay_of_destination hnames
  simp only [hdeliver]
  have hwaiting := @waitingCall_of_cid d.proc.state req t.cid hcid
  rw [pending]
  cases hlookup : d.proc.state.pending.lookup t.cid with
  | some k =>
      rw [hlookup, Option.map_some] at hwaiting
      simp [(ServerState.deliver_of_waiting hwaiting).2.2.2]
  | none =>
      rw [hlookup, Option.map_none] at hwaiting
      simp [(ServerState.deliver_of_not_waiting hwaiting).2.2.1]

/-- One action changes whether something waits under a number only if it
begins, ends or resolves a call with it. -/
theorem waits_step {e : Transition LockedProcess Action} (hstep : Step e.before e.label e.after)
    (cid : UInt64) :
    (e.after.pending.lookup cid).isSome = touch cid (e.before.pending.lookup cid).isSome e := by
  rcases e with ⟨d, a, d'⟩
  dsimp only at hstep ⊢
  cases hstep with
  | @enter t hdrawn =>
      have hlookup : (d.proc.enter t).state.pending.lookup cid =
          if cid = t.cid then some d.proc.calls.length else d.pending.lookup cid :=
        HashMap.lookup_put
      rw [touch]
      dsimp only [pending]
      rw [hlookup]
      by_cases hcid : t.cid = cid
      · rw [if_pos hcid.symm, if_pos hcid, Option.isSome_some]
      · rw [if_neg fun heq => hcid heq.symm, if_neg hcid]
        rfl
  | @close k c result hcall hstage =>
      have hlookup : ((d.proc.setCall k { c with stage := .returned result }).forget
          c.ticket.cid).state.pending.lookup cid =
            if cid = c.ticket.cid then none else d.pending.lookup cid :=
        HashMap.lookup_erase d.pending c.ticket.cid cid
      rw [touch]
      dsimp only [pending, put]
      rw [hlookup, hcall]
      by_cases hcid : c.ticket.cid = cid
      · simp [hcid]
      · have hne : ¬ cid = c.ticket.cid := fun heq => hcid heq.symm
        simp [hcid, hne, pending]
  | @deliver req =>
      rw [touch]
      dsimp only [pending]
      rcases deliver_cases d.proc.state req with
        ⟨hwaiting, hstate, _⟩ | ⟨cid', k, hwaiting, hlookup, hstate, _⟩
      · rw [hstate]
        by_cases hcid : req.correlationId = some cid
        · rw [waitingCall_of_cid hcid, Option.map_eq_none_iff] at hwaiting
          rw [if_pos hcid, hwaiting, Option.isSome_none]
        · rw [if_neg hcid]
      · have hnamed := (waitingCall_eq_some hwaiting).1
        rw [hstate]
        dsimp only
        rw [HashMap.lookup_erase]
        by_cases hcid : cid = cid'
        · rw [if_pos hcid, if_pos (hcid ▸ hnamed), Option.isSome_none]
        · rw [if_neg hcid, if_neg fun heq => hcid (Option.some.inj (heq.symm.trans hnamed))]
  | @hand k bytes hhanding =>
      have hstate : (d.proc.receive (some (k, bytes))).state = d.proc.state := by
        rw [Process.receive]
        cases d.proc.calls[k]? <;> rfl
      dsimp only [pending]
      rw [hstate]
      rfl
  | _ => rfl

/-- **The table follows the waits**: along a run there is an entry under a
number exactly while a call with it waits. -/
theorem isSome_lookup_of_run {start final : LockedProcess}
    {es : List (Transition LockedProcess Action)} (hstart : start.Fresh)
    (run : Trace Step start es final) (cid : UInt64) :
    (final.pending.lookup cid).isSome = waits cid es := by
  induction run with
  | nil =>
      rw [hstart.pending]
      rfl
  | @snoc d d' a es init last ih =>
      rw [waits, List.foldl_append]
      exact (@waits_step ⟨d, a, d'⟩ last cid).trans (congrArg (touch cid · ⟨d, a, d'⟩) ih)

/-- **Responses and requests.**  Along a run, no answer to a call of this server
is handed to one of its handlers, exactly when each answer finds its call
waiting as it arrives, or finds no handler. -/
theorem responses_kept_iff {start final : LockedProcess}
    {es : List (Transition LockedProcess Action)} (hstart : start.Fresh)
    (run : Trace Step start es final) :
    (∀ e ∈ es, KeepsResponses e) ↔ ∀ pre e post, es = pre ++ e :: post → InTime pre e := by
  have hone : ∀ pre e post, es = pre ++ e :: post → (KeepsResponses e ↔ InTime pre e) := by
    intro pre e post hsplit
    obtain ⟨hpre, _, _⟩ := Trace.cut (hsplit ▸ run)
    unfold KeepsResponses InTime
    cases e.label with
    | deliver req =>
        refine forall_congr' fun t => imp_congr_right fun _ => imp_congr_right fun hresponse => ?_
        rw [← isSome_lookup_of_run hstart hpre t.cid]
        exact dispatched_of_response hresponse
    | _ => exact Iff.rfl
  constructor
  · intro h pre e post hsplit
    exact (hone pre e post hsplit).mp (h e (hsplit ▸ by simp))
  · intro h e he
    obtain ⟨pre, post, hsplit⟩ := List.append_of_mem he
    exact (hone pre e post hsplit).mpr (h pre e post hsplit)

/-- The answer of the peer, which echoes the payload. -/
def sampleResponse : RelayRequest :=
  { sampleStart.proc.state with node := Node.sample 2 }.responseRelay
    (Process.callRelay sampleStart.proc.state (sampleCall .waiting).ticket) [0x61]

/-- A request is delivered. -/
def afterDeliver (d : LockedProcess) (req : RelayRequest) : LockedProcess :=
  { d with
    proc := { d.proc with state := (d.proc.state.deliver req).state }
    handing := (d.proc.state.deliver req).answered.toList ++ d.handing }

/-- The answer comes in after the call has timed out. -/
def lateRun : List (Transition LockedProcess Action) :=
  timeoutRun ++ [⟨timedOut, .deliver sampleResponse, afterDeliver timedOut sampleResponse⟩]

/-- The answer comes in while the call waits. -/
def timelyRun : List (Transition LockedProcess Action) :=
  timeoutRun.take 3 ++
    [⟨sampleAt .waiting, .deliver sampleResponse, afterDeliver (sampleAt .waiting) sampleResponse⟩]

theorem sampleResponse_isResponse :
    timedOut.IsResponse (sampleCall .waiting).ticket sampleResponse := by
  have hpost : ∃ post ∈ ({ sampleStart.proc.state with node := Node.sample 2 }.deliver
      (Process.callRelay sampleStart.proc.state (sampleCall .waiting).ticket)).posts,
        post.request = sampleResponse := by
    decide +kernel
  exact ⟨by decide +kernel, _, _, rfl, hpost⟩

/-- The run in which the response comes after the call has expired. -/
theorem lateRun_trace : Trace Step sampleStart lateRun (afterDeliver timedOut sampleResponse) :=
  .snoc timeoutRun_trace .deliver

/-- **Too late.**  The call has timed out, and its answer is handed to a handler
of the server that made the call. -/
theorem late_response_dispatched :
    sampleStart.Fresh ∧
      (∃ final, Trace Step sampleStart lateRun final) ∧ ¬ ∀ e ∈ lateRun, KeepsResponses e := by
  refine ⟨sampleStart_fresh, ⟨_, lateRun_trace⟩, ?_⟩
  intro h
  have hkept := h ⟨timedOut, .deliver sampleResponse, afterDeliver timedOut sampleResponse⟩
    (List.mem_append_right _ List.mem_cons_self)
  have hnone := hkept (sampleCall .waiting).ticket List.mem_cons_self sampleResponse_isResponse 0
  revert hnone
  decide +kernel

/-- The run in which the response comes while the call still waits. -/
theorem timelyRun_trace :
    Trace Step sampleStart timelyRun (afterDeliver (sampleAt .waiting) sampleResponse) := by
  have hposted : Trace Step sampleStart (timeoutRun.take 3) (sampleAt .waiting) :=
    (@Trace.cut _ _ Step sampleStart timedOut (timeoutRun.take 3) (timeoutRun.drop 4)
      ⟨sampleAt .waiting, .expire 0, sampleAt (.closing timeoutError)⟩ timeoutRun_trace).1
  exact .snoc hposted .deliver

/-- In time, the same answer is kept from the handler. -/
theorem timely_response_kept :
    (∃ e ∈ timelyRun, e.label = .deliver sampleResponse) ∧ ∀ e ∈ timelyRun, KeepsResponses e := by
  refine ⟨⟨_, List.mem_append_right _ List.mem_cons_self, rfl⟩,
    (responses_kept_iff sampleStart_fresh timelyRun_trace).mpr ?_⟩
  intro pre e post hsplit
  rcases List.eq_nil_or_concat post with rfl | ⟨rest, last, rfl⟩
  · obtain ⟨rfl, hlast⟩ := List.append_inj' hsplit rfl
    obtain rfl := List.singleton_inj.mp hlast
    intro t ht _
    rw [List.mem_singleton.mp ht]
    exact Or.inl (by decide +kernel)
  · rw [List.concat_eq_append, ← List.cons_append, ← List.append_assoc] at hsplit
    obtain ⟨hearly, _⟩ := List.append_inj' hsplit rfl
    have hmem : e ∈ timeoutRun.take 3 := by
      rw [hearly]
      simp
    have hquiet : ∀ e ∈ timeoutRun.take 3, ∀ pre, InTime pre e := by
      simp [timeoutRun, InTime]
    exact hquiet e hmem pre

end LockedProcess

end Zona
