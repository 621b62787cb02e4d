import Zona.CallConsistency

/-!
# Calls and their answers

A server looks the correlation id of an incoming request up among its own
calls before it knows whether the request is an answer.  `calls_correlated` is
about the runs in which this never goes wrong because no request arrives at a
server that waits under the same number, and in which everything on the way is
text: there every request is handed to a handler of its destination, and every
answer that a call returns was computed there for its payload.

Two servers that call each other at the same time are enough for it to go
wrong (`crossed_calls_mistaken`).
-/

namespace Zona

namespace Servers

variable {ι : Type}

/-- What remote calls have returned was computed for them. -/
def Correlated (net : Servers ι) : Prop :=
  ∀ i, ∀ c ∈ (net.procs i).calls, c.ticket.toId ≠ net.idOf i →
    ∀ bytes, c.stage = .returned (.ok bytes) → net.Answers i c.ticket bytes

/-- A request that reaches its destination is handed to the handler that wants
its payload, and answers no call of the destination. -/
def HandsRequests (e : Transition (Servers ι) (Action ι)) : Prop :=
  match e.label with
  | .relay i post tried =>
      post.request.IsRequest → NodeId.parse post.request.toId = some (e.before.idOf i) →
        ((e.before.procs i).state.doRelay post.request tried).answered = none ∧
          ((e.before.procs i).state.doRelay post.request tried).dispatched =
            (handlerFor (e.before.procs i).state.handlers post.request.packet.payload).map
              fun _ => post.request.packet
  | _ => True

/-- No request arrives where a call waits under its correlation id. -/
def ClashFree (e : Transition (Servers ι) (Action ι)) : Prop :=
  match e.label with
  | .relay i post _ =>
      post.request.IsRequest → NodeId.parse post.request.toId = some (e.before.idOf i) →
        (e.before.procs i).state.waitingCall post.request = none
  | _ => True

/-- The correlation ids of a process have not run out, and what is posted and
answered is text.  A call to the own identifier, or one without a first hop, may
carry any bytes. -/
def Orderly (e : Transition (Servers ι) (Action ι)) : Prop :=
  match e.label with
  | .call i toId payload =>
      (e.before.procs i).calls.length < 2 ^ 64 ∧
        ∀ url, Process.firstStage (e.before.procs i).state toId payload = .posting url →
          Utf8.IsText payload
  | .relay i post _ =>
      post.request.IsRequest → NodeId.parse post.request.toId = some (e.before.idOf i) →
        ∀ bytes, answerOf (e.before.procs i).state.handlers post.request.packet = some bytes →
          Utf8.IsText bytes
  | _ => True

/-- In a consistent network every call that has returned has the answer to its
own payload, by the definition of an honest call. -/
theorem Consistent.correlated {net : Servers ι} (h : net.Consistent) : net.Correlated :=
  fun i c hc hremote bytes hstage =>
    (h.honest i c hc).answered hremote bytes (Or.inr (Or.inr hstage))

variable [DecidableEq ι]

omit [DecidableEq ι] in
/-- **Requests and clashes.**  A request that reaches its destination is handed
to a handler exactly when no call waits there under its number. -/
theorem handsRequests_iff_clashFree {e : Transition (Servers ι) (Action ι)} :
    HandsRequests e ↔ ClashFree e := by
  rcases e with ⟨net, a, net'⟩
  unfold HandsRequests ClashFree
  cases a with
  | relay i post tried =>
      dsimp only
      apply imp_congr_right
      intro hrequest
      apply imp_congr_right
      intro hdest
      rw [ServerState.doRelay_of_destination hdest]
      cases hwaiting : (net.procs i).state.waitingCall post.request with
      | some found =>
          obtain ⟨_, _, hanswered, _⟩ := ServerState.deliver_of_waiting hwaiting
          simp [hanswered]
      | none =>
          obtain ⟨_, hanswered, hdispatched, _⟩ := ServerState.deliver_of_not_waiting hwaiting
          exact iff_of_true ⟨hanswered, hdispatched⟩ rfl
  | _ => exact Iff.rfl

/-- **The step.**  An action that meets the condition keeps the network
consistent: requests go to handlers, and only answers resolve calls. -/
theorem consistent_step (e : Transition (Servers ι) (Action ι))
    (hstep : Step e.before e.label e.after) (h : e.before.Consistent)
    (hgood : ClashFree e ∧ Orderly e) : e.after.Consistent := by
  rcases e with ⟨net, a, net'⟩
  obtain ⟨hclash, horderly⟩ := hgood
  dsimp only at hstep h ⊢
  have hnone : ∀ post ∈ ([] : List Post), net.Accounted post.request := by
    intro post hpost
    cases hpost
  cases hstep with
  | call => exact consistent_call h horderly.1 horderly.2
  | @post i k c url hcall hstage =>
      apply consistent_stage h hcall (by simp) (by simp)
      intro post hpost
      rw [List.mem_singleton.mp hpost]
      exact accounted_callRelay h (List.mem_of_getElem? hcall) hstage
  | fail hcall hstage => exact consistent_stage h hcall (by simp) (by simp) hnone
  | @receive i k c bytes hcall hstage hmail =>
      apply consistent_stage h hcall (by simp) ?_ hnone
      intro bytes' heq
      have hsame : bytes = bytes' := by
        simpa using heq
      rw [← hsame]
      exact Or.inl hmail
  | closed hcall hstage hmail hgone => exact consistent_stage h hcall (by simp) (by simp) hnone
  | expire hcall hstage hmail => exact consistent_stage h hcall (by simp) (by simp) hnone
  | close hcall hstage => exact consistent_close h hcall hstage
  | host =>
      exact h.put_keeps ⟨rfl, rfl, rfl, rfl, fun _ _ hk => hk⟩ (h.honest _) hnone
  | @relay i post tried hflight =>
      exact consistent_relay tried h (h.flight post hflight) hclash horderly

/-- **Calls and their answers.**  In a run in which no request arrives where a
call waits under its number, every request that reaches its destination is
handed to a handler there, and every answer a remote call returns is what a
handler of its destination computed for its payload. -/
theorem calls_correlated {net final : Servers ι} {es : List (Transition (Servers ι) (Action ι))}
    (hstart : net.Fresh) (run : Trace Step net es final)
    (hgood : ∀ e ∈ es, ClashFree e ∧ Orderly e) :
    ∀ e ∈ es, HandsRequests e ∧ e.after.Correlated := by
  intro e he
  have hbefore : e.before.Consistent :=
    @Trace.invariant_before_of_all _ _ _ _ _ _ Consistent (fun e => ClashFree e ∧ Orderly e)
      consistent_step run hstart.consistent hgood e he
  have hafter := consistent_step e (run.step_of_mem he) hbefore (hgood e he)
  exact ⟨handsRequests_iff_clashFree.mpr (hgood e he).1, hafter.correlated⟩

/-- A server that knows one peer and answers every payload with an `r` and the
payload. -/
def pairedServer (k peer : UInt8) : Process where
  state :=
    { node :=
        { Node.sample k with
          table := ((Node.sample k).table.tryInsert
            (.new .greedy (Node.sample peer).id (Node.sample peer).id)).2 }
      peerUrls := HashMap.put ∅ (Node.sample peer).id (Node.sample peer).id.display
      selfUrl := (Node.sample k).id.display
      pending := ∅
      handlers := [catchAllHandler fun app => some (0x72 :: app.payload)] }
  nextCid := 1
  calls := []

/-- Two servers that know each other. -/
def pair : Servers Bool where
  procs b := if b then pairedServer 2 1 else pairedServer 1 2
  flight := []

/-- The call of one server to the other, under the number one. -/
def pairCall (b : Bool) : Call where
  ticket := ⟨1, pair.idOf (!b), if b then [0x62] else [0x61]⟩
  stage := .posting (pair.idOf (!b)).display
  mailbox := none

/-- The request of that call. -/
def pairPost (b : Bool) : Post :=
  ⟨(pair.idOf (!b)).display, Process.callRelay (pair.procs b).state (pairCall b).ticket⟩

/-- The network after a server has begun its call. -/
def afterCall (net : Servers Bool) (b : Bool) : Servers Bool :=
  net.put b ((net.procs b).sendAndWait (pairCall b).ticket.toId (pairCall b).ticket.payload) []

/-- The network after that call has been posted. -/
def afterPost (net : Servers Bool) (b : Bool) : Servers Bool :=
  net.put b ((net.procs b).setCall 0 { pairCall b with stage := .waiting }) [pairPost b]

/-- The network after a request has been handled. -/
def afterRelay (net : Servers Bool) (b : Bool) (post : Post) : Servers Bool :=
  net.put b ((net.procs b).relayed ((net.procs b).state.doRelay post.request 0))
    ((net.procs b).state.doRelay post.request 0).posts

/-- The network after a call has returned its answer. -/
def afterReceive (net : Servers Bool) (b : Bool) (bytes : List UInt8) : Servers Bool :=
  net.put b ((net.procs b).setCall 0
    { pairCall b with stage := .returned (.ok bytes), mailbox := some bytes }) []

/-- Both servers call each other and wait under the number one. -/
def crossed : Servers Bool :=
  afterPost (afterPost (afterCall (afterCall pair false) true) false) true

/-- The second server takes the request of the first one for its answer. -/
def crossedRun : List (Transition (Servers Bool) (Action Bool)) :=
  let called := afterCall (afterCall pair false) true
  let mistaken := afterRelay crossed true (pairPost false)
  [⟨pair, .call false (pair.idOf true) [0x61], afterCall pair false⟩,
    ⟨afterCall pair false, .call true (pair.idOf false) [0x62], called⟩,
    ⟨called, .post false 0, afterPost called false⟩,
    ⟨afterPost called false, .post true 0, crossed⟩,
    ⟨crossed, .relay true (pairPost false) 0, mistaken⟩,
    ⟨mistaken, .receive true 0, afterReceive mistaken true [0x61]⟩]

/-- The two servers of the examples have not made a call yet. -/
theorem pair_fresh : pair.Fresh := by
  constructor
  · intro a b
    revert a b
    decide +kernel
  · decide +kernel
  · decide +kernel
  · intro b
    cases b with
    | _ => rfl
  · rfl

/-- What the crossed run goes by: the calls before they are posted and answered,
the request on its way, and the answer that the second server ends up with. -/
theorem crossed_facts :
    (((afterCall (afterCall pair false) true).procs false).calls[0]? = some (pairCall false) ∧
        ((afterPost (afterCall (afterCall pair false) true) false).procs true).calls[0]? =
          some (pairCall true)) ∧
      pairPost false ∈ crossed.flight ∧
      ((afterRelay crossed true (pairPost false)).procs true).calls[0]? =
        some { pairCall true with stage := .waiting, mailbox := some [0x61] } ∧
      { pairCall true with stage := .returned (.ok [0x61]), mailbox := some [0x61] } ∈
        ((afterReceive (afterRelay crossed true (pairPost false)) true
          [0x61]).procs true).calls ∧
      (pairCall true).ticket.toId ≠
        (afterReceive (afterRelay crossed true (pairPost false)) true [0x61]).idOf true := by
  decide +kernel

/-- The two crossing calls make a run: both are posted, one request arrives,
and the other call receives it. -/
theorem crossedRun_trace :
    Trace Step pair crossedRun
      (afterReceive (afterRelay crossed true (pairPost false)) true [0x61]) := by
  obtain ⟨⟨hcallA, hcallB⟩, hflight, hwaiting, _, _⟩ := crossed_facts
  have hpostA : Step (afterCall (afterCall pair false) true) (.post false 0)
      (afterPost (afterCall (afterCall pair false) true) false) :=
    .post hcallA rfl
  have hpostB : Step (afterPost (afterCall (afterCall pair false) true) false) (.post true 0)
      crossed :=
    .post hcallB rfl
  have hreceive : Step (afterRelay crossed true (pairPost false)) (.receive true 0)
      (afterReceive (afterRelay crossed true (pairPost false)) true [0x61]) :=
    .receive (c := { pairCall true with stage := .waiting, mailbox := some [0x61] })
      hwaiting rfl rfl
  exact .snoc (.snoc (.snoc (.snoc (.snoc (.single .call) .call) hpostA) hpostB)
    (.relay hflight)) hreceive

/-- **Crossed calls go wrong.**  The request of the first server never reaches
a handler, and the second server returns the payload of the first one as the
answer to its own call. -/
theorem crossed_calls_mistaken :
    pair.Fresh ∧
      (∃ final, Trace Step pair crossedRun final) ∧
        ¬ ∀ e ∈ crossedRun, HandsRequests e ∧ e.after.Correlated := by
  refine ⟨pair_fresh, ⟨_, crossedRun_trace⟩, ?_⟩
  intro h
  have hlast := (h ⟨afterRelay crossed true (pairPost false), .receive true 0,
    afterReceive (afterRelay crossed true (pairPost false)) true [0x61]⟩ (by simp [crossedRun])).2
  obtain ⟨_, _, _, hcall, hremote⟩ := crossed_facts
  obtain ⟨j, hj, hanswer⟩ := hlast true _ hcall hremote [0x61] rfl
  revert hanswer
  cases j with
  | _ => decide +kernel

/-- The answer of the second server on its way back. -/
def answerPost : Post :=
  ⟨(pair.idOf false).display,
    (pair.procs true).state.responseRelay (pairPost false).request [0x72, 0x61]⟩

/-- The network after the second server has handled the request of the first
one, and after the answer has come back. -/
def served : Servers Bool × Servers Bool :=
  let handled := afterRelay (afterPost (afterCall pair false) false) true (pairPost false)
  (handled, afterRelay handled false answerPost)

/-- One call on its own: it is answered. -/
def servedRun : List (Transition (Servers Bool) (Action Bool)) :=
  let called := afterCall pair false
  let posted := afterPost called false
  [⟨pair, .call false (pair.idOf true) [0x61], called⟩, ⟨called, .post false 0, posted⟩,
    ⟨posted, .relay true (pairPost false) 0, served.1⟩,
    ⟨served.1, .relay false answerPost 0, served.2⟩,
    ⟨served.2, .receive false 0, afterReceive served.2 false [0x72, 0x61]⟩]

/-- What the served run goes by: the call, its request in flight, the answer in
flight, and the mailbox that it ends up in. -/
theorem served_facts :
    ((afterCall pair false).procs false).calls[0]? = some (pairCall false) ∧
      pairPost false ∈ (afterPost (afterCall pair false) false).flight ∧
      answerPost ∈ served.1.flight ∧
      (served.2.procs false).calls[0]? =
        some { pairCall false with stage := .waiting, mailbox := some [0x72, 0x61] } ∧
      answerOf ((afterPost (afterCall pair false) false).procs true).state.handlers
        (pairPost false).request.packet = some [0x72, 0x61] := by
  decide +kernel

/-- The run of one call that is served: it is posted, handled, answered and
received. -/
theorem servedRun_trace :
    Trace Step pair servedRun (afterReceive served.2 false [0x72, 0x61]) := by
  obtain ⟨hcall, hrequest, hanswer, hwaiting, _⟩ := served_facts
  have hpost : Step (afterCall pair false) (.post false 0)
      (afterPost (afterCall pair false) false) :=
    .post hcall rfl
  have hreceive : Step served.2 (.receive false 0) (afterReceive served.2 false [0x72, 0x61]) :=
    .receive (c := { pairCall false with stage := .waiting, mailbox := some [0x72, 0x61] })
      hwaiting rfl rfl
  exact .snoc (.snoc (.snoc (.snoc (.single .call) hpost) (.relay hrequest)) (.relay hanswer))
    hreceive

/-- One call on its own goes right, as nothing is pending where its request
arrives. -/
theorem calls_correlated_served :
    Trace Step pair servedRun (afterReceive served.2 false [0x72, 0x61]) ∧
      ∀ e ∈ servedRun, HandsRequests e ∧ e.after.Correlated := by
  refine ⟨servedRun_trace, ?_⟩
  apply calls_correlated pair_fresh servedRun_trace
  have htext : Utf8.IsText [0x61] := by
    decide +kernel
  obtain ⟨_, _, _, _, hbytes⟩ := served_facts
  have hanswer : Utf8.IsText [0x72, 0x61] := by
    decide +kernel
  have hback : ¬ answerPost.request.IsRequest := by
    intro h
    cases h
  intro e he
  simp only [servedRun, List.mem_cons, List.not_mem_nil, or_false] at he
  rcases he with he | he | he | he | he
  · subst he
    exact ⟨trivial, by decide, fun _ _ => htext⟩
  · subst he
    exact ⟨trivial, trivial⟩
  · subst he
    refine ⟨?_, ?_⟩
    · intro _ _
      decide +kernel
    · intro _ _ bytes h
      rw [hbytes, Option.some.injEq] at h
      rw [← h]
      exact hanswer
  · subst he
    exact ⟨fun h => (hback h).elim, fun h => (hback h).elim⟩
  · subst he
    exact ⟨trivial, trivial⟩

end Servers

end Zona
