import Zona.ServerNetworks

/-!
# What a network of servers keeps track of

`Consistent` says of every request in flight which call it belongs to
(`Accounted`), and of every answer that a call holds that it was computed for
that call (`Honest`).  Each action of a process keeps it, given three things:
numbers have not run out, what is sent and answered is text, and a request
that arrives is not taken for an answer.
-/

namespace Zona

/-- The request belongs to a call that waits for an answer elsewhere. -/
def RelayRequest.IsRequest (req : RelayRequest) : Prop :=
  req.returnNodeUrl.isSome = true

/-- The packet that a request carries to a handler. -/
def RelayRequest.packet (req : RelayRequest) : AppPacket :=
  ⟨(NodeId.parse req.fromClient).getD NodeId.zero, Utf8.encode req.text⟩

/-- The call has the bytes as its answer. -/
def Call.Has (c : Call) (bytes : List UInt8) : Prop :=
  c.mailbox = some bytes ∨ c.stage = .closing (.ok bytes) ∨ c.stage = .returned (.ok bytes)

namespace Servers

variable {ι : Type}

/-- The bytes are what a handler of the destination answers to the payload of
the call. -/
def Answers (net : Servers ι) (i : ι) (t : Ticket) (bytes : List UInt8) : Prop :=
  ∃ j, net.idOf j = t.toId ∧
    answerOf (net.procs j).state.handlers ⟨net.idOf i, t.payload⟩ = some bytes

/-- The request is the one that the call with the ticket has posted, wherever
it has been passed on to. -/
def IsRequestOf (net : Servers ι) (req : RelayRequest) (i : ι) (t : Ticket) : Prop :=
  req.IsRequest ∧ req.toId = t.toId.hex ∧ req.fromClient = (net.idOf i).hex ∧
    Utf8.encode req.text = t.payload

/-- The request carries an answer back to the call with the ticket. -/
def IsResponseTo (net : Servers ι) (req : RelayRequest) (i : ι) (t : Ticket) : Prop :=
  ¬ req.IsRequest ∧ req.toId = (net.idOf i).hex ∧ net.Answers i t (Utf8.encode req.text)

/-- The request belongs to a remote call. -/
def Accounted (net : Servers ι) (req : RelayRequest) : Prop :=
  ∃ i t, t ∈ (net.procs i).tickets ∧ t.toId ≠ net.idOf i ∧
    req.correlationId = some t.cid ∧ (net.IsRequestOf req i t ∨ net.IsResponseTo req i t)

/-- Only remote calls are posted, and these as text; what a remote call has as its
answer was computed for it. -/
structure Honest (net : Servers ι) (i : ι) (c : Call) : Prop where
  posted : ∀ url, c.stage = .posting url →
    c.ticket.toId ≠ net.idOf i ∧ Utf8.IsText c.ticket.payload
  answered : c.ticket.toId ≠ net.idOf i → ∀ bytes, c.Has bytes → net.Answers i c.ticket bytes

structure Consistent (net : Servers ι) : Prop where
  distinct : Function.Injective net.idOf
  numbered : ∀ i, (net.procs i).Numbered
  honest : ∀ i, ∀ c ∈ (net.procs i).calls, net.Honest i c
  flight : ∀ post ∈ net.flight, net.Accounted post.request

/-- Fresh servers are consistent, as they have made no calls and nothing is in
flight. -/
theorem Fresh.consistent {net : Servers ι} (h : net.Fresh) : net.Consistent := by
  have htickets : ∀ i, (net.procs i).tickets = [] := by
    intro i
    rw [Process.tickets, h.calls i, List.map_nil]
  refine ⟨h.distinct, ?_, ?_, ?_⟩
  · intro i
    constructor
    · rw [htickets i]
      exact Nat.zero_le _
    · rw [htickets i, h.counters i]
      rfl
    · intro k t ht
      rw [htickets i] at ht
      cases ht
    · intro cid k hk
      rw [h.pending i] at hk
      cases hk
  · intro i c hc
    rw [h.calls i] at hc
    cases hc
  · intro post hpost
    rw [h.flight] at hpost
    cases hpost

/-- Every process extends the one before. -/
def Extends (net net' : Servers ι) : Prop :=
  ∀ j, (net.procs j).Extends (net'.procs j)

theorem Extends.idOf_eq {net net' : Servers ι} (h : net.Extends net') (i : ι) :
    net'.idOf i = net.idOf i :=
  (h i).id_eq

/-- What a server would answer it still answers after a step, as a step keeps
its handlers. -/
theorem Extends.answers {net net' : Servers ι} (h : net.Extends net') {i : ι} {t : Ticket}
    {bytes : List UInt8} (ha : net.Answers i t bytes) : net'.Answers i t bytes := by
  obtain ⟨j, hj, hbytes⟩ := ha
  refine ⟨j, ?_, ?_⟩
  · rw [h.idOf_eq, hj]
  · rw [(h j).handlers_eq, h.idOf_eq, hbytes]

/-- An honest call stays honest while the servers go on, as its answer is still
one. -/
theorem Extends.honest {net net' : Servers ι} (h : net.Extends net') {i : ι} {c : Call}
    (hc : net.Honest i c) : net'.Honest i c := by
  constructor
  · intro url hstage
    rw [h.idOf_eq]
    exact hc.posted url hstage
  · intro hremote bytes hbytes
    rw [h.idOf_eq] at hremote
    exact h.answers (hc.answered hremote bytes hbytes)

/-- A request in flight that stands for a call still does so after a step. -/
theorem Extends.accounted {net net' : Servers ι} (h : net.Extends net') {req : RelayRequest}
    (ha : net.Accounted req) : net'.Accounted req := by
  obtain ⟨i, t, ht, hremote, hcid, hkind⟩ := ha
  obtain ⟨k, hk⟩ := List.mem_iff_getElem?.mp ht
  refine ⟨i, t, List.mem_iff_getElem?.mpr ⟨k, (h i).tickets k t hk⟩, ?_, hcid, ?_⟩
  · rw [h.idOf_eq]
    exact hremote
  · rcases hkind with ⟨hreq, hto, hfrom, htext⟩ | ⟨hreq, hto, hanswer⟩
    · exact Or.inl ⟨hreq, hto, by rw [h.idOf_eq, hfrom], htext⟩
    · exact Or.inr ⟨hreq, by rw [h.idOf_eq, hto], h.answers hanswer⟩

theorem Accounted.of_path {net : Servers ι} {req req' : RelayRequest}
    (h : req' = { req with path := req'.path }) (ha : net.Accounted req) :
    net.Accounted req' := by
  rw [h]
  exact ha

variable [DecidableEq ι]

/-- Replacing one server by a later state of itself, and adding posts, extends
the network. -/
theorem extends_put {net : Servers ι} {i : ι} {p : Process} {posts : List Post}
    (h : (net.procs i).Extends p) : net.Extends (net.put i p posts) := by
  intro j
  by_cases hj : j = i
  · subst hj
    rw [procs_put_self]
    exact h
  · rw [procs_put_of_ne net hj]
    exact ⟨rfl, rfl, fun _ _ ht => ht⟩

/-- **One process changes.**  The invariant holds again when the process is
numbered, is honest, and accounts for what it posts. -/
theorem Consistent.put {net : Servers ι} {i : ι} {p : Process} {posts : List Post}
    (h : net.Consistent) (hext : (net.procs i).Extends p) (hnumbered : p.Numbered)
    (hhonest : ∀ c ∈ p.calls, net.Honest i c)
    (hposts : ∀ post ∈ posts, net.Accounted post.request) : (net.put i p posts).Consistent := by
  have hgrows : net.Extends (net.put i p posts) := extends_put hext
  have hself : (net.put i p posts).procs i = p := procs_put_self net i p posts
  have hother : ∀ j, j ≠ i → (net.put i p posts).procs j = net.procs j :=
    fun j hj => procs_put_of_ne net hj p posts
  constructor
  · intro j k hjk
    rw [hgrows.idOf_eq, hgrows.idOf_eq] at hjk
    exact h.distinct hjk
  · intro j
    by_cases hj : j = i
    · rw [hj, hself]
      exact hnumbered
    · rw [hother j hj]
      exact h.numbered j
  · intro j c hc
    apply hgrows.honest
    by_cases hj : j = i
    · rw [hj, hself] at hc
      rw [hj]
      exact hhonest c hc
    · rw [hother j hj] at hc
      exact h.honest j c hc
  · intro post hpost
    apply hgrows.accounted
    rcases List.mem_append.mp hpost with hold | hnew
    · exact h.flight post hold
    · exact hposts post hnew

/-- The same, when the process makes no new call. -/
theorem Consistent.put_keeps {net : Servers ι} {i : ι} {p : Process} {posts : List Post}
    (h : net.Consistent) (hkeeps : (net.procs i).Keeps p)
    (hhonest : ∀ c ∈ p.calls, net.Honest i c)
    (hposts : ∀ post ∈ posts, net.Accounted post.request) : (net.put i p posts).Consistent :=
  h.put hkeeps.extends (hkeeps.numbered (h.numbered i)) hhonest hposts

omit [DecidableEq ι] in
/-- Replacing one call of a server by an honest one keeps all its calls honest. -/
theorem Consistent.honest_setCall {net : Servers ι} {i : ι} {k : Nat} {c : Call}
    (h : net.Consistent) (hc : net.Honest i c) :
    ∀ d ∈ ((net.procs i).setCall k c).calls, net.Honest i d := by
  intro d hd
  rcases List.mem_or_eq_of_mem_set hd with hold | hnew
  · exact h.honest i d hold
  · rw [hnew]
    exact hc

omit [DecidableEq ι] in
/-- A later stage brings no bytes but those of the mailbox. -/
theorem Honest.of_stage {net : Servers ι} {i : ι} {c : Call} {stage : Stage}
    (h : net.Honest i c) (hposted : ∀ url, stage ≠ .posting url)
    (hbytes : ∀ bytes, stage = .closing (.ok bytes) ∨ stage = .returned (.ok bytes) →
      c.Has bytes) :
    net.Honest i { c with stage := stage } := by
  constructor
  · intro url hstage
    exact (hposted url hstage).elim
  · intro hremote bytes hhas
    apply h.answered hremote
    rcases hhas with hmail | hstage
    · exact Or.inl hmail
    · exact hbytes bytes hstage

omit [DecidableEq ι] in
/-- A request that names a process goes to its destination, a response to the
process of its call. -/
theorem IsResponseTo.owner {net : Servers ι} (h : net.Consistent) {req : RelayRequest}
    {i j : ι} {t : Ticket} (hresponse : net.IsResponseTo req j t)
    (hdest : NodeId.parse req.toId = some (net.idOf i)) : j = i := by
  rw [hresponse.2.1, NodeId.parse_hex, Option.some.injEq] at hdest
  exact h.distinct hdest

/-- **An answer comes in.**  It belongs to the call that waits for it, because
numbers are unique. -/
theorem consistent_answer {net : Servers ι} {i : ι} {req : RelayRequest} {cid : UInt64}
    {k : Nat} (h : net.Consistent) (haccounted : net.Accounted req)
    (hresponse : ¬ req.IsRequest) (hdest : NodeId.parse req.toId = some (net.idOf i))
    (hwaiting : (net.procs i).state.waitingCall req = some (cid, k)) :
    (net.put i ((net.procs i).relayed ((net.procs i).state.deliver req))
      ((net.procs i).state.deliver req).posts).Consistent := by
  obtain ⟨hstate, hposts, hanswered, _⟩ := ServerState.deliver_of_waiting hwaiting
  obtain ⟨j, t, ht, hremote, hcid, hkind⟩ := haccounted
  have hback := hkind.resolve_left fun hreq => hresponse hreq.1
  have hj : j = i := hback.owner h hdest
  subst hj
  obtain ⟨c, hc, hticket⟩ := (h.numbered j).waiting_call ht hcid hwaiting
  have hprocess : (net.procs j).relayed ((net.procs j).state.deliver req) =
      ((net.procs j).forget cid).setCall k { c with mailbox := some (Utf8.encode req.text) } := by
    rw [Process.relayed, hstate, hanswered, Process.receive]
    dsimp only
    rw [hc]
    rfl
  rw [hprocess, hposts]
  have hkeeps : (net.procs j).Keeps (((net.procs j).forget cid).setCall k
      { c with mailbox := some (Utf8.encode req.text) }) :=
    (Process.keeps_erase (net.procs j) cid).trans (Process.keeps_setCall hc rfl)
  have hold := h.honest j c (List.mem_of_getElem? hc)
  have hhonest : net.Honest j { c with mailbox := some (Utf8.encode req.text) } := by
    refine ⟨hold.posted, ?_⟩
    intro hremote' bytes hbytes
    rcases hbytes with hmail | hstage
    · rw [← Option.some.inj hmail]
      dsimp only
      rw [hticket]
      exact hback.2.2
    · exact hold.answered hremote' bytes (Or.inr hstage)
  apply h.put_keeps hkeeps
  · intro d hd
    exact h.honest_setCall hhonest d hd
  · intro post hpost
    cases hpost

/-- **A request is handled.**  What is posted back is the answer to the call
that the request belongs to. -/
theorem consistent_dispatch {net : Servers ι} {i : ι} {req : RelayRequest}
    (h : net.Consistent) (haccounted : net.Accounted req)
    (hdest : NodeId.parse req.toId = some (net.idOf i))
    (hwaiting : (net.procs i).state.waitingCall req = none)
    (htext : req.IsRequest → ∀ bytes,
      answerOf (net.procs i).state.handlers req.packet = some bytes → Utf8.IsText bytes) :
    (net.put i ((net.procs i).relayed ((net.procs i).state.deliver req))
      ((net.procs i).state.deliver req).posts).Consistent := by
  obtain ⟨hstate, hanswered, _, hposts⟩ := ServerState.deliver_of_not_waiting hwaiting
  have hprocess : (net.procs i).relayed ((net.procs i).state.deliver req) = net.procs i := by
    rw [Process.relayed, hstate, hanswered]
    rfl
  rw [hprocess, hposts]
  apply h.put_keeps (Process.Keeps.refl (net.procs i)) (h.honest i)
  intro post hpost
  cases hanswer : answerOf (net.procs i).state.handlers req.packet with
  | none =>
      unfold RelayRequest.packet at hanswer
      rw [hanswer] at hpost
      cases hpost
  | some bytes =>
      cases hurl : req.returnNodeUrl with
      | none =>
          unfold RelayRequest.packet at hanswer
          rw [hanswer, hurl] at hpost
          cases hpost
      | some url =>
          have hrequest : req.IsRequest := by
            rw [RelayRequest.IsRequest, hurl]
            rfl
          have hsurvives : Utf8.encode (Utf8.ofBytesLossy bytes) = bytes :=
            Utf8.encode_ofBytesLossy_iff.mpr (htext hrequest bytes hanswer)
          obtain ⟨j, t, ht, hremote, hcid, hkind⟩ := haccounted
          obtain ⟨_, hto, hfrom, hpayload⟩ := hkind.resolve_right fun hback => hback.1 hrequest
          have hplace : net.idOf i = t.toId := by
            rw [hto, NodeId.parse_hex, Option.some.injEq] at hdest
            exact hdest.symm
          have hpacket : req.packet = ⟨net.idOf j, t.payload⟩ := by
            rw [RelayRequest.packet, hfrom, NodeId.parse_hex, Option.getD_some, hpayload]
          have hbytes := hanswer
          unfold RelayRequest.packet at hanswer
          rw [hanswer, hurl] at hpost
          rw [List.mem_singleton.mp hpost]
          refine ⟨j, t, ht, hremote, hcid, Or.inr ⟨?_, hfrom, i, hplace, ?_⟩⟩
          · intro hback
            cases hback
          · rw [← hpacket, hbytes]
            exact congrArg some hsurvives.symm

/-- A request that is not at its destination is at most passed on. -/
theorem consistent_passOn {net : Servers ι} {i : ι} {req : RelayRequest} {tried : Nat}
    (h : net.Consistent) (haccounted : net.Accounted req)
    (hdest : NodeId.parse req.toId ≠ some (net.idOf i)) :
    (net.put i ((net.procs i).relayed ((net.procs i).state.doRelay req tried))
      ((net.procs i).state.doRelay req tried).posts).Consistent := by
  obtain ⟨hstate, hanswered, _, hposts⟩ := @ServerState.doRelay_of_relay _ req tried hdest
  have hprocess :
      (net.procs i).relayed ((net.procs i).state.doRelay req tried) = net.procs i := by
    rw [Process.relayed, hstate, hanswered]
    rfl
  rw [hprocess]
  apply h.put_keeps (Process.Keeps.refl (net.procs i)) (h.honest i)
  intro post hpost
  exact haccounted.of_path (hposts post hpost)

/-- **A call begins.**  Its number is new, it sends text if it is posted, and it has
no answer unless it is local. -/
theorem consistent_call {net : Servers ι} {i : ι} {toId : NodeId} {payload : List UInt8}
    (h : net.Consistent) (hroom : (net.procs i).calls.length < 2 ^ 64)
    (htext : ∀ url, Process.firstStage (net.procs i).state toId payload = .posting url →
      Utf8.IsText payload) :
    (net.put i ((net.procs i).sendAndWait toId payload) []).Consistent := by
  have htickets : ((net.procs i).sendAndWait toId payload).tickets =
      (net.procs i).tickets ++ [⟨(net.procs i).nextCid, toId, payload⟩] := by
    simp [Process.tickets, Process.sendAndWait]
  refine h.put ⟨rfl, rfl, ?_⟩ ((h.numbered i).sendAndWait hroom toId payload) ?_ ?_
  · intro k t ht
    obtain ⟨hlt, _⟩ := List.getElem?_eq_some_iff.mp ht
    rw [htickets, List.getElem?_append_left hlt, ht]
  · intro c hc
    rcases List.mem_append.mp hc with hold | hnew
    · exact h.honest i c hold
    · rw [List.mem_singleton.mp hnew]
      constructor
      · intro url hstage
        refine ⟨?_, htext url hstage⟩
        intro heq
        have hself : (net.procs i).state.node.id = toId := heq.symm
        dsimp only at hstage
        rw [Process.firstStage, if_pos hself] at hstage
        cases hstage
      · intro hremote bytes hbytes
        have hself : ¬ (net.procs i).state.node.id = toId := fun heq => hremote heq.symm
        unfold Call.Has Process.firstStage at hbytes
        dsimp only at hbytes
        rw [if_neg hself] at hbytes
        cases hurl : Process.firstHopUrl (net.procs i).state toId with
        | some url => simp [hurl] at hbytes
        | none => simp [hurl] at hbytes
  · intro post hpost
    cases hpost

omit [DecidableEq ι] in
/-- The request of a call, while the call is being posted. -/
theorem accounted_callRelay {net : Servers ι} {i : ι} {c : Call} {url : String}
    (h : net.Consistent) (hc : c ∈ (net.procs i).calls) (hstage : c.stage = .posting url) :
    net.Accounted (Process.callRelay (net.procs i).state c.ticket) := by
  obtain ⟨hremote, htext⟩ := (h.honest i c hc).posted url hstage
  have ht : c.ticket ∈ (net.procs i).tickets := List.mem_map_of_mem hc
  exact ⟨i, c.ticket, ht, hremote, rfl,
    Or.inl ⟨rfl, rfl, rfl, Utf8.encode_ofBytesLossy_iff.mpr htext⟩⟩

/-- **A call goes on** to a stage that brings no bytes but those it has. -/
theorem consistent_stage {net : Servers ι} {i : ι} {k : Nat} {c : Call} {stage : Stage}
    {posts : List Post} (h : net.Consistent) (hcall : (net.procs i).calls[k]? = some c)
    (hposted : ∀ url, stage ≠ .posting url)
    (hbytes : ∀ bytes, stage = .closing (.ok bytes) ∨ stage = .returned (.ok bytes) →
      c.Has bytes)
    (hposts : ∀ post ∈ posts, net.Accounted post.request) :
    (net.put i ((net.procs i).setCall k { c with stage := stage }) posts).Consistent := by
  have hhonest := (h.honest i c (List.mem_of_getElem? hcall)).of_stage hposted hbytes
  exact h.put_keeps (Process.keeps_setCall hcall rfl) (h.honest_setCall hhonest) hposts

/-- **A call returns** what it was closing with, which was right when it began
to close; its entry leaves the pending table. -/
theorem consistent_close {net : Servers ι} {i : ι} {k : Nat} {c : Call}
    {result : Except String (List UInt8)} (h : net.Consistent)
    (hcall : (net.procs i).calls[k]? = some c) (hstage : c.stage = .closing result) :
    (net.put i (((net.procs i).setCall k { c with stage := .returned result }).forget
      c.ticket.cid) []).Consistent := by
  have hhonest : net.Honest i { c with stage := .returned result } := by
    apply (h.honest i c (List.mem_of_getElem? hcall)).of_stage (by simp)
    intro bytes heq
    have hsame : result = .ok bytes := by
      simpa using heq
    exact Or.inr (Or.inl (by rw [hstage, hsame]))
  have hkeeps : (net.procs i).Keeps
      ((net.procs i).setCall k { c with stage := .returned result }) :=
    Process.keeps_setCall hcall rfl
  exact h.put_keeps (hkeeps.trans (Process.keeps_erase _ c.ticket.cid))
    (h.honest_setCall hhonest) (List.forall_mem_nil _)

/-- **A post arrives**, at its destination or on the way, and answers a call
only if it is an answer. -/
theorem consistent_relay {net : Servers ι} {i : ι} {post : Post} (tried : Nat)
    (h : net.Consistent) (haccounted : net.Accounted post.request)
    (hclash : post.request.IsRequest → NodeId.parse post.request.toId = some (net.idOf i) →
      (net.procs i).state.waitingCall post.request = none)
    (htext : post.request.IsRequest → NodeId.parse post.request.toId = some (net.idOf i) →
      ∀ bytes, answerOf (net.procs i).state.handlers post.request.packet = some bytes →
        Utf8.IsText bytes) :
    (net.put i ((net.procs i).relayed ((net.procs i).state.doRelay post.request tried))
      ((net.procs i).state.doRelay post.request tried).posts).Consistent := by
  by_cases hdest : NodeId.parse post.request.toId = some (net.idOf i)
  · have hdeliver := @ServerState.doRelay_of_destination _ _ tried hdest
    rw [hdeliver]
    cases hwaiting : (net.procs i).state.waitingCall post.request with
    | some found =>
        have hresponse : ¬ post.request.IsRequest := by
          intro hrequest
          have hfree := hclash hrequest hdest
          rw [hwaiting] at hfree
          cases hfree
        exact consistent_answer h haccounted hresponse hdest hwaiting
    | none =>
        exact consistent_dispatch h haccounted hdest hwaiting
          fun hrequest => htext hrequest hdest
  · exact consistent_passOn h haccounted hdest

end Servers

end Zona
