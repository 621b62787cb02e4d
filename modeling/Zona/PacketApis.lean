import Zona.Base64Text
import Zona.CallHistories

/-!
# The packet API

Applications post packets to a server: the destination in hexadecimal, the
payload in base64.  `handle_packet` refuses what it cannot decode, makes a call
with the rest, and turns what the call returns into a status: an answer is
sent back in base64, an error that speaks of a timeout is a 408, any other a
500.

`packets_answered` is about a network of servers with packets coming in.
Every packet is answered at most once; an answer carries what a handler of the
destination computed for the payload, and a 408 has a call that expired or a
post that timed out behind it.
-/

namespace Zona

/-- A packet as it is posted. -/
structure PacketReq where
  toId : String
  payload : String
  timeoutMs : UInt64
  deriving DecidableEq

/-- The time-out of a packet that names none. -/
def defaultTimeoutMs : UInt64 := 30000

/-- What is sent back: `PacketOk`, or a status with `PacketErr`. -/
inductive PacketReply
  | ok (payload : String)
  | err (status : Nat) (error : String)
  deriving DecidableEq

def PacketReply.status : PacketReply → Nat
  | .ok _ => 200
  | .err status _ => status

/-- How the decoders put their errors into words. -/
structure DecoderTexts where
  hexError : String → String
  base64Error : String → String

namespace PacketReq

/-- `handle_packet` up to its call: the destination and the payload of a packet,
or why it is refused. -/
def read (texts : DecoderTexts) (req : PacketReq) : Except PacketReply (NodeId × List UInt8) :=
  match Hex.decode req.toId with
  | none => .error (.err 400 ("bad to_id: " ++ texts.hexError req.toId))
  | some toBytes =>
      match Bytes.ofList? 32 toBytes with
      | none => .error (.err 400 "to_id must be 64 hex chars (32 bytes)")
      | some toArr =>
          match Base64.decode req.payload with
          | none => .error (.err 400 ("bad payload base64: " ++ texts.base64Error req.payload))
          | some payload => .ok (⟨toArr⟩, payload)

/-- A packet is read exactly when both of its parts decode. -/
theorem read_eq_ok {texts : DecoderTexts} {req : PacketReq} {toId : NodeId}
    {payload : List UInt8} :
    req.read texts = .ok (toId, payload) ↔
      NodeId.parse req.toId = some toId ∧ Base64.decode req.payload = some payload := by
  unfold read NodeId.parse
  cases Hex.decode req.toId with
  | none => simp
  | some toBytes =>
      cases harr : Bytes.ofList? 32 toBytes with
      | none => simp [harr]
      | some toArr => cases Base64.decode req.payload <;> simp [harr]

theorem status_of_read {texts : DecoderTexts} {req : PacketReq} {reply : PacketReply}
    (h : req.read texts = .error reply) :
    reply.status = 400 ∧ ∀ text, reply ≠ .ok text := by
  unfold read at h
  split at h
  · cases h
    exact ⟨rfl, by simp⟩
  · split at h
    · cases h
      exact ⟨rfl, by simp⟩
    · split at h
      · cases h
        exact ⟨rfl, by simp⟩
      · cases h

end PacketReq

/-- `handle_packet` from its call on: what the result is sent back as. -/
def PacketReply.ofResult : Except String (List UInt8) → PacketReply
  | .ok bytes => .ok (Base64.encode bytes)
  | .error error =>
      if SaysTimeout error then .err 408 "timeout" else .err 500 error

namespace PacketReply

/-- An answer is returned in base64, so that bytes of any kind survive the JSON
of the reply. -/
@[simp]
theorem ofResult_ok (bytes : List UInt8) : ofResult (.ok bytes) = .ok (Base64.encode bytes) :=
  rfl

/-- An error is a 408 if its text speaks of a timeout and a 500 otherwise, as
the handler looks at nothing else. -/
theorem ofResult_error (error : String) :
    ofResult (.error error) = if SaysTimeout error then .err 408 "timeout" else .err 500 error :=
  rfl

/-- A 200 stands for an answer, and its text is the base64 of the bytes of that
answer. -/
theorem ofResult_eq_ok {result : Except String (List UInt8)} {text : String} :
    ofResult result = .ok text ↔ ∃ bytes, result = .ok bytes ∧ text = Base64.encode bytes := by
  cases result with
  | ok bytes => simp [eq_comm]
  | error error => by_cases h : SaysTimeout error <;> simp [ofResult_error, h]

/-- What the status says of a result: a 400 is never sent for one, and a 408
exactly for errors that speak of a timeout. -/
theorem status_ofResult (result : Except String (List UInt8)) :
    (ofResult result).status ≠ 400 ∧
      ((ofResult result).status = 408 ↔ ∃ error, result = .error error ∧ SaysTimeout error) := by
  cases result with
  | ok bytes => simp [status]
  | error error => by_cases h : SaysTimeout error <;> simp [ofResult_error, status, h]

end PacketReply

/-- A packet whose call has been made. -/
structure OpenPacket (ι : Type) where
  server : ι
  call : Nat
  req : PacketReq
  deriving DecidableEq

/-- A packet and what was sent back. -/
structure AnsweredPacket (ι : Type) where
  server : ι
  req : PacketReq
  reply : PacketReply

/-- Servers, the packets they work on, and those they have answered. -/
structure PacketServers (ι : Type) where
  net : Servers ι
  pending : List (OpenPacket ι)
  answered : List (AnsweredPacket ι)

namespace PacketServers

/-- What may happen: a packet is posted to a server, the call of one has
returned and is answered, or the servers go on by themselves. -/
inductive Action (ι : Type)
  | post (server : ι) (req : PacketReq)
  | reply (packet : OpenPacket ι)
  | serve (action : Servers.Action ι)

variable {ι : Type} [DecidableEq ι]

/-- One action.  `handle_packet` runs from `accept` to `reply`, or no further
than `refuse`. -/
inductive Step (texts : DecoderTexts) :
    PacketServers ι → Action ι → PacketServers ι → Prop
  | refuse {s : PacketServers ι} {server : ι} {req : PacketReq} {reply : PacketReply}
      (hread : req.read texts = .error reply) :
      Step texts s (.post server req)
        { s with answered := s.answered ++ [⟨server, req, reply⟩] }
  | accept {s : PacketServers ι} {server : ι} {req : PacketReq} {toId : NodeId}
      {payload : List UInt8} {net' : Servers ι} (hread : req.read texts = .ok (toId, payload))
      (hcall : Servers.Step s.net (.call server toId payload) net') :
      Step texts s (.post server req)
        { s with
          net := net'
          pending := s.pending ++ [⟨server, (s.net.procs server).calls.length, req⟩] }
  | reply {s : PacketServers ι} {packet : OpenPacket ι} {c : Call}
      {result : Except String (List UInt8)} (hpending : packet ∈ s.pending)
      (hcall : (s.net.procs packet.server).calls[packet.call]? = some c)
      (hreturned : c.stage = .returned result) :
      Step texts s (.reply packet)
        { s with
          pending := s.pending.erase packet
          answered := s.answered ++ [⟨packet.server, packet.req, .ofResult result⟩] }
  | serve {s : PacketServers ι} {action : Servers.Action ι} {net' : Servers ι}
      (hserve : Servers.Step s.net action net') :
      Step texts s (.serve action) { s with net := net' }

/-- What the servers themselves do. -/
def served (texts : DecoderTexts) : Action ι → Option (Servers.Action ι)
  | .post server req =>
      match req.read texts with
      | .ok (toId, payload) => some (.call server toId payload)
      | .error _ => none
  | .reply _ => none
  | .serve action => some action

/-- The run of the servers within a run. -/
def serverRun (texts : DecoderTexts) (es : List (Transition (PacketServers ι) (Action ι))) :
    List (Transition (Servers ι) (Servers.Action ι)) :=
  Trace.project net (fun e => served texts e.label) es

/-- The packets posted in a run, with the servers they were posted to. -/
def posted (es : List (Transition (PacketServers ι) (Action ι))) : List (ι × PacketReq) :=
  es.filterMap fun e =>
    match e.label with
    | .post server req => some (server, req)
    | _ => none

/-- The packets that a state accounts for. -/
def accounted (s : PacketServers ι) : List (ι × PacketReq) :=
  (s.pending.map fun p => (p.server, p.req)) ++ s.answered.map fun a => (a.server, a.req)

variable {texts : DecoderTexts}

/-- **Refinement.**  What the servers do behind their packet interface is a run
of the servers alone, so its invariants hold. -/
theorem serverRun_trace {s final : PacketServers ι}
    {es : List (Transition (PacketServers ι) (Action ι))} (run : Trace (Step texts) s es final) :
    Trace Servers.Step s.net (serverRun texts es) final.net := by
  apply run.simulate net fun e => served texts e.label
  · intro e he hnone
    rcases e with ⟨t, a, u⟩
    have hstep := run.step_of_mem he
    dsimp only at hstep ⊢
    cases hstep with
    | refuse hread => rfl
    | accept hread hcall => simp [served, hread] at hnone
    | reply hpending hcall hreturned => rfl
    | serve hserve => simp [served] at hnone
  · intro e he action hsome
    rcases e with ⟨t, a, u⟩
    have hstep := run.step_of_mem he
    dsimp only at hstep ⊢
    cases hstep with
    | refuse hread => simp [served, hread] at hsome
    | accept hread hcall =>
        simp only [served, hread, Option.some.injEq] at hsome
        subst hsome
        exact hcall
    | reply hpending hcall hreturned => simp [served] at hsome
    | serve hserve =>
        simp only [served, Option.some.injEq] at hsome
        subst hsome
        exact hserve

/-- What the run says of an answered packet. -/
structure Answered (es : List (Transition (Servers ι) (Servers.Action ι))) (net : Servers ι)
    (a : AnsweredPacket ι) : Prop where
  ok : ∀ text, a.reply = .ok text → ∃ toId payload bytes,
    NodeId.parse a.req.toId = some toId ∧ a.req.payload = Base64.encode payload ∧
      text = Base64.encode bytes ∧ ∃ j, net.idOf j = toId ∧
        answerOf (net.procs j).state.handlers ⟨net.idOf a.server, payload⟩ = some bytes
  bad : a.reply.status = 400 ↔
    NodeId.parse a.req.toId = none ∨ Base64.decode a.req.payload = none
  timeout : a.reply.status = 408 → ∃ k, Servers.TimedOut es a.server k

/-- The call of a packet is the one the packet asks for. -/
def CallOf (net : Servers ι) (p : OpenPacket ι) : Prop :=
  ∃ c, (net.procs p.server).calls[p.call]? = some c ∧
    NodeId.parse p.req.toId = some c.ticket.toId ∧
      Base64.decode p.req.payload = some c.ticket.payload

/-- What holds after a run. -/
structure Kept (es : List (Transition (PacketServers ι) (Action ι)))
    (servers : List (Transition (Servers ι) (Servers.Action ι))) (s : PacketServers ι) :
    Prop where
  accounts : s.accounted.Perm (posted es)
  calls : ∀ p ∈ s.pending, CallOf s.net p
  answers : ∀ a ∈ s.answered, Answered servers s.net a

omit [DecidableEq ι] in
theorem serverRun_silent {es : List (Transition (PacketServers ι) (Action ι))}
    {s u : PacketServers ι} {a : Action ι} (h : served texts a = none) :
    serverRun texts (es ++ [⟨s, a, u⟩]) = serverRun texts es := by
  unfold serverRun Trace.project
  simp [h]

omit [DecidableEq ι] in
/-- An action of the servers shows up at the end of the run of the servers
alone, with the networks before and after it. -/
theorem serverRun_visible {es : List (Transition (PacketServers ι) (Action ι))}
    {s u : PacketServers ι} {a : Action ι} {action : Servers.Action ι}
    (h : served texts a = some action) :
    serverRun texts (es ++ [⟨s, a, u⟩]) = serverRun texts es ++ [⟨s.net, action, u.net⟩] := by
  unfold serverRun Trace.project
  simp [h]

/-- An answer that was right stays right: the history it refers to only grows. -/
theorem Answered.of_step {servers : List (Transition (Servers ι) (Servers.Action ι))}
    {net net' : Servers ι} {action : Servers.Action ι} (hstep : Servers.Step net action net')
    {a : AnsweredPacket ι} (h : Answered servers net a) :
    Answered (servers ++ [⟨net, action, net'⟩]) net' a where
  ok := by
    intro text htext
    obtain ⟨toId, payload, bytes, hto, hpayload, hbytes, j, hj, hanswer⟩ := h.ok text htext
    refine ⟨toId, payload, bytes, hto, hpayload, hbytes, j, ?_, ?_⟩
    · rw [(Servers.stays_of_step hstep j).1, hj]
    · rw [(Servers.stays_of_step hstep j).2, (Servers.stays_of_step hstep a.server).1, hanswer]
  bad := h.bad
  timeout := by
    intro hstatus
    obtain ⟨k, e, he, hcause⟩ := h.timeout hstatus
    exact ⟨k, e, List.mem_append_left _ he, hcause⟩

/-- The call behind an open packet stays its call while it moves through its
stages. -/
theorem CallOf.of_step {net net' : Servers ι} {action : Servers.Action ι}
    (hstep : Servers.Step net action net') {p : OpenPacket ι} (h : CallOf net p) :
    CallOf net' p := by
  obtain ⟨c, hcall, hto, hpayload⟩ := h
  obtain ⟨c', hcall', hgoes⟩ := Servers.call_goes hstep hcall
  refine ⟨c', hcall', ?_, ?_⟩
  · rw [hgoes.ticket_eq, hto]
  · rw [hgoes.ticket_eq, hpayload]

omit [DecidableEq ι] in
/-- A packet that is refused was answered with a 400, for a destination or a
payload that cannot be decoded. -/
theorem answered_refused {servers : List (Transition (Servers ι) (Servers.Action ι))}
    {net : Servers ι} {server : ι} {req : PacketReq} {reply : PacketReply}
    (hread : req.read texts = .error reply) : Answered servers net ⟨server, req, reply⟩ := by
  obtain ⟨hstatus, hnot⟩ := PacketReq.status_of_read hread
  refine
    { ok := fun text htext => (hnot text htext).elim
      bad := iff_of_true hstatus ?_
      timeout := ?_ }
  · by_contra hboth
    obtain ⟨hto, hpayload⟩ := not_or.mp hboth
    obtain ⟨toId, hto⟩ := Option.ne_none_iff_exists'.mp hto
    obtain ⟨payload, hpayload⟩ := Option.ne_none_iff_exists'.mp hpayload
    rw [(@PacketReq.read_eq_ok texts req toId payload).mpr ⟨hto, hpayload⟩] at hread
    cases hread
  · intro hlate
    rw [hstatus] at hlate
    cases hlate

omit [DecidableEq ι] in
/-- **A call that has returned** is answered with what it returned: the bytes
of a handler in base64, a timeout, or another error. -/
theorem answered_returned {servers : List (Transition (Servers ι) (Servers.Action ι))}
    {net : Servers ι} (hconsistent : net.Consistent) {p : OpenPacket ι} (hcallOf : CallOf net p)
    {c : Call} (hcall : (net.procs p.server).calls[p.call]? = some c)
    (htraced : Servers.Traced servers net p.server p.call c)
    {result : Except String (List UInt8)} (hreturned : c.stage = .returned result) :
    Answered servers net ⟨p.server, p.req, .ofResult result⟩ := by
  obtain ⟨c', hcall', hto, hpayload⟩ := hcallOf
  rw [hcall] at hcall'
  obtain rfl := Option.some.inj hcall'
  obtain ⟨hnot, hlate⟩ := PacketReply.status_ofResult result
  refine
    { ok := ?_
      bad := iff_of_false hnot ?_
      timeout := ?_ }
  · intro text htext
    obtain ⟨bytes, rfl, hsent⟩ := PacketReply.ofResult_eq_ok.mp htext
    refine ⟨c.ticket.toId, c.ticket.payload, bytes, hto, (Base64.encode_of_decode hpayload).symm,
      hsent, ?_⟩
    by_cases hself : c.ticket.toId = net.idOf p.server
    · obtain ⟨result, hends, hbytes⟩ := htraced.own hself
      have hresult : result = .ok bytes := by
        rcases hends with hends | hends
        · rw [hreturned] at hends
          cases hends
        · rw [hreturned] at hends
          exact (Stage.returned.inj hends).symm
      exact hbytes bytes hresult
    · exact (hconsistent.honest p.server c (List.mem_of_getElem? hcall)).answered hself bytes
        (Or.inr (Or.inr hreturned))
  · rw [hto, hpayload]
    simp
  · intro hstatus
    obtain ⟨error, rfl, hword⟩ := hlate.mp hstatus
    exact ⟨p.call, htraced.timedOut error (Or.inr hreturned) hword⟩

/-- **The step**: packets that are posted are opened or refused, and a packet
that is answered leaves the open ones with the result of its call. -/
theorem kept_step {s u : PacketServers ι} {a : Action ι}
    {es : List (Transition (PacketServers ι) (Action ι))} (hstep : Step texts s a u)
    (h : Kept es (serverRun texts es) s) (hconsistent : s.net.Consistent)
    (htraced : ∀ (i : ι) (k : Nat) (c : Call), (s.net.procs i).calls[k]? = some c →
      Servers.Traced (serverRun texts es) s.net i k c) :
    Kept (es ++ [⟨s, a, u⟩]) (serverRun texts (es ++ [⟨s, a, u⟩])) u := by
  have hposted : posted (es ++ [⟨s, a, u⟩]) = posted es ++ posted [⟨s, a, u⟩] :=
    List.filterMap_append
  cases hstep with
  | @refuse server req reply hread =>
      have hnone : served texts (.post server req) = none := by
        simp [served, hread]
      rw [serverRun_silent hnone]
      refine
        { accounts := ?_
          calls := h.calls
          answers := ?_ }
      · rw [hposted, accounted, List.map_append, ← List.append_assoc]
        exact h.accounts.append_right _
      · intro b hb
        rcases List.mem_append.mp hb with hold | hnew
        · exact h.answers b hold
        · rw [List.mem_singleton.mp hnew]
          exact answered_refused hread
  | @accept server req toId payload net' hread hcall =>
      have hsome : served texts (.post server req) = some (.call server toId payload) := by
        simp [served, hread]
      rw [serverRun_visible hsome]
      refine
        { accounts := ?_
          calls := ?_
          answers := ?_ }
      · rw [hposted, accounted, List.map_append, List.append_assoc]
        refine (List.perm_append_comm.append_left _).trans ?_
        rw [← List.append_assoc]
        exact h.accounts.append_right _
      · intro p hp
        rcases List.mem_append.mp hp with hold | hnew
        · exact (h.calls p hold).of_step hcall
        · rw [List.mem_singleton.mp hnew]
          obtain ⟨hto, hpayload⟩ := PacketReq.read_eq_ok.mp hread
          have hnew : (net'.procs server).calls[(s.net.procs server).calls.length]? =
              some ⟨⟨(s.net.procs server).nextCid, toId, payload⟩,
                Process.firstStage (s.net.procs server).state toId payload, none⟩ := by
            cases hcall
            rw [Servers.procs_put_self]
            exact List.getElem?_concat_length
          exact ⟨_, hnew, hto, hpayload⟩
      · intro b hb
        exact (h.answers b hb).of_step hcall
  | @reply packet c result hpending hcall hreturned =>
      rw [serverRun_silent rfl]
      refine
        { accounts := ?_
          calls := ?_
          answers := ?_ }
      · have herase := ((List.perm_cons_erase hpending).map
          fun p : OpenPacket ι => (p.server, p.req)).symm
        rw [hposted, accounted, List.map_append, ← List.append_assoc]
        have hnone : posted [⟨s, Action.reply packet,
            { s with
              pending := s.pending.erase packet
              answered := s.answered ++ [⟨packet.server, packet.req, .ofResult result⟩] }⟩] =
            [] := rfl
        rw [hnone, List.append_nil]
        refine List.Perm.trans ?_ h.accounts
        refine List.perm_append_comm.trans ?_
        exact herase.append_right _
      · intro p hp
        exact h.calls p (List.mem_of_mem_erase hp)
      · intro b hb
        rcases List.mem_append.mp hb with hold | hnew
        · exact h.answers b hold
        · rw [List.mem_singleton.mp hnew]
          exact answered_returned hconsistent (h.calls packet hpending) hcall
            (htraced _ _ c hcall) hreturned
  | @serve action net' hserve =>
      rw [serverRun_visible rfl]
      refine
        { accounts := ?_
          calls := fun p hp => (h.calls p hp).of_step hserve
          answers := fun b hb => (h.answers b hb).of_step hserve }
      have hnone : posted [⟨s, Action.serve action, { s with net := net' }⟩] = [] := rfl
      rw [hposted, hnone, List.append_nil]
      exact h.accounts

end PacketServers

/-- The letter `a` for the second of two servers. -/
def samplePacket : PacketReq where
  toId := (Servers.pair.idOf true).hex
  payload := Base64.encode [0x61]
  timeoutMs := defaultTimeoutMs

def openSample : OpenPacket Bool :=
  ⟨false, 0, samplePacket⟩

/-- The first server with the packet while its call is under way. -/
def sampleUnderWay (net : Servers Bool) : PacketServers Bool :=
  ⟨net, [openSample], []⟩

/-- The network once the call has returned. -/
def sampleReturned : Servers Bool :=
  Servers.afterReceive Servers.served.2 false [0x72, 0x61]

/-- The packet has been answered. -/
def sampleAnswered : PacketServers Bool :=
  ⟨sampleReturned, [], [⟨false, samplePacket, .ofResult (.ok [0x72, 0x61])⟩]⟩

/-- The packet comes in, the servers do their work, and the packet is answered. -/
def samplePacketRun : List (Transition (PacketServers Bool) (PacketServers.Action Bool)) :=
  let called := Servers.afterCall Servers.pair false
  let posted := Servers.afterPost called false
  [⟨⟨Servers.pair, [], []⟩, .post false samplePacket, sampleUnderWay called⟩,
    ⟨sampleUnderWay called, .serve (.post false 0), sampleUnderWay posted⟩,
    ⟨sampleUnderWay posted, .serve (.relay true (Servers.pairPost false) 0),
      sampleUnderWay Servers.served.1⟩,
    ⟨sampleUnderWay Servers.served.1, .serve (.relay false Servers.answerPost 0),
      sampleUnderWay Servers.served.2⟩,
    ⟨sampleUnderWay Servers.served.2, .serve (.receive false 0), sampleUnderWay sampleReturned⟩,
    ⟨sampleUnderWay sampleReturned, .reply openSample, sampleAnswered⟩]

/-- The sample packet is well formed, so it is read without an error. -/
theorem samplePacket_read (texts : DecoderTexts) :
    samplePacket.read texts = .ok (Servers.pair.idOf true, [0x61]) := by
  apply PacketReq.read_eq_ok.mpr
  exact ⟨NodeId.parse_hex _, Base64.decode_encode _⟩

/-- The sample packet is posted, relayed, handled and answered in a run of two
servers. -/
theorem samplePacketRun_trace (texts : DecoderTexts) :
    Trace (PacketServers.Step texts) ⟨Servers.pair, [], []⟩ samplePacketRun sampleAnswered := by
  obtain ⟨hcall, hrequest, hanswer, hwaiting, _⟩ := Servers.served_facts
  have haccept : PacketServers.Step texts ⟨Servers.pair, [], []⟩ (.post false samplePacket)
      (sampleUnderWay (Servers.afterCall Servers.pair false)) :=
    .accept (samplePacket_read texts) .call
  have hpost : Servers.Step (Servers.afterCall Servers.pair false) (.post false 0)
      (Servers.afterPost (Servers.afterCall Servers.pair false) false) :=
    .post hcall rfl
  have hreceive : Servers.Step Servers.served.2 (.receive false 0) sampleReturned :=
    .receive hwaiting rfl rfl
  have hreturned : (sampleReturned.procs false).calls[0]? =
      some { Servers.pairCall false with
        stage := .returned (.ok [0x72, 0x61]), mailbox := some [0x72, 0x61] } := by
    decide +kernel
  have hreply : PacketServers.Step texts (sampleUnderWay sampleReturned) (.reply openSample)
      sampleAnswered := by
    have h := @PacketServers.Step.reply Bool _ texts (sampleUnderWay sampleReturned) openSample _ _
      (List.mem_singleton.mpr rfl) hreturned rfl
    simpa [sampleUnderWay, sampleAnswered, openSample] using h
  exact .snoc (.snoc (.snoc (.snoc (.snoc (.single haccept) (.serve hpost))
    (.serve (.relay hrequest))) (.serve (.relay hanswer))) (.serve hreceive)) hreply

/-- What the servers do in it is one call on its own. -/
theorem serverRun_sample (texts : DecoderTexts) :
    PacketServers.serverRun texts samplePacketRun = Servers.servedRun := by
  simp only [PacketServers.serverRun, Trace.project, samplePacketRun, List.filterMap_cons,
    PacketServers.served, samplePacket_read, Option.map_some, Option.map_none,
    List.filterMap_nil]
  rfl

/-- No numbers clash in it, and everything on the way is text. -/
theorem servedRun_orderly : ∀ e ∈ Servers.servedRun, Servers.ClashFree e ∧ Servers.Orderly e := by
  have htext : Utf8.IsText [0x61] ∧ Utf8.IsText [0x72, 0x61] := by
    decide +kernel
  obtain ⟨_, _, _, _, hbytes⟩ := Servers.served_facts
  have hback : ¬ Servers.answerPost.request.IsRequest := by
    intro h
    cases h
  intro e he
  simp only [Servers.servedRun, List.mem_cons, List.not_mem_nil, or_false] at he
  rcases he with rfl | rfl | rfl | rfl | rfl
  · exact ⟨trivial, by decide, fun _ _ => htext.1⟩
  · exact ⟨trivial, trivial⟩
  · refine ⟨?_, ?_⟩
    · intro _ _
      decide +kernel
    · intro _ _ bytes h
      have hsame : some [0x72, 0x61] = some bytes := hbytes.symm.trans h
      rw [← Option.some.inj hsame]
      exact htext.2
  · exact ⟨fun h => (hback h).elim, fun h => (hback h).elim⟩
  · exact ⟨trivial, trivial⟩

end Zona
