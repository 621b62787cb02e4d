import Zona.CallCorrelation

/-!
# Payloads on the way

A call to another server carries its payload as text, and the answer comes
back as text.  A call to the own identifier is handed to the own handlers as
bytes and comes to no relay.  Routes do not matter: all that a relay changes is
the path (`ServerState.doRelay_of_relay`).

`payload_faithful_iff` says for every caller, destination, payload and route
when nothing is lost: when the call is to the own identifier; when payload and
answer are text and no call of the destination waits under the number of the
request; or when no handler is concerned at all.
-/

namespace Zona

namespace Process

/-- The request of a call as it arrives at its destination over a route. -/
def arriving (p : Process) (toId : NodeId) (payload : List UInt8) (path : List String) :
    RelayRequest :=
  { callRelay (p.sendAndWait toId payload).state ⟨p.nextCid, toId, payload⟩ with path := path }

/-- What handling the posted request of a call at its destination does. -/
def exchange (p : Process) (dest : ServerState) (payload : List UInt8) (path : List String) :
    Outcome :=
  dest.doRelay (p.arriving dest.node.id payload path) 0

/-- The bytes that a call that was posted gets when the answer comes back over a
route. -/
def answerBack (p : Process) (dest : ServerState) (payload : List UInt8)
    (path back : List String) : Option (List UInt8) :=
  (p.exchange dest payload path).posts.head?.bind fun post =>
    ((p.sendAndWait dest.node.id payload).state.doRelay
      { post.request with path := back } 0).answered.map Prod.snd

/-- The server that a call to the identifier of a server is handled by: the
caller itself, if the identifier is its own. -/
def handledBy (p : Process) (dest : ServerState) : ServerState :=
  if p.state.node.id = dest.node.id then p.state else dest

/-- The packet that a handler gets of a call.  To the own identifier the call is
dispatched on the spot, with the payload as it is; any other is posted. -/
def received (p : Process) (dest : ServerState) (payload : List UInt8) (path : List String) :
    Option AppPacket :=
  if p.state.node.id = dest.node.id then
    (handlerFor p.state.handlers payload).map fun _ => ⟨dest.node.id, payload⟩
  else (p.exchange dest payload path).dispatched

/-- The bytes that a call returns, if any. -/
def returned (p : Process) (dest : ServerState) (payload : List UInt8)
    (path back : List String) : Option (List UInt8) :=
  if p.state.node.id = dest.node.id then
    (localResult p.state dest.node.id payload).toOption
  else p.answerBack dest payload path back

/-- The handler of the destination gets exactly the payload, the call gets
exactly what the handler answers, and a call to the own identifier of a server
with the same handlers gets the same. -/
structure PayloadFaithful (p : Process) (dest : ServerState) (payload : List UInt8)
    (path back : List String) : Prop where
  received : p.received dest payload path =
    (handlerFor (p.handledBy dest).handlers payload).map fun _ => ⟨p.state.node.id, payload⟩
  returned : p.returned dest payload path back =
    answerOf (p.handledBy dest).handlers ⟨p.state.node.id, payload⟩
  likeLocal : p.returned dest payload path back =
    (localResult { p.state with handlers := (p.handledBy dest).handlers } p.state.node.id
      payload).toOption

/-- Nothing is to be handed over and nothing is: no handler wants the payload,
and either the request is taken for an answer or no handler wants its text. -/
def NothingWanted (p : Process) (dest : ServerState) (payload : List UInt8) : Prop :=
  handlerFor dest.handlers payload = none ∧
    (dest.pending.lookup p.nextCid ≠ none ∨
      handlerFor dest.handlers (Utf8.encode (Utf8.ofBytesLossy payload)) = none)

theorem localResult_toOption (st : ServerState) (toId : NodeId) (payload : List UInt8) :
    (localResult st toId payload).toOption = answerOf st.handlers ⟨toId, payload⟩ := by
  unfold localResult answerOf
  dsimp only
  cases handlerFor st.handlers payload with
  | none => rfl
  | some h =>
      dsimp only [Option.bind_some]
      cases h.handle ⟨toId, payload⟩ with
      | none => rfl
      | some bytes => rfl

variable {p : Process} {dest : ServerState} {payload : List UInt8} {path back : List String}

/-- A call begins by being answered on the spot exactly where it is handled as
one to the own identifier; the result is then that of the own handlers. -/
theorem firstStage_own (h : p.state.node.id = dest.node.id) :
    firstStage p.state dest.node.id payload =
      .closing (localResult p.state dest.node.id payload) := by
  rw [firstStage, if_pos h]

/-- A request that arrives is handled by `deliver` at its destination, so the
lemmas on deliveries apply to it. -/
theorem exchange_eq_deliver :
    p.exchange dest payload path = dest.deliver (p.arriving dest.node.id payload path) :=
  ServerState.doRelay_of_destination (NodeId.parse_hex dest.node.id)

/-- The packet that a handler of the destination sees. -/
theorem arriving_packet :
    (p.arriving dest.node.id payload path).packet =
      ⟨p.state.node.id, Utf8.encode (Utf8.ofBytesLossy payload)⟩ := by
  have hfrom : (p.arriving dest.node.id payload path).fromClient = p.state.node.id.hex := rfl
  rw [RelayRequest.packet, hfrom, NodeId.parse_hex]
  rfl

/-- The call that a request runs into is whatever the destination has pending
under the number that the sender drew. -/
theorem arriving_waitingCall :
    dest.waitingCall (p.arriving dest.node.id payload path) =
      (dest.pending.lookup p.nextCid).map fun call => (p.nextCid, call) :=
  rfl

/-- Where a call waits under the number, the request is taken for its answer. -/
theorem exchange_of_waiting (h : dest.pending.lookup p.nextCid ≠ none) :
    (p.exchange dest payload path).dispatched = none ∧
      (p.exchange dest payload path).posts = [] := by
  obtain ⟨call, hcall⟩ := Option.ne_none_iff_exists'.mp h
  have hwaiting := @arriving_waitingCall p dest payload path
  rw [hcall, Option.map_some] at hwaiting
  obtain ⟨_, hposts, _, hdispatched⟩ := ServerState.deliver_of_waiting hwaiting
  rw [exchange_eq_deliver]
  exact ⟨hdispatched, hposts⟩

/-- Everywhere else the text of the payload goes to the handlers. -/
theorem exchange_of_not_waiting (h : dest.pending.lookup p.nextCid = none) :
    (p.exchange dest payload path).dispatched =
        (handlerFor dest.handlers (Utf8.encode (Utf8.ofBytesLossy payload))).map
          (fun _ => ⟨p.state.node.id, Utf8.encode (Utf8.ofBytesLossy payload)⟩) ∧
      (p.exchange dest payload path).posts =
        ((answerOf dest.handlers ⟨p.state.node.id, Utf8.encode (Utf8.ofBytesLossy payload)⟩).map
          fun bytes => Post.mk p.state.selfUrl
            (dest.responseRelay (p.arriving dest.node.id payload path) bytes)).toList := by
  have hwaiting := @arriving_waitingCall p dest payload path
  rw [h, Option.map_none] at hwaiting
  obtain ⟨_, _, hdispatched, hposts⟩ := ServerState.deliver_of_not_waiting hwaiting
  have hpacket := @arriving_packet p dest payload path
  unfold RelayRequest.packet at hpacket
  have htext := congrArg AppPacket.payload hpacket
  dsimp only at htext
  rw [exchange_eq_deliver, hdispatched, hposts, hpacket, htext]
  refine ⟨rfl, ?_⟩
  have hurl : (p.arriving dest.node.id payload path).returnNodeUrl = some p.state.selfUrl := rfl
  rw [hurl]
  cases answerOf dest.handlers
      ⟨p.state.node.id, Utf8.encode (Utf8.ofBytesLossy payload)⟩ with
  | none => rfl
  | some bytes => rfl

/-- An answer that comes back reaches the call as the bytes of its text. -/
theorem answered_of_response (bytes : List UInt8) :
    ((p.sendAndWait dest.node.id payload).state.doRelay
      { dest.responseRelay (p.arriving dest.node.id payload path) bytes with path := back }
      0).answered.map Prod.snd = some (Utf8.encode (Utf8.ofBytesLossy bytes)) := by
  have hdest : NodeId.parse
      { dest.responseRelay (p.arriving dest.node.id payload path) bytes with path := back }.toId =
        some (p.sendAndWait dest.node.id payload).state.node.id :=
    NodeId.parse_hex p.state.node.id
  have hwaiting : (p.sendAndWait dest.node.id payload).state.waitingCall
      { dest.responseRelay (p.arriving dest.node.id payload path) bytes with path := back } =
        some (p.nextCid, p.calls.length) := by
    have hentry : (p.sendAndWait dest.node.id payload).state.pending.lookup p.nextCid =
        some p.calls.length := HashMap.lookup_put_self
    exact congrArg (Option.map fun call => (p.nextCid, call)) hentry
  obtain ⟨_, _, hanswered, _⟩ := ServerState.deliver_of_waiting hwaiting
  rw [ServerState.doRelay_of_destination hdest, hanswered]
  rfl

/-- What the call gets: the answer to the text of its payload, as text. -/
theorem answerBack_of_not_waiting (h : dest.pending.lookup p.nextCid = none) :
    p.answerBack dest payload path back =
      (answerOf dest.handlers ⟨p.state.node.id, Utf8.encode (Utf8.ofBytesLossy payload)⟩).map
        fun bytes => Utf8.encode (Utf8.ofBytesLossy bytes) := by
  rw [answerBack, (exchange_of_not_waiting h).2]
  cases answerOf dest.handlers
      ⟨p.state.node.id, Utf8.encode (Utf8.ofBytesLossy payload)⟩ with
  | none => rfl
  | some bytes => exact answered_of_response bytes

/-- **To the own identifier** nothing is converted, and nothing is lost: the
handlers get the bytes of the call themselves. -/
theorem payloadFaithful_own (h : p.state.node.id = dest.node.id) :
    p.PayloadFaithful dest payload path back := by
  have hby : p.handledBy dest = p.state := if_pos h
  have hreturned : p.returned dest payload path back =
      answerOf p.state.handlers ⟨p.state.node.id, payload⟩ := by
    rw [returned, if_pos h, localResult_toOption, h]
  refine
    { received := ?_
      returned := ?_
      likeLocal := ?_ }
  · rw [received, if_pos h, hby, h]
  · rw [hreturned, hby]
  · rw [hreturned, hby, localResult_toOption]

/-- To another identifier two of the three demands say the same. -/
theorem payloadFaithful_iff_received_returned (h : p.state.node.id ≠ dest.node.id) :
    p.PayloadFaithful dest payload path back ↔
      (p.exchange dest payload path).dispatched =
          ((handlerFor dest.handlers payload).map fun _ => ⟨p.state.node.id, payload⟩) ∧
        p.answerBack dest payload path back =
          answerOf dest.handlers ⟨p.state.node.id, payload⟩ := by
  have hby : p.handledBy dest = dest := if_neg h
  have hreceived : p.received dest payload path = (p.exchange dest payload path).dispatched :=
    if_neg h
  have hreturned : p.returned dest payload path back = p.answerBack dest payload path back :=
    if_neg h
  constructor
  · intro hfaithful
    refine ⟨?_, ?_⟩
    · rw [← hreceived, hfaithful.received, hby]
    · rw [← hreturned, hfaithful.returned, hby]
  · intro ⟨hgot, hgave⟩
    refine
      { received := ?_
        returned := ?_
        likeLocal := ?_ }
    · rw [hreceived, hgot, hby]
    · rw [hreturned, hgave, hby]
    · rw [hreturned, hgave, hby, localResult_toOption]

/-- Where no handler wants a payload there is no answer to it. -/
theorem answerOf_of_not_wanted {handlers : List PacketHandler} {app : AppPacket}
    (h : handlerFor handlers app.payload = none) : answerOf handlers app = none := by
  rw [answerOf, h, Option.bind_none]

/-- A request that is taken for an answer is handled faithfully only when there
is nothing to hand over. -/
theorem payloadFaithful_of_waiting (hremote : p.state.node.id ≠ dest.node.id)
    (h : dest.pending.lookup p.nextCid ≠ none) :
    p.PayloadFaithful dest payload path back ↔ handlerFor dest.handlers payload = none := by
  obtain ⟨hdispatched, hposts⟩ := @exchange_of_waiting p dest payload path h
  have hback : p.answerBack dest payload path back = none := by
    rw [answerBack, hposts]
    rfl
  rw [payloadFaithful_iff_received_returned hremote, hdispatched, hback]
  constructor
  · intro ⟨hreceived, _⟩
    exact Option.map_eq_none_iff.mp hreceived.symm
  · intro hunwanted
    have hanswer : answerOf dest.handlers ⟨p.state.node.id, payload⟩ = none :=
      answerOf_of_not_wanted hunwanted
    rw [hunwanted, hanswer]
    exact ⟨rfl, rfl⟩

/-- With a payload that is text, the answer decides. -/
theorem payloadFaithful_of_text (hremote : p.state.node.id ≠ dest.node.id)
    (h : dest.pending.lookup p.nextCid = none) (htext : Utf8.IsText payload) :
    p.PayloadFaithful dest payload path back ↔
      ∀ bytes, answerOf dest.handlers ⟨p.state.node.id, payload⟩ = some bytes →
        Utf8.IsText bytes := by
  have hsame := Utf8.encode_ofBytesLossy_iff.mpr htext
  rw [payloadFaithful_iff_received_returned hremote, (exchange_of_not_waiting h).1,
    answerBack_of_not_waiting h, hsame]
  cases answerOf dest.handlers ⟨p.state.node.id, payload⟩ with
  | none => simp
  | some bytes => simp [Utf8.encode_ofBytesLossy_iff]

/-- Any other payload is handled faithfully only when no handler sees it or
what has become of it. -/
theorem payloadFaithful_of_not_text (hremote : p.state.node.id ≠ dest.node.id)
    (h : dest.pending.lookup p.nextCid = none) (htext : ¬ Utf8.IsText payload) :
    p.PayloadFaithful dest payload path back ↔
      handlerFor dest.handlers payload = none ∧
        handlerFor dest.handlers (Utf8.encode (Utf8.ofBytesLossy payload)) = none := by
  have hdiffer : Utf8.encode (Utf8.ofBytesLossy payload) ≠ payload :=
    fun heq => htext (Utf8.encode_ofBytesLossy_iff.mp heq)
  rw [payloadFaithful_iff_received_returned hremote, (exchange_of_not_waiting h).1,
    answerBack_of_not_waiting h]
  constructor
  · intro ⟨hreceived, _⟩
    cases hgot : handlerFor dest.handlers (Utf8.encode (Utf8.ofBytesLossy payload)) with
    | none =>
        rw [hgot, Option.map_none, eq_comm, Option.map_eq_none_iff] at hreceived
        exact ⟨hreceived, rfl⟩
    | some handler =>
        rw [hgot, Option.map_some, eq_comm, Option.map_eq_some_iff] at hreceived
        obtain ⟨_, _, hpacket⟩ := hreceived
        exact (hdiffer (congrArg AppPacket.payload hpacket).symm).elim
  · intro ⟨hunwanted, hlossy⟩
    have hlocal : answerOf dest.handlers ⟨p.state.node.id, payload⟩ = none :=
      answerOf_of_not_wanted hunwanted
    have hanswer : answerOf dest.handlers
        ⟨p.state.node.id, Utf8.encode (Utf8.ofBytesLossy payload)⟩ = none :=
      answerOf_of_not_wanted hlossy
    rw [hlossy, hunwanted, hanswer, hlocal]
    exact ⟨rfl, rfl⟩

/-- **Payload fidelity.**  What a handler gets and what the call gets are
exact, and the same as for a local call, exactly when the call is to the own
identifier; when no call of the destination waits under the number of the
request and payload and answer are text; or when there is nothing to hand over. -/
theorem payload_faithful_iff (p : Process) (dest : ServerState) (payload : List UInt8)
    (path back : List String) :
    p.PayloadFaithful dest payload path back ↔
      p.state.node.id = dest.node.id ∨
        (dest.pending.lookup p.nextCid = none ∧ Utf8.IsText payload ∧
          ∀ bytes, answerOf dest.handlers ⟨p.state.node.id, payload⟩ = some bytes →
            Utf8.IsText bytes) ∨ p.NothingWanted dest payload := by
  by_cases hown : p.state.node.id = dest.node.id
  · exact iff_of_true (payloadFaithful_own hown) (Or.inl hown)
  rw [or_iff_right hown]
  unfold NothingWanted
  by_cases hwaiting : dest.pending.lookup p.nextCid = none
  · by_cases htext : Utf8.IsText payload
    · rw [payloadFaithful_of_text hown hwaiting htext]
      have hvacuous : handlerFor dest.handlers payload = none →
          ∀ bytes, answerOf dest.handlers ⟨p.state.node.id, payload⟩ = some bytes →
            Utf8.IsText bytes := by
        intro hunwanted bytes hanswer
        have hnone : answerOf dest.handlers ⟨p.state.node.id, payload⟩ = none :=
          answerOf_of_not_wanted hunwanted
        rw [hnone] at hanswer
        cases hanswer
      constructor
      · intro h
        exact Or.inl ⟨hwaiting, htext, h⟩
      · intro h
        rcases h with ⟨_, _, hanswers⟩ | ⟨hunwanted, _⟩
        · exact hanswers
        · exact hvacuous hunwanted
    · rw [payloadFaithful_of_not_text hown hwaiting htext]
      simp [hwaiting, htext]
  · rw [payloadFaithful_of_waiting hown hwaiting]
    simp [hwaiting]

/-- **A single byte arrives as three.**  The handler of another server gets the
three bytes of a replacement character. -/
theorem byte_arrives_as_replacement :
    (Servers.pairedServer 1 2).received (Servers.pairedServer 2 1).state [0xFF] [] =
        some ⟨(Servers.pairedServer 1 2).state.node.id, [0xEF, 0xBF, 0xBD]⟩ ∧
      ¬ (Servers.pairedServer 1 2).PayloadFaithful (Servers.pairedServer 2 1).state
        [0xFF] [] [] := by
  have hgot : (Servers.pairedServer 1 2).received (Servers.pairedServer 2 1).state [0xFF] [] =
      some ⟨(Servers.pairedServer 1 2).state.node.id, [0xEF, 0xBF, 0xBD]⟩ := by
    decide +kernel
  refine ⟨hgot, ?_⟩
  intro h
  have hreceived := h.received
  rw [hgot] at hreceived
  have hpayload := congrArg (Option.map AppPacket.payload) hreceived
  cases hpayload

end Process

end Zona
