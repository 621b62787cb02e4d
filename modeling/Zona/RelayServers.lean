import Zona.NodeHandler
import Zona.Utf8Text

/-!
# Relay servers

A server answers relay requests and makes calls of its own.  `doRelay` decides
where a request goes: to `deliver` at its destination, and to a peer anywhere
else.  `deliver` first looks for a waiting call under the correlation id and
only then hands the payload to a handler, whose answer is posted to the server
that made the call.

`sendAndWait` is a call: it is entered under a fresh correlation id, posted to
a first hop, and waits for the bytes that `deliver` puts into its mailbox.  It
runs in stages, because it holds the lock of the server only now and then.

A request posted to a URL is kept with the URL.  The correlation counter is a
machine word of the process, which starts at one.
-/

namespace Zona

/-- An application packet, as handlers see it. -/
structure AppPacket where
  fromId : NodeId
  payload : List UInt8
  deriving DecidableEq

/-- A registered handler: `matches` and `handle`. -/
structure PacketHandler where
  accepts : List UInt8 → Bool
  handle : AppPacket → Option (List UInt8)

/-- A handler for the payloads that start with given bytes. -/
def prefixHandler (start : List UInt8) (func : AppPacket → Option (List UInt8)) :
    PacketHandler where
  accepts payload := start.isPrefixOf payload
  handle := func

/-- A handler for every payload. -/
def catchAllHandler (func : AppPacket → Option (List UInt8)) : PacketHandler where
  accepts _ := true
  handle := func

/-- The first handler that wants the payload. -/
def handlerFor (handlers : List PacketHandler) (payload : List UInt8) : Option PacketHandler :=
  handlers.find? fun h => h.accepts payload

/-- What the handlers answer to a packet. -/
def answerOf (handlers : List PacketHandler) (app : AppPacket) : Option (List UInt8) :=
  (handlerFor handlers app.payload).bind fun h => h.handle app

/-- The relay request on the wire. -/
structure RelayRequest where
  toId : String
  text : String
  fromClient : String
  path : List String
  allNodes : List String
  returnNodeUrl : Option String
  correlationId : Option UInt64
  deriving DecidableEq

/-- The reply to a relay request. -/
structure RelayResponse where
  delivered : Bool
  path : List String
  error : Option String
  response : Option String
  deriving DecidableEq

/-- A relay request on its way to the relay endpoint of a URL. -/
structure Post where
  url : String
  request : RelayRequest
  deriving DecidableEq

/-- The shared state of a server.  A pending call is known by its number. -/
structure ServerState where
  node : Node
  peerUrls : HashMap NodeId String
  selfUrl : String
  pending : HashMap UInt64 Nat
  handlers : List PacketHandler

/-- Where a relay request goes. -/
inductive Decision
  | deliver
  | forward (nextUrl nextIdHex : String)
  | localMinimum (alts : List (String × String))
  | noRoute (error : String)
  deriving DecidableEq

/-- What handling a relay request does: the new state, the requests it posts,
the waiting call it answers, the packet it hands to a handler, and the reply,
unless that is the reply of a hop. -/
structure Outcome where
  state : ServerState
  posts : List Post
  answered : Option (Nat × List UInt8)
  dispatched : Option AppPacket
  reply : Option RelayResponse

namespace ServerState

/-- The waiting call that a request resolves. -/
def waitingCall (st : ServerState) (req : RelayRequest) : Option (UInt64 × Nat) :=
  req.correlationId.bind fun cid => (st.pending.lookup cid).map fun call => (cid, call)

/-- The relay request that carries the answer of a handler back. -/
def responseRelay (st : ServerState) (req : RelayRequest) (bytes : List UInt8) : RelayRequest where
  toId := req.fromClient
  text := Utf8.ofBytesLossy bytes
  fromClient := st.node.id.hex
  path := [st.node.id.hex]
  allNodes := []
  returnNodeUrl := none
  correlationId := req.correlationId

/-- Deliver a request that has reached this server. -/
def deliver (st : ServerState) (req : RelayRequest) : Outcome :=
  let reply : RelayResponse := ⟨true, req.path, none, none⟩
  match st.waitingCall req with
  | some (cid, call) =>
      { state := { st with pending := st.pending.erase cid }
        posts := []
        answered := some (call, Utf8.encode req.text)
        dispatched := none
        reply := some reply }
  | none =>
      let payload := Utf8.encode req.text
      match handlerFor st.handlers payload with
      | none => ⟨st, [], none, none, some reply⟩
      | some h =>
          let app : AppPacket := ⟨(NodeId.parse req.fromClient).getD NodeId.zero, payload⟩
          match h.handle app, req.returnNodeUrl with
          | some bytes, some returnUrl =>
              ⟨st, [⟨returnUrl, st.responseRelay req bytes⟩], none, some app, some reply⟩
          | some bytes, none =>
              ⟨st, [], none, some app,
                some { reply with response := some (Utf8.ofBytesLossy bytes) }⟩
          | none, _ => ⟨st, [], none, some app, some reply⟩

/-- The routing decision. -/
def decision (st : ServerState) (toId : NodeId) (path : List String) : Decision :=
  if st.node.id = toId then .deliver
  else
    match nextHop st.node.id toId st.node.table with
    | .forward nid =>
        match st.peerUrls.lookup nid with
        | some url => .forward url nid.hex
        | none => .noRoute ("no URL for next hop " ++ nid.hex)
    | .deliver => .deliver
    | .localMinimum =>
        .localMinimum ((st.peerUrls.entries.filter fun e => !path.contains e.1.hex).map
          fun e => (e.1.hex, e.2))

/-- Pass a request on to a peer. -/
def passOn (req : RelayRequest) (url idHex : String) : Post :=
  ⟨url, { req with path := req.path ++ [idHex] }⟩

/-- Handle a relay request.  At a local minimum the peers not yet visited are
tried in turn until one of them delivers: `tried` of them are. -/
def doRelay (st : ServerState) (req : RelayRequest) (tried : Nat) : Outcome :=
  let refuse (error : String) : Outcome :=
    ⟨st, [], none, none, some ⟨false, req.path, some error, none⟩⟩
  match NodeId.parse req.toId with
  | none => refuse ("bad to_id: " ++ req.toId)
  | some toId =>
      match st.decision toId req.path with
      | .deliver => st.deliver req
      | .forward nextUrl nextIdHex =>
          if req.path.contains nextIdHex then refuse "routing loop"
          else ⟨st, [passOn req nextUrl nextIdHex], none, none, none⟩
      | .localMinimum alts =>
          if alts.isEmpty then refuse "local minimum — dead end"
          else
            ⟨st, (alts.take tried).map fun alt => passOn req alt.2 alt.1, none, none, none⟩
      | .noRoute error => refuse error

end ServerState

/-- What a call was made with. -/
structure Ticket where
  cid : UInt64
  toId : NodeId
  payload : List UInt8
  deriving DecidableEq

/-- How far a call is.  A call that is `closing` has its result and still has
to take its entry out of the pending table. -/
inductive Stage
  | posting (firstUrl : String)
  | waiting
  | closing (result : Except String (List UInt8))
  | returned (result : Except String (List UInt8))
  deriving DecidableEq

/-- A call of `send_and_wait`. -/
structure Call where
  ticket : Ticket
  stage : Stage
  mailbox : Option (List UInt8)
  deriving DecidableEq

/-- A server process: the shared state, the correlation counter, and the calls
made so far. -/
structure Process where
  state : ServerState
  nextCid : UInt64
  calls : List Call

namespace Process

/-- A call to the own server goes straight to the handler. -/
def localResult (st : ServerState) (toId : NodeId) (payload : List UInt8) :
    Except String (List UInt8) :=
  match handlerFor st.handlers payload with
  | some h =>
      match h.handle ⟨toId, payload⟩ with
      | some bytes => .ok bytes
      | none => .error "handler returned no response"
  | none => .error "no handler matched"

/-- The URL that a call is posted to first. -/
def firstHopUrl (st : ServerState) (toId : NodeId) : Option String :=
  match nextHop st.node.id toId st.node.table with
  | .forward nid => st.peerUrls.lookup nid
  | .deliver => (HashMap.values st.peerUrls).head?
  | .localMinimum => (HashMap.values st.peerUrls).head?

/-- How a call begins. -/
def firstStage (st : ServerState) (toId : NodeId) (payload : List UInt8) : Stage :=
  if st.node.id = toId then .closing (localResult st toId payload)
  else
    match firstHopUrl st toId with
    | some url => .posting url
    | none => .closing (.error ("no route to " ++ toId.hex))

/-- `send_and_wait`, up to its first release of the lock. -/
def sendAndWait (p : Process) (toId : NodeId) (payload : List UInt8) : Process where
  state := { p.state with pending := p.state.pending.put p.nextCid p.calls.length }
  nextCid := p.nextCid + 1
  calls := p.calls ++
    [{ ticket := ⟨p.nextCid, toId, payload⟩
       stage := firstStage p.state toId payload
       mailbox := none }]

/-- The relay request of a call. -/
def callRelay (st : ServerState) (t : Ticket) : RelayRequest where
  toId := t.toId.hex
  text := Utf8.ofBytesLossy t.payload
  fromClient := st.node.id.hex
  path := [st.node.id.hex]
  allNodes := []
  returnNodeUrl := some st.selfUrl
  correlationId := some t.cid

def setCall (p : Process) (k : Nat) (c : Call) : Process :=
  { p with calls := p.calls.set k c }

/-- `pending.remove(&cid)`. -/
def forget (p : Process) (cid : UInt64) : Process :=
  { p with state := { p.state with pending := p.state.pending.erase cid } }

/-- Put an answer into the mailbox of the call it is for. -/
def receive (p : Process) (answered : Option (Nat × List UInt8)) : Process :=
  match answered with
  | none => p
  | some (k, bytes) =>
      match p.calls[k]? with
      | none => p
      | some c => p.setCall k { c with mailbox := some bytes }

/-- What the calls of a process were made with. -/
def tickets (p : Process) : List Ticket :=
  p.calls.map Call.ticket

end Process

namespace ServerState

/-- A request goes to `deliver` exactly at the server it names. -/
theorem decision_deliver_iff {st : ServerState} {toId : NodeId} {path : List String} :
    st.decision toId path = .deliver ↔ st.node.id = toId := by
  unfold decision
  by_cases hself : st.node.id = toId
  · simp [hself]
  · rw [if_neg hself]
    have hroute := nextHop_ne_deliver hself st.node.table
    cases hhop : nextHop st.node.id toId st.node.table with
    | forward nid =>
        dsimp only
        cases st.peerUrls.lookup nid with
        | some url => simp [hself]
        | none => simp [hself]
    | deliver => exact (hroute hhop).elim
    | localMinimum => simp [hself]

/-- At its destination a request is delivered, whatever its path says. -/
theorem doRelay_of_destination {st : ServerState} {req : RelayRequest} {tried : Nat}
    (h : NodeId.parse req.toId = some st.node.id) : st.doRelay req tried = st.deliver req := by
  rw [doRelay, h]
  dsimp only
  rw [decision_deliver_iff.mpr rfl]

/-- **Anywhere else a request is at most passed on**, and all that changes in
it is the path. -/
theorem doRelay_of_relay {st : ServerState} {req : RelayRequest} {tried : Nat}
    (h : NodeId.parse req.toId ≠ some st.node.id) :
    (st.doRelay req tried).state = st ∧ (st.doRelay req tried).answered = none ∧
      (st.doRelay req tried).dispatched = none ∧
        ∀ post ∈ (st.doRelay req tried).posts,
          post.request = { req with path := post.request.path } := by
  unfold doRelay
  cases hparse : NodeId.parse req.toId with
  | none => simp
  | some toId =>
      have hself : st.node.id ≠ toId := by
        intro heq
        exact h (by rw [hparse, heq])
      dsimp only
      cases hdecision : st.decision toId req.path with
      | deliver => exact (hself (decision_deliver_iff.mp hdecision)).elim
      | forward nextUrl nextIdHex =>
          dsimp only
          split
          · simp
          · simp [passOn]
      | localMinimum alts =>
          dsimp only
          split
          · simp
          · refine ⟨rfl, rfl, rfl, ?_⟩
            intro post hpost
            obtain ⟨alt, _, hpassed⟩ := List.mem_map.mp hpost
            rw [← hpassed]
            rfl
      | noRoute error => simp

/-- A request that answers a waiting call resolves it and is not handed to a
handler, whether it was meant to or not. -/
theorem deliver_of_waiting {st : ServerState} {req : RelayRequest} {cid : UInt64} {call : Nat}
    (h : st.waitingCall req = some (cid, call)) :
    (st.deliver req).state = { st with pending := st.pending.erase cid } ∧
      (st.deliver req).posts = [] ∧
        (st.deliver req).answered = some (call, Utf8.encode req.text) ∧
          (st.deliver req).dispatched = none := by
  rw [deliver, h]
  exact ⟨rfl, rfl, rfl, rfl⟩

/-- **A request that answers no waiting call** goes to the handler that wants
its payload, and the answer of that handler is posted back. -/
theorem deliver_of_not_waiting {st : ServerState} {req : RelayRequest}
    (h : st.waitingCall req = none) :
    (st.deliver req).state = st ∧ (st.deliver req).answered = none ∧
      (st.deliver req).dispatched = (handlerFor st.handlers (Utf8.encode req.text)).map
        (fun _ => ⟨(NodeId.parse req.fromClient).getD NodeId.zero, Utf8.encode req.text⟩) ∧
      (st.deliver req).posts =
        match answerOf st.handlers
            ⟨(NodeId.parse req.fromClient).getD NodeId.zero, Utf8.encode req.text⟩,
          req.returnNodeUrl with
        | some bytes, some returnUrl => [⟨returnUrl, st.responseRelay req bytes⟩]
        | _, _ => [] := by
  rw [deliver, h]
  dsimp only
  unfold answerOf
  dsimp only
  cases handlerFor st.handlers (Utf8.encode req.text) with
  | none => simp
  | some handler =>
      dsimp only [Option.bind_some, Option.map_some]
      cases handler.handle
          ⟨(NodeId.parse req.fromClient).getD NodeId.zero, Utf8.encode req.text⟩ with
      | none => simp
      | some bytes =>
          cases req.returnNodeUrl with
          | none => simp
          | some returnUrl => simp

end ServerState

end Zona
