import Zona.AdminNodes

/-!
# The two relay implementations agree

Servers and plain nodes each have their own `do_relay`, and a mixed network
relies on their doing the same with a request for another node.  Here both run
to the end: they call peers over HTTP, whose answers may depend on all the calls
made before, and reply.

`RelayPlan.carryOut` is what there is to do once the lock is released.  Each
implementation carries out its plan (`AdminState.relay_carriesOut`,
`ServerState.relay_carriesOut`), and the plans are the same up to the texts of
refusals (`plans_agree`); `relays_agree` puts the two together.
-/

namespace Zona

/-- A relay request on its way: `http.post(&url).json(&relay)`. -/
structure HttpCall where
  url : String
  relay : RelayRequest
  deriving DecidableEq

/-- What comes of a call: sending fails, or the reply is not a relay response,
or it is one. -/
inductive HttpAnswer
  | failed (error : String)
  | unreadable (error : String)
  | answered (response : RelayResponse)

/-- The answer to the last of the calls made so far. -/
abbrev Peers := List HttpCall → HttpAnswer

/-- The reply to a request, and the calls made up to it. -/
structure Exchange where
  response : RelayResponse
  calls : List HttpCall
  deriving DecidableEq

/-- The responses are the same but for the texts of errors. -/
def RelayResponse.SameButError (r r' : RelayResponse) : Prop :=
  r.delivered = r'.delivered ∧ r.path = r'.path ∧ r.response = r'.response

theorem RelayResponse.SameButError.refl (r : RelayResponse) : r.SameButError r :=
  ⟨rfl, rfl, rfl⟩

/-- A request posted to a peer goes to its relay endpoint. -/
def Post.call (post : Post) : HttpCall :=
  ⟨post.url ++ "/api/relay", post.request⟩

namespace AdminState

/-- The decision of a plain node, unless the message ends here. -/
inductive Decision
  | forward (nextId : NodeId) (nextUrl : Option String)
  | localMinimum (alternatives : List (String × String))

/-- The routing decision, made while the lock is held. -/
def decision (st : AdminState) (toId : NodeId) (path : List String) : Option Decision :=
  if st.node.id = toId then none
  else
    match nextHop st.node.id toId st.node.table with
    | .forward nid => some (.forward nid (st.peerUrls.lookup nid))
    | .deliver => none
    | .localMinimum =>
        some (.localMinimum (st.peerUrls.entries.filterMap fun e =>
          let hex := e.1.hex
          if !path.contains hex then some (hex, e.2) else none))

/-- The loop over the alternatives. -/
def tryAlternatives (peers : Peers) (req : RelayRequest) :
    List (String × String) → RelayResponse → List HttpCall → Exchange
  | [], last, calls => ⟨last, calls⟩
  | (peerHex, peerUrl) :: rest, last, calls =>
      let newPath := req.path ++ [peerHex]
      let relay : RelayRequest :=
        { toId := req.toId
          text := req.text
          fromClient := req.fromClient
          path := newPath
          allNodes := req.allNodes
          returnNodeUrl := req.returnNodeUrl
          correlationId := req.correlationId }
      let calls := calls ++ [⟨peerUrl ++ "/api/relay", relay⟩]
      match peers calls with
      | .answered r =>
          if r.delivered then ⟨r, calls⟩ else tryAlternatives peers req rest r calls
      | .unreadable _ => tryAlternatives peers req rest last calls
      | .failed _ => tryAlternatives peers req rest last calls

/-- `do_relay` of a plain node, from the lock to the reply. -/
def relay (hexError : String → String) (peers : Peers) (st : AdminState) (req : RelayRequest)
    (calls : List HttpCall) : Exchange × AdminState :=
  match Hex.decode req.toId with
  | none => (⟨⟨false, req.path, some (hexError req.toId), none⟩, calls⟩, st)
  | some toBytes =>
      match Bytes.ofList? 32 toBytes with
      | none => (⟨⟨false, req.path, some "bad to_id length", none⟩, calls⟩, st)
      | some toArr =>
          match st.decision ⟨toArr⟩ req.path with
          | none =>
              (⟨⟨true, req.path, none, none⟩, calls⟩,
                { st with inbox := st.inbox ++ [⟨req.fromClient, req.text⟩] })
          | some (.forward nextId (some nextUrl)) =>
              let nextIdHex := nextId.hex
              if req.path.contains nextIdHex then
                (⟨⟨false, req.path, some "routing loop", none⟩, calls⟩, st)
              else
                let newPath := req.path ++ [nextIdHex]
                let relay : RelayRequest :=
                  { toId := req.toId
                    text := req.text
                    fromClient := req.fromClient
                    path := newPath
                    allNodes := req.allNodes
                    returnNodeUrl := req.returnNodeUrl
                    correlationId := req.correlationId }
                let calls := calls ++ [⟨nextUrl ++ "/api/relay", relay⟩]
                match peers calls with
                | .answered r => (⟨r, calls⟩, st)
                | .unreadable e => (⟨⟨false, newPath, some e, none⟩, calls⟩, st)
                | .failed e => (⟨⟨false, newPath, some e, none⟩, calls⟩, st)
          | some (.forward _ none) =>
              (⟨⟨false, req.path, some "no URL for next hop", none⟩, calls⟩, st)
          | some (.localMinimum alternatives) =>
              if alternatives.isEmpty then
                (⟨⟨false, req.path, some "local minimum — dead end", none⟩, calls⟩, st)
              else
                (tryAlternatives peers req alternatives
                  ⟨false, req.path, some "local minimum — all alternatives failed", none⟩ calls, st)

end AdminState

namespace ServerState

/-- Forward a relay request to the next hop. -/
def forwardRelay (peers : Peers) (nextUrl : String) (req : RelayRequest) (nextIdHex : String)
    (calls : List HttpCall) : Exchange :=
  let newPath := req.path ++ [nextIdHex]
  let calls := calls ++ [⟨nextUrl ++ "/api/relay", { req with path := newPath }⟩]
  match peers calls with
  | .answered r => ⟨r, calls⟩
  | .unreadable e => ⟨⟨false, newPath, some e, none⟩, calls⟩
  | .failed e => ⟨⟨false, newPath, some e, none⟩, calls⟩

/-- Try the unvisited peers one after the other, starting with no success. -/
def fanOut (peers : Peers) (req : RelayRequest) :
    List (String × String) → RelayResponse → List HttpCall → Exchange
  | [], last, calls => ⟨last, calls⟩
  | (peerHex, peerUrl) :: alts, last, calls =>
      let calls := calls ++
        [⟨peerUrl ++ "/api/relay", { req with path := req.path ++ [peerHex] }⟩]
      match peers calls with
      | .answered r => if r.delivered then ⟨r, calls⟩ else fanOut peers req alts r calls
      | .unreadable _ => fanOut peers req alts last calls
      | .failed _ => fanOut peers req alts last calls

/-- `do_relay` of a server, from the lock to the reply.  What the caller of a
delivered request answers does not matter. -/
def relay (peers : Peers) (st : ServerState) (req : RelayRequest) (calls : List HttpCall) :
    Exchange × ServerState :=
  match NodeId.parse req.toId with
  | none => (⟨⟨false, req.path, some ("bad to_id: " ++ req.toId), none⟩, calls⟩, st)
  | some toId =>
      match st.decision toId req.path with
      | .deliver =>
          (⟨(st.deliver req).reply.getD ⟨true, req.path, none, none⟩,
            calls ++ (st.deliver req).posts.map Post.call⟩, (st.deliver req).state)
      | .forward nextUrl nextIdHex =>
          if req.path.contains nextIdHex then
            (⟨⟨false, req.path, some "routing loop", none⟩, calls⟩, st)
          else (forwardRelay peers nextUrl req nextIdHex calls, st)
      | .localMinimum alts =>
          if alts.isEmpty then
            (⟨⟨false, req.path, some "local minimum — dead end", none⟩, calls⟩, st)
          else
            (fanOut peers req alts
              ⟨false, req.path, some "local minimum — all alternatives failed", none⟩ calls, st)
      | .noRoute error => (⟨⟨false, req.path, some error, none⟩, calls⟩, st)

end ServerState

namespace RelayPlan

/-- Post requests one after the other until one is delivered. -/
def postEach (peers : Peers) : List Post → RelayResponse → List HttpCall → Exchange
  | [], last, calls => ⟨last, calls⟩
  | post :: rest, last, calls =>
      let calls := calls ++ [post.call]
      match peers calls with
      | .answered r => if r.delivered then ⟨r, calls⟩ else postEach peers rest r calls
      | _ => postEach peers rest last calls

/-- What is left to do once the routing decision is made. -/
def carryOut (peers : Peers) (req : RelayRequest) (calls : List HttpCall) : RelayPlan → Exchange
  | .reply response => ⟨response, calls⟩
  | .forward post =>
      let calls := calls ++ [post.call]
      match peers calls with
      | .answered r => ⟨r, calls⟩
      | .unreadable e => ⟨⟨false, post.request.path, some e, none⟩, calls⟩
      | .failed e => ⟨⟨false, post.request.path, some e, none⟩, calls⟩
  | .fanOut posts =>
      postEach peers posts
        ⟨false, req.path, some "local minimum — all alternatives failed", none⟩ calls

/-- The plans differ at most in the texts of errors. -/
inductive SameButError : RelayPlan → RelayPlan → Prop
  | reply {r r' : RelayResponse} (h : r.SameButError r') : SameButError (.reply r) (.reply r')
  | refl (plan : RelayPlan) : SameButError plan plan

/-- A loop over alternatives that passes the request on to one after the other
posts each of them. -/
theorem eq_postEach {peers : Peers} {req : RelayRequest}
    {loop : List (String × String) → RelayResponse → List HttpCall → Exchange}
    (hnil : ∀ last calls, loop [] last calls = ⟨last, calls⟩)
    (hcons : ∀ alt rest last calls, loop (alt :: rest) last calls =
      let calls := calls ++ [(ServerState.passOn req alt.2 alt.1).call]
      match peers calls with
      | .answered r => if r.delivered then ⟨r, calls⟩ else loop rest r calls
      | .unreadable _ => loop rest last calls
      | .failed _ => loop rest last calls)
    (alts : List (String × String)) (last : RelayResponse) (calls : List HttpCall) :
    loop alts last calls =
      postEach peers (alts.map fun alt => ServerState.passOn req alt.2 alt.1) last calls := by
  induction alts generalizing last calls with
  | nil => exact hnil last calls
  | cons alt rest ih =>
      rw [hcons, List.map_cons, postEach]
      dsimp only
      cases peers _ with
      | answered r =>
          by_cases hdelivered : r.delivered = true
          · simp only [if_pos hdelivered]
          · simp only [if_neg hdelivered]
            exact ih r _
      | unreadable e => exact ih last _
      | failed e => exact ih last _

/-- Refusals differ in the text of their error at most. -/
theorem refuse_sameButError (req : RelayRequest) (error error' : String) :
    (refuse req error).SameButError (refuse req error') :=
  .reply ⟨rfl, rfl, rfl⟩

/-- Plans that differ in an error at most make the same calls, and their
replies differ in that error at most. -/
theorem SameButError.carryOut {peers : Peers} {req : RelayRequest} {calls : List HttpCall}
    {plan plan' : RelayPlan} (h : plan.SameButError plan') :
    (plan.carryOut peers req calls).calls = (plan'.carryOut peers req calls).calls ∧
      (plan.carryOut peers req calls).response.SameButError
        (plan'.carryOut peers req calls).response := by
  cases h with
  | reply hsame => exact ⟨rfl, hsame⟩
  | refl => exact ⟨rfl, RelayResponse.SameButError.refl _⟩

end RelayPlan

namespace AdminState

/-- The loop of an admin node over its other peers posts to each of them in
turn, until one has delivered. -/
theorem tryAlternatives_eq (peers : Peers) (req : RelayRequest) (alts : List (String × String))
    (last : RelayResponse) (calls : List HttpCall) :
    tryAlternatives peers req alts last calls =
      RelayPlan.postEach peers (alts.map fun alt => ServerState.passOn req alt.2 alt.1)
        last calls :=
  RelayPlan.eq_postEach (fun _ _ => rfl) (fun _ _ _ _ => rfl) alts last calls

/-- The list of other peers in the source is the list of those in the map that
are not on the path. -/
theorem alternatives_eq (peerUrls : HashMap NodeId String) (path : List String) :
    (peerUrls.entries.filterMap fun e =>
      if !path.contains e.1.hex then some (e.1.hex, e.2) else none) = unvisited peerUrls path := by
  unfold unvisited
  induction peerUrls.entries with
  | nil => rfl
  | cons e rest ih =>
      by_cases hvisited : path.contains e.1.hex = true
      · rw [List.filterMap_cons, List.filter_cons_of_neg (by simpa using hvisited), ← ih]
        simp only [hvisited, Bool.not_true, Bool.false_eq_true, if_false]
      · rw [List.filterMap_cons, List.filter_cons_of_pos (by simpa using hvisited), List.map_cons,
          ← ih]
        simp only [hvisited, Bool.not_false, if_true]

/-- A plain node carries out its plan: what the source does in one body is
deciding first and posting then. -/
theorem relay_carriesOut (hexError : String → String) (peers : Peers) (st : AdminState)
    (req : RelayRequest) (calls : List HttpCall) :
    st.relay hexError peers req calls =
      ((st.doRelay hexError req).1.carryOut peers req calls, (st.doRelay hexError req).2) := by
  rw [relay, doRelay]
  cases Hex.decode req.toId with
  | none => rfl
  | some toBytes =>
      dsimp only
      cases Bytes.ofList? 32 toBytes with
      | none => rfl
      | some toArr =>
          dsimp only
          rw [decision]
          by_cases hself : st.node.id = ⟨toArr⟩
          · rw [if_pos hself, if_pos hself]
            rfl
          · rw [if_neg hself, if_neg hself]
            cases nextHop st.node.id ⟨toArr⟩ st.node.table with
            | deliver => rfl
            | forward nid =>
                dsimp only
                cases st.peerUrls.lookup nid with
                | none => rfl
                | some url =>
                    dsimp only
                    by_cases hloop : req.path.contains nid.hex = true
                    · rw [if_pos hloop, if_pos hloop]
                      rfl
                    · rw [if_neg hloop, if_neg hloop]
                      dsimp only [RelayPlan.carryOut, Post.call, ServerState.passOn]
                      cases peers _ with
                      | _ => rfl
            | localMinimum =>
                dsimp only
                rw [alternatives_eq]
                by_cases hnone : (unvisited st.peerUrls req.path).isEmpty = true
                · rw [if_pos hnone, if_pos hnone]
                  rfl
                · rw [if_neg hnone, if_neg hnone, tryAlternatives_eq]
                  rfl

end AdminState

namespace ServerState

/-- The fan-out of a server posts to each peer in turn, until one has
delivered, as the loop of an admin node does. -/
theorem fanOut_eq (peers : Peers) (req : RelayRequest) (alts : List (String × String))
    (last : RelayResponse) (calls : List HttpCall) :
    fanOut peers req alts last calls =
      RelayPlan.postEach peers (alts.map fun alt => passOn req alt.2 alt.1) last calls :=
  RelayPlan.eq_postEach (fun _ _ => rfl) (fun _ _ _ _ => rfl) alts last calls

/-- A server carries out its plan for a request that is not for it. -/
theorem relay_carriesOut (peers : Peers) {st : ServerState} {req : RelayRequest}
    (h : NodeId.parse req.toId ≠ some st.node.id) (calls : List HttpCall) :
    st.relay peers req calls = ((st.relayPlan req).carryOut peers req calls, st) := by
  rw [relay, relayPlan]
  cases hparse : NodeId.parse req.toId with
  | none => rfl
  | some toId =>
      dsimp only
      cases hdecision : st.decision toId req.path with
      | deliver =>
          rw [decision_deliver_iff] at hdecision
          rw [hparse, hdecision] at h
          exact absurd rfl h
      | forward nextUrl nextIdHex =>
          dsimp only
          by_cases hloop : req.path.contains nextIdHex = true
          · rw [if_pos hloop, if_pos hloop]
            rfl
          · rw [if_neg hloop, if_neg hloop, forwardRelay]
            rfl
      | localMinimum alts =>
          dsimp only
          by_cases hnone : alts.isEmpty = true
          · rw [if_pos hnone, if_pos hnone]
            rfl
          · rw [if_neg hnone, if_neg hnone, fanOut_eq]
            rfl
      | noRoute error => rfl

end ServerState

/-- **The plans agree**, up to the texts of refusals, for a request that is not
for the node itself. -/
theorem plans_agree (hexError : String → String) {server : ServerState} {admin : AdminState}
    {req : RelayRequest} (hid : server.node.id = admin.node.id)
    (htable : server.node.table = admin.node.table) (hurls : server.peerUrls = admin.peerUrls)
    (hother : NodeId.parse req.toId ≠ some admin.node.id) :
    (server.relayPlan req).SameButError (admin.doRelay hexError req).1 := by
  rw [ServerState.relayPlan, AdminState.doRelay]
  unfold NodeId.parse at hother ⊢
  cases hbytes : Hex.decode req.toId with
  | none => exact RelayPlan.refuse_sameButError req _ _
  | some bytes =>
      rw [hbytes] at hother
      dsimp only [Option.bind_eq_bind, Option.bind_some] at hother ⊢
      cases harr : Bytes.ofList? 32 bytes with
      | none => exact RelayPlan.refuse_sameButError req _ _
      | some arr =>
          rw [harr] at hother
          have hself : admin.node.id ≠ ⟨arr⟩ := fun heq => hother (congrArg some heq.symm)
          dsimp only [Option.bind_some, Option.pure_def]
          rw [ServerState.decision, hid, htable, hurls, if_neg hself, if_neg hself]
          have hroute := nextHop_ne_deliver hself admin.node.table
          cases hhop : nextHop admin.node.id ⟨arr⟩ admin.node.table with
          | deliver => exact (hroute hhop).elim
          | forward nid =>
              dsimp only
              cases admin.peerUrls.lookup nid with
              | none => exact RelayPlan.refuse_sameButError req _ _
              | some url =>
                  dsimp only
                  by_cases hloop : req.path.contains nid.hex = true
                  · rw [if_pos hloop, if_pos hloop]
                    exact RelayPlan.refuse_sameButError req _ _
                  · rw [if_neg hloop, if_neg hloop]
                    exact .refl _
          | localMinimum =>
              dsimp only
              rw [← unvisited]
              by_cases hnone : (unvisited admin.peerUrls req.path).isEmpty = true
              · rw [if_pos hnone, if_pos hnone]
                exact .refl _
              · rw [if_neg hnone, if_neg hnone]
                exact .refl _

/-- **The two implementations agree.**  A server and a plain node with the same
identifier, table and URLs make the same calls for a request that is not for
them, however the peers answer, and reply alike but for the texts of errors. -/
theorem relays_agree (hexError : String → String) (peers : Peers) (server : ServerState)
    (admin : AdminState) (req : RelayRequest) (calls : List HttpCall)
    (hid : server.node.id = admin.node.id) (htable : server.node.table = admin.node.table)
    (hurls : server.peerUrls = admin.peerUrls)
    (hother : NodeId.parse req.toId ≠ some admin.node.id) :
    (server.relay peers req calls).1.calls = (admin.relay hexError peers req calls).1.calls ∧
      (server.relay peers req calls).1.response.SameButError
        (admin.relay hexError peers req calls).1.response := by
  have hserver : NodeId.parse req.toId ≠ some server.node.id := by
    rw [hid]
    exact hother
  rw [ServerState.relay_carriesOut peers hserver, AdminState.relay_carriesOut]
  exact (plans_agree hexError hid htable hurls hother).carryOut

/-- Two peers answer in turn: the first fails to deliver, the second delivers. -/
def mixedPeers : Peers := fun calls =>
  if calls.length = 1 then .answered ⟨false, ["a"], some "dead", none⟩
  else .answered ⟨true, ["b"], none, some "done"⟩

/-- A node without slots. -/
def loneNode : Node :=
  Node.new (@NodeKeypair.fromSeed checksumCrypto (Bytes.replicate 32 9)) ⟨5, 0⟩

/-- The URLs of two peers. -/
def twoUrls : HashMap NodeId String :=
  (HashMap.put ∅ ⟨Bytes.replicate 32 1⟩ "http://one").put ⟨Bytes.replicate 32 2⟩ "http://two"

def straySend : RelayRequest :=
  ⟨NodeId.hex ⟨Bytes.replicate 32 5⟩, "hello", "client", [], [], none, none⟩

/-- At a local minimum both try two peers and return the reply of the second. -/
theorem relays_agree_fanning_out :
    let server : ServerState := ⟨loneNode, twoUrls, "http://me", ∅, []⟩
    let admin : AdminState := ⟨loneNode, twoUrls, "http://me", []⟩
    (server.relay mixedPeers straySend []).1.calls.length = 2 ∧
      (server.relay mixedPeers straySend []).1.calls
        = (admin.relay (fun s => s) mixedPeers straySend []).1.calls ∧
      (server.relay mixedPeers straySend []).1.response.SameButError
        (admin.relay (fun s => s) mixedPeers straySend []).1.response :=
  ⟨by decide +kernel,
    relays_agree (fun s => s) mixedPeers ⟨loneNode, twoUrls, "http://me", ∅, []⟩
      ⟨loneNode, twoUrls, "http://me", []⟩ straySend [] rfl rfl rfl (by decide +kernel)⟩

end Zona
