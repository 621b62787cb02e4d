import Zona.RelayServers

/-!
# Relay nodes and relay plans

A plain node relays requests as a server does, and keeps what is addressed to
it in an inbox.  The two implementations differ in their refusals, and in what
they do at the destination.

What either does with a request once its lock is released is a `RelayPlan`:
reply, pass the request on, or try the peers not yet visited one after the
other.  `ServerState.doRelay_plan` ties the plan of a server to `doRelay`, and
`RelayPlan.Routed` is what both kinds may plan for a target.
-/

namespace Zona

/-- Stored when a message is delivered to the inbox of a node. -/
structure InboxEntry where
  fromClient : String
  text : String
  deriving DecidableEq

/-- The shared state of a plain node. -/
structure AdminState where
  node : Node
  peerUrls : HashMap NodeId String
  selfUrl : String
  inbox : List InboxEntry

/-- What is left to do when the routing decision is made. -/
inductive RelayPlan
  | reply (response : RelayResponse)
  | forward (post : Post)
  | fanOut (posts : List Post)
  deriving DecidableEq

namespace RelayPlan

/-- The requests that a plan may post. -/
def posts : RelayPlan → List Post
  | .reply _ => []
  | .forward post => [post]
  | .fanOut posts => posts

/-- A refusal. -/
def refuse (req : RelayRequest) (error : String) : RelayPlan :=
  .reply ⟨false, req.path, some error, none⟩

/-- Pass a request on to each of some peers in turn. -/
def tryPeers (req : RelayRequest) (alts : List (String × String)) : RelayPlan :=
  .fanOut (alts.map fun alt => ServerState.passOn req alt.2 alt.1)

end RelayPlan

/-- The peers with a URL that a path has not been through: identifier and URL. -/
def unvisited (peerUrls : HashMap NodeId String) (path : List String) : List (String × String) :=
  (peerUrls.entries.filter fun e => !path.contains e.1.hex).map fun e => (e.1.hex, e.2)

namespace AdminState

/-- The message goes into the inbox. -/
def receive (st : AdminState) (req : RelayRequest) : RelayPlan × AdminState :=
  (.reply ⟨true, req.path, none, none⟩,
    { st with inbox := st.inbox ++ [⟨req.fromClient, req.text⟩] })

/-- Handle a relay request at a plain node.  The text of a decoding error is
that of the hex library. -/
def doRelay (hexError : String → String) (st : AdminState) (req : RelayRequest) :
    RelayPlan × AdminState :=
  match Hex.decode req.toId with
  | none => (.refuse req (hexError req.toId), st)
  | some bytes =>
      match Bytes.ofList? 32 bytes with
      | none => (.refuse req "bad to_id length", st)
      | some arr =>
          if st.node.id = ⟨arr⟩ then st.receive req
          else
            match nextHop st.node.id ⟨arr⟩ st.node.table with
            | .forward nid =>
                match st.peerUrls.lookup nid with
                | some url =>
                    if req.path.contains nid.hex then (.refuse req "routing loop", st)
                    else (.forward (ServerState.passOn req url nid.hex), st)
                | none => (.refuse req "no URL for next hop", st)
            | .deliver => st.receive req
            | .localMinimum =>
                if (unvisited st.peerUrls req.path).isEmpty then
                  (.refuse req "local minimum — dead end", st)
                else (.tryPeers req (unvisited st.peerUrls req.path), st)

end AdminState

namespace ServerState

/-- The plan of a server. -/
def relayPlan (st : ServerState) (req : RelayRequest) : RelayPlan :=
  match NodeId.parse req.toId with
  | none => .refuse req ("bad to_id: " ++ req.toId)
  | some toId =>
      match st.decision toId req.path with
      | .deliver => .reply ⟨true, req.path, none, (st.deliver req).reply.bind RelayResponse.response⟩
      | .forward nextUrl nextIdHex =>
          if req.path.contains nextIdHex then .refuse req "routing loop"
          else .forward (passOn req nextUrl nextIdHex)
      | .localMinimum alts =>
          if alts.isEmpty then .refuse req "local minimum — dead end" else .tryPeers req alts
      | .noRoute error => .refuse req error

/-- Every delivery is acknowledged, along the path of the request. -/
theorem deliver_reply (st : ServerState) (req : RelayRequest) :
    ∃ response, (st.deliver req).reply = some ⟨true, req.path, none, response⟩ := by
  unfold deliver
  cases st.waitingCall req with
  | some waiting => exact ⟨none, rfl⟩
  | none =>
      dsimp only
      cases handlerFor st.handlers (Utf8.encode req.text) with
      | none => exact ⟨none, rfl⟩
      | some h =>
          dsimp only
          cases h.handle ⟨(NodeId.parse req.fromClient).getD NodeId.zero, Utf8.encode req.text⟩ with
          | none => exact ⟨none, rfl⟩
          | some bytes =>
              cases req.returnNodeUrl with
              | some returnUrl => exact ⟨none, rfl⟩
              | none => exact ⟨some (Utf8.ofBytesLossy bytes), rfl⟩

/-- **A server follows its plan.**  It replies at once, or posts the request of
the plan, or as many of them as it gets round to. -/
theorem doRelay_plan (st : ServerState) (req : RelayRequest) (tried : Nat) :
    match st.relayPlan req with
    | .reply response => (st.doRelay req tried).reply = some response
    | .forward post => (st.doRelay req tried).posts = [post] ∧ (st.doRelay req tried).reply = none
    | .fanOut posts =>
        (st.doRelay req tried).posts = posts.take tried ∧ (st.doRelay req tried).reply = none := by
  unfold relayPlan doRelay
  cases NodeId.parse req.toId with
  | none => rfl
  | some toId =>
      dsimp only
      cases st.decision toId req.path with
      | deliver =>
          obtain ⟨response, hreply⟩ := deliver_reply st req
          dsimp only
          rw [hreply]
          rfl
      | forward nextUrl nextIdHex =>
          by_cases hloop : req.path.contains nextIdHex = true
          · simp only [if_pos hloop, RelayPlan.refuse]
          · simp only [if_neg hloop, and_self]
      | localMinimum alts =>
          by_cases hnone : alts.isEmpty = true
          · simp only [if_pos hnone, RelayPlan.refuse]
          · simp only [if_neg hnone, RelayPlan.tryPeers, List.map_take, and_self]
      | noRoute error => rfl

end ServerState

/-- What a node of either kind may plan for a request to a target. -/
inductive RelayPlan.Routed (node : Node) (peerUrls : HashMap NodeId String) (target : NodeId)
    (req : RelayRequest) : RelayPlan → Prop
  | arrived (response : Option String) (hself : node.id = target) :
      Routed node peerUrls target req (.reply ⟨true, req.path, none, response⟩)
  | noUrl {nid : NodeId} (error : String) (hself : node.id ≠ target)
      (hhop : nextHop node.id target node.table = .forward nid)
      (hurl : peerUrls.lookup nid = none) :
      Routed node peerUrls target req (.refuse req error)
  | loop {nid : NodeId} (error : String) (hself : node.id ≠ target)
      (hhop : nextHop node.id target node.table = .forward nid)
      (hloop : req.path.contains nid.hex = true) :
      Routed node peerUrls target req (.refuse req error)
  | passed {nid : NodeId} {url : String} (hself : node.id ≠ target)
      (hhop : nextHop node.id target node.table = .forward nid)
      (hurl : peerUrls.lookup nid = some url) (hfresh : ¬ req.path.contains nid.hex = true) :
      Routed node peerUrls target req (.forward (ServerState.passOn req url nid.hex))
  | deadEnd (error : String) (hself : node.id ≠ target)
      (hhop : nextHop node.id target node.table = .localMinimum)
      (hnone : (unvisited peerUrls req.path).isEmpty = true) :
      Routed node peerUrls target req (.refuse req error)
  | fannedOut (hself : node.id ≠ target)
      (hhop : nextHop node.id target node.table = .localMinimum) :
      Routed node peerUrls target req (.tryPeers req (unvisited peerUrls req.path))

namespace AdminState

variable {hexError : String → String} {st : AdminState} {req : RelayRequest} {target : NodeId}

theorem doRelay_unreadable (h : NodeId.parse req.toId = none) :
    ∃ error, st.doRelay hexError req = (.refuse req error, st) := by
  rw [doRelay]
  unfold NodeId.parse at h
  cases hbytes : Hex.decode req.toId with
  | none => exact ⟨_, rfl⟩
  | some bytes =>
      rw [hbytes, Option.bind_eq_bind, Option.bind_some, Option.bind_eq_bind] at h
      dsimp only
      cases harr : Bytes.ofList? 32 bytes with
      | none => exact ⟨_, rfl⟩
      | some arr =>
          rw [harr] at h
          cases h

/-- **What a plain node does with a request**: it routes it, and changes only
at the target. -/
theorem doRelay_routed (h : NodeId.parse req.toId = some target) :
    (st.doRelay hexError req).1.Routed st.node st.peerUrls target req ∧
      (st.node.id ≠ target → (st.doRelay hexError req).2 = st) := by
  unfold NodeId.parse at h
  obtain ⟨bytes, hbytes, hrest⟩ := Option.bind_eq_some_iff.mp h
  obtain ⟨arr, harr, htarget⟩ := Option.bind_eq_some_iff.mp hrest
  obtain rfl := Option.some.inj htarget
  rw [doRelay, hbytes]
  dsimp only
  rw [harr]
  dsimp only
  by_cases hself : st.node.id = ⟨arr⟩
  · rw [if_pos hself]
    exact ⟨.arrived none hself, fun hother => (hother hself).elim⟩
  · rw [if_neg hself]
    have hroute := nextHop_ne_deliver hself st.node.table
    cases hhop : nextHop st.node.id ⟨arr⟩ st.node.table with
    | deliver => exact (hroute hhop).elim
    | localMinimum =>
        dsimp only
        by_cases hnone : (unvisited st.peerUrls req.path).isEmpty = true
        · rw [if_pos hnone]
          exact ⟨.deadEnd _ hself hhop hnone, fun _ => rfl⟩
        · rw [if_neg hnone]
          exact ⟨.fannedOut hself hhop, fun _ => rfl⟩
    | forward nid =>
        dsimp only
        cases hurl : st.peerUrls.lookup nid with
        | none => exact ⟨.noUrl _ hself hhop hurl, fun _ => rfl⟩
        | some url =>
            dsimp only
            by_cases hloop : req.path.contains nid.hex = true
            · rw [if_pos hloop]
              exact ⟨.loop _ hself hhop hloop, fun _ => rfl⟩
            · rw [if_neg hloop]
              exact ⟨.passed hself hhop hurl hloop, fun _ => rfl⟩

end AdminState

/-- **What a server does with a request** that is not for itself: it hands it
to the next hop, or tries its other peers, or gives up, as an admin node does. -/
theorem ServerState.relayPlan_routed {st : ServerState} {req : RelayRequest} {target : NodeId}
    (h : NodeId.parse req.toId = some target) :
    (st.relayPlan req).Routed st.node st.peerUrls target req := by
  rw [relayPlan, h]
  dsimp only
  unfold decision
  by_cases hself : st.node.id = target
  · rw [if_pos hself]
    exact .arrived _ hself
  · rw [if_neg hself]
    have hroute := nextHop_ne_deliver hself st.node.table
    cases hhop : nextHop st.node.id target st.node.table with
    | deliver => exact (hroute hhop).elim
    | localMinimum =>
        dsimp only
        by_cases hnone : (unvisited st.peerUrls req.path).isEmpty = true
        · have hempty := hnone
          unfold unvisited at hempty
          rw [if_pos hempty]
          exact .deadEnd _ hself hhop hnone
        · have hempty := hnone
          unfold unvisited at hempty
          rw [if_neg hempty]
          exact .fannedOut hself hhop
    | forward nid =>
        dsimp only
        cases hurl : st.peerUrls.lookup nid with
        | none => exact .noUrl _ hself hhop hurl
        | some url =>
            dsimp only
            by_cases hloop : req.path.contains nid.hex = true
            · rw [if_pos hloop]
              exact .loop _ hself hhop hloop
            · rw [if_neg hloop]
              exact .passed hself hhop hurl hloop

/-- A request is passed on along the path it took, with one peer more: one
that has a URL and was not visited. -/
def PassedOn (peerUrls : HashMap NodeId String) (req : RelayRequest) (post : Post) : Prop :=
  ∃ id ∈ peerUrls, id.hex ∉ req.path ∧ post.request = { req with path := req.path ++ [id.hex] }

/-- A plan replies along the path of the request, or passes it on to fresh
peers. -/
def RelayPlan.Fits (peerUrls : HashMap NodeId String) (req : RelayRequest) : RelayPlan → Prop
  | .reply response => response.path = req.path
  | .forward post => PassedOn peerUrls req post
  | .fanOut posts => ∀ post ∈ posts, PassedOn peerUrls req post

/-- Every post of a fitting plan passes the request on to a peer in the map
that the request has not visited. -/
theorem RelayPlan.Fits.passedOn {peerUrls : HashMap NodeId String} {req : RelayRequest}
    {plan : RelayPlan} (h : plan.Fits peerUrls req) {post : Post} (hpost : post ∈ plan.posts) :
    PassedOn peerUrls req post := by
  cases plan with
  | reply response => cases hpost
  | forward only =>
      rw [List.mem_singleton.mp hpost]
      exact h
  | fanOut posts => exact h post hpost

/-- A request that is passed on to a fresh peer with a URL carries its path and
one more entry. -/
theorem passedOn_of_lookup {peerUrls : HashMap NodeId String} {req : RelayRequest} {id : NodeId}
    {url : String} (hurl : peerUrls.lookup id = some url)
    (hfresh : ¬ req.path.contains id.hex = true) :
    PassedOn peerUrls req (ServerState.passOn req url id.hex) :=
  ⟨id, HashMap.mem_of_lookup hurl, by simpa using hfresh, rfl⟩

/-- Trying all peers that were not visited yet fits, as the list was filtered
by the path. -/
theorem tryPeers_fits (peerUrls : HashMap NodeId String) (req : RelayRequest) :
    (RelayPlan.tryPeers req (unvisited peerUrls req.path)).Fits peerUrls req := by
  intro post hpost
  obtain ⟨alt, halt, rfl⟩ := List.mem_map.mp hpost
  obtain ⟨e, he, rfl⟩ := List.mem_map.mp halt
  obtain ⟨hentry, hfresh⟩ := List.mem_filter.mp he
  exact passedOn_of_lookup (HashMap.lookup_eq_some.mpr hentry) (by simpa using hfresh)

/-- A plan that follows the table fits: its next hop was looked up in the map
and compared with the path. -/
theorem RelayPlan.Routed.fits {node : Node} {peerUrls : HashMap NodeId String} {target : NodeId}
    {req : RelayRequest} {plan : RelayPlan} (h : plan.Routed node peerUrls target req) :
    plan.Fits peerUrls req := by
  cases h with
  | passed hself hhop hurl hfresh => exact passedOn_of_lookup hurl hfresh
  | fannedOut hself hhop => exact tryPeers_fits peerUrls req
  | _ => rfl

/-- Whatever an admin node does with a request fits its URLs and the path of
the request. -/
theorem AdminState.doRelay_fits (hexError : String → String) (st : AdminState)
    (req : RelayRequest) : (st.doRelay hexError req).1.Fits st.peerUrls req := by
  cases hparse : NodeId.parse req.toId with
  | none =>
      obtain ⟨error, hrun⟩ := @doRelay_unreadable hexError st req hparse
      rw [hrun]
      rfl
  | some target => exact (doRelay_routed hparse).1.fits

/-- Whatever a server does with a request fits its URLs and the path of the
request. -/
theorem ServerState.relayPlan_fits (st : ServerState) (req : RelayRequest) :
    (st.relayPlan req).Fits st.peerUrls req := by
  cases hparse : NodeId.parse req.toId with
  | none =>
      rw [relayPlan, hparse]
      rfl
  | some target => exact (relayPlan_routed hparse).fits

end Zona
