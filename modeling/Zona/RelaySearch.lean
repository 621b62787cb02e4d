import Zona.FreshWalks
import Zona.RelayTermination

/-!
# What relaying finds

Where every URL leads to the node it is listed for and no call fails, handling
a request is a search.  A node that has a peer closer to the destination passes
the request to the closest one and to nobody else; only at a local minimum are
all peers with a URL tried.  So there are two kinds of hop, and `relay_complete`
says that the request is delivered exactly when a chain of such hops leads to
the destination past the nodes on its path.

A chain of peers is not enough: behind a closer peer that is a dead end nothing
is found (`dead_route_not_retried`).
-/

namespace Zona

/-- Different identifiers have different texts, so a path of texts is a path of
nodes. -/
theorem NodeId.hex_injective : Function.Injective NodeId.hex := by
  intro a b h
  have hparse := congrArg NodeId.parse h
  rw [NodeId.parse_hex, NodeId.parse_hex] at hparse
  exact Option.some.inj hparse

/-- A node may pass a request for the target to this peer, at this URL: the
greedy hop, or at a local minimum any peer. -/
def Offers (node : Node) (peerUrls : HashMap NodeId String) (target id : NodeId) (url : String) :
    Prop :=
  peerUrls.lookup id = some url ∧
    (nextHop node.id target node.table = .forward id ∨
      nextHop node.id target node.table = .localMinimum)

namespace RelayPlan

/-- A plan for a request: it is delivered at the target, and anywhere else it
goes to the offered peers that its path has not been through. -/
structure Explores (node : Node) (peerUrls : HashMap NodeId String) (target : NodeId)
    (req : RelayRequest) (plan : RelayPlan) : Prop where
  delivers : (∃ response, plan = .reply response ∧ response.delivered = true) ↔ node.id = target
  posts : ∀ post, post ∈ plan.posts ↔ ∃ id url, Offers node peerUrls target id url ∧
    id.hex ∉ req.path ∧ post = ServerState.passOn req url id.hex

section Explores

variable {node : Node} {peerUrls : HashMap NodeId String} {target : NodeId} {req : RelayRequest}

/-- Nothing is offered at the target, as it keeps the request for itself. -/
theorem not_offers (h : node.id = target) (id : NodeId) (url : String) :
    ¬ Offers node peerUrls target id url := by
  intro ⟨_, hhop⟩
  rw [nextHop, if_pos h] at hhop
  rcases hhop with hhop | hhop <;> cases hhop

/-- At the target a request is explored by delivering it. -/
theorem explores_deliver (h : node.id = target) {response : RelayResponse}
    (hdelivered : response.delivered = true) :
    (RelayPlan.reply response).Explores node peerUrls target req := by
  refine ⟨iff_of_true ⟨response, rfl, hdelivered⟩ h, ?_⟩
  intro post
  refine iff_of_false List.not_mem_nil ?_
  intro ⟨id, url, hoffers, _⟩
  exact not_offers h id url hoffers

/-- A refusal explores the request if every peer on offer was visited before. -/
theorem explores_refuse (h : node.id ≠ target) {error : String}
    (hnone : ∀ id url, Offers node peerUrls target id url → id.hex ∈ req.path) :
    (RelayPlan.refuse req error).Explores node peerUrls target req := by
  refine ⟨iff_of_false ?_ h, ?_⟩
  · intro ⟨response, hreply, hdelivered⟩
    cases hreply
    cases hdelivered
  · intro post
    refine iff_of_false List.not_mem_nil ?_
    intro ⟨id, url, hoffers, hfresh, _⟩
    exact hfresh (hnone id url hoffers)

/-- Only the greedy hop is offered, if there is one. -/
theorem eq_of_offers {id nid : NodeId} {url : String}
    (hhop : nextHop node.id target node.table = .forward nid)
    (h : Offers node peerUrls target id url) : id = nid := by
  rcases h.2 with hforward | hminimum
  · rw [hhop] at hforward
    cases hforward
    rfl
  · rw [hhop] at hminimum
    cases hminimum

/-- The greedy hop has no URL, so nothing is on offer, and a refusal explores
the request. -/
theorem explores_noUrl (h : node.id ≠ target) {nid : NodeId} {error : String}
    (hhop : nextHop node.id target node.table = .forward nid) (hurl : peerUrls.lookup nid = none) :
    (RelayPlan.refuse req error).Explores node peerUrls target req := by
  refine explores_refuse h ?_
  intro id url hoffers
  have hsome := hoffers.1
  rw [eq_of_offers hhop hoffers, hurl] at hsome
  cases hsome

theorem explores_loop (h : node.id ≠ target) {nid : NodeId} {error : String}
    (hhop : nextHop node.id target node.table = .forward nid)
    (hloop : req.path.contains nid.hex = true) :
    (RelayPlan.refuse req error).Explores node peerUrls target req := by
  refine explores_refuse h ?_
  intro id url hoffers
  rw [eq_of_offers hhop hoffers]
  simpa using hloop

/-- The request goes to the greedy hop, which is all that was on offer. -/
theorem explores_forward (h : node.id ≠ target) {nid : NodeId} {url : String}
    (hhop : nextHop node.id target node.table = .forward nid)
    (hurl : peerUrls.lookup nid = some url) (hfresh : ¬ req.path.contains nid.hex = true) :
    (RelayPlan.forward (ServerState.passOn req url nid.hex)).Explores node peerUrls target
      req := by
  refine ⟨iff_of_false ?_ h, ?_⟩
  · intro ⟨response, hreply, _⟩
    cases hreply
  · intro post
    refine List.mem_singleton.trans ⟨?_, ?_⟩
    · intro hpost
      exact ⟨nid, url, ⟨hurl, Or.inl hhop⟩, by simpa using hfresh, hpost⟩
    · intro ⟨id, url', hoffers, _, hpost⟩
      have hid := eq_of_offers hhop hoffers
      have hurl' := hoffers.1
      rw [hid, hurl] at hurl'
      rw [hpost, hid, Option.some.inj hurl']

/-- The peers that are tried at a local minimum are those in the map whose text
is not on the path. -/
theorem mem_unvisited {path : List String} {alt : String × String} :
    alt ∈ unvisited peerUrls path ↔
      ∃ id url, peerUrls.lookup id = some url ∧ id.hex ∉ path ∧ alt = (id.hex, url) := by
  unfold unvisited
  rw [List.mem_map]
  constructor
  · intro ⟨⟨id, url⟩, he, halt⟩
    obtain ⟨hentry, hfresh⟩ := List.mem_filter.mp he
    exact ⟨id, url, HashMap.lookup_eq_some.mpr hentry, by simpa using hfresh, halt.symm⟩
  · intro ⟨id, url, hurl, hfresh, halt⟩
    refine ⟨⟨id, url⟩, List.mem_filter.mpr ⟨HashMap.lookup_eq_some.mp hurl, ?_⟩, halt.symm⟩
    simpa using hfresh

/-- At a local minimum all peers have been visited. -/
theorem explores_deadEnd (h : node.id ≠ target) {error : String}
    (hnone : (unvisited peerUrls req.path).isEmpty = true) :
    (RelayPlan.refuse req error).Explores node peerUrls target req := by
  refine explores_refuse h ?_
  intro id url hoffers
  by_contra hfresh
  have hmem := mem_unvisited.mpr ⟨id, url, hoffers.1, hfresh, rfl⟩
  rw [List.isEmpty_iff.mp hnone] at hmem
  cases hmem

theorem explores_tryPeers (h : node.id ≠ target)
    (hhop : nextHop node.id target node.table = .localMinimum) :
    (RelayPlan.tryPeers req (unvisited peerUrls req.path)).Explores node peerUrls target req := by
  refine ⟨iff_of_false ?_ h, ?_⟩
  · intro ⟨response, hreply, _⟩
    cases hreply
  · intro post
    refine List.mem_map.trans ⟨?_, ?_⟩
    · intro ⟨alt, halt, hpost⟩
      obtain ⟨id, url, hurl, hfresh, rfl⟩ := mem_unvisited.mp halt
      exact ⟨id, url, ⟨hurl, Or.inr hhop⟩, hfresh, hpost.symm⟩
    · intro ⟨id, url, hoffers, hfresh, hpost⟩
      exact ⟨(id.hex, url), mem_unvisited.mpr ⟨id, url, hoffers.1, hfresh, rfl⟩, hpost.symm⟩

/-- **A routed request explores**: whichever branch the node takes, it tries
what is on offer until one has delivered. -/
theorem Routed.explores {plan : RelayPlan} (h : plan.Routed node peerUrls target req) :
    plan.Explores node peerUrls target req := by
  cases h with
  | arrived response hself => exact explores_deliver hself rfl
  | noUrl error hself hhop hurl => exact explores_noUrl hself hhop hurl
  | loop error hself hhop hloop => exact explores_loop hself hhop hloop
  | passed hself hhop hurl hfresh => exact explores_forward hself hhop hurl hfresh
  | deadEnd error hself hhop hnone => exact explores_deadEnd hself hnone
  | fannedOut hself hhop => exact explores_tryPeers hself hhop

end Explores

end RelayPlan

namespace RelayNode

/-- The routing part of a node of either kind. -/
def node : RelayNode → Node
  | .server st => st.node
  | .admin st => st.node

/-- Calls that wait at a server do not change its node. -/
@[simp]
theorem node_withPending (pending : HashMap UInt64 Nat) (n : RelayNode) :
    (n.withPending pending).node = n.node := by
  cases n with
  | _ => rfl

/-- What a node of either kind does with a request. -/
theorem plan_explores (hexError : String → String) {req : RelayRequest} {target : NodeId}
    (h : NodeId.parse req.toId = some target) (n : RelayNode) :
    (n.plan hexError req).Explores n.node n.peerUrls target req := by
  cases n with
  | server st => exact (ServerState.relayPlan_routed h).explores
  | admin st => exact (AdminState.doRelay_routed h).1.explores

end RelayNode

namespace RelayNetwork

open FreshWalk Relation

variable {κ : Type} {net : RelayNetwork κ} {hexError : String → String}
  {chance : List String → Chance} {target : NodeId}

/-- The identifier of a node of the network, and its name on a path. -/
def idOf (net : RelayNetwork κ) (k : κ) : NodeId :=
  (net.nodes k).node.id

def name (net : RelayNetwork κ) (k : κ) : String :=
  (net.idOf k).hex

/-- Different nodes have different identifiers, and every URL leads to the node
it is listed for. -/
structure Correct (net : RelayNetwork κ) : Prop where
  distinct : Function.Injective net.idOf
  urls : ∀ k id url, (net.nodes k).peerUrls.lookup id = some url →
    ∃ v, net.resolve url = some v ∧ net.idOf v = id

/-- Every call goes through. -/
def Reliable (chance : List String → Chance) : Prop :=
  ∀ path, (chance path).reached = true ∧ (chance path).readable = true

/-- A node may pass a request for the target to another one. -/
def Hops (net : RelayNetwork κ) (target : NodeId) (u v : κ) : Prop :=
  ∃ url, Offers (net.nodes u).node (net.nodes u).peerUrls target (net.idOf v) url

/-- In a correct network different nodes have different names on a path. -/
theorem Correct.name_injective (h : net.Correct) : Function.Injective net.name :=
  NodeId.hex_injective.comp h.distinct

/-- **A call is a hop** to a node that the path has not been through. -/
theorem calls_iff (hcorrect : net.Correct) {a b : κ × RelayRequest}
    (hparse : NodeId.parse a.2.toId = some target) :
    (∃ post, net.Calls hexError a post b) ↔
      Avoiding (net.Hops target) net.name a.2.path a.1 b.1 ∧
        b.2 = { a.2 with path := a.2.path ++ [net.name b.1] } := by
  have hexplores := RelayNode.plan_explores hexError hparse (net.nodes a.1)
  constructor
  · intro ⟨post, hpost, hresolve, hrequest⟩
    obtain ⟨id, url, hoffers, hfresh, rfl⟩ := (hexplores.posts post).mp hpost
    obtain ⟨v, hv, hid⟩ := hcorrect.urls a.1 id url hoffers.1
    have hsame : v = b.1 := Option.some.inj (hv.symm.trans hresolve)
    subst hsame
    subst hid
    exact ⟨⟨⟨url, hoffers⟩, hfresh⟩, hrequest⟩
  · intro ⟨⟨⟨url, hoffers⟩, hfresh⟩, hrequest⟩
    obtain ⟨v, hv, hid⟩ := hcorrect.urls a.1 _ url hoffers.1
    have hsame : v = b.1 := hcorrect.distinct hid
    refine ⟨ServerState.passOn a.2 url (net.name b.1),
      (hexplores.posts _).mpr ⟨_, url, hoffers, hfresh, rfl⟩, ?_, hrequest⟩
    rw [← hsame]
    exact hv

/-- The node that a post reaches answers it as delivered. -/
def Accepts (net : RelayNetwork κ) (relay : κ → RelayRequest → Option RelayResponse)
    (post : Post) : Prop :=
  ∃ k response, net.resolve post.url = some k ∧ relay k post.request = some response ∧
    response.delivered = true

section Trying

variable {relay : κ → RelayRequest → Option RelayResponse}

theorem send_cases (hreliable : Reliable chance) {post : Post}
    (hanswered : ∀ k, (relay k post.request).isSome = true) :
    (∃ e, net.send chance relay post = some (.error e) ∧ ¬ net.Accepts relay post) ∨
      ∃ response, net.send chance relay post = some (.ok response) ∧
        (net.Accepts relay post ↔ response.delivered = true) := by
  obtain ⟨hreached, hreadable⟩ := hreliable post.request.path
  unfold send Accepts
  dsimp only
  rw [hreached, hreadable]
  simp only [if_true]
  cases hresolve : net.resolve post.url with
  | none => exact Or.inl ⟨_, rfl, by simp⟩
  | some k =>
      obtain ⟨response, hrelay⟩ := Option.isSome_iff_exists.mp (hanswered k)
      refine Or.inr ⟨response, by simp [hrelay], ?_⟩
      constructor
      · intro ⟨k', response', hk, hresponse, hdelivered⟩
        obtain rfl := Option.some.inj hk
        rw [hrelay] at hresponse
        rw [Option.some.inj hresponse]
        exact hdelivered
      · intro hdelivered
        exact ⟨k, response, rfl, hrelay, hdelivered⟩

/-- **The fan-out** delivers exactly when one of the peers does, since it goes
on after every refusal. -/
theorem tryEach_delivers (hreliable : Reliable chance) (posts : List Post)
    (hanswered : ∀ post ∈ posts, ∀ k, (relay k post.request).isSome = true)
    {last : RelayResponse} (hlast : last.delivered = false) :
    (∃ response, net.tryEach chance relay last posts = some response ∧
        response.delivered = true) ↔ ∃ post ∈ posts, net.Accepts relay post := by
  induction posts generalizing last with
  | nil => simp [tryEach, hlast]
  | cons post rest ih =>
      have hrest := fun {last : RelayResponse} =>
        @ih (fun p hp => hanswered p (List.mem_cons_of_mem post hp)) last
      rw [tryEach, List.exists_mem_cons_iff]
      rcases @send_cases κ net chance relay hreliable post (hanswered post List.mem_cons_self) with
        ⟨e, hsend, hnot⟩ | ⟨response, hsend, hiff⟩
      · rw [hsend, or_iff_right hnot]
        exact hrest hlast
      · rw [hsend, hiff]
        dsimp only
        cases hdelivered : response.delivered with
        | true => simp [hdelivered]
        | false =>
            rw [if_neg Bool.false_ne_true, or_iff_right Bool.false_ne_true]
            exact hrest hdelivered

/-- **Following a plan** delivers exactly when the plan does, or a peer does,
to which it posts. -/
theorem follow_delivers (hreliable : Reliable chance) {req : RelayRequest} {plan : RelayPlan}
    (hanswered : ∀ post ∈ plan.posts, ∀ k, (relay k post.request).isSome = true) :
    (∃ response, net.follow chance relay req plan = some response ∧
        response.delivered = true) ↔
      (∃ response, plan = .reply response ∧ response.delivered = true) ∨
        ∃ post ∈ plan.posts, net.Accepts relay post := by
  cases plan with
  | reply response => simp [follow, RelayPlan.posts]
  | forward post =>
      rw [follow]
      rcases @send_cases κ net chance relay hreliable post
          (hanswered post List.mem_cons_self) with ⟨e, hsend, hnot⟩ | ⟨response, hsend, hiff⟩
      · simp [hsend, RelayPlan.posts, hnot]
      · simp [hsend, RelayPlan.posts, hiff]
  | fanOut posts =>
      rw [follow, tryEach_delivers hreliable posts hanswered rfl]
      simp [RelayPlan.posts]

end Trying

/-- The request is answered as delivered. -/
def Delivers (net : RelayNetwork κ) (hexError : String → String)
    (chance : List String → Chance) (depth : Nat) (k : κ) (req : RelayRequest) : Prop :=
  ∃ response, net.doRelay hexError chance depth k req = some response ∧
    response.delivered = true

variable [Fintype κ]

/-- **One node.**  A request is delivered at its target, and anywhere else by a
node that it may be passed on to. -/
theorem delivers_succ (hcorrect : net.Correct) (hreliable : Reliable chance) {depth : Nat} {k : κ}
    {req : RelayRequest} (hparse : NodeId.parse req.toId = some target)
    (hdepth : (net.fresh req.path).card < depth + 1) :
    net.Delivers hexError chance (depth + 1) k req ↔
      net.idOf k = target ∨ ∃ v, Avoiding (net.Hops target) net.name req.path k v ∧
        net.Delivers hexError chance depth v
          { req with path := req.path ++ [net.name v] } := by
  have hexplores := RelayNode.plan_explores hexError hparse
    ((net.nodes k).withPending (chance req.path).pending)
  have hfits := RelayNode.plan_fits hexError req
    ((net.nodes k).withPending (chance req.path).pending)
  rw [RelayNode.node_withPending, RelayNode.peerUrls_withPending] at hexplores
  rw [RelayNode.peerUrls_withPending] at hfits
  have hanswered : ∀ post ∈ (((net.nodes k).withPending (chance req.path).pending).plan
      hexError req).posts, ∀ k', (net.doRelay hexError chance depth k' post.request).isSome := by
    intro post hpost k'
    have hless := net.fresh_passedOn (hfits.passedOn hpost)
    obtain ⟨response, hresponse, _⟩ :=
      @doRelay_answered κ net hexError chance _ depth k' post.request (by omega)
    rw [hresponse]
    rfl
  unfold Delivers
  rw [doRelay, follow_delivers hreliable hanswered, hexplores.delivers]
  refine or_congr Iff.rfl ?_
  constructor
  · rintro ⟨post, hpost, v, response, hresolve, hrelay, hdelivered⟩
    obtain ⟨id, url, hoffers, hfresh, rfl⟩ := (hexplores.posts post).mp hpost
    obtain ⟨w, hw, rfl⟩ := hcorrect.urls k id url hoffers.1
    have hsame : w = v := Option.some.inj (hw.symm.trans hresolve)
    subst hsame
    exact ⟨w, ⟨⟨url, hoffers⟩, hfresh⟩, response, hrelay, hdelivered⟩
  · rintro ⟨v, ⟨⟨url, hoffers⟩, hfresh⟩, response, hrelay, hdelivered⟩
    obtain ⟨w, hw, hid⟩ := hcorrect.urls k _ url hoffers.1
    have hsame : w = v := hcorrect.distinct hid
    subst hsame
    exact ⟨_, (hexplores.posts _).mpr ⟨_, url, hoffers, hfresh, rfl⟩, w, response, hw, hrelay,
      hdelivered⟩

/-- A hop uses up one of the fresh peers. -/
theorem fresh_hop {k v : κ} {req : RelayRequest}
    (h : Avoiding (net.Hops target) net.name req.path k v) :
    (net.fresh (req.path ++ [net.name v])).card < (net.fresh req.path).card := by
  obtain ⟨⟨url, hoffers⟩, hnew⟩ := h
  have hurl : net.idOf v ∈ (net.nodes k).peerUrls :=
    HashMap.mem_of_lookup hoffers.1
  exact @fresh_passedOn κ net _ k req (ServerState.passOn req url (net.name v))
    ⟨net.idOf v, hurl, hnew, rfl⟩

/-- What is delivered was reached by hops past the path. -/
theorem reach_of_delivers (hcorrect : net.Correct) (hreliable : Reliable chance) {depth : Nat}
    {k : κ} {req : RelayRequest} (hparse : NodeId.parse req.toId = some target)
    (hdepth : (net.fresh req.path).card < depth)
    (h : net.Delivers hexError chance depth k req) :
    ∃ d, net.idOf d = target ∧
      ReflTransGen (Avoiding (net.Hops target) net.name req.path) k d := by
  induction depth generalizing k req with
  | zero => omega
  | succ depth ih =>
      rcases (delivers_succ hcorrect hreliable hparse hdepth).mp h with hhere | ⟨v, hhop, hrest⟩
      · exact ⟨k, hhere, .refl⟩
      · have hless := fresh_hop hhop
        obtain ⟨d, hd, hreach⟩ :=
          @ih v { req with path := req.path ++ [net.name v] } hparse (by dsimp only; omega) hrest
        refine ⟨d, hd, .head hhop ?_⟩
        exact hreach.lift id fun _ _ => Avoiding.mono (List.subset_append_left _ _)

/-- What hops can reach past the path is delivered. -/
theorem delivers_of_reach (hcorrect : net.Correct) (hreliable : Reliable chance) {depth : Nat}
    {k d : κ} {req : RelayRequest} (hparse : NodeId.parse req.toId = some target)
    (hdepth : (net.fresh req.path).card < depth) (hd : net.idOf d = target)
    (hreach : ReflTransGen (Avoiding (net.Hops target) net.name req.path) k d) :
    net.Delivers hexError chance depth k req := by
  have hsearch : ∀ (depth : Nat) (req' : RelayRequest), req'.path = req.path →
      NodeId.parse req'.toId = some target → (net.fresh req'.path).card < depth →
        net.Delivers hexError chance depth k req' := by
    refine explore (motive := fun path u => ∀ (depth : Nat) (req' : RelayRequest),
      req'.path = path → NodeId.parse req'.toId = some target →
        (net.fresh req'.path).card < depth → net.Delivers hexError chance depth u req')
      hcorrect.name_injective ?_ ?_ hreach
    · intro path depth req' _ hparse' hdepth'
      obtain ⟨depth, rfl⟩ : ∃ m, depth = m + 1 := ⟨depth - 1, by omega⟩
      exact (delivers_succ hcorrect hreliable hparse' hdepth').mpr (Or.inl hd)
    · intro path u w hhop ih depth req' hpath hparse' hdepth'
      obtain ⟨depth, rfl⟩ : ∃ m, depth = m + 1 := ⟨depth - 1, by omega⟩
      subst hpath
      have hless := fresh_hop hhop
      refine (delivers_succ hcorrect hreliable hparse' hdepth').mpr (Or.inr ⟨w, hhop, ?_⟩)
      exact ih depth _ rfl hparse' (by dsimp only; omega)
  exact hsearch depth req rfl hparse hdepth

/-- **Relaying is a search.**  In a network with correct URLs and without
failing calls, a request is answered as delivered exactly when a chain of hops
leads from the node that handles it to its destination, past the nodes on its
path.  Hops are to the closest peer where there is a closer one, and to any peer
with a URL at a local minimum. -/
theorem relay_complete (hcorrect : net.Correct) (hreliable : Reliable chance) {depth : Nat}
    {k : κ} {req : RelayRequest} (hparse : NodeId.parse req.toId = some target)
    (hdepth : net.ids.card < depth) :
    (∃ response, net.doRelay hexError chance depth k req = some response ∧
        response.delivered = true) ↔
      ∃ d, net.idOf d = target ∧
        ReflTransGen (fun u v => net.Hops target u v ∧ net.name v ∉ req.path) k d := by
  have hfresh : (net.fresh req.path).card < depth :=
    Nat.lt_of_le_of_lt (Finset.card_le_card (Finset.filter_subset _ _)) hdepth
  constructor
  · exact reach_of_delivers hcorrect hreliable hparse hfresh
  · intro ⟨d, hd, hreach⟩
    exact delivers_of_reach hcorrect hreliable hparse hfresh hd hreach

omit [Fintype κ] in
/-- A request that is refused is never delivered, however deep the calls. -/
theorem not_delivers {d : Nat} {k : κ} {req : RelayRequest} {response : RelayResponse}
    (h : net.doRelay hexError chance d k req = some response)
    (hrefused : response.delivered = false) (depth : Nat) :
    ¬ net.Delivers hexError chance depth k req := by
  intro ⟨response', hrelay, hdelivered⟩
  have hdeep := doRelay_covers (Nat.le_max_left d depth) k req response h
  have hdeep' := doRelay_covers (Nat.le_max_right d depth) k req response' hrelay
  rw [hdeep] at hdeep'
  rw [← Option.some.inj hdeep', hrefused] at hdelivered
  cases hdelivered

/-- The peer is in the table and has a URL. -/
def Linked (net : RelayNetwork κ) (u v : κ) : Prop :=
  net.idOf v ∈ (net.nodes u).node.table.slots.map SlotEntry.peerId ∧
    net.idOf v ∈ (net.nodes u).peerUrls

/-- Every call goes through, and no call waits anywhere. -/
def smooth (_ : List String) : Chance :=
  ⟨true, true, "", ∅⟩

theorem smooth_reliable : Reliable smooth :=
  fun _ => ⟨rfl, rfl⟩

/-- An identifier of equal bytes. -/
def byteId (k : UInt8) : NodeId :=
  ⟨Bytes.replicate 32 k⟩

/-- A plain node with these peers, which listen at their identifiers. -/
def relayWith (id : NodeId) (peers : List NodeId) : RelayNode :=
  .admin
    { node :=
        { Node.sample 1 with
          id := id
          table := peers.foldl (fun table peer => (table.tryInsert (.new .greedy peer peer)).2)
            (PeerTable.new id 8) }
      peerUrls := peers.foldl (fun urls peer => urls.put peer peer.hex) ∅
      selfUrl := id.hex
      inbox := [] }

/-- A network of plain nodes that listen at their identifiers. -/
def plainNetwork {n : Nat} (idOf : Fin n → NodeId) (peers : Fin n → List NodeId) :
    RelayNetwork (Fin n) where
  nodes k := relayWith (idOf k) (peers k)
  resolve url := (List.finRange n).find? fun k => (idOf k).hex = url

/-- The second node is closest to the destination, which is the fourth, and a
dead end; the first one knows also the third, which knows the fourth. -/
def detour : RelayNetwork (Fin 4) :=
  plainNetwork
    (fun k => match k with
      | 0 => byteId 2
      | 1 => byteId 1
      | 2 => byteId 3
      | 3 => byteId 0)
    (fun k => match k with
      | 0 => [byteId 1, byteId 3]
      | 1 => []
      | 2 => [byteId 0]
      | 3 => [])

/-- A request for the destination. -/
def detourRequest : RelayRequest :=
  ⟨(byteId 0).hex, "", "", [], [], none, none⟩

omit [Fintype κ] in
/-- URLs may be checked entry by entry, which is how the examples are checked. -/
theorem correct_of_entries (hdistinct : ∀ u v, net.idOf u = net.idOf v → u = v)
    (hentries : ∀ k, ∀ e ∈ (net.nodes k).peerUrls.entries,
      ∃ v, net.resolve e.2 = some v ∧ net.idOf v = e.1) : net.Correct :=
  ⟨fun u v h => hdistinct u v h,
    fun k id url hurl => hentries k ⟨id, url⟩ (HashMap.lookup_eq_some.mp hurl)⟩

theorem detour_correct : detour.Correct :=
  correct_of_entries (by decide +kernel) (by decide +kernel)

/-- **A dead route is not retried.**  Peers lead from the first node to the
destination, but its closest peer is a dead end, and the request is refused. -/
theorem dead_route_not_retried :
    detour.Correct ∧ Reliable smooth ∧
      NodeId.parse detourRequest.toId = some (detour.idOf 3) ∧
        ReflTransGen (fun u v => detour.Linked u v ∧ detour.name v ∉ detourRequest.path) 0 3 ∧
          ∀ depth, ¬ detour.Delivers id smooth depth 0 detourRequest := by
  refine ⟨detour_correct, smooth_reliable, by decide +kernel, ?_, ?_⟩
  · have hfirst : detour.Linked 0 2 := by
      unfold Linked
      decide +kernel
    have hsecond : detour.Linked 2 3 := by
      unfold Linked
      decide +kernel
    exact .tail (.tail .refl ⟨hfirst, List.not_mem_nil⟩) ⟨hsecond, List.not_mem_nil⟩
  · have hrefused : detour.doRelay id smooth 3 0 detourRequest =
        some ⟨false, [detour.name 1], some "local minimum — dead end", none⟩ := by
      decide +kernel
    exact not_delivers hrefused rfl

/-- From the third node the request is delivered. -/
theorem detour_delivers :
    ∃ response, detour.doRelay id smooth 4 2 detourRequest = some response ∧
      response.delivered = true := by
  have hparse : NodeId.parse detourRequest.toId = some (byteId 0) := by
    decide +kernel
  have hdepth : detour.ids.card < 4 := by
    decide +kernel
  have hhop : detour.Hops (byteId 0) 2 3 := by
    refine ⟨(byteId 0).hex, ?_⟩
    unfold Offers
    decide +kernel
  refine (relay_complete detour_correct smooth_reliable hparse hdepth).mpr ⟨3, rfl, ?_⟩
  exact .single ⟨hhop, List.not_mem_nil⟩

end RelayNetwork

end Zona
