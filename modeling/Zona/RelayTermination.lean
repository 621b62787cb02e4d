import Zona.AdminNodes
import Zona.LabelledRuns
import Mathlib.Data.Finset.Union
import Mathlib.Data.Fintype.Card

/-!
# Relaying terminates

A request is handled by a tree of calls: each node replies at once, or posts
the request to another node and waits for its reply, or does so with one peer
after the other.  The routes of the network are fixed, but nothing is asked of
them: a URL may lead to the wrong node or to nobody.  What else a call may meet
is a `Chance`, one for each path a request can come along: whether the post
arrives, whether its reply can be read, and which calls wait at a server.

Distances to the target shrink along a greedy hop and not along the others;
the measure is the set of peers that the path has not been through.
`relay_terminates` bounds the depth of the calls by it, and shows that every
request is answered along an extension of its path.
-/

namespace Zona

/-- A node of either kind. -/
inductive RelayNode
  | server (st : ServerState)
  | admin (st : AdminState)

namespace RelayNode

def peerUrls : RelayNode → HashMap NodeId String
  | .server st => st.peerUrls
  | .admin st => st.peerUrls

/-- The node while these calls wait at it; only servers make calls. -/
def withPending (pending : HashMap UInt64 Nat) : RelayNode → RelayNode
  | .server st => .server { st with pending := pending }
  | .admin st => .admin st

/-- What the node does with a request. -/
def plan (hexError : String → String) (req : RelayRequest) : RelayNode → RelayPlan
  | .server st => st.relayPlan req
  | .admin st => (st.doRelay hexError req).1

/-- Whatever a node of either kind does with a request fits its URLs and the
path of the request. -/
theorem plan_fits (hexError : String → String) (req : RelayRequest) (node : RelayNode) :
    (node.plan hexError req).Fits node.peerUrls req := by
  cases node with
  | server st => exact st.relayPlan_fits req
  | admin st => exact st.doRelay_fits hexError req

/-- Calls that wait at a server do not change its URLs. -/
@[simp]
theorem peerUrls_withPending (pending : HashMap UInt64 Nat) (node : RelayNode) :
    (node.withPending pending).peerUrls = node.peerUrls := by
  cases node with
  | _ => rfl

end RelayNode

/-- A network with fixed routes: its nodes, and who listens where. -/
structure RelayNetwork (κ : Type) where
  nodes : κ → RelayNode
  resolve : String → Option κ

/-- What happens to a post and at the node it reaches. -/
structure Chance where
  reached : Bool
  readable : Bool
  error : String
  pending : HashMap UInt64 Nat

namespace RelayNetwork

variable {κ : Type} (net : RelayNetwork κ) (hexError : String → String)
  (chance : List String → Chance)

/-- `http.post(&url).json(&relay).send()` and the reading of the reply, where
`relay` handles a request. -/
def send (relay : κ → RelayRequest → Option RelayResponse) (post : Post) :
    Option (Except String RelayResponse) :=
  let met := chance post.request.path
  match if met.reached then net.resolve post.url else none with
  | none => some (.error met.error)
  | some k =>
      (relay k post.request).map fun response =>
        if met.readable then .ok response else .error met.error

/-- The peers are tried in turn until one of them delivers; without success
the last reply counts. -/
def tryEach (relay : κ → RelayRequest → Option RelayResponse) (last : RelayResponse) :
    List Post → Option RelayResponse
  | [] => some last
  | post :: rest =>
      match net.send chance relay post with
      | none => none
      | some (.error _) => tryEach relay last rest
      | some (.ok response) =>
          if response.delivered then some response else tryEach relay response rest

/-- `do_relay` at one node, where `relay` handles the requests it posts. -/
def follow (relay : κ → RelayRequest → Option RelayResponse) (req : RelayRequest) :
    RelayPlan → Option RelayResponse
  | .reply response => some response
  | .forward post =>
      (net.send chance relay post).map fun result =>
        match result with
        | .ok response => response
        | .error e => ⟨false, post.request.path, some e, none⟩
  | .fanOut posts =>
      net.tryEach chance relay
        ⟨false, req.path, some "local minimum — all alternatives failed", none⟩ posts

/-- `do_relay` through the network; `none` when the calls go deeper than
`depth`. -/
def doRelay : Nat → κ → RelayRequest → Option RelayResponse
  | 0, _, _ => none
  | depth + 1, k, req =>
      net.follow chance (doRelay depth) req
        (((net.nodes k).withPending (chance req.path).pending).plan hexError req)

/-- Handling the first request may post the second. -/
def Calls (a : κ × RelayRequest) (post : Post) (b : κ × RelayRequest) : Prop :=
  post ∈ ((net.nodes a.1).plan hexError a.2).posts ∧
    net.resolve post.url = some b.1 ∧ b.2 = post.request

variable [Fintype κ]

/-- The peers that have a URL anywhere in the network. -/
def ids : Finset NodeId :=
  Finset.univ.biUnion fun k => (net.nodes k).peerUrls.keys.toFinset

/-- The peers that a path has not been through. -/
def fresh (path : List String) : Finset NodeId :=
  net.ids.filter fun id => id.hex ∉ path

/-- Identifiers with a URL are among those of the network, of which there are
finitely many. -/
theorem mem_ids {id : NodeId} {k : κ} (h : id ∈ (net.nodes k).peerUrls) : id ∈ net.ids :=
  Finset.mem_biUnion.mpr ⟨k, Finset.mem_univ k, List.mem_toFinset.mpr (AList.mem_keys.mp h)⟩

/-- **The measure.**  Passing a request on uses up one of the fresh peers,
which are those with a URL that are not on the path. -/
theorem fresh_passedOn {k : κ} {req : RelayRequest} {post : Post}
    (h : PassedOn (net.nodes k).peerUrls req post) :
    (net.fresh post.request.path).card < (net.fresh req.path).card := by
  obtain ⟨id, hurl, hnew, hrequest⟩ := h
  refine Finset.card_lt_card (Finset.ssubset_iff_of_subset ?_ |>.mpr ⟨id, ?_, ?_⟩)
  · intro other hother
    rw [hrequest] at hother
    obtain ⟨hin, hoff⟩ := Finset.mem_filter.mp hother
    exact Finset.mem_filter.mpr ⟨hin, fun hpath => hoff (List.mem_append_left _ hpath)⟩
  · exact Finset.mem_filter.mpr ⟨net.mem_ids hurl, hnew⟩
  · intro hstill
    rw [hrequest] at hstill
    exact (Finset.mem_filter.mp hstill).2 (by simp)

/-- A chain of calls is no longer than the fresh peers at its start. -/
theorem depth_le {a b : κ × RelayRequest} {es : List (Transition (κ × RelayRequest) Post)}
    (run : Trace (net.Calls hexError) a es b) :
    es.length + (net.fresh b.2.path).card ≤ (net.fresh a.2.path).card := by
  induction run with
  | nil => simp
  | @snoc t u i es init last ih =>
      obtain ⟨hpost, _, hrequest⟩ := last
      have hless := net.fresh_passedOn ((RelayNode.plan_fits hexError t.2 _).passedOn hpost)
      rw [← hrequest] at hless
      rw [List.length_append, List.length_singleton]
      omega

/-- The request is answered along an extension of a path. -/
def Answered (path : List String) (result : Option RelayResponse) : Prop :=
  ∃ response, result = some response ∧ path <+: response.path

variable {net hexError chance}

omit [Fintype κ] in
/-- A post is answered or fails, and an answer extends the path of the request,
if every relay behind it answers so. -/
theorem send_answered {relay : κ → RelayRequest → Option RelayResponse} {post : Post}
    (h : ∀ k, Answered post.request.path (relay k post.request)) :
    ∃ result, net.send chance relay post = some result ∧
      ∀ response, result = .ok response → post.request.path <+: response.path := by
  unfold send
  dsimp only
  cases (if (chance post.request.path).reached then net.resolve post.url else none) with
  | none => exact ⟨_, rfl, fun _ hok => nomatch hok⟩
  | some k =>
      obtain ⟨response, hrelay, hpath⟩ := h k
      dsimp only
      rw [hrelay]
      refine ⟨_, rfl, ?_⟩
      intro response' hok
      dsimp only at hok
      by_cases hread : (chance post.request.path).readable = true
      · rw [if_pos hread] at hok
        cases hok
        exact hpath
      · rw [if_neg hread] at hok
        cases hok

omit [Fintype κ] in
/-- Posts to several peers end with an answer that extends the path, or with
the last refusal. -/
theorem tryEach_answered {relay : κ → RelayRequest → Option RelayResponse}
    {path : List String} (posts : List Post)
    (h : ∀ post ∈ posts, path <+: post.request.path ∧
      ∀ k, Answered post.request.path (relay k post.request))
    (last : RelayResponse) (hlast : path <+: last.path) :
    Answered path (net.tryEach chance relay last posts) := by
  induction posts generalizing last with
  | nil => exact ⟨last, rfl, hlast⟩
  | cons post rest ih =>
      obtain ⟨hextends, hanswered⟩ := h post List.mem_cons_self
      have hrest := ih (fun p hp => h p (List.mem_cons_of_mem post hp))
      obtain ⟨result, hsend, hpath⟩ := @send_answered κ net chance relay post hanswered
      rw [tryEach, hsend]
      cases result with
      | error e => exact hrest last hlast
      | ok response =>
          have hresponse := hextends.trans (hpath response rfl)
          dsimp only
          by_cases hdelivered : response.delivered = true
          · rw [if_pos hdelivered]
            exact ⟨response, rfl, hresponse⟩
          · rw [if_neg hdelivered]
            exact hrest response hresponse

/-- A request is answered when the calls may go deeper than there are fresh
peers. -/
theorem doRelay_answered {depth : Nat} {k : κ} {req : RelayRequest}
    (h : (net.fresh req.path).card < depth) :
    Answered req.path (net.doRelay hexError chance depth k req) := by
  induction depth generalizing k req with
  | zero => omega
  | succ depth ih =>
      rw [doRelay]
      have hfits := RelayNode.plan_fits hexError req
        ((net.nodes k).withPending (chance req.path).pending)
      rw [RelayNode.peerUrls_withPending] at hfits
      have hpassed : ∀ post, PassedOn (net.nodes k).peerUrls req post →
          req.path <+: post.request.path ∧
            ∀ k', Answered post.request.path
              (net.doRelay hexError chance depth k' post.request) := by
        intro post hpost
        have hless := net.fresh_passedOn hpost
        obtain ⟨id, _, _, hrequest⟩ := hpost
        refine ⟨?_, fun k' => ih (by omega)⟩
        rw [hrequest]
        exact List.prefix_append _ _
      cases hplan : ((net.nodes k).withPending (chance req.path).pending).plan hexError req with
      | reply response =>
          rw [hplan] at hfits
          exact ⟨response, rfl, hfits ▸ List.prefix_refl _⟩
      | forward post =>
          rw [hplan] at hfits
          obtain ⟨hextends, hanswered⟩ := hpassed post hfits
          obtain ⟨result, hsend, hpath⟩ := @send_answered κ net chance _ post hanswered
          rw [follow, hsend]
          cases result with
          | ok response => exact ⟨response, rfl, hextends.trans (hpath response rfl)⟩
          | error e => exact ⟨_, rfl, hextends⟩
      | fanOut posts =>
          rw [hplan] at hfits
          exact tryEach_answered posts (fun post hpost => hpassed post (hfits post hpost)) _
            (List.prefix_refl _)

/-- The second relay answers whatever the first one does, in the same way. -/
def Covers (relay' relay : κ → RelayRequest → Option RelayResponse) : Prop :=
  ∀ k req response, relay k req = some response → relay' k req = some response

section Depth

variable {relay relay' : κ → RelayRequest → Option RelayResponse}

omit [Fintype κ] in
/-- A deeper relay answers a post as the shallower one did, where that had an
answer. -/
theorem send_covers (h : Covers relay' relay) {post : Post} {result : Except String RelayResponse}
    (hsend : net.send chance relay post = some result) :
    net.send chance relay' post = some result := by
  unfold send at hsend ⊢
  dsimp only at hsend ⊢
  cases hreach : (if (chance post.request.path).reached then net.resolve post.url else none) with
  | none =>
      rw [hreach] at hsend
      exact hsend
  | some k =>
      rw [hreach] at hsend
      obtain ⟨response, hrelay, hresult⟩ := Option.map_eq_some_iff.mp hsend
      exact Option.map_eq_some_iff.mpr ⟨response, h k _ _ hrelay, hresult⟩

omit [Fintype κ] in
/-- A deeper relay answers posts to several peers as the shallower one did. -/
theorem tryEach_covers (h : Covers relay' relay) {posts : List Post} {last response : RelayResponse}
    (htry : net.tryEach chance relay last posts = some response) :
    net.tryEach chance relay' last posts = some response := by
  induction posts generalizing last with
  | nil => exact htry
  | cons post rest ih =>
      rw [tryEach] at htry ⊢
      cases hsend : net.send chance relay post with
      | none =>
          rw [hsend] at htry
          cases htry
      | some result =>
          rw [hsend] at htry
          rw [send_covers h hsend]
          cases result with
          | error e => exact ih htry
          | ok answer =>
              dsimp only at htry ⊢
              by_cases hdelivered : answer.delivered = true
              · rw [if_pos hdelivered] at htry ⊢
                exact htry
              · rw [if_neg hdelivered] at htry ⊢
                exact ih htry

omit [Fintype κ] in
/-- A deeper relay carries out a plan as the shallower one did. -/
theorem follow_covers (h : Covers relay' relay) {req : RelayRequest} {plan : RelayPlan}
    {response : RelayResponse} (hfollow : net.follow chance relay req plan = some response) :
    net.follow chance relay' req plan = some response := by
  cases plan with
  | reply only => exact hfollow
  | forward post =>
      obtain ⟨result, hsend, hresult⟩ := Option.map_eq_some_iff.mp hfollow
      exact Option.map_eq_some_iff.mpr ⟨result, send_covers h hsend, hresult⟩
  | fanOut posts => exact tryEach_covers h hfollow

omit [Fintype κ] in
/-- More depth does not change an answer that there was already, so answers do
not depend on how much depth is allowed. -/
theorem doRelay_covers {d d' : Nat} (h : d ≤ d') :
    Covers (net.doRelay hexError chance d') (net.doRelay hexError chance d) := by
  induction d generalizing d' with
  | zero =>
      intro k req response hnone
      cases hnone
  | succ d ih =>
      obtain ⟨d', rfl⟩ : ∃ m, d' = m + 1 := ⟨d' - 1, by omega⟩
      intro k req response hrelay
      exact follow_covers (ih (by omega)) hrelay

end Depth

/-- **Relaying terminates.**  Whatever the routes, the request and the chances:
a node passes a request on along its path and one peer more, a fresh one among
those with a URL; calls go no deeper than there are such peers; and the request
gets one response, along an extension of its path. -/
theorem relay_terminates (net : RelayNetwork κ) (hexError : String → String)
    (chance : List String → Chance) (k : κ) (req : RelayRequest) :
    (∀ post ∈ ((net.nodes k).plan hexError req).posts, ∃ id ∈ net.ids, id.hex ∉ req.path ∧
        post.request = { req with path := req.path ++ [id.hex] }) ∧
      (∀ es target, Trace (net.Calls hexError) (k, req) es target → es.length ≤ net.ids.card) ∧
      ∃ response, (∀ depth, net.ids.card < depth →
          net.doRelay hexError chance depth k req = some response) ∧
        req.path <+: response.path := by
  have hfresh : (net.fresh req.path).card ≤ net.ids.card :=
    Finset.card_le_card (Finset.filter_subset _ _)
  refine ⟨?_, ?_, ?_⟩
  · intro post hpost
    obtain ⟨id, hurl, hnew, hrequest⟩ := (RelayNode.plan_fits hexError req _).passedOn hpost
    exact ⟨id, net.mem_ids hurl, hnew, hrequest⟩
  · intro es target run
    have hdepth := net.depth_le hexError run
    dsimp only at hdepth
    omega
  · have hanswered : Answered req.path
        (net.doRelay hexError chance (net.ids.card + 1) k req) :=
      doRelay_answered (by omega)
    obtain ⟨response, hrelay, hpath⟩ := hanswered
    refine ⟨response, ?_, hpath⟩
    intro depth hdepth
    exact doRelay_covers (by omega) k req response hrelay

end RelayNetwork

end Zona
