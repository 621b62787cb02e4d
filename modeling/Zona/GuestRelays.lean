import Zona.CurlClients
import Zona.RelayDeliveries

/-!
# Guests of the relay network

A guest posts a request to the nodes it knows, one after the other, and the
network handles it.  The reply says what the destination answered: the handlers
of a server, or nothing at a plain node (`doRelay_guest`).

A guest asks the next node only when the last one could not be reached or its
reply could not be read.  So it hears from one node, the first that answers
(`relaySync_answered`), and what takes effect at the destination is again paid
for by acknowledgements (`guest_deliveries`).
-/

namespace Zona

/-- A request whose answer comes back in the reply. -/
structure RelayRequest.IsGuest (req : RelayRequest) : Prop where
  returnNodeUrl : req.returnNodeUrl = none
  correlationId : req.correlationId = none

/-- What a node answers to the request of a guest that it is the destination of. -/
def RelayNode.answer (req : RelayRequest) : RelayNode → Option String
  | .server st =>
      (answerOf st.handlers ⟨(NodeId.parse req.fromClient).getD NodeId.zero,
        Utf8.encode req.text⟩).map Utf8.ofBytesLossy
  | .admin _ => none

/-- A guest is answered at once: without a URL to return to, the answer of the
handler is put into the reply of the relay itself. -/
theorem ServerState.deliver_guest {st : ServerState} {req : RelayRequest} (h : req.IsGuest) :
    (st.deliver req).reply =
      some ⟨true, req.path, none, (RelayNode.server st).answer req⟩ := by
  have hwaiting : st.waitingCall req = none := by
    rw [waitingCall, h.correlationId, Option.bind_none]
  rw [deliver, hwaiting, RelayNode.answer, answerOf]
  dsimp only
  cases handlerFor st.handlers (Utf8.encode req.text) with
  | none => rfl
  | some handler =>
      dsimp only [Option.bind_some]
      cases handler.handle ⟨(NodeId.parse req.fromClient).getD NodeId.zero,
          Utf8.encode req.text⟩ with
      | none => rfl
      | some bytes =>
          rw [h.returnNodeUrl]
          rfl

/-- What a reply may say: the destination has the request and its answer is in
the reply, or the request was not delivered. -/
inductive RelayRequest.Replied (req : RelayRequest) (n : RelayNode) : RelayResponse → Prop
  | delivered {path : List String} (hdest : NodeId.parse req.toId = some n.node.id) :
      Replied req n ⟨true, path, none, n.answer req⟩
  | refused (path : List String) (error : String) : Replied req n ⟨false, path, some error, none⟩

/-- **The reply of a plain node** that does not relay: it has put the packet
into its inbox, or it says why it has not. -/
theorem AdminState.replied {hexError : String → String} {st : AdminState} {req : RelayRequest}
    {response : RelayResponse} (h : (st.doRelay hexError req).1 = .reply response) :
    req.Replied (.admin st) response := by
  unfold doRelay at h
  cases hbytes : Hex.decode req.toId with
  | none =>
      rw [hbytes] at h
      cases h
      exact .refused _ _
  | some bytes =>
      rw [hbytes] at h
      dsimp only at h
      cases harr : Bytes.ofList? 32 bytes with
      | none =>
          rw [harr] at h
          cases h
          exact .refused _ _
      | some arr =>
          rw [harr] at h
          dsimp only at h
          by_cases hself : st.node.id = ⟨arr⟩
          · rw [if_pos hself] at h
            have hdest : NodeId.parse req.toId = some st.node.id := by
              simp [NodeId.parse, hbytes, harr, hself]
            cases h
            exact @RelayRequest.Replied.delivered req (.admin st) req.path hdest
          · rw [if_neg hself] at h
            have hroute := nextHop_ne_deliver hself st.node.table
            cases hhop : nextHop st.node.id ⟨arr⟩ st.node.table with
            | deliver => exact (hroute hhop).elim
            | forward nid =>
                rw [hhop] at h
                dsimp only at h
                cases hurl : st.peerUrls.lookup nid with
                | none =>
                    rw [hurl] at h
                    cases h
                    exact .refused _ _
                | some url =>
                    rw [hurl] at h
                    dsimp only at h
                    split at h
                    · cases h
                      exact .refused _ _
                    · cases h
            | localMinimum =>
                rw [hhop] at h
                dsimp only at h
                split at h
                · cases h
                  exact .refused _ _
                · cases h

/-- **The reply of a server** to the request of a guest: it is the destination
and has asked its handlers, or it names an error. -/
theorem ServerState.replied {st : ServerState} {req : RelayRequest} {response : RelayResponse}
    (hguest : req.IsGuest) (h : st.relayPlan req = .reply response) :
    req.Replied (.server st) response := by
  unfold relayPlan at h
  cases hparse : NodeId.parse req.toId with
  | none =>
      rw [hparse] at h
      cases h
      exact .refused _ _
  | some target =>
      rw [hparse] at h
      dsimp only at h
      cases hdecision : st.decision target req.path with
      | deliver =>
          rw [hdecision, deliver_guest hguest] at h
          have hself := decision_deliver_iff.mp hdecision
          have hdest : NodeId.parse req.toId = some st.node.id := by rw [hparse, hself]
          cases h
          exact @RelayRequest.Replied.delivered req (.server st) req.path hdest
      | forward nextUrl nextIdHex =>
          rw [hdecision] at h
          dsimp only at h
          split at h
          · cases h
            exact .refused _ _
          · cases h
      | localMinimum alts =>
          rw [hdecision] at h
          dsimp only at h
          split at h
          · cases h
            exact .refused _ _
          · cases h
      | noRoute error =>
          rw [hdecision] at h
          cases h
          exact .refused _ _

/-- The same for either kind of node, when the request is that of a guest: it
took effect here, or the reply names an error. -/
theorem RelayNode.replied {hexError : String → String} {n : RelayNode} {req : RelayRequest}
    {response : RelayResponse} (hguest : req.IsGuest) (h : n.plan hexError req = .reply response) :
    req.Replied n response := by
  cases n with
  | server st => exact ServerState.replied hguest h
  | admin st => exact AdminState.replied h

/-- Neither the path of a request nor the calls that wait at a node matter. -/
theorem RelayRequest.Replied.along {req : RelayRequest} {path : List String} {n : RelayNode}
    {pending : HashMap UInt64 Nat} {response : RelayResponse}
    (h : ({ req with path := path } : RelayRequest).Replied (n.withPending pending) response) :
    req.Replied n response := by
  cases h with
  | @delivered path' hdest =>
      rw [RelayNode.node_withPending] at hdest
      have hanswer : (n.withPending pending).answer { req with path := path } = n.answer req := by
        cases n with
        | server st => rfl
        | admin st => rfl
      rw [hanswer]
      exact .delivered hdest
  | refused path' error => exact .refused _ _

namespace RelayNetwork

variable {κ : Type} {net : RelayNetwork κ} {hexError : String → String}
  {chance : List String → Chance}

/-- A reply that comes through was given by a node. -/
theorem exists_of_send {relay : κ → RelayRequest → Option RelayResponse} {post : Post}
    {response : RelayResponse} (h : net.send chance relay post = some (.ok response)) :
    ∃ k, net.resolve post.url = some k ∧ relay k post.request = some response := by
  unfold send at h
  dsimp only at h
  cases hreach : (if (chance post.request.path).reached then net.resolve post.url else none) with
  | none =>
      rw [hreach] at h
      cases h
  | some k =>
      rw [hreach] at h
      obtain ⟨given, hrelay, hresult⟩ := Option.map_eq_some_iff.mp h
      split at hresult
      · cases hresult
        split at hreach
        · exact ⟨k, hreach, hrelay⟩
        · cases hreach
      · cases hresult

/-- **A rule for replies.**  What holds of the replies of the nodes and of the
reports of lost calls holds of every reply, however deep the calls. -/
theorem reply_rule {P : RelayResponse → Prop} {req : RelayRequest}
    (hown : ∀ k pending path response, ((net.nodes k).withPending pending).plan hexError
      { req with path := path } = .reply response → P response)
    (hlost : ∀ path error, P ⟨false, path, some error, none⟩) {depth : Nat} {k : κ}
    {path : List String} {response : RelayResponse}
    (h : net.doRelay hexError chance depth k { req with path := path } = some response) :
    P response := by
  induction depth generalizing k path response with
  | zero => cases h
  | succ depth ih =>
      rw [doRelay] at h
      have hfits := RelayNode.plan_fits hexError { req with path := path }
        ((net.nodes k).withPending (chance path).pending)
      have hsent : ∀ post ∈ (((net.nodes k).withPending (chance path).pending).plan hexError
          { req with path := path }).posts, ∀ answer,
            net.send chance (net.doRelay hexError chance depth) post = some (.ok answer) →
              P answer := by
        intro post hpost answer hsend
        obtain ⟨next, _, hrelay⟩ := exists_of_send hsend
        obtain ⟨id, _, _, hrequest⟩ := hfits.passedOn hpost
        rw [hrequest] at hrelay
        exact ih hrelay
      cases hplan : ((net.nodes k).withPending (chance path).pending).plan hexError
          { req with path := path } with
      | reply own =>
          rw [hplan] at h
          cases h
          exact hown k _ path _ hplan
      | forward post =>
          rw [hplan] at h hsent
          obtain ⟨result, hsend, hresult⟩ := Option.map_eq_some_iff.mp h
          cases result with
          | ok answer =>
              cases hresult
              exact hsent post List.mem_cons_self _ hsend
          | error e =>
              cases hresult
              exact hlost _ _
      | fanOut posts =>
          rw [hplan] at h hsent
          have htry : ∀ rest : List Post, (∀ post ∈ rest, post ∈ posts) → ∀ last, P last →
              net.tryEach chance (net.doRelay hexError chance depth) last rest = some response →
                P response := by
            intro rest
            induction rest with
            | nil =>
                intro _ last hlast hdone
                cases hdone
                exact hlast
            | cons post rest ihrest =>
                intro hrest last hlast hdone
                have hmore := ihrest fun p hp => hrest p (List.mem_cons_of_mem post hp)
                rw [tryEach] at hdone
                cases hsend : net.send chance (net.doRelay hexError chance depth) post with
                | none =>
                    rw [hsend] at hdone
                    cases hdone
                | some result =>
                    rw [hsend] at hdone
                    cases result with
                    | error e => exact hmore last hlast hdone
                    | ok answer =>
                        have hanswer := hsent post (hrest post List.mem_cons_self) answer hsend
                        dsimp only at hdone
                        split at hdone
                        · cases hdone
                          exact hanswer
                        · exact hmore answer hanswer hdone
          exact htry posts (fun _ hpost => hpost) _ (hlost _ _) h

/-- **A guest is told the truth.**  Whatever the network and the chances, a
reply that says the request was delivered brings the answer of a node that the
request was for. -/
theorem doRelay_guest {depth : Nat} {k : κ} {req : RelayRequest} {response : RelayResponse}
    (hguest : req.IsGuest) (h : net.doRelay hexError chance depth k req = some response) :
    ∃ d, req.Replied (net.nodes d) response := by
  refine @reply_rule κ net hexError chance (fun r => ∃ d, req.Replied (net.nodes d) r) req ?_ ?_
    depth k req.path response h
  · intro k pending path own hplan
    have halong : ({ req with path := path } : RelayRequest).IsGuest :=
      ⟨hguest.returnNodeUrl, hguest.correlationId⟩
    exact ⟨k, (RelayNode.replied halong hplan).along⟩
  · intro path error
    exact ⟨k, .refused path error⟩

end RelayNetwork

namespace Curl

open RelayNetwork

/-- The first post that is answered, and the posts before it. -/
theorem relaySync_answered {relay : Relayer} {req : RelayRequest} {peers : List (String × String)}
    {posts posts' : List Post} {response : RelayResponse}
    (h : relaySync relay req peers posts = (.ok response, posts')) :
    ∃ skipped peer rest, peers = skipped ++ peer :: rest ∧
      posts' = posts ++ (skipped ++ [peer]).map (fun p => ⟨p.2, req⟩) ∧
        relay posts' = .answered response := by
  induction peers generalizing posts with
  | nil => cases h
  | cons peer peers ih =>
      obtain ⟨peerId, peerUrl⟩ := peer
      rw [relaySync] at h
      have hskip : relaySync relay req peers (posts ++ [⟨peerUrl, req⟩]) = (.ok response, posts') →
          ∃ skipped peer rest, (peerId, peerUrl) :: peers = skipped ++ peer :: rest ∧
            posts' = posts ++ (skipped ++ [peer]).map (fun p => ⟨p.2, req⟩) ∧
              relay posts' = .answered response := by
        intro hrest
        obtain ⟨skipped, next, rest, hpeers, hposts, hanswer⟩ := ih hrest
        refine ⟨(peerId, peerUrl) :: skipped, next, rest, by rw [hpeers]; rfl, ?_, hanswer⟩
        rw [hposts, List.append_assoc]
        rfl
      cases hanswer : relay (posts ++ [⟨peerUrl, req⟩]) with
      | failed e =>
          rw [hanswer] at h
          exact hskip h
      | unreadable e =>
          rw [hanswer] at h
          exact hskip h
      | answered given =>
          rw [hanswer] at h
          cases h
          exact ⟨[], (peerId, peerUrl), peers, rfl, rfl, hanswer⟩

end Curl

namespace RelayNetwork

open Curl

variable {κ : Type} (net : RelayNetwork κ) (hexError : String → String)
  (chances : Nat → List String → Chance) (depth : Nat)

/-- A network as guests meet it; each of their posts has its own chances. -/
def relayer : Relayer := fun posts =>
  match posts.getLast? with
  | none => .failed ""
  | some post =>
      let chance := chances posts.length
      match net.send chance (net.doRelay hexError chance depth) post with
      | some (.ok response) => .answered response
      | some (.error e) => .failed e
      | none => .failed ""

/-- `relaySync` in a network, with its record. -/
def relaySyncLog (req : RelayRequest) : List (String × String) → List Post →
    (Except String RelayResponse × List Post) × List (Mark κ)
  | [], posts => ((.error "all peers failed to relay the request", posts), [])
  | (_, peerUrl) :: peers, posts =>
      let posts := posts ++ [⟨peerUrl, req⟩]
      let chance := chances posts.length
      match net.sendLog chance (net.doRelayLog hexError chance depth) ⟨peerUrl, req⟩ with
      | some (.ok response, log) => ((.ok response, posts), log)
      | some (.error _, log) =>
          let later := relaySyncLog req peers posts
          (later.1, log ++ later.2)
      | none => relaySyncLog req peers posts

variable {net hexError chances depth}

/-- An answer comes from a node that handled the request. -/
theorem relayer_answered {posts : List Post} {post : Post} {response : RelayResponse}
    (h : net.relayer hexError chances depth (posts ++ [post]) = .answered response) :
    ∃ chance k, net.resolve post.url = some k ∧
      net.doRelay hexError chance depth k post.request = some response := by
  unfold relayer at h
  rw [List.getLast?_append_cons, List.getLast?_singleton] at h
  dsimp only at h
  split at h
  · next given hsend =>
      cases h
      obtain ⟨k, hresolve, hrelay⟩ := exists_of_send hsend
      exact ⟨_, k, hresolve, hrelay⟩
  · cases h
  · cases h

/-- **The record erases to `relaySync`.**  Leaving the marks out, a relay with
a record posts the same requests and has the same result. -/
theorem relaySyncLog_fst (req : RelayRequest) (peers : List (String × String))
    (posts : List Post) :
    (net.relaySyncLog hexError chances depth req peers posts).1 =
      relaySync (net.relayer hexError chances depth) req peers posts := by
  induction peers generalizing posts with
  | nil => rfl
  | cons peer peers ih =>
      obtain ⟨peerId, peerUrl⟩ := peer
      rw [relaySyncLog, relaySync, relayer, List.getLast?_append_cons, List.getLast?_singleton]
      dsimp only
      generalize posts ++ [Post.mk peerUrl req] = posts'
      have hsend := @sendLog_fst κ net (chances posts'.length) _ _
        (@doRelayLog_fst κ net hexError (chances posts'.length) depth) (Post.mk peerUrl req)
      rw [← hsend]
      cases net.sendLog (chances posts'.length)
          (net.doRelayLog hexError (chances posts'.length) depth) (Post.mk peerUrl req) with
      | none => exact ih posts'
      | some sent =>
          obtain ⟨result, log⟩ := sent
          cases result with
          | ok response => rfl
          | error e => exact ih posts'

/-- The acknowledgement that a guest ends up with. -/
def acksOf : Except String RelayResponse → Nat
  | .ok response => response.ack
  | .error _ => 0

/-- A relay ends with one acknowledgement at most, because it stops at the
first reply that it gets. -/
theorem acksOf_le_one (result : Except String RelayResponse) : acksOf result ≤ 1 := by
  cases result with
  | error e => exact Nat.zero_le 1
  | ok response =>
      have hack : response.ack ≤ 1 := by
        unfold RelayResponse.ack
        split
        · exact Nat.le_refl 1
        · exact Nat.zero_le 1
      exact hack

/-- Books of where the request takes effect: every mark of an effect is made at
the destination, however many hops there were. -/
theorem effects_books (chance : List String → Chance) (toId : String) :
    net.Books hexError chance toId fun log _ =>
      ∀ m ∈ log, ∀ k, m = .effect k → NodeId.parse toId = some (net.idOf k) := by
  refine books_of_marks ?_ ?_
  · intro path k _ _ l heq
    cases heq
  · intro k req pending hto m hm l heq
    rcases mem_marksAt hm with ⟨hmark, htakes⟩ | hmark
    · obtain rfl := Mark.effect.inj (hmark.symm.trans heq)
      have hparse := RelayNode.parse_of_takesEffect htakes
      rw [RelayNode.node_withPending, hto] at hparse
      exact hparse
    · cases hmark.symm.trans heq

/-- Where every reply that comes to be can be read, no acknowledgement is lost. -/
theorem lossless_books {chance : List String → Chance}
    (hkept : ∀ path, (chance path).reached = true → (chance path).readable = true)
    (toId : String) :
    net.Books hexError chance toId fun log _ => ∀ m ∈ log, m.isAckLost = false := by
  refine books_of_marks ?_ ?_
  · intro path k hreached hread
    rw [hkept path hreached] at hread
    cases hread
  · intro k req pending _ m hm
    rcases mem_marksAt hm with ⟨hmark, _⟩ | hmark
    · rw [hmark]
      rfl
    · rw [hmark]
      rfl

/-- **Books are kept** over all the posts of a guest, of which only the last is
acknowledged. -/
theorem relaySyncLog_keeps {Q : List (Mark κ) → Nat → Prop} {req : RelayRequest}
    (hbooks : ∀ n, net.Books hexError (chances n) req.toId Q) (peers : List (String × String))
    (posts : List Post) :
    Q (net.relaySyncLog hexError chances depth req peers posts).2
      (acksOf (net.relaySyncLog hexError chances depth req peers posts).1.1) := by
  induction peers generalizing posts with
  | nil => exact (hbooks 0).nil
  | cons peer peers ih =>
      obtain ⟨peerId, peerUrl⟩ := peer
      rw [relaySyncLog]
      dsimp only
      generalize posts ++ [Post.mk peerUrl req] = posts'
      cases hsend : net.sendLog (chances posts'.length)
          (net.doRelayLog hexError (chances posts'.length) depth) (Post.mk peerUrl req) with
      | none => exact ih posts'
      | some sent =>
          obtain ⟨result, log⟩ := sent
          have hsent := sendLog_keeps (hbooks _) (doRelayLog_keeps (hbooks _) depth) rfl hsend
          cases result with
          | ok response => exact hsent
          | error e =>
              have hall := (hbooks 0).append hsent (ih posts')
              rw [Nat.zero_add] at hall
              exact hall

/-- The peers are asked in their order, and nobody is asked twice: the posts
are a prefix of the list of peers. -/
theorem relaySync_posts (relay : Relayer) (req : RelayRequest) (peers : List (String × String))
    (posts : List Post) :
    ∃ tried, tried <+: peers ∧
      (relaySync relay req peers posts).2 = posts ++ tried.map fun p => ⟨p.2, req⟩ := by
  induction peers generalizing posts with
  | nil => exact ⟨[], List.prefix_refl _, (List.append_nil _).symm⟩
  | cons peer peers ih =>
      obtain ⟨tried, hprefix, hposts⟩ := ih (posts ++ [⟨peer.2, req⟩])
      rw [List.append_assoc] at hposts
      have hskip : peer :: tried <+: peer :: peers := List.cons_prefix_cons.mpr ⟨rfl, hprefix⟩
      rw [relaySync]
      cases relay (posts ++ [⟨peer.2, req⟩]) with
      | failed e => exact ⟨peer :: tried, hskip, hposts⟩
      | unreadable e => exact ⟨peer :: tried, hskip, hposts⟩
      | answered response => exact ⟨[peer], List.cons_prefix_cons.mpr ⟨rfl, List.nil_prefix⟩, rfl⟩

/-- **Deliveries to a guest.**  Whatever the network and the failures, a guest
posts its request to each peer at most once, in their order; the request takes
effect at its destination only, at most once for every acknowledgement that is
lost on its way back and once more if the guest has one in the end.  Where calls
fail only before they are handled, it takes effect at most once. -/
theorem guest_deliveries (net : RelayNetwork κ) (hexError : String → String)
    (chances : Nat → List String → Chance) (depth : Nat) (req : RelayRequest)
    (peers : List (String × String)) :
    ∃ result posts log, net.relaySyncLog hexError chances depth req peers [] =
        ((result, posts), log) ∧
      relaySync (net.relayer hexError chances depth) req peers [] = (result, posts) ∧
        posts <+: peers.map (fun p => ⟨p.2, req⟩) ∧
          (∀ k, .effect k ∈ log → NodeId.parse req.toId = some (net.idOf k)) ∧
            log.countP Mark.isEffect ≤ log.countP Mark.isAckLost + acksOf result ∧
              ((∀ n path, (chances n path).reached = true → (chances n path).readable = true) →
                log.countP Mark.isEffect ≤ 1) := by
  have herase := @relaySyncLog_fst κ net hexError chances depth req peers []
  have hbalanced := @relaySyncLog_keeps κ net hexError chances depth Balanced req
    (fun n => balanced_books req.toId) peers []
  have hplace := @relaySyncLog_keeps κ net hexError chances depth
    (fun log _ => ∀ m ∈ log, ∀ k, m = .effect k → NodeId.parse req.toId = some (net.idOf k)) req
    (fun n => effects_books (chances n) req.toId) peers []
  obtain ⟨tried, hprefix, hposts⟩ :=
    relaySync_posts (net.relayer hexError chances depth) req peers []
  have hlossless : (∀ n path, (chances n path).reached = true →
      (chances n path).readable = true) →
      ∀ m ∈ (net.relaySyncLog hexError chances depth req peers []).2, m.isAckLost = false := by
    intro hkept
    exact @relaySyncLog_keeps κ net hexError chances depth
      (fun log _ => ∀ m ∈ log, m.isAckLost = false) req
      (fun n => lossless_books (hkept n) req.toId) peers []
  cases hrun : net.relaySyncLog hexError chances depth req peers [] with
  | mk outcome log =>
      obtain ⟨result, posts⟩ := outcome
      rw [hrun] at herase hbalanced hplace hlossless
      rw [← herase] at hposts
      dsimp only at herase hbalanced hplace hlossless hposts
      have heffects := hbalanced.effects
      have harrivals := hbalanced.arrivals
      refine ⟨result, posts, log, rfl, herase.symm, ?_, ?_, ?_, ?_⟩
      · rw [hposts]
        exact hprefix.map _
      · intro k hk
        exact hplace _ hk k rfl
      · omega
      · intro hkept
        have hnone : log.countP Mark.isAckLost = 0 := by
          refine List.countP_eq_zero.mpr ?_
          intro m hm
          rw [hlossless hkept m hm]
          exact Bool.false_ne_true
        have hack := acksOf_le_one result
        omega

end RelayNetwork

end Zona
