import Zona.RelaySearch

/-!
# How often a request is delivered

Nothing on the way of a request remembers it.  A fan-out that cannot read a
reply goes on to the next peer, and the request may come to its destination
again along another branch.

`doRelayLog` is `doRelay` with a record of what happens at the destination and
of acknowledgements that are lost on their way back.  The books balance: the
request arrives exactly once for every lost acknowledgement, and once more if it
is acknowledged in the end (`deliveries_bounded`).
-/

namespace Zona

/-- What is recorded about a request: a delivery takes effect at a node, the
request arrives at its destination, or the acknowledgement of a node is lost. -/
inductive Mark (κ : Type)
  | effect (k : κ)
  | arrived (k : κ)
  | ackLost (k : κ)
  deriving DecidableEq

namespace Mark

variable {κ : Type}

def isEffect : Mark κ → Bool
  | .effect _ => true
  | _ => false

def isArrived : Mark κ → Bool
  | .arrived _ => true
  | _ => false

def isAckLost : Mark κ → Bool
  | .ackLost _ => true
  | _ => false

end Mark

/-- A plain node keeps only what is addressed to it. -/
theorem AdminState.doRelay_frame {hexError : String → String} {st : AdminState}
    {req : RelayRequest} (h : NodeId.parse req.toId ≠ some st.node.id) :
    (st.doRelay hexError req).2 = st := by
  cases hparse : NodeId.parse req.toId with
  | none =>
      obtain ⟨error, hrun⟩ := @AdminState.doRelay_unreadable hexError st req hparse
      rw [hrun]
  | some target =>
      refine (AdminState.doRelay_routed hparse).2 ?_
      intro hself
      apply h
      rw [hparse, hself]

namespace RelayNode

/-- The delivery takes effect: a handler is called, or the inbox grows. -/
def takesEffect (hexError : String → String) (req : RelayRequest) : RelayNode → Bool
  | .server st => (st.doRelay req 0).dispatched.isSome
  | .admin st => st.inbox.length < (st.doRelay hexError req).2.inbox.length

variable {hexError : String → String} {req : RelayRequest} {n : RelayNode}

theorem parse_of_takesEffect (h : n.takesEffect hexError req = true) :
    NodeId.parse req.toId = some n.node.id := by
  by_contra hother
  cases n with
  | server st =>
      rw [takesEffect, (ServerState.doRelay_of_relay hother).2.2.1] at h
      cases h
  | admin st =>
      rw [takesEffect, AdminState.doRelay_frame hother] at h
      simp at h

/-- What takes effect is acknowledged at the node itself, so only the way back
can lose it. -/
theorem reply_of_takesEffect (h : n.takesEffect hexError req = true) :
    ∃ response, n.plan hexError req = .reply response ∧ response.delivered = true :=
  (n.plan_explores hexError (parse_of_takesEffect h)).delivers.mpr rfl

end RelayNode

/-- An acknowledgement counts one. -/
def RelayResponse.ack (response : RelayResponse) : Nat :=
  if response.delivered then 1 else 0

/-- A response that reports no delivery is no acknowledgement. -/
theorem RelayResponse.ack_of_not {response : RelayResponse} (h : response.delivered = false) :
    response.ack = 0 := by
  rw [ack, h, if_neg Bool.false_ne_true]

/-- The acknowledgement that a plan gives at once. -/
def RelayPlan.acks : RelayPlan → Nat
  | .reply response => response.ack
  | _ => 0

namespace RelayNetwork

variable {κ : Type} (net : RelayNetwork κ) (hexError : String → String)
  (chance : List String → Chance)

/-- `send` with its record. -/
def sendLog (relay : κ → RelayRequest → Option (RelayResponse × List (Mark κ))) (post : Post) :
    Option (Except String RelayResponse × List (Mark κ)) :=
  let met := chance post.request.path
  match if met.reached then net.resolve post.url else none with
  | none => some (.error met.error, [])
  | some k =>
      (relay k post.request).map fun answered =>
        if met.readable then (.ok answered.1, answered.2)
        else (.error met.error,
          answered.2 ++ if answered.1.delivered then [.ackLost k] else [])

/-- `tryEach` with its record. -/
def tryEachLog (relay : κ → RelayRequest → Option (RelayResponse × List (Mark κ)))
    (last : RelayResponse) : List Post → Option (RelayResponse × List (Mark κ))
  | [] => some (last, [])
  | post :: rest =>
      match net.sendLog chance relay post with
      | none => none
      | some (.error _, log) =>
          (tryEachLog relay last rest).map fun tried => (tried.1, log ++ tried.2)
      | some (.ok response, log) =>
          if response.delivered then some (response, log)
          else (tryEachLog relay response rest).map fun tried => (tried.1, log ++ tried.2)

/-- `follow` with its record. -/
def followLog (relay : κ → RelayRequest → Option (RelayResponse × List (Mark κ)))
    (req : RelayRequest) : RelayPlan → Option (RelayResponse × List (Mark κ))
  | .reply response => some (response, [])
  | .forward post =>
      (net.sendLog chance relay post).map fun sent =>
        match sent.1 with
        | .ok response => (response, sent.2)
        | .error e => (⟨false, post.request.path, some e, none⟩, sent.2)
  | .fanOut posts =>
      net.tryEachLog chance relay
        ⟨false, req.path, some "local minimum — all alternatives failed", none⟩ posts

/-- What happens at the node itself. -/
def marksAt (k : κ) (req : RelayRequest) (node : RelayNode) : List (Mark κ) :=
  (if node.takesEffect hexError req then [.effect k] else []) ++
    match node.plan hexError req with
    | .reply response => if response.delivered then [.arrived k] else []
    | _ => []

/-- `doRelay` with its record. -/
def doRelayLog : Nat → κ → RelayRequest → Option (RelayResponse × List (Mark κ))
  | 0, _, _ => none
  | depth + 1, k, req =>
      let node := (net.nodes k).withPending (chance req.path).pending
      (net.followLog chance (doRelayLog depth) req (node.plan hexError req)).map fun followed =>
        (followed.1, marksAt hexError k req node ++ followed.2)

variable {net hexError chance}

section Erasure

variable {relay : κ → RelayRequest → Option RelayResponse}
  {relayLog : κ → RelayRequest → Option (RelayResponse × List (Mark κ))}

/-- The record of one post erases to the post. -/
theorem sendLog_fst (h : ∀ k req, (relayLog k req).map Prod.fst = relay k req) (post : Post) :
    (net.sendLog chance relayLog post).map Prod.fst = net.send chance relay post := by
  unfold sendLog send
  dsimp only
  cases (if (chance post.request.path).reached then net.resolve post.url else none) with
  | none => rfl
  | some k =>
      dsimp only
      rw [← h k post.request, Option.map_map, Option.map_map]
      refine congrArg (fun f => (relayLog k post.request).map f) ?_
      funext answered
      dsimp only [Function.comp]
      split <;> rfl

/-- The record of posts to several peers erases to these posts. -/
theorem tryEachLog_fst (h : ∀ k req, (relayLog k req).map Prod.fst = relay k req)
    (last : RelayResponse) (posts : List Post) :
    (net.tryEachLog chance relayLog last posts).map Prod.fst =
      net.tryEach chance relay last posts := by
  induction posts generalizing last with
  | nil => rfl
  | cons post rest ih =>
      have hsend := @sendLog_fst κ net chance relay relayLog h post
      rw [tryEachLog, tryEach, ← hsend]
      cases net.sendLog chance relayLog post with
      | none => rfl
      | some sent =>
          obtain ⟨result, log⟩ := sent
          cases result with
          | error e =>
              dsimp only [Option.map_some]
              rw [← ih last, Option.map_map]
              rfl
          | ok response =>
              dsimp only [Option.map_some]
              by_cases hdelivered : response.delivered = true
              · rw [if_pos hdelivered, if_pos hdelivered, Option.map_some]
              · rw [if_neg hdelivered, if_neg hdelivered, ← ih response, Option.map_map]
                rfl

/-- The record of carrying out a plan erases to carrying it out. -/
theorem followLog_fst (h : ∀ k req, (relayLog k req).map Prod.fst = relay k req)
    (req : RelayRequest) (plan : RelayPlan) :
    (net.followLog chance relayLog req plan).map Prod.fst = net.follow chance relay req plan := by
  cases plan with
  | reply response => rfl
  | fanOut posts => exact tryEachLog_fst h _ posts
  | forward post =>
      rw [followLog, follow, ← sendLog_fst h post, Option.map_map, Option.map_map]
      refine congrArg (fun f => (net.sendLog chance relayLog post).map f) ?_
      funext sent
      obtain ⟨result, log⟩ := sent
      cases result with
      | _ => rfl

/-- **The record erases to `doRelay`**, at any depth, so what is proved of the
record is true of the relays. -/
theorem doRelayLog_fst (depth : Nat) (k : κ) (req : RelayRequest) :
    (net.doRelayLog hexError chance depth k req).map Prod.fst =
      net.doRelay hexError chance depth k req := by
  induction depth generalizing k req with
  | zero => rfl
  | succ depth ih =>
      rw [doRelayLog, doRelay, Option.map_map, ← followLog_fst ih]
      rfl

end Erasure

/-- The books that may be kept about requests for a destination: what they say
of a record and the acknowledgements to show for it holds of every part. -/
structure Books (net : RelayNetwork κ) (hexError : String → String)
    (chance : List String → Chance) (toId : String) (Q : List (Mark κ) → Nat → Prop) : Prop where
  nil : Q [] 0
  append : ∀ {log log' acks acks'}, Q log acks → Q log' acks' → Q (log ++ log') (acks + acks')
  lose : ∀ {log path} {response : RelayResponse} (k : κ), (chance path).reached = true →
    (chance path).readable = false → Q log response.ack →
      Q (log ++ if response.delivered then [.ackLost k] else []) 0
  marks : ∀ k (req : RelayRequest) pending, req.toId = toId →
    Q (marksAt hexError k req ((net.nodes k).withPending pending))
      (((net.nodes k).withPending pending).plan hexError req).acks

/-- The relay keeps such books. -/
def KeepsBooks (toId : String) (Q : List (Mark κ) → Nat → Prop)
    (relayLog : κ → RelayRequest → Option (RelayResponse × List (Mark κ))) : Prop :=
  ∀ k req response log, req.toId = toId → relayLog k req = some (response, log) →
    Q log response.ack

section Keeping

variable {relayLog : κ → RelayRequest → Option (RelayResponse × List (Mark κ))}
  {Q : List (Mark κ) → Nat → Prop} {toId : String}

/-- Books are kept by one post, whether it is lost, its reply is lost, or it is
answered. -/
theorem sendLog_keeps (hbooks : net.Books hexError chance toId Q)
    (h : KeepsBooks toId Q relayLog) {post : Post} {result : Except String RelayResponse}
    {log : List (Mark κ)} (hto : post.request.toId = toId)
    (hsend : net.sendLog chance relayLog post = some (result, log)) :
    Q log
      (match result with
        | .ok response => response.ack
        | .error _ => 0) := by
  unfold sendLog at hsend
  dsimp only at hsend
  cases hreached : (chance post.request.path).reached with
  | false =>
      rw [hreached, if_neg Bool.false_ne_true] at hsend
      cases hsend
      exact hbooks.nil
  | true =>
      rw [hreached, if_pos rfl] at hsend
      cases hresolve : net.resolve post.url with
      | none =>
          rw [hresolve] at hsend
          cases hsend
          exact hbooks.nil
      | some k =>
          rw [hresolve] at hsend
          obtain ⟨⟨response, inner⟩, hrelay, hresult⟩ := Option.map_eq_some_iff.mp hsend
          have hinner := h k _ response inner hto hrelay
          cases hread : (chance post.request.path).readable with
          | true =>
              rw [hread, if_pos rfl] at hresult
              cases hresult
              exact hinner
          | false =>
              rw [hread, if_neg Bool.false_ne_true] at hresult
              cases hresult
              exact hbooks.lose k hreached hread hinner

/-- Books are kept by posts to several peers, of which only the last can be
acknowledged. -/
theorem tryEachLog_keeps (hbooks : net.Books hexError chance toId Q)
    (h : KeepsBooks toId Q relayLog) {posts : List Post}
    (hto : ∀ post ∈ posts, post.request.toId = toId) {last response : RelayResponse}
    {log : List (Mark κ)} (hlast : last.delivered = false)
    (htry : net.tryEachLog chance relayLog last posts = some (response, log)) :
    Q log response.ack := by
  induction posts generalizing last log with
  | nil =>
      cases htry
      rw [RelayResponse.ack_of_not hlast]
      exact hbooks.nil
  | cons post rest ih =>
      have hrest := fun {last : RelayResponse} {log : List (Mark κ)} =>
        @ih (fun p hp => hto p (List.mem_cons_of_mem post hp)) last log
      rw [tryEachLog] at htry
      cases hsend : net.sendLog chance relayLog post with
      | none =>
          rw [hsend] at htry
          cases htry
      | some sent =>
          obtain ⟨result, sentLog⟩ := sent
          have hsent := sendLog_keeps hbooks h (hto post List.mem_cons_self) hsend
          rw [hsend] at htry
          cases result with
          | error e =>
              obtain ⟨⟨tried, more⟩, hmore, hpair⟩ := Option.map_eq_some_iff.mp htry
              cases hpair
              rw [← Nat.zero_add tried.ack]
              exact hbooks.append hsent (hrest hlast hmore)
          | ok answer =>
              dsimp only at htry hsent
              cases hdelivered : answer.delivered with
              | true =>
                  rw [hdelivered, if_pos rfl] at htry
                  cases htry
                  exact hsent
              | false =>
                  rw [hdelivered, if_neg Bool.false_ne_true] at htry
                  obtain ⟨⟨tried, more⟩, hmore, hpair⟩ := Option.map_eq_some_iff.mp htry
                  cases hpair
                  rw [RelayResponse.ack_of_not hdelivered] at hsent
                  rw [← Nat.zero_add tried.ack]
                  exact hbooks.append hsent (hrest hdelivered hmore)

/-- **Books are kept**, however deep the calls are, by induction on the depth. -/
theorem doRelayLog_keeps (hbooks : net.Books hexError chance toId Q) (depth : Nat) :
    KeepsBooks toId Q (net.doRelayLog hexError chance depth) := by
  induction depth with
  | zero =>
      intro k req response log _ hnone
      cases hnone
  | succ depth ih =>
      intro k req response log hto hrelay
      rw [doRelayLog] at hrelay
      obtain ⟨⟨answer, more⟩, hfollow, hpair⟩ := Option.map_eq_some_iff.mp hrelay
      cases hpair
      have hown := hbooks.marks k req (chance req.path).pending hto
      have hfits := RelayNode.plan_fits hexError req
        ((net.nodes k).withPending (chance req.path).pending)
      have hposts : ∀ post ∈ (((net.nodes k).withPending (chance req.path).pending).plan
          hexError req).posts, post.request.toId = toId := by
        intro post hpost
        obtain ⟨_, _, _, hrequest⟩ := hfits.passedOn hpost
        rw [hrequest]
        exact hto
      cases hplan : ((net.nodes k).withPending (chance req.path).pending).plan hexError req with
      | reply only =>
          rw [hplan] at hfollow hown
          cases hfollow
          exact hbooks.append hown hbooks.nil
      | forward post =>
          rw [hplan] at hfollow hown hposts
          obtain ⟨⟨result, sentLog⟩, hsend, hanswer⟩ := Option.map_eq_some_iff.mp hfollow
          have hsent := sendLog_keeps hbooks ih (hposts post List.mem_cons_self) hsend
          rw [← Nat.zero_add answer.ack]
          refine hbooks.append hown ?_
          cases result with
          | ok response =>
              cases hanswer
              exact hsent
          | error e =>
              cases hanswer
              exact hsent
      | fanOut posts =>
          rw [hplan] at hfollow hown hposts
          rw [← Nat.zero_add answer.ack]
          exact hbooks.append hown (tryEachLog_keeps hbooks ih hposts rfl hfollow)

end Keeping

/-- Every effect is an arrival, and every arrival is a lost acknowledgement or
one of these. -/
structure Balanced (log : List (Mark κ)) (acks : Nat) : Prop where
  effects : log.countP Mark.isEffect ≤ log.countP Mark.isArrived
  arrivals : log.countP Mark.isArrived = log.countP Mark.isAckLost + acks

theorem Balanced.nil : Balanced ([] : List (Mark κ)) 0 :=
  ⟨Nat.le_refl 0, rfl⟩

/-- Balances add up: effects are covered by lost acknowledgements and those
that arrived. -/
theorem Balanced.append {log log' : List (Mark κ)} {acks acks' : Nat} (h : Balanced log acks)
    (h' : Balanced log' acks') : Balanced (log ++ log') (acks + acks') := by
  have heffects := h.effects
  have heffects' := h'.effects
  have harrivals := h.arrivals
  have harrivals' := h'.arrivals
  constructor
  · rw [List.countP_append, List.countP_append]
    omega
  · rw [List.countP_append, List.countP_append]
    omega

/-- An acknowledgement is lost, and a mark says so in its place. -/
theorem Balanced.lose {log : List (Mark κ)} {response : RelayResponse}
    (h : Balanced log response.ack) (k : κ) :
    Balanced (log ++ if response.delivered then [.ackLost k] else []) 0 := by
  have heffects := h.effects
  have harrivals := h.arrivals
  unfold RelayResponse.ack at harrivals
  cases hdelivered : response.delivered with
  | false =>
      rw [hdelivered, if_neg Bool.false_ne_true] at harrivals
      rw [if_neg Bool.false_ne_true, List.append_nil]
      exact ⟨heffects, harrivals⟩
  | true =>
      rw [hdelivered, if_pos rfl] at harrivals
      rw [if_pos rfl]
      constructor
      · rw [List.countP_append, List.countP_append]
        exact Nat.add_le_add heffects (Nat.le_refl 0)
      · rw [List.countP_append, List.countP_append]
        exact harrivals

/-- At the node itself an effect is covered by the acknowledgement in its own
reply. -/
theorem marksAt_balanced (k : κ) (req : RelayRequest) (node : RelayNode) :
    Balanced (marksAt hexError k req node) (node.plan hexError req).acks := by
  unfold marksAt
  cases heffect : node.takesEffect hexError req with
  | true =>
      obtain ⟨response, hplan, hdelivered⟩ := RelayNode.reply_of_takesEffect heffect
      rw [hplan]
      dsimp only [RelayPlan.acks, RelayResponse.ack]
      rw [hdelivered]
      exact ⟨Nat.le_refl 1, rfl⟩
  | false =>
      rw [if_neg Bool.false_ne_true, List.nil_append]
      cases node.plan hexError req with
      | reply response =>
          dsimp only [RelayPlan.acks, RelayResponse.ack]
          cases response.delivered with
          | true => exact ⟨Nat.zero_le 1, rfl⟩
          | false => exact Balanced.nil
      | forward post => exact Balanced.nil
      | fanOut posts => exact Balanced.nil

/-- **The books balance**, whatever the network and the chances: every effect
is acknowledged, or its acknowledgement was lost. -/
theorem balanced_books (toId : String) : net.Books hexError chance toId Balanced :=
  ⟨.nil, .append, fun k _ _ h => h.lose k, fun k req _ _ => marksAt_balanced k req _⟩

theorem books_of_marks {P : Mark κ → Prop} {toId : String}
    (hlost : ∀ path k, (chance path).reached = true → (chance path).readable = false →
      P (.ackLost k))
    (hmarks : ∀ k (req : RelayRequest) pending, req.toId = toId →
      ∀ m ∈ marksAt hexError k req ((net.nodes k).withPending pending), P m) :
    net.Books hexError chance toId fun log _ => ∀ m ∈ log, P m := by
  refine ⟨by simp, ?_, ?_, hmarks⟩
  · intro log log' _ _ h h' m hm
    exact (List.mem_append.mp hm).elim (h m) (h' m)
  · intro log path response k hreached hread h m hm
    rcases List.mem_append.mp hm with hold | hnew
    · exact h m hold
    · split at hnew
      · rw [List.mem_singleton.mp hnew]
        exact hlost path k hreached hread
      · cases hnew

/-- The marks of one node: the effect it took, if it took one, and the arrival
of the request. -/
theorem mem_marksAt {k : κ} {req : RelayRequest} {node : RelayNode} {m : Mark κ}
    (h : m ∈ marksAt hexError k req node) :
    m = .effect k ∧ node.takesEffect hexError req = true ∨ m = .arrived k := by
  unfold marksAt at h
  rcases List.mem_append.mp h with heffect | harrived
  · split at heffect
    · exact Or.inl ⟨List.mem_singleton.mp heffect, ‹_›⟩
    · cases heffect
  · split at harrived
    · split at harrived
      · exact Or.inr (List.mem_singleton.mp harrived)
      · cases harrived
    · cases harrived

/-- Where every reply that comes to be can be read, no acknowledgement is lost. -/
theorem no_ack_lost (hkept : ∀ path, (chance path).reached = true → (chance path).readable = true)
    {depth : Nat} {k : κ} {req : RelayRequest} {response : RelayResponse} {log : List (Mark κ)}
    (h : net.doRelayLog hexError chance depth k req = some (response, log)) :
    log.countP Mark.isAckLost = 0 := by
  have hbooks : net.Books hexError chance req.toId
      fun log _ => ∀ m ∈ log, m.isAckLost = false := by
    refine books_of_marks ?_ ?_
    · intro path _ hreached hread
      rw [hkept path hreached] at hread
      cases hread
    · intro k' req' pending _ m hm
      rcases mem_marksAt hm with ⟨rfl, _⟩ | rfl <;> rfl
  have hall := doRelayLog_keeps hbooks depth k req response log rfl h
  refine List.countP_eq_zero.mpr ?_
  intro m hm
  rw [hall m hm]
  exact Bool.false_ne_true

/-- A delivery takes effect at the destination of the request only. -/
theorem effect_at_destination {depth : Nat} {k k' : κ} {req : RelayRequest}
    {response : RelayResponse} {log : List (Mark κ)}
    (h : net.doRelayLog hexError chance depth k req = some (response, log))
    (heffect : .effect k' ∈ log) : NodeId.parse req.toId = some (net.idOf k') := by
  have hbooks : net.Books hexError chance req.toId fun log _ =>
      ∀ m ∈ log, ∀ l, m = .effect l → NodeId.parse req.toId = some (net.idOf l) := by
    refine books_of_marks ?_ ?_
    · intro path k _ _ l heq
      cases heq
    · intro k req' pending hto m hm l heq
      rcases mem_marksAt hm with ⟨hmark, htakes⟩ | hmark
      · obtain rfl := Mark.effect.inj (hmark.symm.trans heq)
        have hparse := RelayNode.parse_of_takesEffect htakes
        rw [RelayNode.node_withPending, hto] at hparse
        exact hparse
      · cases hmark.symm.trans heq
  exact doRelayLog_keeps hbooks depth k req response log rfl h _ heffect k' rfl

/-- **Deliveries.**  Whatever the network, the request and the failures: the
delivery takes effect at the destination only, at most once for every
acknowledgement that is lost on its way back and once more if the request is
acknowledged.  Where calls fail only before they are handled, it takes effect at
most once. -/
theorem deliveries_bounded [Fintype κ] (k : κ) (req : RelayRequest) {depth : Nat}
    (hdepth : net.ids.card < depth) :
    ∃ response log, net.doRelayLog hexError chance depth k req = some (response, log) ∧
      net.doRelay hexError chance depth k req = some response ∧
        (∀ k', .effect k' ∈ log → NodeId.parse req.toId = some (net.idOf k')) ∧
          log.countP Mark.isEffect ≤ log.countP Mark.isAckLost + response.ack ∧
            ((∀ path, (chance path).reached = true → (chance path).readable = true) →
              log.countP Mark.isEffect ≤ 1) := by
  obtain ⟨_, _, response, hrelay, _⟩ := relay_terminates net hexError chance k req
  have hdone := hrelay depth hdepth
  have herase := @doRelayLog_fst κ net hexError chance depth k req
  rw [hdone] at herase
  obtain ⟨⟨answer, log⟩, hlog, hanswer⟩ := Option.map_eq_some_iff.mp herase
  obtain rfl : answer = response := hanswer
  obtain ⟨heffects, harrivals⟩ :=
    doRelayLog_keeps (balanced_books req.toId) depth k req answer log rfl hlog
  refine ⟨answer, log, hlog, hdone, fun k' => effect_at_destination hlog, by omega, ?_⟩
  intro hkept
  have hnone := no_ack_lost hkept hlog
  have hack : answer.ack ≤ 1 := by
    unfold RelayResponse.ack
    split <;> omega
  omega

/-- The first node is at a local minimum; both its peers know the destination,
which is the fourth. -/
def twoWays : RelayNetwork (Fin 4) :=
  plainNetwork
    (fun k => match k with
      | 0 => byteId 1
      | 1 => byteId 2
      | 2 => byteId 3
      | 3 => byteId 0)
    (fun k => match k with
      | 0 => [byteId 2, byteId 3]
      | 1 => [byteId 0]
      | 2 => [byteId 0]
      | 3 => [])

/-- The reply of the third node to the first one is lost. -/
def replyLost (path : List String) : Chance where
  reached := true
  readable := path ≠ [(byteId 3).hex]
  error := ""
  pending := ∅

/-- **A lost reply doubles the delivery.**  The third node has delivered the
request, and the first one tries its other peer. -/
theorem delivered_twice :
    ∃ response log, twoWays.doRelayLog id replyLost 4 0 detourRequest = some (response, log) ∧
      twoWays.doRelay id replyLost 4 0 detourRequest = some response ∧
        log.count (.effect 3) = 2 := by
  have hlog : twoWays.doRelayLog id replyLost 4 0 detourRequest =
      some (⟨true, [(byteId 2).hex, (byteId 0).hex], none, none⟩,
        [.effect 3, .arrived 3, .ackLost 2, .effect 3, .arrived 3]) := by
    decide +kernel
  refine ⟨_, _, hlog, ?_, rfl⟩
  rw [← doRelayLog_fst, hlog]
  rfl

/-- Where nothing is lost the same request is delivered once. -/
theorem delivered_once :
    ∃ response log, twoWays.doRelayLog id smooth 4 0 detourRequest = some (response, log) ∧
      log.countP Mark.isEffect ≤ 1 := by
  have hdepth : twoWays.ids.card < 4 := by
    decide +kernel
  obtain ⟨response, log, hlog, _, _, _, honce⟩ :=
    @deliveries_bounded _ twoWays id smooth _ 0 detourRequest 4 hdepth
  exact ⟨response, log, hlog, honce fun _ _ => rfl⟩

end RelayNetwork

end Zona
