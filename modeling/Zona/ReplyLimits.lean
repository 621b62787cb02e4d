import Zona.EnvelopeGuards
import Zona.LimiterWindows
import Zona.ProvenPeers
import Zona.UserDataRelays

/-!
# What a node answers within a minute

A node answers pings with pongs and lookups with found peers.  Before it
answers a lookup it asks the limiter, always as for an authenticated peer;
before it answers a ping it asks nobody.

* `countTo_isPong`, `countTo_isFoundNodes` — one envelope: what it is answered
  with;
* `limits_of_trace`, `found_of_trace` — runs: the limiter is the one that was
  asked about the admitted lookups and invites, and a lookup is answered when
  the limiter admits it;
* `reply_limits_iff` — when a peer is answered within the limits.
-/

namespace Zona

namespace MessageKind

def isPing : MessageKind → Bool
  | .ping _ => true
  | _ => false

def isPong : MessageKind → Bool
  | .pong _ => true
  | _ => false

def isFindNode : MessageKind → Bool
  | .findNode _ _ => true
  | _ => false

def isFoundNodes : MessageKind → Bool
  | .foundNodes _ => true
  | _ => false

end MessageKind

namespace Node

/-- How many messages of a kind go to a peer. -/
def countTo (kind : MessageKind → Bool) (peer : NodeId) (out : Outbox) : Nat :=
  out.countP fun sent => sent.1 = peer && kind sent.2.body

/-- Neither a pong nor found peers. -/
def Silent (out : Outbox) : Prop :=
  ∀ sent ∈ out, sent.2.body.isPong = false ∧ sent.2.body.isFoundNodes = false

/-- What is silent contains no reply that is counted. -/
theorem countTo_of_silent {kind : MessageKind → Bool}
    (hkind : kind = MessageKind.isPong ∨ kind = MessageKind.isFoundNodes) {out : Outbox}
    (h : Silent out) (peer : NodeId) : countTo kind peer out = 0 := by
  refine List.countP_eq_zero.mpr ?_
  intro sent hsent hcounted
  have hbody : kind sent.2.body = true := (Bool.and_eq_true_iff.mp hcounted).2
  rcases hkind with rfl | rfl
  · exact Bool.false_ne_true ((h sent hsent).1.symm.trans hbody)
  · exact Bool.false_ne_true ((h sent hsent).2.symm.trans hbody)

theorem countTo_append (kind : MessageKind → Bool) (peer : NodeId) (out out' : Outbox) :
    countTo kind peer (out ++ out') = countTo kind peer out + countTo kind peer out' :=
  List.countP_append

theorem silent_nil : Silent [] :=
  fun _ hsent => nomatch hsent

variable [Crypto]

/-- A reply that is neither a pong nor an answer to a lookup is silent. -/
theorem silent_reply {n : Node} {peer : NodeId} {body : MessageKind}
    (hpong : body.isPong = false) (hfound : body.isFoundNodes = false) :
    Silent (n.reply peer body).out := by
  intro sent hsent
  rw [List.mem_singleton.mp hsent]
  exact ⟨hpong, hfound⟩

/-- A reply counts once for the peer it goes to, if it is of the kind that is
counted. -/
theorem countTo_reply (kind : MessageKind → Bool) (p : NodeId) (n : Node) (peer : NodeId)
    (body : MessageKind) :
    countTo kind p (n.reply peer body).out = if peer = p ∧ kind body then 1 else 0 := by
  have hbody : (n.makeSigned peer body).1.body = body := rfl
  unfold countTo reply
  rw [List.countP_cons, List.countP_nil, hbody, Nat.zero_add]
  simp

/-- A user envelope is forwarded as user data, beside lookups. -/
theorem silent_forwardUserData (n : Node) {env : Envelope} {payload : List UInt8}
    (hbody : env.body = .userData payload) : Silent (n.forwardUserData env).1 := by
  have hcopy : ∀ hop, Silent (n.sendUserHop env hop).1 := by
    intro hop sent hsent
    obtain ⟨_, rfl, hrelayed⟩ := mem_sendUserHop.mp hsent
    rw [hrelayed, relayedCopy, signEnvelope, hbody]
    exact ⟨rfl, rfl⟩
  obtain ⟨repairs, counter, hrepairs, hforward⟩ := forwardUserData_spec n env
  have hlookups : Silent repairs := by
    intro sent hsent
    rw [hrepairs sent hsent]
    exact ⟨rfl, rfl⟩
  rw [hforward]
  cases n.userHop env.toId with
  | none => exact hlookups
  | some hop =>
      intro sent hsent
      rcases List.mem_append.mp hsent with hfirst | hrepair
      · exact hcopy hop sent hfirst
      · exact hlookups sent hrepair

/-- Only pings and lookups are answered with pongs and found peers. -/
theorem dispatch_silent {n : Node} {now : Nat} {peer : NodeId} {env : Envelope}
    (hping : env.body.isPing = false) (hfind : env.body.isFindNode = false) :
    Silent (n.dispatch now peer env).out := by
  unfold dispatch
  cases hkind : env.body with
  | hello d => exact silent_reply rfl rfl
  | ping nonce =>
      rw [hkind] at hping
      cases hping
  | findNode target count =>
      rw [hkind] at hfind
      cases hfind
  | userData payload =>
      by_cases hdest : env.toId = n.id
      · dsimp only
        rw [(handleUserData_taken hdest).1]
        exact silent_nil
      · dsimp only
        rw [handleUserData_forward hdest]
        exact silent_forwardUserData n hkind
  | pong nonce => exact silent_nil
  | foundNodes peers => exact silent_nil
  | pex candidates => exact silent_nil
  | announceDescriptor d => exact silent_nil
  | invite token => exact silent_nil

/-- **Pongs** answer the pings that pass the signature check, each of them
once, and no limiter is asked. -/
theorem countTo_isPong (p : NodeId) (n : Node) (now : Nat) (peer : NodeId) (env : Envelope) :
    countTo MessageKind.isPong p (n.handleEnvelope now peer env).out =
      if (peer = p ∧ env.body.isPing) ∧ n.admits peer env then 1 else 0 := by
  cases hadmits : n.admits peer env with
  | false =>
      rw [handleEnvelope_refused hadmits]
      simp [countTo]
  | true =>
      rw [handleEnvelope_admitted hadmits]
      cases hkind : env.body with
      | ping nonce =>
          have hhandled : n.dispatch now peer env = n.reply peer (.pong nonce) := by
            simp only [dispatch, hkind, handlePing]
          rw [hhandled, countTo_reply]
          simp [MessageKind.isPing, MessageKind.isPong]
      | findNode target count =>
          have hhandled : n.dispatch now peer env = n.handleFindNode now peer target count := by
            simp only [dispatch, hkind]
          obtain ⟨_, checked, _, hdropped | hanswered⟩ :=
            handleFindNode_cases n now peer target count
          · rw [hhandled, hdropped]
            simp [countTo, MessageKind.isPing]
          · rw [hhandled, hanswered, countTo_reply]
            simp [MessageKind.isPing, MessageKind.isPong]
      | _ =>
          have hsilent : Silent (n.dispatch now peer env).out :=
            dispatch_silent (by rw [hkind]; rfl) (by rw [hkind]; rfl)
          rw [countTo_of_silent (Or.inl rfl) hsilent]
          simp [MessageKind.isPing]

/-- **Found peers** answer the lookups that pass the signature check and that
the limiter admits. -/
theorem countTo_isFoundNodes (p : NodeId) (n : Node) (now : Nat) (peer : NodeId)
    (env : Envelope) :
    countTo MessageKind.isFoundNodes p (n.handleEnvelope now peer env).out =
      if ((peer = p ∧ env.body.isFindNode) ∧ n.admits peer env) ∧
        (n.limits.checkFind peer true now).1.isOk then 1 else 0 := by
  cases hadmits : n.admits peer env with
  | false =>
      rw [handleEnvelope_refused hadmits]
      simp [countTo]
  | true =>
      rw [handleEnvelope_admitted hadmits]
      cases hkind : env.body with
      | ping nonce =>
          have hhandled : n.dispatch now peer env = n.reply peer (.pong nonce) := by
            simp only [dispatch, hkind, handlePing]
          rw [hhandled, countTo_reply]
          simp [MessageKind.isFindNode, MessageKind.isFoundNodes]
      | findNode target count =>
          have hhandled : n.dispatch now peer env = n.handleFindNode now peer target count := by
            simp only [dispatch, hkind]
          rw [hhandled, handleFindNode]
          rcases n.limits.checkFind peer true now with ⟨verdict, limits⟩
          cases verdict with
          | error e => simp [countTo, Except.isOk, Except.toBool]
          | ok u =>
              dsimp only
              rw [countTo_reply]
              simp [MessageKind.isFindNode, MessageKind.isFoundNodes, Except.isOk,
                Except.toBool]
      | _ =>
          have hsilent : Silent (n.dispatch now peer env).out :=
            dispatch_silent (by rw [hkind]; rfl) (by rw [hkind]; rfl)
          rw [countTo_of_silent (Or.inr rfl) hsilent]
          simp [MessageKind.isFindNode]

/-- What handling an envelope asks the limiter. -/
def limitCalls (n : Node) (now : Nat) (peer : NodeId) (env : Envelope) : List LimitCall :=
  if n.admits peer env then
    match env.body with
    | .findNode _ _ => [⟨.find true, peer, now⟩]
    | .invite _ => [⟨.invite, peer, now⟩]
    | _ => []
  else []

/-- A lookup that passes the signature check is asked about. -/
theorem length_concerning_limitCalls (p : NodeId) (n : Node) (now : Nat) (peer : NodeId)
    (env : Envelope) :
    (RateLimiter.concerning .find p (n.limitCalls now peer env)).length =
      if (peer = p ∧ env.body.isFindNode) ∧ n.admits peer env then 1 else 0 := by
  unfold limitCalls
  cases n.admits peer env with
  | false => simp [RateLimiter.concerning]
  | true =>
      cases env.body with
      | findNode target count =>
          by_cases hpeer : peer = p
          · simp [RateLimiter.concerning, LimitCall.Concerns, LimitOp.kind,
              MessageKind.isFindNode, hpeer]
          · simp [RateLimiter.concerning, LimitCall.Concerns, hpeer]
      | _ => simp [RateLimiter.concerning, LimitCall.Concerns, LimitOp.kind,
          MessageKind.isFindNode]

/-- A lookup is answered when the limiter admits it. -/
theorem countTo_isFoundNodes_eq_length (p : NodeId) (n : Node) (now : Nat) (peer : NodeId)
    (env : Envelope) :
    countTo MessageKind.isFoundNodes p (n.handleEnvelope now peer env).out =
      (RateLimiter.concerning .find p
        (n.limits.admittedCalls (n.limitCalls now peer env))).length := by
  rw [countTo_isFoundNodes]
  unfold limitCalls
  cases n.admits peer env with
  | false => simp [RateLimiter.concerning, RateLimiter.admittedCalls]
  | true =>
      cases env.body with
      | findNode target count =>
          have hcheck : n.limits.check ⟨.find true, peer, now⟩ =
              n.limits.checkFind peer true now := rfl
          rw [if_pos rfl, RateLimiter.length_concerning_admittedCalls_singleton, hcheck]
          simp [LimitCall.Concerns, LimitOp.kind, MessageKind.isFindNode]
      | invite token =>
          rw [if_pos rfl, RateLimiter.length_concerning_admittedCalls_singleton]
          simp [LimitCall.Concerns, LimitOp.kind, MessageKind.isFindNode]
      | _ => simp [RateLimiter.concerning, RateLimiter.admittedCalls, MessageKind.isFindNode]

/-- **The limiter** after an envelope is the one that was asked: lookups and
invites ask it once, and nothing else does. -/
theorem handleEnvelope_limits (n : Node) (now : Nat) (peer : NodeId) (env : Envelope) :
    (n.handleEnvelope now peer env).node.limits =
      n.limits.after (n.limitCalls now peer env) := by
  unfold limitCalls
  cases hadmits : n.admits peer env with
  | false =>
      rw [handleEnvelope_refused hadmits]
      rfl
  | true =>
      rw [handleEnvelope_admitted hadmits, if_pos rfl]
      unfold dispatch
      cases hkind : env.body with
      | hello d =>
          dsimp only
          unfold handleHello
          rcases n.store.upsert d none with ⟨verdict, store⟩
          cases verdict with
          | _ => rfl
      | findNode target count =>
          have hafter : n.limits.after [⟨.find true, peer, now⟩] =
              (n.limits.checkFind peer true now).2 := rfl
          dsimp only
          rw [hafter]
          unfold handleFindNode
          rcases n.limits.checkFind peer true now with ⟨verdict, limits⟩
          cases verdict with
          | _ => rfl
      | foundNodes peers =>
          obtain ⟨store, table, hfold⟩ := foldl_integrate_frame peers n
          dsimp only
          rw [handleFoundNodes, hfold]
          rfl
      | userData payload =>
          obtain ⟨counter, metrics, hnode⟩ := handleUserData_frame n env payload
          dsimp only
          rw [hnode]
          rfl
      | _ => rfl

/-- What a call is answered with. -/
def answers (e : Transition Node Call) : Outbox :=
  match e.label with
  | .handleEnvelope now peer env => (e.before.handleEnvelope now peer env).out
  | _ => []

/-- What a call asks the limiter. -/
def asks (e : Transition Node Call) : List LimitCall :=
  match e.label with
  | .handleEnvelope now peer env => e.before.limitCalls now peer env
  | _ => []

/-- A message of the peer arrives that passes the signature check. -/
def receives (kind : MessageKind → Bool) (peer : NodeId) (e : Transition Node Call) : Bool :=
  match e.label with
  | .handleEnvelope _ sender env => (sender = peer && kind env.body) && e.before.admits sender env
  | _ => false

/-- An unsigned lookup of the peer arrives. -/
def receivesUnsignedLookup (peer : NodeId) (e : Transition Node Call) : Bool :=
  match e.label with
  | .handleEnvelope _ sender env =>
      (sender = peer && env.body.isFindNode) && env.signature = []
  | _ => false

/-- The peer never sends a message with a valid signature. -/
def NeverSigns (peer : NodeId) (es : List (Transition Node Call)) : Prop :=
  ∀ e ∈ es, ∀ now env, e.label = .handleEnvelope now peer env →
    ∀ key, deriveNodeId key = peer → ¬ env.AuthenticBy key

/-- Pongs are as many as the pings, as no limiter is asked before a pong is
sent. -/
theorem pongs_of_run (peer : NodeId) (es : List (Transition Node Call)) :
    countTo MessageKind.isPong peer (es.flatMap answers) =
      es.countP (receives MessageKind.isPing peer) := by
  induction es with
  | nil => rfl
  | cons e rest ih =>
      rw [List.flatMap_cons, countTo_append, List.countP_cons, ih, Nat.add_comm]
      refine congrArg _ ?_
      unfold answers receives
      cases e.label with
      | handleEnvelope now sender env =>
          dsimp only
          rw [countTo_isPong]
          simp
      | _ => rfl

/-- The limiter is asked about the lookups that pass the signature check. -/
theorem lookups_of_run (peer : NodeId) (es : List (Transition Node Call)) :
    (RateLimiter.concerning .find peer (es.flatMap asks)).length =
      es.countP (receives MessageKind.isFindNode peer) := by
  induction es with
  | nil => rfl
  | cons e rest ih =>
      rw [List.flatMap_cons, RateLimiter.concerning_append, List.length_append,
        List.countP_cons, ih, Nat.add_comm]
      refine congrArg _ ?_
      unfold asks receives
      cases e.label with
      | handleEnvelope now sender env =>
          dsimp only
          rw [length_concerning_limitCalls]
          simp
      | _ => rfl

/-- The limiter is asked when an envelope is handled, and only about lookups as
of an authenticated peer and about invites. -/
theorem mem_asks {e : Transition Node Call} {call : LimitCall} (h : call ∈ asks e) :
    ∃ peer env, e.label = .handleEnvelope call.now peer env ∧
      (call.op = .find true ∨ call.op = .invite) := by
  unfold asks at h
  cases hlabel : e.label with
  | handleEnvelope now peer env =>
      rw [hlabel] at h
      dsimp only at h
      unfold limitCalls at h
      split at h
      · split at h
        · rw [List.mem_singleton.mp h]
          exact ⟨peer, env, rfl, Or.inl rfl⟩
        · rw [List.mem_singleton.mp h]
          exact ⟨peer, env, rfl, Or.inr rfl⟩
        · cases h
      · cases h
  | _ =>
      rw [hlabel] at h
      cases h

/-- The limiter moves with the envelopes only, and each of them asks it at most
once. -/
theorem limits_step {n m : Node} {call : Call} (hstep : n.Step call m) :
    m.limits = n.limits.after (asks ⟨n, call, m⟩) := by
  cases call with
  | handleEnvelope now peer env =>
      rw [Step, perform] at hstep
      rw [hstep]
      exact handleEnvelope_limits n now peer env
  | host table store =>
      rw [Step, perform] at hstep
      rw [hstep]
      rfl
  | _ =>
      rcases step_cases hstep with
        ⟨now, peer, env, hcall, _⟩ | ⟨table, store, hcall, _⟩ | ⟨_, counter, metrics, hnode⟩
      · cases hcall
      · cases hcall
      · rw [hnode]
        rfl

/-- **The limiter after a run** is the one that was asked, in the order of the
envelopes of the run. -/
theorem limits_of_trace {n m : Node} {es : List (Transition Node Call)}
    (run : Trace Step n es m) : m.limits = n.limits.after (es.flatMap asks) := by
  induction run with
  | nil => rfl
  | snoc init last ih =>
      rw [List.flatMap_append, RateLimiter.after_append, ← ih, List.flatMap_singleton]
      exact limits_step last

/-- **Found peers are as many as the lookups that the limiter admits**, so a
bound on admitted calls is a bound on answers. -/
theorem found_of_trace {n m : Node} {es : List (Transition Node Call)}
    (run : Trace Step n es m) (peer : NodeId) :
    countTo MessageKind.isFoundNodes peer (es.flatMap answers) =
      (RateLimiter.concerning .find peer (n.limits.admittedCalls (es.flatMap asks))).length := by
  induction run with
  | nil => rfl
  | @snoc t u call es init last ih =>
      rw [List.flatMap_append, countTo_append, ih, List.flatMap_append,
        RateLimiter.admittedCalls_append, RateLimiter.concerning_append, List.length_append,
        ← limits_of_trace init, List.flatMap_singleton, List.flatMap_singleton]
      refine congrArg _ ?_
      unfold answers asks
      cases call with
      | handleEnvelope now sender env => exact countTo_isFoundNodes_eq_length peer t now sender env
      | _ => rfl

/-- The lookups of a peer that never signs pass the signature check when they
are unsigned. -/
theorem receives_lookup_of_neverSigns {peer : NodeId} {e : Transition Node Call}
    (hstore : e.before.store.Authentic) (hnever : NeverSigns peer [e]) :
    receives MessageKind.isFindNode peer e = receivesUnsignedLookup peer e := by
  unfold receives receivesUnsignedLookup
  cases hlabel : e.label with
  | handleEnvelope now sender env =>
      dsimp only
      by_cases hlookup : sender = peer ∧ env.body.isFindNode = true
      · obtain ⟨rfl, hfind⟩ := hlookup
        have hadmits : e.before.admits sender env = true ↔ env.signature = [] := by
          rw [admits_iff]
          refine ⟨?_, Or.inl⟩
          rintro (hunsigned | ⟨cached, hget, hvalid⟩ | ⟨_, hhello⟩)
          · exact hunsigned
          · obtain ⟨hid, hverify⟩ := hstore sender cached hget
            have hkey := (verifyDescriptor_ok.mp hverify).1.trans hid
            exact absurd hvalid (hnever e (by simp) now env hlabel _ hkey)
          · cases hbody : env.body with
            | _ => simp [hbody, MessageKind.isHello, MessageKind.isFindNode] at hhello hfind
        rw [Bool.eq_iff_iff]
        simp [hadmits]
      · have hother : (decide (sender = peer) && env.body.isFindNode) = false := by
          simpa using hlookup
        rw [hother]
        rfl
  | _ => rfl

/-- All lookups received from a peer that never signs are unsigned ones, so
counting the one kind is counting the other. -/
theorem countP_lookups_of_neverSigns {peer : NodeId} {keypair : NodeKeypair}
    {config : NodeConfig} {n m : Node} {pre es : List (Transition Node Call)}
    (run : Trace Step (Node.new keypair config) pre n) (window : Trace Step n es m)
    (hcalls : ∀ e ∈ pre ++ es, e.label.IsOperation) (hnever : NeverSigns peer (pre ++ es)) :
    es.countP (receives MessageKind.isFindNode peer) =
      es.countP (receivesUnsignedLookup peer) := by
  refine List.countP_congr ?_
  intro e he
  obtain ⟨front, back, hsplit⟩ := List.append_of_mem he
  have hbefore : Trace Step (Node.new keypair config) (pre ++ front) e.before := by
    rw [hsplit] at window
    exact run.append window.cut.1
  have hstore : e.before.store.Authentic := by
    refine authentic_of_run hbefore fun e' he' => hcalls e' ?_
    rw [hsplit, ← List.append_assoc]
    exact List.mem_append_left _ he'
  have hone : NeverSigns peer [e] := by
    intro e' he'
    rw [List.mem_singleton.mp he']
    exact hnever e (List.mem_append_right _ he)
  rw [receives_lookup_of_neverSigns hstore hone]

/-- No window of the peer's lookup bucket is running at `start`. -/
def LookupWindow (n : Node) (peer : NodeId) (start : Nat) : Prop :=
  ∀ bucket, n.limits.bucketOf .find peer = some bucket →
    seconds 60 ≤ start - bucket.windowStart

/-- The calls with a time are those of the minute that begins at `start`. -/
def WithinMinute (start : Nat) (es : List (Transition Node Call)) : Prop :=
  ∀ e ∈ es, ∀ now peer env, e.label = .handleEnvelope now peer env →
    start ≤ now ∧ now < start + seconds 60

/-- What the node may send a peer in the minute that begins at `start`: the
limits on found peers are about the windows of the peer's lookup bucket. -/
structure KeepsReplyLimits (n : Node) (pre es : List (Transition Node Call)) (peer : NodeId)
    (start : Nat) : Prop where
  pongs : countTo MessageKind.isPong peer (es.flatMap answers) ≤ 120
  found : n.LookupWindow peer start →
    countTo MessageKind.isFoundNodes peer (es.flatMap answers) ≤ 60
  stranger : n.LookupWindow peer start → NeverSigns peer (pre ++ es) →
    countTo MessageKind.isFoundNodes peer (es.flatMap answers) ≤ 10

/-- In a window of the lookup bucket the first sixty lookups are answered. -/
theorem found_in_window {keypair : NodeKeypair} {config : NodeConfig} {n m : Node}
    {pre es : List (Transition Node Call)} {peer : NodeId} {start : Nat}
    (run : Trace Step (Node.new keypair config) pre n) (window : Trace Step n es m)
    (hminute : WithinMinute start es) (hopen : n.LookupWindow peer start) :
    countTo MessageKind.isFoundNodes peer (es.flatMap answers) =
      min 60 (es.countP (receives MessageKind.isFindNode peer)) := by
  have hlimits : n.limits = RateLimiter.new.after (pre.flatMap asks) := limits_of_trace run
  have hinside : ∀ call ∈ RateLimiter.concerning .find peer (es.flatMap asks),
      start ≤ call.now ∧ call.now < start + LimitKind.find.window := by
    intro call hcall
    obtain ⟨e, he, hasked⟩ := List.mem_flatMap.mp (List.mem_of_mem_filter hcall)
    obtain ⟨sender, env, hlabel, _⟩ := mem_asks hasked
    exact hminute e he call.now sender env hlabel
  have hsame : ∀ call ∈ pre.flatMap asks ++ es.flatMap asks,
      call.Concerns .find peer → call.op = .find true := by
    intro call hcall hconcerns
    rw [← List.flatMap_append] at hcall
    obtain ⟨e, _, hasked⟩ := List.mem_flatMap.mp hcall
    obtain ⟨_, _, _, hfind | hinvite⟩ := mem_asks hasked
    · exact hfind
    · rw [LimitCall.Concerns, hinvite] at hconcerns
      exact LimitKind.noConfusion hconcerns.1
  obtain ⟨first, hone⟩ := RateLimiter.oneWindow_of_interval hopen hinside
  rw [hlimits] at hone
  rw [found_of_trace window, hlimits, ← lookups_of_run]
  exact @RateLimiter.length_admittedCalls_in_window peer _ _ first (.find true) hone hsame

/-- **Answers within the limits.**  In every minute of every run, a peer is
answered within the limits exactly when no more than 120 of its pings pass the
signature check and, unless it ever signed a message, no more than ten of its
lookups are unsigned. -/
theorem reply_limits_iff {keypair : NodeKeypair} {config : NodeConfig} {n m : Node}
    {pre es : List (Transition Node Call)} {peer : NodeId} {start : Nat}
    (run : Trace Step (Node.new keypair config) pre n) (window : Trace Step n es m)
    (hcalls : ∀ e ∈ pre ++ es, e.label.IsOperation) (hminute : WithinMinute start es) :
    n.KeepsReplyLimits pre es peer start ↔
      es.countP (receives MessageKind.isPing peer) ≤ 120 ∧
        (n.LookupWindow peer start → NeverSigns peer (pre ++ es) →
          es.countP (receivesUnsignedLookup peer) ≤ 10) := by
  have hpongs := pongs_of_run peer es
  constructor
  · intro hkeeps
    refine ⟨hpongs ▸ hkeeps.pongs, ?_⟩
    intro hopen hnever
    have hfew := hkeeps.stranger hopen hnever
    rw [found_in_window run window hminute hopen] at hfew
    rw [← countP_lookups_of_neverSigns run window hcalls hnever]
    omega
  · rintro ⟨hpings, hlookups⟩
    refine ⟨hpongs ▸ hpings, ?_, ?_⟩
    · intro hopen
      rw [found_in_window run window hminute hopen]
      exact Nat.min_le_left 60 _
    · intro hopen hnever
      rw [found_in_window run window hminute hopen,
        countP_lookups_of_neverSigns run window hcalls hnever]
      exact Nat.le_trans (Nat.min_le_right 60 _) (hlookups hopen hnever)

end Node

/-- The run of the seventh sample node that handles one unsigned envelope of the
eighth again and again, at one instant. -/
def floodRun (body : MessageKind) (k : Nat) : List (Transition Node Node.Call) :=
  Trace.record (@Node.perform checksumCrypto) (Node.sample 7)
    (List.replicate k (.handleEnvelope 0 (Node.sample 8).id (unsignedTo7 body)))

/-- Sending one message many times makes a run of the sample node. -/
theorem floodRun_trace (body : MessageKind) (k : Nat) :
    ∃ n, Trace (@Node.Step checksumCrypto) (Node.sample 7) (floodRun body k) n :=
  ⟨_, @Trace.of_record _ _ (@Node.Step checksumCrypto) _ (fun _ _ => rfl) _ _⟩

/-- Every step of that run handles the same message. -/
theorem label_of_floodRun {body : MessageKind} {k : Nat} {e : Transition Node Node.Call}
    (he : e ∈ floodRun body k) :
    e.label = .handleEnvelope 0 (Node.sample 8).id (unsignedTo7 body) :=
  List.eq_of_mem_replicate (Trace.label_of_record he)

/-- That run has as many steps as there are messages. -/
theorem length_floodRun (body : MessageKind) (k : Nat) : (floodRun body k).length = k := by
  rw [floodRun, Trace.length_record, List.length_replicate]

theorem floodRun_operations (body : MessageKind) (k : Nat) :
    ∀ e ∈ floodRun body k, e.label.IsOperation := by
  intro e he
  rw [label_of_floodRun he]
  trivial

/-- That run stays within a minute, as all its messages come at once. -/
theorem floodRun_minute (body : MessageKind) (k : Nat) :
    Node.WithinMinute 0 (floodRun body k) := by
  intro e he now peer env hlabel
  rw [label_of_floodRun he] at hlabel
  injection hlabel with hnow
  rw [← hnow]
  decide

/-- That run receives as many messages of the kind as were sent. -/
theorem floodRun_received {kind : MessageKind → Bool} {body : MessageKind} (hkind : kind body)
    (k : Nat) :
    (floodRun body k).countP (@Node.receives checksumCrypto kind (Node.sample 8).id) = k := by
  have hall : ∀ e ∈ floodRun body k,
      @Node.receives checksumCrypto kind (Node.sample 8).id e = true := by
    intro e he
    unfold Node.receives
    rw [label_of_floodRun he]
    have hbody : (unsignedTo7 body).body = body := rfl
    have hadmits : @Node.admits checksumCrypto e.before (Node.sample 8).id (unsignedTo7 body) =
        true := rfl
    simp [hbody, hkind, hadmits]
  rw [List.countP_eq_length.mpr hall, length_floodRun]

theorem floodRun_unsigned (body : MessageKind) (k : Nat) :
    @Node.NeverSigns checksumCrypto (Node.sample 8).id ([] ++ floodRun body k) := by
  intro e he now env hlabel key _
  rw [label_of_floodRun he] at hlabel
  injection hlabel with _ _ henv
  rw [← henv]
  exact @not_authenticBy_of_unsigned checksumCrypto _ rfl key

/-- A sample node has no bucket yet, so a window of lookups begins with the
first one, for every peer. -/
theorem lookupWindow_of_sample (k : UInt8) (peer : NodeId) :
    (Node.sample k).LookupWindow peer 0 := by
  intro bucket hbucket
  cases hbucket

/-- Ten unsigned lookups are answered within the limits. -/
theorem ten_lookups_answered :
    @Node.KeepsReplyLimits checksumCrypto (Node.sample 7) []
      (floodRun (.findNode (Node.sample 9).id 3) 10) (Node.sample 8).id 0 := by
  obtain ⟨n, window⟩ := floodRun_trace (.findNode (Node.sample 9).id 3) 10
  refine (@Node.reply_limits_iff checksumCrypto _ _ _ n [] _ _ 0 Trace.nil window
    (floodRun_operations _ 10) (floodRun_minute _ 10)).mpr ⟨?_, ?_⟩
  · refine Nat.le_trans List.countP_le_length ?_
    rw [length_floodRun]
    decide
  · intro _ _
    exact Nat.le_trans List.countP_le_length (Nat.le_of_eq (length_floodRun _ 10))

/-- **Floods that are answered.**  A fresh node answers 121 pings of one instant
with 121 pongs, and eleven lookups of a peer that never signs with eleven lists
of found peers. -/
theorem floods_answered :
    ¬ @Node.KeepsReplyLimits checksumCrypto (Node.sample 7) [] (floodRun (.ping 0) 121)
        (Node.sample 8).id 0 ∧
      ¬ @Node.KeepsReplyLimits checksumCrypto (Node.sample 7) []
        (floodRun (.findNode (Node.sample 9).id 3) 11) (Node.sample 8).id 0 := by
  constructor
  · intro hkeeps
    have hfew := @Node.KeepsReplyLimits.pongs checksumCrypto _ _ _ _ _ hkeeps
    rw [@Node.pongs_of_run checksumCrypto, floodRun_received rfl] at hfew
    exact absurd hfew (by decide)
  · intro hkeeps
    obtain ⟨n, window⟩ := floodRun_trace (.findNode (Node.sample 9).id 3) 11
    have hopen := lookupWindow_of_sample 7 (Node.sample 8).id
    have hfew := @Node.KeepsReplyLimits.stranger checksumCrypto _ _ _ _ _ hkeeps hopen
      (floodRun_unsigned _ 11)
    rw [@Node.found_in_window checksumCrypto _ _ _ n [] _ _ 0 Trace.nil window
      (floodRun_minute _ 11) hopen, floodRun_received rfl] at hfew
    exact absurd hfew (by decide)

end Zona
