import Zona.LabelledRuns
import Zona.NodeOutcomes

/-!
# Runs of a node

Which part of a node which call may touch.  `dispatch_frame` is the one
statement about handling an envelope: beside the routing table, the
descriptors and the counters, only the quorum tracker and the limiter move,
and each of them in one way.  What holds of these parts in every run follows
from it: the identity of a node is fixed, and the invite buckets keep their
configuration.
-/

namespace Zona

namespace Node

variable [Crypto]

/-- Forwarding touches the counters only, in each of its three ways. -/
theorem forwardUserData_snd (n : Node) (env : Envelope) :
    ∃ counter metrics,
      (n.forwardUserData env).2 = { n with msgCounter := counter, metrics := metrics } := by
  obtain ⟨repairs, counter, _, hforward⟩ := forwardUserData_spec n env
  rw [hforward]
  cases n.userHop env.toId with
  | some hop =>
      obtain ⟨metrics, hsent⟩ := sendUserHop_snd n env hop
      refine ⟨counter, metrics, ?_⟩
      dsimp only
      rw [hsent]
  | none =>
      by_cases hself : n.id = env.toId
      · exact ⟨n.msgCounter, n.metrics, if_pos hself⟩
      · exact ⟨counter, n.countDropped.metrics, if_neg hself⟩

/-- Integrating found peers touches the store and the table only. -/
theorem foldl_integrate_frame (peers : List PexCandidate) (n : Node) :
    ∃ store table, peers.foldl integrate n = { n with store := store, table := table } := by
  induction peers generalizing n with
  | nil => exact ⟨n.store, n.table, rfl⟩
  | cons c rest ih =>
      obtain ⟨store, table, hrest⟩ := ih (n.integrate c)
      exact ⟨store, table, hrest⟩

/-- The quorum tracker after an envelope. -/
def quorumAfter (n : Node) (env : Envelope) : QuorumTracker :=
  match env.body with
  | .userData payload =>
      if env.toId = n.id ∧ env.messageClass = .criticalUser then
        (n.quorum.record env.messageId payload).2
      else n.quorum
  | _ => n.quorum

/-- The invite buckets after an envelope. -/
def inviteAfter (n : Node) (now : Nat) (peer : NodeId) (env : Envelope) :
    HashMap NodeId Bucket :=
  match env.body with
  | .invite _ => (consume n.limits.invite LimitConfig.invite peer now).2
  | _ => n.limits.invite

/-- User data touches the counters and the tracker of critical copies, and
nothing else. -/
theorem handleUserData_frame (n : Node) (env : Envelope) (payload : List UInt8) :
    ∃ counter metrics, (n.handleUserData env payload).node =
      { n with
        msgCounter := counter
        metrics := metrics
        quorum :=
          if env.toId = n.id ∧ env.messageClass = .criticalUser then
            (n.quorum.record env.messageId payload).2
          else n.quorum } := by
  by_cases hdest : env.toId = n.id
  · by_cases hclass : env.messageClass = .criticalUser
    · have hrecords : env.toId = n.id ∧ env.messageClass = .criticalUser := ⟨hdest, hclass⟩
      rw [handleUserData_critical hdest hclass, if_pos hrecords]
      by_cases hresult : (n.quorum.record env.messageId payload).1 = .inconsistent
      · exact ⟨n.msgCounter, _, if_pos hresult⟩
      · exact ⟨n.msgCounter, n.metrics, if_neg hresult⟩
    · rw [handleUserData_normal hdest hclass, if_neg (fun h => hclass h.2)]
      exact ⟨n.msgCounter, n.metrics, rfl⟩
  · rw [handleUserData_forward hdest, if_neg (fun h => hdest h.1)]
    exact forwardUserData_snd n env

/-- **What handling an envelope may touch**: the store, the table, the
counters, the limiter and the tracker, but neither identity nor configuration. -/
theorem dispatch_frame (n : Node) (now : Nat) (peer : NodeId) (env : Envelope) :
    ∃ store table counter metrics find, (n.dispatch now peer env).node =
      { n with
        store := store
        table := table
        msgCounter := counter
        metrics := metrics
        limits := { n.limits with find := find, invite := n.inviteAfter now peer env }
        quorum := n.quorumAfter env } := by
  unfold dispatch inviteAfter quorumAfter
  cases env.body with
  | hello d =>
      dsimp only
      unfold handleHello
      rcases n.store.upsert d none with ⟨verdict, store⟩
      cases verdict with
      | ok updated => exact ⟨store, _, _, n.metrics, n.limits.find, rfl⟩
      | error e => exact ⟨store, n.table, _, n.metrics, n.limits.find, rfl⟩
  | ping nonce => exact ⟨n.store, n.table, _, n.metrics, n.limits.find, rfl⟩
  | pong nonce => exact ⟨n.store, _, n.msgCounter, n.metrics, n.limits.find, rfl⟩
  | findNode target count =>
      obtain ⟨find, checked, hchecked, hdropped | hanswered⟩ :=
        handleFindNode_cases n now peer target count
      · dsimp only
        rw [hdropped, hchecked]
        exact ⟨n.store, n.table, n.msgCounter, _, find, rfl⟩
      · dsimp only
        rw [hanswered, hchecked]
        exact ⟨n.store, n.table, _, n.metrics, find, rfl⟩
  | foundNodes peers =>
      obtain ⟨store, table, hfold⟩ := foldl_integrate_frame peers n
      exact ⟨store, table, n.msgCounter, n.metrics, n.limits.find, hfold⟩
  | pex candidates => exact ⟨n.store, _, n.msgCounter, _, n.limits.find, rfl⟩
  | announceDescriptor d => exact ⟨_, n.table, n.msgCounter, n.metrics, n.limits.find, rfl⟩
  | userData payload =>
      obtain ⟨counter, metrics, hnode⟩ := handleUserData_frame n env payload
      exact ⟨n.store, n.table, counter, metrics, n.limits.find, hnode⟩
  | invite token =>
      refine ⟨n.store, n.table, n.msgCounter, n.metrics, n.limits.find, ?_⟩
      dsimp only
      rw [handleInvite, RateLimiter.checkInvite_snd]

/-- The calls on a node; its host may also put any table and any descriptors
in place, both being public. -/
inductive Call
  | handleEnvelope (now : Nat) (peer : NodeId) (env : Envelope)
  | sendCritical (toId : NodeId) (payload : List UInt8)
  | makePing (peer : NodeId)
  | makeFind (peer target : NodeId)
  | repairTick
  | host (table : PeerTable) (store : DescriptorStore)

/-- The node after a call. -/
def perform (n : Node) : Call → Node
  | .handleEnvelope now peer env => (n.handleEnvelope now peer env).node
  | .sendCritical toId payload => (n.sendCritical toId payload).2
  | .makePing peer => (n.makePing peer).2
  | .makeFind peer target => (n.makeFind peer target).2
  | .repairTick => n.repairTick.2
  | .host table store => { n with table := table, store := store }

/-- One call on a node. -/
def Step (n : Node) (call : Call) (m : Node) : Prop :=
  m = n.perform call

/-- **One call** handles an envelope, puts in place what the host provides, or
touches the counters only. -/
theorem step_cases {n m : Node} {call : Call} (hstep : n.Step call m) :
    (∃ now peer env, call = .handleEnvelope now peer env ∧
      m = (n.handleEnvelope now peer env).node) ∨
    (∃ table store, call = .host table store ∧ m = { n with table := table, store := store }) ∨
    ((∀ now peer env, call ≠ .handleEnvelope now peer env) ∧
      ∃ counter metrics, m = { n with msgCounter := counter, metrics := metrics }) := by
  subst hstep
  cases call with
  | handleEnvelope now peer env => exact Or.inl ⟨now, peer, env, rfl, rfl⟩
  | host table store => exact Or.inr (Or.inl ⟨table, store, rfl, rfl⟩)
  | sendCritical toId payload =>
      exact Or.inr (Or.inr ⟨by simp, _, n.metrics, n.sendCritical_snd toId payload⟩)
  | makePing peer => exact Or.inr (Or.inr ⟨by simp, _, n.metrics, rfl⟩)
  | makeFind peer target => exact Or.inr (Or.inr ⟨by simp, _, n.metrics, rfl⟩)
  | repairTick => exact Or.inr (Or.inr ⟨by simp, repairTick_snd n⟩)

theorem handleEnvelope_frame (n : Node) (now : Nat) (peer : NodeId) (env : Envelope) :
    ∃ store table counter metrics find, (n.handleEnvelope now peer env).node =
      { n with
        store := store
        table := table
        msgCounter := counter
        metrics := metrics
        limits :=
          { n.limits with
            find := find
            invite := if n.admits peer env then n.inviteAfter now peer env else n.limits.invite }
        quorum := if n.admits peer env then n.quorumAfter env else n.quorum } := by
  cases hadmits : n.admits peer env with
  | false =>
      rw [handleEnvelope_refused hadmits]
      exact ⟨n.store, n.table, n.msgCounter, n.metrics, n.limits.find, rfl⟩
  | true =>
      rw [handleEnvelope_admitted hadmits]
      exact dispatch_frame n now peer env

/-- Handling an envelope touches the invite buckets by consumption only. -/
theorem handleEnvelope_invite (n : Node) (now : Nat) (peer : NodeId) (env : Envelope) :
    (n.handleEnvelope now peer env).node.limits.invite = n.limits.invite ∨
      (n.handleEnvelope now peer env).node.limits.invite =
        (consume n.limits.invite LimitConfig.invite peer now).2 := by
  obtain ⟨store, table, counter, metrics, find, hnode⟩ := handleEnvelope_frame n now peer env
  rw [hnode]
  dsimp only
  unfold inviteAfter
  split
  · split
    · exact Or.inr rfl
    · exact Or.inl rfl
  · exact Or.inl rfl

/-- **What no call changes**: the identifier, the keys and the exchange
manager, whatever the host or an envelope does. -/
theorem identity_step {n m : Node} {call : Call} (hstep : n.Step call m) :
    m.id = n.id ∧ m.keypair = n.keypair ∧ m.pex = n.pex := by
  rcases step_cases hstep with
    ⟨now, peer, env, _, hnode⟩ | ⟨table, store, _, hnode⟩ | ⟨_, counter, metrics, hnode⟩
  · obtain ⟨store, table, counter, metrics, find, hframe⟩ := handleEnvelope_frame n now peer env
    rw [hnode, hframe]
    exact ⟨rfl, rfl, rfl⟩
  · rw [hnode]
    exact ⟨rfl, rfl, rfl⟩
  · rw [hnode]
    exact ⟨rfl, rfl, rfl⟩

theorem id_step {n m : Node} {call : Call} (hstep : n.Step call m) : m.id = n.id :=
  (identity_step hstep).1

theorem id_of_trace {n m : Node} {es : List (Transition Node Call)}
    (run : Trace Step n es m) : m.id = n.id :=
  @Trace.invariant _ _ Step n m es (fun k : Node => k.id = n.id)
    (fun _ _ _ hstep hid => (id_step hstep).trans hid) run rfl

/-- The limiter of invites stays usable, as no call changes its configuration. -/
theorem usable_invite_step {n m : Node} {call : Call} (hstep : n.Step call m)
    (h : Usable n.limits.invite) : Usable m.limits.invite := by
  rcases step_cases hstep with
    ⟨now, peer, env, _, hnode⟩ | ⟨table, store, _, hnode⟩ | ⟨_, counter, metrics, hnode⟩
  · rcases handleEnvelope_invite n now peer env with hsame | hconsumed
    · rw [hnode, hsame]
      exact h
    · rw [hnode, hconsumed]
      exact usable_consume h (by decide) (by decide)
  · rw [hnode]
    exact h
  · rw [hnode]
    exact h

/-- In every reachable node the invite buckets admit something and have a
window. -/
theorem usable_invite_of_reachable {keypair : NodeKeypair} {config : NodeConfig} {n : Node}
    (h : Reachable Step (Node.new keypair config) n) : Usable n.limits.invite := by
  have hstart : Usable (Node.new keypair config).limits.invite := by
    intro peer bucket hlookup
    cases hlookup
  exact @Reachable.invariant _ _ Step _ n (fun n : Node => Usable n.limits.invite)
    (fun _ _ _ => usable_invite_step) h hstart

end Node

end Zona
