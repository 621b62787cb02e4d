import Zona.EndToEndDelivery
import Zona.Quiescence

/-!
# The simulator and the network

Every run of a simulator is a run of the network of its nodes: a message that
the simulator loses stays in flight for ever, a node that it removes is one
that nothing reaches, and whatever its host does to a node is a change of the
node under its identity (`simulated`).  What holds along all runs of the
network thus holds of the simulator.

User data is an example.  A relay may change the destination, the time to live
and the signature of what it hands on, and nothing else (`sourced_of_run`), so
that all user data in a simulator goes back to what `enqueue` has put there
(`user_data_enqueued`).
-/

namespace Zona

/-- The same data, up to what relays do change. -/
structure Envelope.SameData (copy original : Envelope) : Prop where
  same : copy =
    { original with toId := copy.toId, ttl := copy.ttl, signature := copy.signature }
  ttl_le : copy.ttl ≤ original.ttl

namespace Envelope.SameData

theorem refl (e : Envelope) : e.SameData e :=
  ⟨rfl, UInt8.le_refl _⟩

/-- A copy of a copy has the data of the original, as each hop changes only the
destination, the life and the signature. -/
theorem trans {a b c : Envelope} (h : a.SameData b) (h' : b.SameData c) : a.SameData c := by
  refine ⟨?_, UInt8.le_trans h.ttl_le h'.ttl_le⟩
  have hb := h'.same
  rw [h.same, hb]

/-- A copy carries the body of its original, so what the user sent can be read
off any hop. -/
theorem body_eq {copy original : Envelope} (h : copy.SameData original) :
    copy.body = original.body := by
  rw [h.same]

end Envelope.SameData

variable [Crypto]

/-- A copy that a relay makes carries the same data. -/
theorem Node.relayedCopy_sameData {n : Node} {peer hop : NodeId} {env : Envelope}
    (h : n.Relays peer env hop) : (n.relayedCopy env hop).SameData env := by
  refine ⟨rfl, ?_⟩
  have hroom := h.2.2.2.1
  dsimp only [relayedCopy, signEnvelope]
  grind

namespace Network

variable {ι : Type} [DecidableEq ι]

/-- The envelope was sent in the run. -/
def Sends (es : List (Transition (Network ι) (Action ι))) (env : Envelope) : Prop :=
  ∃ e ∈ es, ∃ p, e.label = .send p ∧ p.env = env

/-- A packet carries the data of its origin, and user data was sent. -/
structure Sourced (es : List (Transition (Network ι) (Action ι))) (p : Packet) : Prop where
  data : p.env.SameData p.origin
  sent : p.env.body.isUserData = true → Sends es p.origin

omit [Crypto] [DecidableEq ι] in
/-- What was sent in a run was sent in any longer one. -/
theorem Sends.append {es : List (Transition (Network ι) (Action ι))} {env : Envelope}
    (h : Sends es env) (fs : List (Transition (Network ι) (Action ι))) : Sends (es ++ fs) env := by
  obtain ⟨e, he, hsent⟩ := h
  exact ⟨e, List.mem_append_left _ he, hsent⟩

omit [Crypto] [DecidableEq ι] in
/-- A packet that comes from an envelope sent in a run does so in any longer
one. -/
theorem Sourced.append {es : List (Transition (Network ι) (Action ι))} {p : Packet}
    (h : Sourced es p) (fs : List (Transition (Network ι) (Action ι))) : Sourced (es ++ fs) p :=
  ⟨h.data, fun huser => (h.sent huser).append fs⟩

/-- **The step**: a packet that a node forwards has the data of the one it
received, and other packets with user data are sent by the host. -/
theorem sourced_step {es : List (Transition (Network ι) (Action ι))} {net net' : Network ι}
    {a : Action ι} (hstep : Step net a net') (h : ∀ p ∈ net.flight, Sourced es p) :
    ∀ p ∈ net'.flight, Sourced (es ++ [⟨net, a, net'⟩]) p := by
  cases hstep with
  | @send p hown =>
      intro q hq
      rcases List.mem_append.mp hq with hold | hnew
      · exact (h q hold).append _
      · rw [List.mem_singleton.mp hnew]
        refine ⟨?_, fun _ => ⟨_, List.mem_append_right _ List.mem_cons_self, p, rfl, hown.symm⟩⟩
        rw [hown]
        exact .refl p.env
  | change hid => exact fun q hq => (h q hq).append _
  | @deliver i now p hflight hhop =>
      intro q hq
      rcases List.mem_append.mp hq with hold | hnew
      · exact (h q hold).append _
      · obtain ⟨hsent, _, horigin⟩ := mem_emitted.mp hnew
        cases huser : q.env.body.isUserData with
        | false =>
            rw [huser, if_neg Bool.false_ne_true] at horigin
            constructor
            · rw [horigin]
              exact .refl q.env
            · intro htrue
              rw [huser] at htrue
              cases htrue
        | true =>
            rw [huser, if_pos rfl] at horigin
            obtain ⟨hrelays, hcopy⟩ := (Node.mem_handleEnvelope huser).mp hsent
            have hsame : q.env.SameData p.env := by
              rw [hcopy]
              exact Node.relayedCopy_sameData hrelays
            have hsource := h p hflight
            constructor
            · rw [horigin]
              exact hsame.trans hsource.data
            · intro _
              rw [horigin]
              exact (hsource.sent hrelays.2.1).append _

/-- **The run.**  Every packet in flight carries the data of its origin, and
all user data was sent in the run. -/
theorem sourced_of_run {net final : Network ι} {es : List (Transition (Network ι) (Action ι))}
    (hstart : net.flight = []) (run : Trace Step net es final) :
    ∀ p ∈ final.flight, Sourced es p := by
  induction run with
  | nil =>
      intro p hp
      rw [hstart] at hp
      cases hp
  | snoc init last ih => exact sourced_step last ih

/-- Packets stay in flight, since the network may deliver them again: losses
are deliveries that do not happen. -/
theorem flight_subset {net final : Network ι} {es : List (Transition (Network ι) (Action ι))}
    (run : Trace Step net es final) : net.flight ⊆ final.flight := by
  induction run with
  | nil => exact fun p hp => hp
  | snoc init last ih =>
      intro p hp
      cases last with
      | send hown => exact List.mem_append_left _ (ih hp)
      | deliver hflight hhop => exact List.mem_append_left _ (ih hp)
      | change hid => exact ih hp

end Network

namespace Sim

variable {ρ : Type}

/-- The message is in flight in the network. -/
def Carried (net : Network NodeId) (msg : InFlight) : Prop :=
  ∃ p ∈ net.flight, p.hop = msg.toId ∧ p.sender = msg.fromId ∧ p.env = msg.envelope

/-- The network has the nodes of the simulator and carries its messages. -/
structure Simulates (sim : Sim ρ) (net : Network NodeId) : Prop where
  named : ∀ id, (net.nodes id).id = id
  nodes : ∀ id n, sim.nodes.lookup id = some n → net.nodes id = n
  queue : ∀ msg ∈ sim.queue, Carried net msg

omit [Crypto] in
/-- A node is kept under its own identifier, in the simulator as in the
network. -/
theorem Simulates.id_eq {sim : Sim ρ} {net : Network NodeId} (h : sim.Simulates net) {id : NodeId}
    {n : Node} (hnode : sim.nodes.lookup id = some n) : n.id = id := by
  rw [← h.nodes id n hnode]
  exact h.named id

omit [Crypto] in
/-- A message that the network carries is carried by any network with more
packets in flight. -/
theorem Carried.mono {net net' : Network NodeId} {msg : InFlight} (h : Carried net msg)
    (hsub : net.flight ⊆ net'.flight) : Carried net' msg := by
  obtain ⟨p, hp, hmsg⟩ := h
  exact ⟨p, hsub hp, hmsg⟩

/-- The network can go on to one that simulates `sim`, sending no user data but
what meets `source`. -/
def Follows (net : Network NodeId) (source : Envelope → Prop) (sim : Sim ρ) : Prop :=
  ∃ fs net', Trace Network.Step net fs net' ∧ sim.Simulates net' ∧
    ∀ env, Network.Sends fs env → env.body.isUserData = true → source env

variable {source : Envelope → Prop}

/-- The network follows a simulator that has not moved, by doing nothing. -/
theorem Follows.refl {sim : Sim ρ} {net : Network NodeId} (h : sim.Simulates net) :
    Follows net source sim := by
  refine ⟨[], net, .nil, h, ?_⟩
  rintro env ⟨e, he, _⟩
  cases he

theorem Follows.mono {source' : Envelope → Prop} {sim : Sim ρ} {net : Network NodeId}
    (h : Follows net source sim) (hsub : ∀ env, source env → source' env) :
    Follows net source' sim := by
  obtain ⟨fs, net', run, hsim, hsource⟩ := h
  exact ⟨fs, net', run, hsim, fun env hsent huser => hsub env (hsource env hsent huser)⟩

/-- **Composition**: if the network can follow to one state and from there to
the next, it can follow to that one.  The runs are put in a row. -/
theorem Follows.bind {sim sim' : Sim ρ} {net : Network NodeId} (h : Follows net source sim)
    (h' : ∀ net', net.flight ⊆ net'.flight → sim.Simulates net' → Follows net' source sim') :
    Follows net source sim' := by
  obtain ⟨fs, net', run, hsim, hsource⟩ := h
  obtain ⟨gs, net'', run', hsim', hsource'⟩ := h' net' (Network.flight_subset run) hsim
  refine ⟨fs ++ gs, net'', run.append run', hsim', ?_⟩
  rintro env ⟨e, he, hsent⟩ huser
  rcases List.mem_append.mp he with hfirst | hsecond
  · exact hsource env ⟨e, hfirst, hsent⟩ huser
  · exact hsource' env ⟨e, hsecond, hsent⟩ huser

theorem Follows.single {sim : Sim ρ} {net net' : Network NodeId} {a : Network.Action NodeId}
    (hstep : Network.Step net a net') (hquiet : ∀ p, a ≠ .send p) (h : sim.Simulates net') :
    Follows net source sim := by
  refine ⟨[⟨net, a, net'⟩], net', .single hstep, h, ?_⟩
  rintro env ⟨e, he, p, hsend, _⟩
  rw [List.mem_singleton.mp he] at hsend
  exact (hquiet p hsend).elim

/-- **A message is sent** when it is put into the queue; one with user data has
to be a source. -/
theorem follows_message {sim : Sim ρ} {net : Network NodeId} (h : sim.Simulates net)
    (msg : InFlight) (hsource : msg.envelope.body.isUserData = true → source msg.envelope) :
    Follows net source { sim with queue := sim.queue ++ [msg] } := by
  have hstep : Network.Step net (.send ⟨msg.toId, msg.fromId, msg.envelope, msg.envelope⟩)
      { net with flight := net.flight ++ [⟨msg.toId, msg.fromId, msg.envelope, msg.envelope⟩] } :=
    .send rfl
  refine ⟨_, _, .single hstep, ⟨h.named, h.nodes, ?_⟩, ?_⟩
  · intro m hm
    rcases List.mem_append.mp hm with hold | hnew
    · exact (h.queue m hold).mono fun p hp => List.mem_append_left _ hp
    · rw [List.mem_singleton.mp hnew]
      exact ⟨_, List.mem_append_right _ List.mem_cons_self, rfl, rfl, rfl⟩
  · rintro env ⟨e, he, p, hsend, henv⟩ huser
    rw [List.mem_singleton.mp he] at hsend
    obtain rfl := Network.Action.send.inj hsend
    dsimp only at henv
    rw [← henv] at huser ⊢
    exact hsource huser

/-- The network follows a host that puts messages of its own into the queue, by
sending them. -/
theorem follows_messages {msgs : List InFlight}
    (hsource : ∀ msg ∈ msgs, msg.envelope.body.isUserData = true → source msg.envelope)
    {sim : Sim ρ} {net : Network NodeId} (h : sim.Simulates net) :
    Follows net source { sim with queue := sim.queue ++ msgs } := by
  induction msgs generalizing sim net with
  | nil =>
      rw [List.append_nil]
      exact .refl h
  | cons msg rest ih =>
      have hfirst := follows_message h msg (hsource msg List.mem_cons_self)
      refine hfirst.bind fun net' _ hsim => ?_
      have hrest := ih (fun m hm => hsource m (List.mem_cons_of_mem _ hm)) hsim
      simpa using hrest

omit [Crypto] in
/-- The nodes of a simulator once one of them has been replaced. -/
theorem lookup_of_put {sim : Sim ρ} {net : Network NodeId} (h : sim.Simulates net)
    {id id' : NodeId} {n n' : Node} (hlookup : (sim.nodes.put id n).lookup id' = some n') :
    Function.update net.nodes id n id' = n' := by
  rw [HashMap.lookup_put] at hlookup
  by_cases hid : id' = id
  · subst hid
    rw [if_pos rfl] at hlookup
    rw [Function.update_self, Option.some.inj hlookup]
  · rw [if_neg hid] at hlookup
    rw [Function.update_of_ne hid, h.nodes id' n' hlookup]

omit [Crypto] in
/-- A node that handled something keeps its identifier, so all nodes are still
kept under their own. -/
theorem named_update {net : Network NodeId} (h : ∀ id, (net.nodes id).id = id) {id : NodeId}
    {n : Node} (hid : n.id = id) (id' : NodeId) :
    (Function.update net.nodes id n id').id = id' := by
  by_cases hsame : id' = id
  · subst hsame
    rw [Function.update_self, hid]
  · rw [Function.update_of_ne hsame, h id']

/-- **A node changes** under its identity, or joins: in the network there is a
node under every identifier, and the host may replace it. -/
theorem follows_change {sim : Sim ρ} {net : Network NodeId} (h : sim.Simulates net) {id : NodeId}
    {n : Node} (hid : n.id = id) :
    Follows net source { sim with nodes := sim.nodes.put id n } := by
  have hstep : Network.Step net (.change id n)
      { net with nodes := Function.update net.nodes id n } :=
    .change (by rw [hid, h.named id])
  refine .single hstep (by simp) ⟨named_update h.named hid, ?_, h.queue⟩
  intro id' n' hlookup
  exact lookup_of_put h hlookup

/-- **A message is handed over** as the network delivers it: to the same node,
at the same time, and what that sends goes into both queues. -/
theorem follows_handOver {sim : Sim ρ} {net : Network NodeId} (h : sim.Simulates net) (now : Nat)
    {msg : InFlight} (hmsg : Carried net msg) : Follows net source (sim.handOver now msg) := by
  unfold handOver
  cases hnode : sim.nodes.lookup msg.toId with
  | none => exact .refl h
  | some node =>
      obtain ⟨p, hflight, hhop, hsender, henv⟩ := hmsg
      have hstep : Network.Step net (.deliver msg.toId now p) (net.handle msg.toId now p) :=
        .deliver hflight (by rw [h.named, hhop])
      have hsame : net.nodes msg.toId = node := h.nodes _ _ hnode
      have hid : (node.handleEnvelope now msg.fromId msg.envelope).node.id = msg.toId := by
        have hkept : node.Step (.handleEnvelope now msg.fromId msg.envelope)
            (node.handleEnvelope now msg.fromId msg.envelope).node := rfl
        rw [Node.id_step hkept, h.id_eq hnode]
      refine .single hstep (by simp) ?_
      unfold Network.handle
      rw [hsame, hsender, henv]
      refine ⟨named_update h.named hid, fun id' n' hlookup => lookup_of_put h hlookup, ?_⟩
      intro m hm
      rcases List.mem_append.mp hm with hold | hnew
      · exact (h.queue m hold).mono fun q hq => List.mem_append_left _ hq
      · obtain ⟨sent, hsent, rfl⟩ := List.mem_map.mp hnew
        refine ⟨_, List.mem_append_right _ (List.mem_map.mpr ⟨sent, hsent, rfl⟩), rfl, ?_, rfl⟩
        exact h.id_eq hnode

omit [Crypto] in
/-- A change of the simulator that its nodes and its queue do not notice. -/
theorem Simulates.of_same {sim sim' : Sim ρ} {net : Network NodeId} (h : sim.Simulates net)
    (hnodes : sim'.nodes = sim.nodes) (hqueue : sim'.queue ⊆ sim.queue) : sim'.Simulates net := by
  refine ⟨h.named, ?_, fun msg hmsg => h.queue msg (hqueue hmsg)⟩
  intro id n hlookup
  rw [hnodes] at hlookup
  exact h.nodes id n hlookup

/-- The network follows a delivery by delivering the same packet to the same
node, which sends the same envelopes. -/
theorem follows_deliver [Rng ρ] {sim : Sim ρ} {net : Network NodeId} (h : sim.Simulates net)
    (now : Nat) {msg : InFlight} (hmsg : Carried net msg) :
    Follows net source (sim.deliver now msg) := by
  unfold deliver
  have hrolled : Simulates { sim with rng := (Rng.gen sim.rng).2 } net :=
    h.of_same rfl fun m hm => hm
  split
  · exact .refl h
  · dsimp only
    split
    · exact .refl hrolled
    · exact follows_handOver hrolled now hmsg

/-- **A delivery round** hands over messages that are in flight already, one
after the other, so the packets of the network are enough for all of them. -/
theorem follows_batch [Rng ρ] (clock : Nat → Nat) {batch : List (InFlight × Nat)}
    {sim : Sim ρ} {net : Network NodeId} (h : sim.Simulates net)
    (hbatch : ∀ q ∈ batch, Carried net q.1) :
    Follows net source (batch.foldl (fun s q => s.deliver (clock q.2) q.1) sim) := by
  induction batch generalizing sim net with
  | nil => exact .refl h
  | cons q rest ih =>
      have hfirst : Follows net source (sim.deliver (clock q.2) q.1) :=
        follows_deliver h (clock q.2) (hbatch q List.mem_cons_self)
      refine hfirst.bind fun net' hsub hsim => ?_
      exact ih hsim fun r hr => (hbatch r (List.mem_cons_of_mem _ hr)).mono hsub

/-- The network follows a step of the simulator, delivery by delivery.
Messages that are lost, partitioned or late are not delivered. -/
theorem follows_step [Rng ρ] (clock : Nat → Nat) {sim : Sim ρ} {net : Network NodeId}
    (h : sim.Simulates net) : Follows net source (sim.step clock) := by
  have hcleared : Simulates { sim with ticks := sim.ticks + 1, queue := [] } net :=
    h.of_same rfl (by simp)
  refine follows_batch clock hcleared ?_
  intro q hq
  exact h.queue q.1 (List.fst_mem_of_mem_zipIdx hq)

/-- The step of a repair tick sends a lookup, if anything. -/
theorem repairStep_findNode (acc : Outbox × Node) (target : NodeId)
    (h : ∀ sent ∈ acc.1, ∃ aim, sent.2.body = .findNode aim 3) :
    ∀ sent ∈ (Node.repairStep acc target).1, ∃ aim, sent.2.body = .findNode aim 3 := by
  intro sent hsent
  unfold Node.repairStep at hsent
  cases hhop : acc.2.findHop target with
  | none =>
      rw [hhop] at hsent
      exact h sent hsent
  | some next =>
      rw [hhop] at hsent
      rcases List.mem_append.mp hsent with hold | hnew
      · exact h sent hold
      · rw [List.mem_singleton.mp hnew]
        exact ⟨target, rfl⟩

/-- The repairs of one tick add lookups and nothing else to what is sent. -/
theorem foldl_repairStep_findNode {targets : List NodeId} {acc : Outbox × Node}
    (h : ∀ sent ∈ acc.1, ∃ aim, sent.2.body = .findNode aim 3) :
    ∀ sent ∈ (targets.foldl Node.repairStep acc).1, ∃ aim, sent.2.body = .findNode aim 3 := by
  induction targets generalizing acc with
  | nil => exact h
  | cons target rest ih => exact ih (repairStep_findNode acc target h)

/-- A repair tick sends lookups, so no user data comes from it. -/
theorem repairTick_findNode (n : Node) :
    ∀ sent ∈ n.repairTick.1, ∃ aim, sent.2.body = .findNode aim 3 := by
  intro sent hsent
  unfold Node.repairTick at hsent
  dsimp only at hsent
  split at hsent
  · rcases List.mem_append.mp hsent with hold | hnew
    · exact foldl_repairStep_findNode (by simp) sent hold
    · rw [List.mem_singleton.mp hnew]
      exact ⟨longJumpTarget n.config.epochSeed n.id, rfl⟩
  · exact foldl_repairStep_findNode (by simp) sent hsent

/-- A repair tick changes a node and sends lookups. -/
theorem follows_repairOne {sim : Sim ρ} {net : Network NodeId} (h : sim.Simulates net)
    (id : NodeId) : Follows net source (sim.repairOne id) := by
  unfold repairOne
  cases hnode : sim.nodes.lookup id with
  | none => exact .refl h
  | some node =>
      have hkept : node.Step .repairTick node.repairTick.2 := rfl
      have hid : node.repairTick.2.id = id := by
        rw [Node.id_step hkept, h.id_eq hnode]
      refine (follows_change h hid).bind fun net' _ hsim => ?_
      refine follows_messages ?_ hsim
      intro msg hmsg huser
      obtain ⟨sent, hsent, rfl⟩ := List.mem_map.mp hmsg
      obtain ⟨aim, hbody⟩ := repairTick_findNode node sent hsent
      dsimp only at huser
      rw [hbody] at huser
      cases huser

/-- The network follows the repair of any list of nodes, as each of them sends
its lookups. -/
theorem follows_repairs {ids : List NodeId} {sim : Sim ρ} {net : Network NodeId}
    (h : sim.Simulates net) : Follows net source (ids.foldl repairOne sim) := by
  induction ids generalizing sim net with
  | nil => exact .refl h
  | cons id rest ih => exact (follows_repairOne h id).bind fun net' _ hsim => ih hsim

/-- What `enqueue` puts into the queue. -/
def enqueued (n : Node) (fromId toId : NodeId) (body : MessageKind) : Envelope where
  toId := toId
  fromId := fromId
  messageId := n.metrics.messagesForwarded + 1
  ttl := 20
  messageClass := .normal
  routeFork := false
  body := body
  signature := []

/-- The network follows `enqueue` by sending the envelope that the node signed;
if there is no such node, nothing is sent. -/
theorem follows_enqueue {sim : Sim ρ} {net : Network NodeId} (h : sim.Simulates net)
    (fromId toId : NodeId) (body : MessageKind)
    (hsource : ∀ n, sim.nodes.lookup fromId = some n → body.isUserData = true →
      source (enqueued n fromId toId body)) :
    Follows net source (sim.enqueue fromId toId body) := by
  unfold enqueue
  cases hnode : sim.nodes.lookup fromId with
  | none => exact .refl h
  | some node => exact follows_message h ⟨toId, fromId, _⟩ (hsource node hnode)

/-- The envelope was put into the queue by `enqueue` in the run. -/
def Enqueued (es : List (Transition (Sim ρ) Call)) (env : Envelope) : Prop :=
  ∃ e ∈ es, ∃ fromId toId body n, e.label = .enqueue fromId toId body ∧
    e.before.nodes.lookup fromId = some n ∧ env = enqueued n fromId toId body

/-- **The step**: every call on the simulator can be followed, and user data is
sent only where the call was `enqueue`. -/
theorem follows_of_step [Rng ρ] {sim sim' : Sim ρ} {call : Call} (hstep : Step sim call sim')
    {net : Network NodeId} (h : sim.Simulates net) :
    Follows net (Enqueued [⟨sim, call, sim'⟩]) sim' := by
  cases hstep with
  | addNode => exact follows_change h rfl
  | introduce hintro =>
      rename_i a b
      unfold introduce at hintro
      split at hintro
      · rw [← Option.some.inj hintro]
        refine (follows_enqueue h a b _ ?_).bind fun net' _ hsim => follows_enqueue hsim b a _ ?_
        · intro n _ huser
          cases huser
        · intro n _ huser
          cases huser
      · cases hintro
  | partition => exact .refl (h.of_same rfl fun m hm => hm)
  | healPartition => exact .refl (h.of_same rfl fun m hm => hm)
  | @enqueue fromId toId body =>
      apply follows_enqueue h
      intro n hnode huser
      exact ⟨_, List.mem_cons_self, fromId, toId, body, n, rfl, hnode, rfl⟩
  | step => exact follows_step _ h
  | repairAll => exact follows_repairs h
  | @killNode id =>
      refine .refl ⟨h.named, ?_, h.queue⟩
      intro id' n hlookup
      exact h.nodes id' n (HashMap.lookup_of_erase hlookup)
  | setDropProb => exact .refl (h.of_same rfl fun m hm => hm)
  | @node id call n hnode hcall =>
      apply follows_change h
      have hkept : n.Step call (n.perform call) := rfl
      rw [Node.id_step hkept, h.id_eq hnode]
  | host => exact .refl (h.of_same rfl fun m hm => hm)

/-- **The run**, call by call from the empty simulator: what has been enqueued
is known from the calls so far. -/
theorem follows_of_run [Rng ρ] {rng : ρ} {dropProb : Float} {nodes : NodeId → Node}
    (hnamed : ∀ id, (nodes id).id = id) {es : List (Transition (Sim ρ) Call)} {sim : Sim ρ}
    (run : Trace Step (Sim.new rng dropProb) es sim) :
    Follows ⟨nodes, []⟩ (Enqueued es) sim := by
  induction run with
  | nil =>
      refine Follows.refl ⟨hnamed, ?_, ?_⟩
      · intro id n hlookup
        cases hlookup
      · intro msg hmsg
        cases hmsg
  | snoc init last ih =>
      refine (ih.mono ?_).bind fun net' _ hsim => (follows_of_step last hsim).mono ?_
      · rintro env ⟨e, he, henqueued⟩
        exact ⟨e, List.mem_append_left _ he, henqueued⟩
      · rintro env ⟨e, he, henqueued⟩
        exact ⟨e, List.mem_append_right _ he, henqueued⟩

/-- **User data in a simulator** is what `enqueue` put there: whatever was lost,
partitioned, killed, repaired or relayed, and whatever the host did to the
nodes, a message that carries user data is one of the run, with another
destination, a shorter life and another signature at most. -/
theorem user_data_enqueued [Rng ρ] (rng : ρ) (dropProb : Float)
    (es : List (Transition (Sim ρ) Call)) (sim : Sim ρ)
    (run : Trace Step (Sim.new rng dropProb) es sim) :
    ∀ msg ∈ sim.queue, msg.envelope.body.isUserData = true →
      ∃ env, Enqueued es env ∧ msg.envelope.SameData env := by
  intro msg hmsg huser
  -- the identifiers that are not in use belong to nodes that nobody knows
  have hblank : ∀ id, ({ Node.new (NodeKeypair.fromSeed (Bytes.replicate 32 0)) ⟨3, 0⟩ with
      id := id } : Node).id = id :=
    fun _ => rfl
  obtain ⟨fs, net, hrun, hsim, hsource⟩ := follows_of_run hblank run
  obtain ⟨p, hflight, _, _, henv⟩ := hsim.queue msg hmsg
  obtain ⟨hdata, hsent⟩ := Network.sourced_of_run rfl hrun p hflight
  rw [henv] at hdata hsent
  refine ⟨p.origin, hsource p.origin (hsent huser) ?_, hdata⟩
  rw [← hdata.body_eq]
  exact huser

end Sim

omit [Crypto]

/-- The simulator with two nodes, one of which sends the other a byte. -/
def byteSent : Sim Unit :=
  twoNodes.enqueue (sampleId 1) (sampleId 2) (.userData [7])

/-- How it came about. -/
def byteSentRun : List (Transition (Sim Unit) Sim.Call) :=
  let oneNode := ((Sim.new () 0.0).addNode
    (@NodeKeypair.fromSeed checksumCrypto (Bytes.replicate 32 1))).2
  [⟨Sim.new () 0.0, .addNode (Bytes.replicate 32 1), oneNode⟩,
    ⟨oneNode, .addNode (Bytes.replicate 32 2), twoNodes⟩,
    ⟨twoNodes, .enqueue (sampleId 1) (sampleId 2) (.userData [7]), byteSent⟩]

/-- Two nodes are added and a byte is enqueued, which makes a run of the
simulator. -/
theorem byteSentRun_trace :
    Trace (@Sim.Step Unit checksumCrypto evenDice) (Sim.new () 0.0) byteSentRun byteSent :=
  .snoc (.snoc (.single (@Sim.Step.addNode Unit checksumCrypto evenDice _ _))
    (@Sim.Step.addNode Unit checksumCrypto evenDice _ _))
    (@Sim.Step.enqueue Unit checksumCrypto evenDice _ _ _ _)

/-- The byte in flight is the one that was sent. -/
theorem byte_enqueued :
    byteSent.queue.length = 1 ∧
      ∀ msg ∈ byteSent.queue, msg.envelope.body.isUserData = true →
        ∃ env, Sim.Enqueued byteSentRun env ∧ msg.envelope.SameData env :=
  ⟨by decide +kernel,
    @Sim.user_data_enqueued checksumCrypto Unit evenDice () 0.0 byteSentRun byteSent
      byteSentRun_trace⟩

end Zona
