import Zona.UserDataRelays
import Mathlib.Logic.Function.Basic

/-!
# End-to-end delivery of user data

A network is a family of nodes and the packets in flight between them.  A
packet may be delivered at any time, in any order, more than once or never, so
packets stay in flight.  Every packet remembers the envelope that its
originator sent; a relay hands this memory on with the copy it makes.

`delivery_faithful_iff` is about whole runs: every copy in flight is the
originator's message and every message is taken where the originator addressed
it, exactly when no relay ever picks a hop other than the destination.
-/

namespace Zona

/-- An envelope in flight: the peer it is handed to, the peer that hands it
over, and what the originator sent. -/
structure Packet where
  hop : NodeId
  sender : NodeId
  env : Envelope
  origin : Envelope
  deriving DecidableEq

/-- The envelope is still the originator's message. -/
def Packet.Faithful (p : Packet) : Prop :=
  p.env.SameMessage p.origin

/-- Nodes and the packets in flight between them. -/
structure Network (ι : Type) where
  nodes : ι → Node
  flight : List Packet

namespace Network

/-- What may happen: an originator sends a packet, a packet in flight is
handled, or a node becomes another one under the same identity, be it by one
of its own operations or by its host. -/
inductive Action (ι : Type)
  | send (p : Packet)
  | deliver (i : ι) (now : Nat) (p : Packet)
  | change (i : ι) (n : Node)

variable {ι : Type} [DecidableEq ι] [Crypto]

/-- The packets that handling `p` at `n` puts in flight.  Relayed user data
keeps its origin; every other message is new. -/
def emitted (n : Node) (p : Packet) (out : Outbox) : List Packet :=
  out.map fun sent =>
    { hop := sent.1
      sender := n.id
      env := sent.2
      origin := if sent.2.body.isUserData then p.origin else sent.2 }

/-- The network after `p` has been handled at `i`. -/
def handle (net : Network ι) (i : ι) (now : Nat) (p : Packet) : Network ι :=
  let handled := (net.nodes i).handleEnvelope now p.sender p.env
  { nodes := Function.update net.nodes i handled.node
    flight := net.flight ++ emitted (net.nodes i) p handled.out }

/-- One action. -/
inductive Step : Network ι → Action ι → Network ι → Prop
  | send {net : Network ι} {p : Packet} (hown : p.origin = p.env) :
      Step net (.send p) { net with flight := net.flight ++ [p] }
  | deliver {net : Network ι} {i : ι} {now : Nat} {p : Packet} (hflight : p ∈ net.flight)
      (hhop : (net.nodes i).id = p.hop) :
      Step net (.deliver i now p) (net.handle i now p)
  | change {net : Network ι} {i : ι} {n : Node} (hid : n.id = (net.nodes i).id) :
      Step net (.change i n) { net with nodes := Function.update net.nodes i n }

/-- A message that is taken as delivered is taken at the node that its
originator addressed. -/
def TakenWhereAddressed (e : Transition (Network ι) (Action ι)) : Prop :=
  match e.label with
  | .deliver i now p =>
      ((e.before.nodes i).handleEnvelope now p.sender p.env).event.isSome = true →
        (e.before.nodes i).id = p.origin.toId
  | _ => True

/-- A relay that handles a packet picks no hop but the destination. -/
def RelaysToDestination (e : Transition (Network ι) (Action ι)) : Prop :=
  match e.label with
  | .deliver i _ p => ∀ hop, (e.before.nodes i).Relays p.sender p.env hop → hop = p.env.toId
  | _ => True

omit [Crypto] in
/-- The packets that a node emits are its envelopes with their hop; one with
user data keeps the origin of the packet that caused it. -/
theorem mem_emitted {n : Node} {p q : Packet} {out : Outbox} :
    q ∈ emitted n p out ↔
      (q.hop, q.env) ∈ out ∧ q.sender = n.id ∧
        q.origin = if q.env.body.isUserData then p.origin else q.env := by
  unfold emitted
  rw [List.mem_map]
  constructor
  · intro ⟨sent, hsent, hq⟩
    rw [← hq]
    exact ⟨hsent, rfl, rfl⟩
  · intro ⟨hsent, hsender, horigin⟩
    refine ⟨(q.hop, q.env), hsent, ?_⟩
    dsimp only
    rw [← hsender, ← horigin]

/-- **The step.**  A relay that hands a faithful packet to its destination
makes a faithful copy. -/
theorem faithful_step (e : Transition (Network ι) (Action ι))
    (hstep : Step e.before e.label e.after) (h : ∀ p ∈ e.before.flight, p.Faithful)
    (hrelay : RelaysToDestination e) : ∀ p ∈ e.after.flight, p.Faithful := by
  rcases e with ⟨net, a, net'⟩
  dsimp only at hstep h ⊢
  cases hstep with
  | @send p hown =>
      intro q hq
      rcases List.mem_append.mp hq with hold | hnew
      · exact h q hold
      · rw [List.mem_singleton.mp hnew, Packet.Faithful, hown]
        exact Envelope.SameMessage.refl p.env
  | change hid => exact h
  | @deliver i now p hflight hhop =>
      intro q hq
      rcases List.mem_append.mp hq with hold | hnew
      · exact h q hold
      · obtain ⟨hsent, _, horigin⟩ := mem_emitted.mp hnew
        unfold Packet.Faithful
        rw [horigin]
        cases huser : q.env.body.isUserData with
        | false => exact Envelope.SameMessage.refl q.env
        | true =>
            obtain ⟨hrelays, hcopy⟩ := (Node.mem_handleEnvelope huser).mp hsent
            have hsame : q.env.SameMessage p.env := by
              rw [hcopy]
              exact Node.relayedCopy_sameMessage_iff.mpr (hrelay q.hop hrelays)
            exact hsame.trans (h p hflight)

/-- A faithful packet is taken where its originator addressed it. -/
theorem takenWhereAddressed_of_faithful {e : Transition (Network ι) (Action ι)}
    (hstep : Step e.before e.label e.after) (h : ∀ p ∈ e.before.flight, p.Faithful) :
    TakenWhereAddressed e := by
  rcases e with ⟨net, a, net'⟩
  dsimp only at hstep h
  cases hstep with
  | send hown => trivial
  | change hid => trivial
  | @deliver i now p hflight hhop =>
      intro hevent
      obtain ⟨_, _, hdest⟩ := Node.event_isSome_iff.mp hevent
      exact hdest.symm.trans (h p hflight).toId_eq

/-- A relay that picks another hop leaves a copy in flight that is no longer
the originator's message. -/
theorem relaysToDestination_of_faithful {e : Transition (Network ι) (Action ι)}
    (hstep : Step e.before e.label e.after) (h : ∀ p ∈ e.after.flight, p.Faithful) :
    RelaysToDestination e := by
  rcases e with ⟨net, a, net'⟩
  dsimp only at hstep h
  cases hstep with
  | send hown => trivial
  | change hid => trivial
  | @deliver i now p hflight hhop =>
      intro hop hrelays
      have huser : ((net.nodes i).relayedCopy p.env hop).body.isUserData = true := hrelays.2.1
      have hsent := (@Node.mem_handleEnvelope _ (net.nodes i) now p.sender hop p.env _ huser).mpr
        ⟨hrelays, rfl⟩
      have hcopy : Packet.mk hop (net.nodes i).id ((net.nodes i).relayedCopy p.env hop) p.origin ∈
          (net.handle i now p).flight := by
        refine List.mem_append_right _ (mem_emitted.mpr ⟨hsent, rfl, ?_⟩)
        rw [huser, if_pos rfl]
      have hkept := (h p (List.mem_append_left _ hflight)).toId_eq
      have hmoved := (h _ hcopy).toId_eq
      exact hmoved.trans hkept.symm

/-- **End-to-end delivery.**  Along a run, every packet in flight carries its
originator's message and every message is taken where its originator addressed
it, exactly when every relay hands what it relays to the destination itself. -/
theorem delivery_faithful_iff {net final : Network ι}
    {es : List (Transition (Network ι) (Action ι))} (hstart : net.flight = [])
    (run : Trace Step net es final) :
    (∀ e ∈ es, TakenWhereAddressed e ∧ ∀ p ∈ e.after.flight, p.Faithful) ↔
      ∀ e ∈ es, RelaysToDestination e := by
  constructor
  · intro h e he
    exact relaysToDestination_of_faithful (run.step_of_mem he) (h e he).2
  · intro h e he
    have hfaithful : ∀ p ∈ net.flight, p.Faithful := by
      intro p hp
      rw [hstart] at hp
      cases hp
    have hbefore : ∀ p ∈ e.before.flight, p.Faithful :=
      @Trace.invariant_before_of_all _ _ _ _ _ _
        (fun net : Network ι => ∀ p ∈ net.flight, p.Faithful) RelaysToDestination
        faithful_step run hfaithful h e he
    have hstep := run.step_of_mem he
    exact ⟨takenWhereAddressed_of_faithful hstep hbefore,
      faithful_step e hstep hbefore (h e he)⟩

omit [Crypto] [DecidableEq ι]

/-- A relay with one neighbour, and that neighbour, which knows the relay. -/
def lossyNetwork : Network Bool where
  nodes b :=
    if b then
      { Node.sample 2 with
        store := (@DescriptorStore.upsert checksumCrypto .new
          (@Node.ownDescriptor checksumCrypto (Node.sample 1) []) none).2 }
    else
      { Node.sample 1 with
        table := ((Node.sample 1).table.tryInsert
          (.new .greedy (Node.sample 2).id (Node.sample 2).id)).2 }
  flight := []

/-- User data for a third party. -/
def strayEnvelope : Envelope where
  toId := (Node.sample 3).id
  fromId := (Node.sample 4).id
  messageId := 1
  ttl := 20
  messageClass := .normal
  routeFork := false
  body := .userData [0x41]
  signature := []

/-- User data for a third party, handed to the relay. -/
def strayPacket : Packet where
  hop := (Node.sample 1).id
  sender := (Node.sample 4).id
  env := strayEnvelope
  origin := strayEnvelope

/-- The copy that the relay makes. -/
def strayCopy : Packet where
  hop := (Node.sample 2).id
  sender := (Node.sample 1).id
  env := @Node.relayedCopy checksumCrypto (lossyNetwork.nodes false) strayEnvelope
    (Node.sample 2).id
  origin := strayEnvelope

/-- The lossy network with the stray packet in flight, and after its relay. -/
def strayStates : Network Bool × Network Bool :=
  let sent : Network Bool := { lossyNetwork with flight := lossyNetwork.flight ++ [strayPacket] }
  (sent, @handle Bool _ checksumCrypto sent false 0 strayPacket)

/-- The stray packet is sent, relayed, and its copy is delivered. -/
def lossyRun : List (Transition (Network Bool) (Action Bool)) :=
  [⟨lossyNetwork, .send strayPacket, strayStates.1⟩,
    ⟨strayStates.1, .deliver false 0 strayPacket, strayStates.2⟩,
    ⟨strayStates.2, .deliver true 0 strayCopy,
      @handle Bool _ checksumCrypto strayStates.2 true 0 strayCopy⟩]

/-- The run of the stray packet is one, ending with the copy that the wrong
node takes. -/
theorem lossyRun_trace :
    Trace (@Step Bool _ checksumCrypto) lossyNetwork lossyRun
      (@handle Bool _ checksumCrypto strayStates.2 true 0 strayCopy) := by
  have hsend : @Step Bool _ checksumCrypto lossyNetwork (.send strayPacket) strayStates.1 :=
    @Step.send Bool _ checksumCrypto lossyNetwork strayPacket rfl
  have hrelay : @Step Bool _ checksumCrypto strayStates.1 (.deliver false 0 strayPacket)
      strayStates.2 :=
    @Step.deliver Bool _ checksumCrypto strayStates.1 false 0 strayPacket
      List.mem_cons_self rfl
  have hemitted : strayCopy ∈ @emitted (lossyNetwork.nodes false) strayPacket
      (@Node.handleEnvelope checksumCrypto (lossyNetwork.nodes false) 0 strayPacket.sender
        strayPacket.env).out := by
    decide +kernel
  have hdeliver : @Step Bool _ checksumCrypto strayStates.2 (.deliver true 0 strayCopy)
      (@handle Bool _ checksumCrypto strayStates.2 true 0 strayCopy) :=
    @Step.deliver Bool _ checksumCrypto strayStates.2 true 0 strayCopy
      (List.mem_append_right _ hemitted) rfl
  exact .snoc (.snoc (.single hsend) hrelay) hdeliver

/-- The stray packet defeats both sides of the equivalence, so it is not an
empty one. -/
theorem delivery_faithful_iff_stray :
    (∀ e ∈ lossyRun, @TakenWhereAddressed Bool checksumCrypto e ∧
      ∀ p ∈ e.after.flight, p.Faithful) ↔
      ∀ e ∈ lossyRun, @RelaysToDestination Bool checksumCrypto e :=
  @delivery_faithful_iff Bool _ checksumCrypto _ _ _ rfl lossyRun_trace

/-- **User data for a third party ends at the neighbour** of the relay, which
takes it as its own. -/
theorem user_data_misdelivered :
    lossyNetwork.flight = [] ∧
      (∃ final, Trace (@Step Bool _ checksumCrypto) lossyNetwork lossyRun final) ∧
        ¬ ∀ e ∈ lossyRun, @TakenWhereAddressed Bool checksumCrypto e ∧
          ∀ p ∈ e.after.flight, p.Faithful := by
  refine ⟨rfl, ⟨_, lossyRun_trace⟩, ?_⟩
  intro h
  have htaken := (h _ (List.mem_cons_of_mem _ (List.mem_cons_of_mem _ List.mem_cons_self))).1
  have hevent : (@Node.handleEnvelope checksumCrypto (lossyNetwork.nodes true) 0
      strayCopy.sender strayCopy.env).event.isSome = true := by
    decide +kernel
  have hplace : (lossyNetwork.nodes true).id = strayEnvelope.toId := htaken hevent
  have hother : (lossyNetwork.nodes true).id ≠ strayEnvelope.toId := by
    decide +kernel
  exact hother hplace

end Network

end Zona
