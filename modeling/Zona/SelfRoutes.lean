import Zona.Introductions
import Zona.SlotOrigins
import Zona.StoreConvergence

/-!
# A node and its own slots

Slots are filled from five places, and only the exchange of candidates skips
the node itself.  `never_routes_to_itself` goes through all of them: what a
node has to be spared, so that it never holds a slot for itself.  For
introductions the condition is exact.
-/

namespace Zona

namespace Node

variable [Crypto]

/-- An envelope that a node processes offers it itself: a valid hello under its
own name, or a lookup answer that lists it. -/
def NamesItself (n : Node) : Call → Prop
  | .handleEnvelope _ peer env =>
      n.admits peer env = true ∧
        match env.body with
        | .hello d => verifyDescriptor d = .ok () ∧ peer = n.id
        | .foundNodes peers => ∃ c ∈ peers, c.descriptor.nodeId = n.id
        | _ => False
  | _ => False

/-- An exchange never offers the node itself, and nothing else does when no
envelope names it. -/
theorem offers_ne {n : Node} {call : Call} (hpex : n.pex.selfId = n.id)
    (hnames : ¬ n.NamesItself call) : ∀ o ∈ n.callOffers call, o.peerId ≠ n.id := by
  intro o ho hself
  cases call with
  | handleEnvelope now peer env =>
      have ho' : o ∈ n.offers peer env := ho
      refine hnames ⟨admits_of_offer ho', ?_⟩
      rw [offers, if_pos (admits_of_offer ho')] at ho'
      revert ho'
      cases env.body with
      | hello d =>
          dsimp only [offersOf]
          cases verifyDescriptor d with
          | ok u =>
              intro ho'
              rw [List.mem_singleton.mp ho'] at hself
              exact ⟨rfl, hself⟩
          | error e => exact fun ho' => absurd ho' List.not_mem_nil
      | foundNodes peers =>
          intro ho'
          obtain ⟨c, hc, rfl⟩ := List.mem_map.mp ho'
          exact ⟨c, hc, hself⟩
      | pex candidates =>
          intro ho'
          obtain ⟨c, hc, rfl⟩ := List.mem_map.mp ho'
          have hother := (List.mem_filter.mp hc).2
          exact of_decide_eq_true hother (hself.trans hpex.symm)
      | _ => exact fun ho' => absurd ho' List.not_mem_nil
  | _ => cases ho

/-- The node skips itself in exchanges, and has no slot for itself. -/
structure NoSelfRoute (n : Node) : Prop where
  pex : n.pex.selfId = n.id
  slots : ¬ n.RoutesToSelf

/-- One call keeps a node without a slot for itself, unless the call names the
node. -/
theorem noSelfRoute_step {n m : Node} {call : Call} (hstep : n.Step call m)
    (hcall : call.IsOperation) (hnames : ¬ n.NamesItself call) (h : n.NoSelfRoute) :
    m.NoSelfRoute := by
  obtain ⟨hid, _, hpex⟩ := identity_step hstep
  refine ⟨by rw [hpex, h.pex, hid], ?_⟩
  rintro ⟨s, hs, hself⟩
  rw [hid] at hself
  rcases slot_origin_step hstep hcall hs with ⟨s', hs', hpeer⟩ | ⟨o, ho, hpeer⟩
  · exact h.slots ⟨s', hs', hpeer.trans hself⟩
  · exact offers_ne h.pex hnames o ho (hpeer.trans hself)

/-- A run in which no call names the node leaves it without a slot for itself. -/
theorem noSelfRoute_of_run {keypair : NodeKeypair} {config : NodeConfig} {n : Node}
    {es : List (Transition Node Call)} (run : Trace Step (Node.new keypair config) es n)
    (hcalls : ∀ e ∈ es, e.label.IsOperation) (hnames : ∀ e ∈ es, ¬ e.before.NamesItself e.label) :
    n.NoSelfRoute := by
  have hstart : (Node.new keypair config).NoSelfRoute := by
    refine ⟨rfl, ?_⟩
    rintro ⟨s, hs, _⟩
    cases hs
  exact @Trace.invariant_of_all _ _ Step _ n es NoSelfRoute
    (fun e => e.label.IsOperation ∧ ¬ e.before.NamesItself e.label)
    (fun _ he h hgood => noSelfRoute_step he hgood.1 hgood.2 h)
    run hstart (fun e he => ⟨hcalls e he, hnames e he⟩)

end Node

variable [Crypto]

/-- **When a node never routes to itself.**  A node that handles envelopes and
repairs its table: when none of the envelopes it processes offers it itself.  A
server and a plain node that are introduced to others: exactly when no
introduction names them. -/
theorem never_routes_to_itself :
    (∀ (keypair : NodeKeypair) (config : NodeConfig) (es : List (Transition Node Node.Call))
        (n : Node), Trace Node.Step (Node.new keypair config) es n →
      (∀ e ∈ es, e.label.IsOperation) → (∀ e ∈ es, ¬ e.before.NamesItself e.label) →
        ¬ n.RoutesToSelf) ∧
    (∀ (selfUrl : String) (keypair : NodeKeypair)
        (es : List (Transition ServerState ContactCall)) (st : ServerState),
      Trace ServerState.ContactStep (ServerState.new selfUrl keypair) es st →
        (¬ st.node.RoutesToSelf ↔ ∀ e ∈ es, ¬ e.label.Names st.node.id)) ∧
    (∀ (selfUrl : String) (keypair : NodeKeypair)
        (es : List (Transition AdminState ContactCall)) (st : AdminState),
      Trace AdminState.ContactStep (AdminState.new selfUrl keypair) es st →
        (¬ st.node.RoutesToSelf ↔ ∀ e ∈ es, ¬ e.label.Names st.node.id)) := by
  refine ⟨?_, ?_, ?_⟩
  · intro keypair config es n run hcalls hnames
    exact (Node.noSelfRoute_of_run run hcalls hnames).slots
  · intro selfUrl keypair es st run
    have hiff := Contacts.routesToSelf_of_run ServerState.contacts
      (fun _ _ _ h => ServerState.contactStep_contacts h) rfl run
    have hiff' : st.node.RoutesToSelf ↔ ∃ e ∈ es, e.label.Names st.node.id := hiff
    rw [hiff']
    simp only [not_exists, not_and]
  · intro selfUrl keypair es st run
    have hiff := Contacts.routesToSelf_of_run AdminState.contacts
      (fun _ _ _ h => AdminState.contactStep_contacts h) rfl run
    have hiff' : st.node.RoutesToSelf ↔ ∃ e ∈ es, e.label.Names st.node.id := hiff
    rw [hiff']
    simp only [not_exists, not_and]

/-- A fresh server. -/
def sampleServer (k : UInt8) (selfUrl : String) : ServerState :=
  .new selfUrl (Node.sample k).keypair

/-- A fresh plain node. -/
def sampleAdmin (k : UInt8) (selfUrl : String) : AdminState :=
  .new selfUrl (Node.sample k).keypair

omit [Crypto] in
/-- A fresh server that introduces itself to a fresh one learns of itself. -/
theorem ServerState.routesToSelf_of_reply (keypair other : NodeKeypair)
    (url otherUrl target : String) :
    ((ServerState.new url keypair).doIntroduce target
      (some ((ServerState.new otherUrl other).httpIntroduce
        (ServerState.new url keypair).introduction).1)).2.node.RoutesToSelf := by
  rw [doIntroduce_some_node, httpIntroduce_fst, contacts_new, contacts_new, introduction_new]
  exact Contacts.routesToSelf_of_reply keypair other url target

omit [Crypto] in
/-- A fresh plain node that introduces itself to a fresh one learns of itself. -/
theorem AdminState.routesToSelf_of_reply (keypair other : NodeKeypair)
    (url otherUrl target : String) :
    ((AdminState.new url keypair).doIntroduce target
      (some ((AdminState.new otherUrl other).handleIntroduce
        (AdminState.new url keypair).introduceBody).1)).2.node.RoutesToSelf := by
  rw [doIntroduce_some_node, handleIntroduce_fst, contacts_new, contacts_new, introduceBody_new]
  exact Contacts.routesToSelf_of_reply keypair other url target

omit [Crypto] in
/-- A server that is introduced to another node does not route to itself. -/
theorem introduced_to_another :
    ¬ ((sampleServer 1 "http://a:8801").httpIntroduce
      ⟨(Node.sample 2).id.hex, "http://b:8801", true⟩).2.node.RoutesToSelf :=
  ((@never_routes_to_itself checksumCrypto).2.1 "http://a:8801" (Node.sample 1).keypair
    [⟨sampleServer 1 "http://a:8801",
      .introduce ⟨(Node.sample 2).id.hex, "http://b:8801", true⟩, _⟩] _
    (Trace.single rfl)).mpr (by
      intro e he
      rw [List.mem_singleton.mp he]
      rintro ⟨entry, hentry, hparse⟩
      rw [List.mem_singleton.mp hentry, NodeId.parse_hex, Option.some.injEq] at hparse
      have hother : (Node.sample 2).id ≠ (Node.sample 1).id := by decide +kernel
      exact hother hparse)

omit [Crypto] in
/-- **Nodes that route to themselves.**  A node that is sent one lookup answer
listing it, and a server and a plain node that introduce themselves to a fresh
one of their kind, whose honest reply lists the newcomer. -/
theorem learns_of_itself :
    (∃ es n, Trace (@Node.Step checksumCrypto) (Node.sample 7) es n ∧
      (∀ e ∈ es, e.label.IsOperation) ∧ n.RoutesToSelf) ∧
    (∃ es st, Trace ServerState.ContactStep (sampleServer 1 "http://a:8801") es st ∧
      es.map Transition.label = [.introduced "http://b:8801"
        (some ((sampleServer 2 "http://b:8801").httpIntroduce
          (sampleServer 1 "http://a:8801").introduction).1)] ∧ st.node.RoutesToSelf) ∧
    (∃ es st, Trace AdminState.ContactStep (sampleAdmin 1 "http://a:7701") es st ∧
      es.map Transition.label = [.introduced "http://b:7701"
        (some ((sampleAdmin 2 "http://b:7701").handleIntroduce
          (sampleAdmin 1 "http://a:7701").introduceBody).1)] ∧ st.node.RoutesToSelf) := by
  refine ⟨?_, ?_, ?_⟩
  · refine ⟨_, _, oneEnvelopeRun_trace (.foundNodes [⟨sampleDescriptor 7 1, (Node.sample 8).id⟩]),
      oneEnvelopeRun_operations _, ?_⟩
    unfold Node.RoutesToSelf
    decide +kernel
  · exact ⟨_, _, Trace.single rfl, rfl, ServerState.routesToSelf_of_reply
      (Node.sample 1).keypair (Node.sample 2).keypair _ _ _⟩
  · exact ⟨_, _, Trace.single rfl, rfl, AdminState.routesToSelf_of_reply
      (Node.sample 1).keypair (Node.sample 2).keypair _ _ _⟩

end Zona
