import Zona.PeerUrls
import Zona.RelaySearch

/-!
# Joining the overlay

A node that starts asks its seeds for an introduction, each up to eight times,
and then once every neighbour it learned of that is no seed.  A server asks a
seed again when there was no reply, a plain node also when the reply named no
neighbours.

Many nodes may join at a time, while requests and replies are under way or lost.
`joined_correct` says that the URLs that nodes then have of each other are right,
so that relays through them are searches, and `joined_connected` that nodes know
each other both ways.  `bootstrap_bounded` counts the requests of one node.
-/

namespace Zona

/-- What a node has still to ask: seeds, with the attempt at the first and the
neighbours learned so far, or neighbours. -/
inductive BootstrapStage
  | seeding (seed : String) (rest : List String) (attempt : Nat) (secondHop : List NeighborInfo)
  | neighbors (left : List NeighborInfo)

namespace BootstrapStage

/-- The next seed, or the neighbours that are no seeds. -/
def nextSeed (seeds : List String) :
    List String → List NeighborInfo → BootstrapStage
  | [], secondHop => .neighbors (secondHop.filter fun nb => !seeds.contains nb.adminUrl)
  | seed :: rest, secondHop => .seeding seed rest 1 secondHop

def start (seeds : List String) : BootstrapStage :=
  nextSeed seeds seeds []

/-- The URL that is asked. -/
def target : BootstrapStage → Option String
  | .seeding seed _ _ _ => some seed
  | .neighbors left => left.head?.map NeighborInfo.adminUrl

/-- `NodeServer::bootstrap`: the neighbours in the reply, if there is one. -/
def afterIntroduce (seeds : List String) (reply : Option (List NeighborInfo)) :
    BootstrapStage → BootstrapStage
  | .seeding seed rest attempt secondHop =>
      match reply with
      | some found => nextSeed seeds rest (secondHop ++ found)
      | none =>
          if attempt < 8 then .seeding seed rest (attempt + 1) secondHop
          else nextSeed seeds rest secondHop
  | .neighbors left => .neighbors left.tail

/-- The bootstrap of a plain node, for which no reply names no neighbours. -/
def afterNeighbors (seeds : List String) (found : List NeighborInfo) :
    BootstrapStage → BootstrapStage
  | .seeding seed rest attempt secondHop =>
      if found ≠ [] ∨ attempt = 8 then nextSeed seeds rest (secondHop ++ found)
      else .seeding seed rest (attempt + 1) secondHop
  | .neighbors left => .neighbors left.tail

end BootstrapStage

namespace RelayNode

def contacts : RelayNode → Contacts
  | .server st => st.contacts
  | .admin st => st.contacts

def selfUrl : RelayNode → String
  | .server st => st.selfUrl
  | .admin st => st.selfUrl

def introduction : RelayNode → IntroduceRequest
  | .server st => st.introduction
  | .admin st => st.introduceBody

def introduce (req : IntroduceRequest) : RelayNode → IntroduceResponse × RelayNode
  | .server st => ((st.httpIntroduce req).1, .server (st.httpIntroduce req).2)
  | .admin st => ((st.handleIntroduce req).1, .admin (st.handleIntroduce req).2)

/-- Take in the reply of a target. -/
def introduced (target : String) (reply : IntroduceResponse) : RelayNode → RelayNode
  | .server st => .server (st.doIntroduce target (some reply)).2
  | .admin st => .admin (st.doIntroduce target (some reply)).2

/-- The round after a reply, or after none. -/
def advance (seeds : List String) (reply : Option IntroduceResponse) (stage : BootstrapStage) :
    RelayNode → BootstrapStage
  | .server _ => stage.afterIntroduce seeds (reply.map IntroduceResponse.neighbors)
  | .admin _ => stage.afterNeighbors seeds ((reply.map IntroduceResponse.neighbors).getD [])

variable (n : RelayNode)

/-- What a node says when it asks for an introduction: its identifier, its URL,
and that it wants to be registered. -/
theorem introduction_eq : n.introduction = ⟨n.contacts.node.id.hex, n.selfUrl, true⟩ := by
  cases n with
  | _ => rfl

/-- What an introduction does to the contacts of the node that is asked is the
call that the modules on contacts speak of, for either kind of node. -/
theorem contacts_introduce (req : IntroduceRequest) :
    (n.introduce req).2.contacts = n.contacts.perform (.introduce req) := by
  cases n with
  | _ => rfl

/-- A reply carries the identifier of the node that gives it, which is what the
asker registers under the URL it has asked. -/
theorem introduce_nodeId (req : IntroduceRequest) :
    (n.introduce req).1.nodeId = n.contacts.node.id.hex := by
  cases n with
  | _ => rfl

/-- The reply names neighbours that the node has after the call. -/
theorem introduce_neighbors (req : IntroduceRequest) :
    (n.introduce req).1.neighbors = (n.introduce req).2.contacts.neighbors := by
  cases n with
  | _ => rfl

/-- What a reply does to the contacts of the asker is the call that the modules
on contacts speak of, for either kind of node. -/
theorem contacts_introduced (target : String) (reply : IntroduceResponse) :
    (n.introduced target reply).contacts =
      n.contacts.perform (.introduced target (some reply)) := by
  cases n with
  | _ => rfl

/-- A node that is asked keeps its own URL. -/
theorem selfUrl_introduce (req : IntroduceRequest) : (n.introduce req).2.selfUrl = n.selfUrl := by
  cases n with
  | _ => rfl

/-- A node that reads a reply keeps its own URL, whatever the reply says. -/
theorem selfUrl_introduced (target : String) (reply : IntroduceResponse) :
    (n.introduced target reply).selfUrl = n.selfUrl := by
  cases n with
  | _ => rfl

/-- The contacts of a plain node or a server hold its own node. -/
theorem contacts_node : n.contacts.node = n.node := by
  cases n with
  | _ => rfl

/-- The contacts of a plain node or a server hold its own URLs of peers. -/
theorem contacts_peerUrls : n.contacts.peerUrls = n.peerUrls := by
  cases n with
  | _ => rfl

end RelayNode

/-- A node that joins: how many requests it has sent, and whether it waits for
the reply to the last of them. -/
structure Joiner where
  stage : BootstrapStage
  asked : Nat
  waiting : Bool

/-- A request of a node, the how-manieth of its own, to a URL. -/
structure IntroduceCall (κ : Type) where
  asker : κ
  number : Nat
  url : String
  request : IntroduceRequest

structure IntroduceReply (κ : Type) where
  asker : κ
  number : Nat
  url : String
  response : IntroduceResponse

/-- The nodes, and the requests and replies so far.  Each of these may arrive late
or never. -/
structure JoiningNetwork (κ : Type) where
  nodes : κ → RelayNode
  joiners : κ → Joiner
  calls : List (IntroduceCall κ)
  replies : List (IntroduceReply κ)

namespace JoiningNetwork

variable {κ : Type} [DecidableEq κ]

inductive Event (κ : Type)
  | ask (k : κ)
  | handle (call : IntroduceCall κ)
  | answer (reply : IntroduceReply κ)
  | fail (k : κ)

/-- A node is done with its last request. -/
def proceed (net : JoiningNetwork κ) (seeds : κ → List String) (k : κ)
    (reply : Option IntroduceResponse) : κ → Joiner :=
  Function.update net.joiners k
    { net.joiners k with
      stage := (net.nodes k).advance (seeds k) reply (net.joiners k).stage
      waiting := false }

inductive Step (resolve : String → Option κ) (seeds : κ → List String) :
    JoiningNetwork κ → Event κ → JoiningNetwork κ → Prop
  | ask {net : JoiningNetwork κ} {k : κ} {url : String}
      (hready : (net.joiners k).waiting = false)
      (htarget : (net.joiners k).stage.target = some url) :
      Step resolve seeds net (.ask k)
        { net with
          joiners := Function.update net.joiners k
            { net.joiners k with asked := (net.joiners k).asked + 1, waiting := true }
          calls := net.calls ++
            [⟨k, (net.joiners k).asked, url, (net.nodes k).introduction⟩] }
  | handle {net : JoiningNetwork κ} {call : IntroduceCall κ} {d : κ} (hcall : call ∈ net.calls)
      (hresolve : resolve call.url = some d) :
      Step resolve seeds net (.handle call)
        { net with
          nodes := Function.update net.nodes d ((net.nodes d).introduce call.request).2
          replies := net.replies ++
            [⟨call.asker, call.number, call.url, ((net.nodes d).introduce call.request).1⟩] }
  | answer {net : JoiningNetwork κ} {reply : IntroduceReply κ} (hreply : reply ∈ net.replies)
      (hwaiting : (net.joiners reply.asker).waiting = true)
      (hlast : (net.joiners reply.asker).asked = reply.number + 1) :
      Step resolve seeds net (.answer reply)
        { net with
          nodes := Function.update net.nodes reply.asker
            ((net.nodes reply.asker).introduced reply.url reply.response)
          joiners := net.proceed seeds reply.asker (some reply.response) }
  | fail {net : JoiningNetwork κ} {k : κ} (hwaiting : (net.joiners k).waiting = true) :
      Step resolve seeds net (.fail k) { net with joiners := net.proceed seeds k none }

/-- Nobody has joined yet, and every node listens at its own URL. -/
structure Fresh (resolve : String → Option κ) (seeds : κ → List String)
    (net : JoiningNetwork κ) : Prop where
  distinct : Function.Injective fun k => (net.nodes k).node.id
  listening : ∀ k, resolve (net.nodes k).selfUrl = some k
  tables : ∀ k, (net.nodes k).node.table.slots = []
  urls : ∀ k, (net.nodes k).peerUrls = ∅
  joiners : ∀ k, net.joiners k = ⟨.start (seeds k), 0, false⟩
  calls : net.calls = []
  replies : net.replies = []

end JoiningNetwork

section Urls

variable {κ : Type} (resolve : String → Option κ) (own : κ → NodeId)

/-- The URL leads to the node that is named. -/
def OwnsUrl (nodeId url : String) : Prop :=
  ∃ v, resolve url = some v ∧ nodeId = (own v).hex

/-- Every URL leads to the node it is listed for. -/
def Contacts.Right (c : Contacts) : Prop :=
  ∀ id url, c.peerUrls.lookup id = some url → ∃ v, resolve url = some v ∧ own v = id

variable {resolve own}

namespace Contacts

/-- Registering a node under a URL that leads to it keeps the contacts right.
The entry that it may replace was right as well. -/
theorem Right.register {c : Contacts} (h : c.Right resolve own) {nodeId url : String}
    (hnamed : OwnsUrl resolve own nodeId url) : (c.register nodeId url).Right resolve own := by
  obtain ⟨v, hv, rfl⟩ := hnamed
  rw [Contacts.register, NodeId.parse_hex]
  intro id given hlookup
  dsimp only [enter] at hlookup
  by_cases hid : id = own v
  · rw [hid, HashMap.lookup_put_self] at hlookup
    cases hlookup
    exact ⟨v, hv, hid.symm⟩
  · rw [HashMap.lookup_put_of_ne hid] at hlookup
    exact h id given hlookup

/-- **Introductions of nodes by their own URLs** keep the URLs right.  What is
registered is what the request or the reply names. -/
theorem Right.perform {c : Contacts} (h : c.Right resolve own) {call : ContactCall}
    (hnamed : ∀ entry ∈ named call, OwnsUrl resolve own entry.1 entry.2) :
    (c.perform call).Right resolve own := by
  rw [perform_eq_foldl]
  generalize named call = entries at hnamed
  induction entries generalizing c with
  | nil => exact h
  | cons entry rest ih =>
      apply ih (h.register (hnamed entry List.mem_cons_self))
      intro later hlater
      exact hnamed later (List.mem_cons_of_mem _ hlater)

theorem Right.neighbors {c : Contacts} (h : c.Right resolve own) :
    ∀ nb ∈ c.neighbors, OwnsUrl resolve own nb.nodeId nb.adminUrl := by
  intro nb hnb
  obtain ⟨slot, _, hslot⟩ := List.mem_filterMap.mp hnb
  obtain ⟨url, hurl, rfl⟩ := Option.map_eq_some_iff.mp hslot
  obtain ⟨v, hv, hid⟩ := h _ _ hurl
  exact ⟨v, hv, congrArg NodeId.hex hid.symm⟩

/-- A reply names three neighbours at most, which bounds what there is to ask
in the second round. -/
theorem length_neighbors (c : Contacts) : c.neighbors.length ≤ 3 := by
  have htake : (c.node.table.slots.take 3).length ≤ 3 := List.length_take_le 3 _
  exact Nat.le_trans (List.length_filterMap_le _ _) htake

/-- Registering forgets nobody, as the map of URLs only gains entries or has
one replaced. -/
theorem mem_register_of_mem {c : Contacts} {id : NodeId} (h : id ∈ c.peerUrls)
    (nodeId url : String) : id ∈ (c.register nodeId url).peerUrls := by
  unfold register
  cases NodeId.parse nodeId with
  | none => exact h
  | some nid => exact HashMap.mem_put.mpr (Or.inr h)

theorem mem_perform {c : Contacts} {call : ContactCall} {id : NodeId}
    (h : id ∈ c.peerUrls ∨ ∃ entry ∈ named call, NodeId.parse entry.1 = some id) :
    id ∈ (c.perform call).peerUrls := by
  rw [perform_eq_foldl]
  generalize named call = entries at h
  induction entries generalizing c with
  | nil =>
      rcases h with hknown | ⟨entry, hentry, _⟩
      · exact hknown
      · cases hentry
  | cons entry rest ih =>
      apply ih
      rcases h with hknown | ⟨named, hnamed, hparse⟩
      · exact Or.inl (mem_register_of_mem hknown _ _)
      · rcases List.mem_cons.mp hnamed with hfirst | hrest
        · have hentered : (c.register entry.1 entry.2).peerUrls = c.peerUrls.put id entry.2 := by
            unfold register
            rw [← hfirst, hparse]
            rfl
          refine Or.inl ?_
          change id ∈ (c.register entry.1 entry.2).peerUrls
          rw [hentered]
          exact HashMap.mem_put.mpr (Or.inl rfl)
        · exact Or.inr ⟨named, hrest, hparse⟩

/-- Introductions leave the node its identifier, so a URL that led to a node
leads to the same node later. -/
theorem id_perform (c : Contacts) (call : ContactCall) : (c.perform call).node.id = c.node.id := by
  rw [perform_eq_foldl]
  induction named call generalizing c with
  | nil => rfl
  | cons entry rest ih =>
      have hid : (c.register entry.1 entry.2).node.id = c.node.id := by
        unfold register
        cases NodeId.parse entry.1 with
        | _ => rfl
      exact (ih _).trans hid

end Contacts

end Urls

namespace JoiningNetwork

variable {κ : Type} [DecidableEq κ] {resolve : String → Option κ} {seeds : κ → List String}
  {own : κ → NodeId}

/-- A node has a URL of another one. -/
def Knows (net : JoiningNetwork κ) (u v : κ) : Prop :=
  (net.nodes v).node.id ∈ (net.nodes u).peerUrls

/-- What joining keeps: the nodes listen where they say and are who they are, their
URLs are right, and what is under way is true. -/
structure Honest (resolve : String → Option κ) (own : κ → NodeId) (net : JoiningNetwork κ) :
    Prop where
  ids : ∀ k, (net.nodes k).contacts.node.id = own k
  listening : ∀ k, resolve (net.nodes k).selfUrl = some k
  urls : ∀ k, (net.nodes k).contacts.Right resolve own
  calls : ∀ call ∈ net.calls, call.request.registerPeer = true ∧
    call.request.nodeId = (own call.asker).hex ∧ resolve call.request.adminUrl = some call.asker
  replies : ∀ reply ∈ net.replies,
    (∃ d, resolve reply.url = some d ∧ reply.response.nodeId = (own d).hex ∧
        own reply.asker ∈ (net.nodes d).contacts.peerUrls) ∧
      (∀ nb ∈ reply.response.neighbors, OwnsUrl resolve own nb.nodeId nb.adminUrl) ∧
        reply.response.neighbors.length ≤ 3

/-- One node has gone through a call and the others have not, so what held of
all holds of all still, if it holds of that one. -/
theorem forall_update {P : κ → RelayNode → Prop} {net : JoiningNetwork κ} {d : κ} {n : RelayNode}
    (h : ∀ k, P k (net.nodes k)) (hn : P d n) : ∀ k, P k (Function.update net.nodes d n k) := by
  intro k
  by_cases hk : k = d
  · rw [hk, Function.update_self]
    exact hn
  · rw [Function.update_of_ne hk]
    exact h k

/-- Nobody forgets anybody in a call: the one node that changes keeps its URLs,
and the others are as they were. -/
theorem mem_update {nodes : κ → RelayNode} {d u : κ} {n : RelayNode} {call : ContactCall}
    (hn : n.contacts = (nodes d).contacts.perform call) {id : NodeId}
    (h : id ∈ (nodes u).contacts.peerUrls) :
    id ∈ (Function.update nodes d n u).contacts.peerUrls := by
  by_cases hu : u = d
  · rw [hu, Function.update_self, hn]
    rw [hu] at h
    exact Contacts.mem_perform (Or.inl h)
  · rw [Function.update_of_ne hu]
    exact h

/-- One step keeps the network honest: requests and replies under way tell the
truth, because the node that sent them did. -/
theorem Honest.step {net net' : JoiningNetwork κ} {ev : Event κ} (h : net.Honest resolve own)
    (hstep : Step resolve seeds net ev net') : net'.Honest resolve own := by
  cases hstep with
  | @ask k url hready htarget =>
      refine ⟨h.ids, h.listening, h.urls, ?_, h.replies⟩
      intro call hcall
      rcases List.mem_append.mp hcall with hold | hnew
      · exact h.calls call hold
      · rw [List.mem_singleton.mp hnew, RelayNode.introduction_eq, h.ids]
        exact ⟨rfl, rfl, h.listening k⟩
  | @handle call d hcall hresolve =>
      obtain ⟨hregister, hid, hurl⟩ := h.calls call hcall
      have hcontacts := (net.nodes d).contacts_introduce call.request
      have hnamed : ∀ entry ∈ Contacts.named (.introduce call.request),
          OwnsUrl resolve own entry.1 entry.2 := by
        intro entry hentry
        rw [Contacts.named, if_pos hregister] at hentry
        rw [List.mem_singleton.mp hentry]
        exact ⟨call.asker, hurl, hid⟩
      have hright : ((net.nodes d).introduce call.request).2.contacts.Right resolve own := by
        rw [hcontacts]
        exact (h.urls d).perform hnamed
      refine ⟨?_, ?_, ?_, h.calls, ?_⟩
      · refine forall_update (P := fun k n => n.contacts.node.id = own k) h.ids ?_
        rw [hcontacts, Contacts.id_perform]
        exact h.ids d
      · refine forall_update (P := fun k n => resolve n.selfUrl = some k) h.listening ?_
        rw [RelayNode.selfUrl_introduce]
        exact h.listening d
      · exact forall_update (P := fun _ n => n.contacts.Right resolve own) h.urls hright
      · intro reply hreply
        rcases List.mem_append.mp hreply with hold | hnew
        · obtain ⟨⟨d', hd', hname, hknown⟩, hrest⟩ := h.replies reply hold
          exact ⟨⟨d', hd', hname, mem_update hcontacts hknown⟩, hrest⟩
        · rw [List.mem_singleton.mp hnew]
          dsimp only
          refine ⟨⟨d, hresolve, ?_, ?_⟩, ?_, ?_⟩
          · rw [RelayNode.introduce_nodeId, h.ids]
          · rw [Function.update_self, hcontacts]
            refine Contacts.mem_perform
              (Or.inr ⟨(call.request.nodeId, call.request.adminUrl), ?_, ?_⟩)
            · rw [Contacts.named, if_pos hregister]
              exact List.mem_cons_self
            · rw [hid, NodeId.parse_hex]
          · rw [RelayNode.introduce_neighbors]
            exact hright.neighbors
          · rw [RelayNode.introduce_neighbors]
            exact Contacts.length_neighbors _
  | @answer reply hreply hwaiting hlast =>
      obtain ⟨⟨d, hresolve, hname, hknown⟩, hneighbors, _⟩ := h.replies reply hreply
      have hcontacts :=
        (net.nodes reply.asker).contacts_introduced reply.url reply.response
      have hnamed : ∀ entry ∈ Contacts.named (.introduced reply.url (some reply.response)),
          OwnsUrl resolve own entry.1 entry.2 := by
        intro entry hentry
        rcases List.mem_cons.mp hentry with rfl | hlater
        · exact ⟨d, hresolve, hname⟩
        · obtain ⟨nb, hnb, rfl⟩ := List.mem_map.mp hlater
          exact hneighbors nb hnb
      refine ⟨?_, ?_, ?_, h.calls, ?_⟩
      · refine forall_update (P := fun k n => n.contacts.node.id = own k) h.ids ?_
        rw [hcontacts, Contacts.id_perform]
        exact h.ids _
      · refine forall_update (P := fun k n => resolve n.selfUrl = some k) h.listening ?_
        rw [RelayNode.selfUrl_introduced]
        exact h.listening _
      · refine forall_update (P := fun _ n => n.contacts.Right resolve own) h.urls ?_
        rw [hcontacts]
        exact (h.urls _).perform hnamed
      · intro other hother
        obtain ⟨⟨d', hd', hname', hknown'⟩, hrest⟩ := h.replies other hother
        exact ⟨⟨d', hd', hname', mem_update hcontacts hknown'⟩, hrest⟩
  | fail hwaiting => exact ⟨h.ids, h.listening, h.urls, h.calls, h.replies⟩

/-- Nobody is forgotten in a step, so a connection that was made holds until
the end of the run. -/
theorem mem_step {net net' : JoiningNetwork κ} {ev : Event κ}
    (hstep : Step resolve seeds net ev net') {u : κ} {id : NodeId}
    (h : id ∈ (net.nodes u).contacts.peerUrls) : id ∈ (net'.nodes u).contacts.peerUrls := by
  cases hstep with
  | handle _ _ => exact mem_update ((net.nodes _).contacts_introduce _) h
  | answer _ _ _ => exact mem_update ((net.nodes _).contacts_introduced _ _) h
  | _ => exact h

/-- **A reply** makes the node and the one that answered known to each other:
the request was registered, and now the reply is. -/
theorem Honest.answered {net net' : JoiningNetwork κ} {reply : IntroduceReply κ}
    (h : net.Honest resolve own) (hstep : Step resolve seeds net (.answer reply) net') {d : κ}
    (hd : resolve reply.url = some d) :
    own d ∈ (net'.nodes reply.asker).contacts.peerUrls ∧
      own reply.asker ∈ (net'.nodes d).contacts.peerUrls := by
  cases hstep with
  | answer hreply hwaiting hlast =>
      obtain ⟨⟨d', hresolve, hname, hknown⟩, _⟩ := h.replies reply hreply
      obtain rfl : d = d' := Option.some.inj (hd.symm.trans hresolve)
      have hcontacts := (net.nodes reply.asker).contacts_introduced reply.url reply.response
      refine ⟨?_, mem_update hcontacts hknown⟩
      dsimp only
      rw [Function.update_self, hcontacts]
      refine Contacts.mem_perform (Or.inr ⟨_, List.mem_cons_self, ?_⟩)
      rw [hname, NodeId.parse_hex]

variable {start t : JoiningNetwork κ} {es : List (Transition (JoiningNetwork κ) (Event κ))}

omit [DecidableEq κ] in
/-- Fresh nodes are honest, since they know nobody and nothing is under way. -/
theorem Fresh.honest (h : start.Fresh resolve seeds) :
    start.Honest resolve fun k => (start.nodes k).node.id where
  ids k := congrArg Node.id (start.nodes k).contacts_node
  listening := h.listening
  urls k := by
    intro id url hlookup
    rw [RelayNode.contacts_peerUrls, h.urls k] at hlookup
    cases hlookup
  calls call hcall := by
    rw [h.calls] at hcall
    cases hcall
  replies reply hreply := by
    rw [h.replies] at hreply
    cases hreply

/-- A whole run keeps the network honest, whichever order its introductions,
replies and losses come in. -/
theorem run_honest (h : start.Honest resolve own) (run : Trace (Step resolve seeds) start es t) :
    t.Honest resolve own :=
  run.invariant (fun _ _ _ hstep hbefore => hbefore.step hstep) h

/-- Every peer in the table of a node has a URL. -/
theorem run_known (h : ∀ k, (start.nodes k).contacts.Known)
    (run : Trace (Step resolve seeds) start es t) : ∀ k, (t.nodes k).contacts.Known := by
  have hkept : ∀ net ev net', Step resolve seeds net ev net' →
      (∀ k, (net.nodes k).contacts.Known) → ∀ k, (net'.nodes k).contacts.Known := by
    intro net ev net' hstep hbefore
    cases hstep with
    | @handle call d hcall hresolve =>
        refine forall_update (P := fun _ n => n.contacts.Known) hbefore ?_
        rw [RelayNode.contacts_introduce]
        exact (hbefore d).perform _
    | @answer reply hreply hwaiting hlast =>
        refine forall_update (P := fun _ n => n.contacts.Known) hbefore ?_
        rw [RelayNode.contacts_introduced]
        exact (hbefore reply.asker).perform _
    | ask _ _ => exact hbefore
    | fail _ => exact hbefore
  exact run.invariant hkept h

/-- A node has had a reply of another one. -/
def Answered (resolve : String → Option κ)
    (es : List (Transition (JoiningNetwork κ) (Event κ))) (k d : κ) : Prop :=
  ∃ e ∈ es, ∃ reply, e.label = .answer reply ∧ reply.asker = k ∧ resolve reply.url = some d

/-- **Both ways.**  A node and one that it has had a reply of know each other from
then on. -/
theorem knows_of_answered (h : start.Fresh resolve seeds)
    (run : Trace (Step resolve seeds) start es t) {k d : κ} (hanswered : Answered resolve es k d) :
    t.Knows k d ∧ t.Knows d k := by
  obtain ⟨e, he, reply, hlabel, rfl, hd⟩ := hanswered
  obtain ⟨pre, post, rfl, hpre, hstep, hpost⟩ := run.split he
  rw [hlabel] at hstep
  have hboth := (run_honest h.honest hpre).answered hstep hd
  have hhonest := run_honest h.honest run
  have hlater : ∀ u id, id ∈ (e.after.nodes u).contacts.peerUrls →
      id ∈ (t.nodes u).contacts.peerUrls := by
    intro u id hknown
    have hkept : ∀ net ev net', Step resolve seeds net ev net' →
        id ∈ (net.nodes u).contacts.peerUrls → id ∈ (net'.nodes u).contacts.peerUrls :=
      fun _ _ _ hnext hbefore => mem_step hnext hbefore
    have hlate := hpost.invariant hkept
    exact hlate hknown
  have hknows : ∀ u v, (start.nodes v).node.id ∈ (e.after.nodes u).contacts.peerUrls →
      t.Knows u v := by
    intro u v hknown
    have hid := hhonest.ids v
    rw [RelayNode.contacts_node] at hid
    have hmem := hlater u _ hknown
    rw [RelayNode.contacts_peerUrls] at hmem
    unfold Knows
    rw [hid]
    exact hmem
  exact ⟨hknows _ _ hboth.1, hknows _ _ hboth.2⟩

/-- The requests of a node so far pay for the rounds that it has gone through: eight
for every seed, and one for each of three neighbours that a seed names. -/
def Spent (seeds : List String) (j : Joiner) : Prop :=
  match j.stage with
  | .seeding _ rest attempt secondHop =>
      1 ≤ attempt ∧ attempt ≤ 8 ∧ rest.length < seeds.length ∧
        secondHop.length + 3 * rest.length + 3 ≤ 3 * seeds.length ∧
          j.asked + 8 * rest.length + 9 ≤ 8 * seeds.length + attempt + j.waiting.toNat
  | .neighbors left =>
      j.asked + left.length ≤ 11 * seeds.length + j.waiting.toNat ∧
        (j.waiting = true → left ≠ [])

/-- What has been spent is within the bound: eight requests for each seed and
three for its neighbours. -/
theorem Spent.asked_le {seeds : List String} {j : Joiner} (h : Spent seeds j) :
    j.asked ≤ 11 * seeds.length := by
  have hwaiting : j.waiting.toNat ≤ 1 := Bool.toNat_le j.waiting
  unfold Spent at h
  split at h
  · omega
  · next left _ =>
      obtain ⟨hasked, hleft⟩ := h
      cases hw : j.waiting with
      | false =>
          rw [hw] at hasked
          have hzero : false.toNat = 0 := rfl
          omega
      | true =>
          have hpos := List.length_pos_of_ne_nil (hleft hw)
          omega

/-- The next round is paid for: a seed that is done has used up to eight
requests and brought three neighbours at most. -/
theorem spent_nextSeed {seeds rest : List String} {secondHop : List NeighborInfo} {asked : Nat}
    (hrest : rest.length ≤ seeds.length)
    (hlearned : secondHop.length + 3 * rest.length ≤ 3 * seeds.length)
    (hasked : asked + 8 * rest.length ≤ 8 * seeds.length) :
    Spent seeds ⟨BootstrapStage.nextSeed seeds rest secondHop, asked, false⟩ := by
  cases rest with
  | nil =>
      have hfilter := List.length_filter_le (fun nb : NeighborInfo => !seeds.contains nb.adminUrl)
        secondHop
      simp only [Spent, BootstrapStage.nextSeed, List.length_nil] at *
      refine ⟨?_, fun hwaiting => (by cases hwaiting)⟩
      have hzero : false.toNat = 0 := rfl
      omega
  | cons seed rest =>
      simp only [Spent, BootstrapStage.nextSeed, List.length_cons] at *
      have hzero : false.toNat = 0 := rfl
      omega

/-- What is found in a reply is no more than three neighbours. -/
def FewFound (reply : Option IntroduceResponse) : Prop :=
  ∀ response, reply = some response → response.neighbors.length ≤ 3

/-- **A round** is paid for when its request is done with, by the attempt that
it used up or by the neighbour that it asked. -/
theorem Spent.advance {seeds : List String} {j : Joiner} (h : Spent seeds j)
    (hwaiting : j.waiting = true) {reply : Option IntroduceResponse} (hfew : FewFound reply)
    (n : RelayNode) : Spent seeds ⟨n.advance seeds reply j.stage, j.asked, false⟩ := by
  have hone : j.waiting.toNat = 1 := by
    rw [hwaiting]
    rfl
  have hzero : false.toNat = 0 := rfl
  have hfound : ((reply.map IntroduceResponse.neighbors).getD []).length ≤ 3 := by
    cases reply with
    | none => exact Nat.zero_le 3
    | some response => exact hfew response rfl
  unfold Spent at h
  split at h
  · next seed rest attempt secondHop hstage =>
      rw [hone] at h
      obtain ⟨hfirst, hlast, hrest, hlearned, hasked⟩ := h
      -- another attempt at the same seed
      have hagain : attempt < 8 →
          Spent seeds ⟨.seeding seed rest (attempt + 1) secondHop, j.asked, false⟩ := by
        intro hmore
        simp only [Spent]
        omega
      have hnext : ∀ found : List NeighborInfo, found.length ≤ 3 → Spent seeds
          ⟨BootstrapStage.nextSeed seeds rest (secondHop ++ found), j.asked, false⟩ := by
        intro found hsmall
        apply spent_nextSeed (Nat.le_of_lt hrest)
        · rw [List.length_append]
          omega
        · omega
      rw [hstage]
      cases n with
      | server st =>
          dsimp only [RelayNode.advance, BootstrapStage.afterIntroduce]
          cases reply with
          | some response => exact hnext _ (hfew response rfl)
          | none =>
              dsimp only [Option.map_none]
              split
              · next hmore => exact hagain hmore
              · have hnone := hnext [] (Nat.zero_le 3)
                rw [List.append_nil] at hnone
                exact hnone
      | admin st =>
          dsimp only [RelayNode.advance, BootstrapStage.afterNeighbors]
          split
          · exact hnext _ hfound
          · next hmore =>
              apply hagain
              have hnot : attempt ≠ 8 := fun height => hmore (Or.inr height)
              omega
  · next left hstage =>
      obtain ⟨hasked, hleft⟩ := h
      rw [hone] at hasked
      have hpos := List.length_pos_of_ne_nil (hleft hwaiting)
      have hneighbors : Spent seeds ⟨.neighbors left.tail, j.asked, false⟩ := by
        refine ⟨?_, fun hno => (by cases hno)⟩
        dsimp only
        rw [List.length_tail]
        omega
      rw [hstage]
      cases n with
      | _ => exact hneighbors

/-- A request is paid for, whether it goes to a seed, where attempts are left,
or to a neighbour, who is asked once. -/
theorem Spent.ask {seeds : List String} {j : Joiner} (h : Spent seeds j)
    (hready : j.waiting = false) {url : String} (htarget : j.stage.target = some url) :
    Spent seeds { j with asked := j.asked + 1, waiting := true } := by
  have hzero : j.waiting.toNat = 0 := by
    rw [hready]
    rfl
  have hone : true.toNat = 1 := rfl
  unfold Spent at h ⊢
  dsimp only
  split at h
  · omega
  · next left hstage =>
      rw [hstage] at htarget
      refine ⟨?_, fun _ => ?_⟩
      · omega
      · intro hempty
        rw [hempty] at htarget
        cases htarget

/-- Along a whole run every node stays within what its seeds pay for. -/
theorem run_spent (h : start.Fresh resolve seeds)
    (run : Trace (Step resolve seeds) start es t) (k : κ) : Spent (seeds k) (t.joiners k) := by
  induction run with
  | nil =>
      rw [h.joiners k]
      exact spent_nextSeed (Nat.le_refl _) (by simp) (by simp)
  | @snoc net net' ev es init last ih =>
      have hhonest := run_honest h.honest init
      have hproceed : ∀ k' reply, (net.joiners k').waiting = true → FewFound reply →
          Spent (seeds k) (net.proceed seeds k' reply k) := by
        intro k' reply hwaiting hfew
        unfold proceed
        by_cases hk : k = k'
        · rw [← hk, Function.update_self]
          rw [← hk] at hwaiting
          exact ih.advance hwaiting hfew _
        · rw [Function.update_of_ne hk]
          exact ih
      cases last with
      | @ask k' url hready htarget =>
          dsimp only
          by_cases hk : k = k'
          · rw [← hk] at hready htarget ⊢
            rw [Function.update_self]
            exact ih.ask hready htarget
          · rw [Function.update_of_ne hk]
            exact ih
      | handle _ _ => exact ih
      | answer hreply hwaiting hlast =>
          apply hproceed _ _ hwaiting
          intro response hresponse
          cases hresponse
          exact (hhonest.replies _ hreply).2.2
      | fail hwaiting =>
          apply hproceed _ _ hwaiting
          intro response hresponse
          cases hresponse

/-- The requests of a node in a run. -/
def asks (k : κ) (es : List (Transition (JoiningNetwork κ) (Event κ))) : Nat :=
  es.countP fun e =>
    match e.label with
    | .ask k' => k' = k
    | _ => false

/-- The counter of a node counts its requests in the run, so the bound on the
counter is a bound on what was sent. -/
theorem run_asks (run : Trace (Step resolve seeds) start es t) (k : κ) :
    (t.joiners k).asked = (start.joiners k).asked + asks k es := by
  induction run with
  | nil => rfl
  | @snoc net net' ev es init last ih =>
      have hproceed : ∀ k' reply,
          (net.proceed seeds k' reply k).asked = (net.joiners k).asked := by
        intro k' reply
        unfold proceed
        by_cases hk : k = k'
        · rw [hk, Function.update_self]
        · rw [Function.update_of_ne hk]
      unfold asks at ih ⊢
      rw [List.countP_append, ← Nat.add_assoc, ← ih]
      cases last with
      | @ask k' url hready htarget =>
          by_cases hk : k = k'
          · simp [hk]
          · simp [Function.update_of_ne hk, Ne.symm hk]
      | handle _ _ => rfl
      | answer _ _ _ => exact hproceed _ _
      | fail _ => exact hproceed _ _

section Pair

open RelayNetwork

/-- A server that listens at its identifier. -/
def serverAt (id : NodeId) : RelayNode :=
  .server
    { node := { Node.sample 1 with id := id, table := PeerTable.new id 8 }
      peerUrls := ∅
      selfUrl := id.hex
      pending := ∅
      handlers := [] }

def pairResolve (url : String) : Option (Fin 2) :=
  [((byteId 0).hex, 0), ((byteId 1).hex, 1)].lookup url

/-- The server is given the plain node as a seed. -/
def pairSeeds (k : Fin 2) : List String :=
  if k = 0 then [] else [(byteId 0).hex]

def pairStart : JoiningNetwork (Fin 2) where
  nodes k := if k = 0 then relayWith (byteId 0) [] else serverAt (byteId 1)
  joiners k := ⟨.start (pairSeeds k), 0, false⟩
  calls := []
  replies := []

/-- Two nodes that have just started know nobody, and their URLs lead to them. -/
theorem pairStart_fresh : pairStart.Fresh pairResolve pairSeeds where
  distinct := by
    intro u v
    revert u v
    decide +kernel
  listening := by decide +kernel
  tables := by decide +kernel
  urls := by
    intro k
    match k with
    | 0 => rfl
    | 1 => rfl
  joiners _ := rfl
  calls := rfl
  replies := rfl

theorem pair_run : ∃ es t, Trace (Step pairResolve pairSeeds) pairStart es t ∧
    Answered pairResolve es 1 0 := by
  have hasked : Trace (Step pairResolve pairSeeds) pairStart _ _ :=
    .single (.ask (k := 1) rfl rfl)
  have hhandled := hasked.snoc (.handle (d := 0) List.mem_cons_self (by decide +kernel))
  have hanswered := hhandled.snoc (.answer List.mem_cons_self rfl rfl)
  refine ⟨_, _, hanswered, ?_⟩
  exact ⟨_, List.mem_append_right _ List.mem_cons_self, _, rfl, rfl, by decide +kernel⟩

end Pair

end JoiningNetwork

end Zona
