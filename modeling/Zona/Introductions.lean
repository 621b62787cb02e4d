import Zona.AdminNodes
import Zona.LabelledRuns
import Zona.TableInsertions

/-!
# Introductions

A node introduces itself to another one and learns of its neighbours; the other
node registers it.  Both sides call on the same bookkeeping: a peer that is
named in full hexadecimal is entered with its URL and tried for a greedy slot,
in a fresh tick, with itself as referrer.  Servers and plain nodes differ in
what they hold beside these `Contacts`.

Nobody looks whether the named peer is the node itself.  `routesToSelf_iff` says
that this is all it takes: after introductions a node has a slot for itself
exactly when one of them named it.
-/

namespace Zona

/-- The request of a node that introduces itself. -/
structure IntroduceRequest where
  nodeId : String
  adminUrl : String
  registerPeer : Bool
  deriving DecidableEq

/-- A neighbour in the reply. -/
structure NeighborInfo where
  nodeId : String
  adminUrl : String
  deriving DecidableEq

structure IntroduceResponse where
  nodeId : String
  neighbors : List NeighborInfo
  deriving DecidableEq

/-- A node and the URLs of its peers. -/
structure Contacts where
  node : Node
  peerUrls : HashMap NodeId String

/-- What happens to the contacts: a node introduces itself, or the own
introduction is answered by a target, if it is. -/
inductive ContactCall
  | introduce (req : IntroduceRequest)
  | introduced (target : String) (reply : Option IntroduceResponse)

namespace Contacts

/-- Enter a peer: its URL, and a greedy slot if it gets one. -/
def enter (c : Contacts) (nid : NodeId) (url : String) : Contacts where
  node := { c.node with
    table := (c.node.table.resetTick.tryInsert (SlotEntry.new .greedy nid nid)).2 }
  peerUrls := c.peerUrls.put nid url

/-- Enter a peer that is named in hexadecimal. -/
def register (c : Contacts) (nodeId url : String) : Contacts :=
  match NodeId.parse nodeId with
  | some nid => c.enter nid url
  | none => c

/-- The first three slots whose URL is known. -/
def neighbors (c : Contacts) : List NeighborInfo :=
  (c.node.table.slots.take 3).filterMap fun s =>
    (c.peerUrls.lookup s.peerId).map fun url => ⟨s.peerId.hex, url⟩

/-- Answer an introduction. -/
def introduce (c : Contacts) (req : IntroduceRequest) : IntroduceResponse × Contacts :=
  let c' := if req.registerPeer then c.register req.nodeId req.adminUrl else c
  (⟨c.node.id.hex, c'.neighbors⟩, c')

/-- Take in the reply to the own introduction: the target, then its neighbours. -/
def introduced (c : Contacts) (target : String) (intro : IntroduceResponse) : Contacts :=
  intro.neighbors.foldl (fun c nb => c.register nb.nodeId nb.adminUrl)
    (c.register intro.nodeId target)

def perform (c : Contacts) : ContactCall → Contacts
  | .introduce req => (c.introduce req).2
  | .introduced _ none => c
  | .introduced target (some intro) => c.introduced target intro

def Step (c : Contacts) (call : ContactCall) (c' : Contacts) : Prop :=
  c' = c.perform call

/-- The peers that a call names, each with its URL. -/
def named : ContactCall → List (String × String)
  | .introduce req => if req.registerPeer then [(req.nodeId, req.adminUrl)] else []
  | .introduced _ none => []
  | .introduced target (some intro) =>
      (intro.nodeId, target) :: intro.neighbors.map fun nb => (nb.nodeId, nb.adminUrl)

end Contacts

/-- A call names a peer. -/
def ContactCall.Names (call : ContactCall) (nid : NodeId) : Prop :=
  ∃ entry ∈ Contacts.named call, NodeId.parse entry.1 = some nid

namespace ServerState

/-- A fresh server. -/
def new (selfUrl : String) (keypair : NodeKeypair) : ServerState where
  node := Node.new keypair ⟨5, 0⟩
  peerUrls := ∅
  selfUrl := selfUrl
  pending := ∅
  handlers := []

def contacts (st : ServerState) : Contacts :=
  ⟨st.node, st.peerUrls⟩

def setContacts (st : ServerState) (c : Contacts) : ServerState :=
  { st with node := c.node, peerUrls := c.peerUrls }

/-- The introduction a server sends to each seed. -/
def introduction (st : ServerState) : IntroduceRequest :=
  ⟨st.node.id.hex, st.selfUrl, true⟩

/-- `POST /api/introduce`. -/
def httpIntroduce (st : ServerState) (req : IntroduceRequest) : IntroduceResponse × ServerState :=
  ((st.contacts.introduce req).1, st.setContacts (st.contacts.introduce req).2)

/-- Introduce the server to a target, which may fail to reply: the neighbours
learned, and the server. -/
def doIntroduce (st : ServerState) (target : String) (reply : Option IntroduceResponse) :
    Option (List NeighborInfo) × ServerState :=
  match reply with
  | none => (none, st)
  | some intro => (some intro.neighbors, st.setContacts (st.contacts.introduced target intro))

/-- A new server has an empty table of at most five greedy slots and knows no
URL. -/
@[simp]
theorem contacts_new (selfUrl : String) (keypair : NodeKeypair) :
    (new selfUrl keypair).contacts = ⟨Node.new keypair ⟨5, 0⟩, ∅⟩ :=
  rfl

/-- A new server introduces itself under its identifier and its URL, and wants
to be registered. -/
@[simp]
theorem introduction_new (selfUrl : String) (keypair : NodeKeypair) :
    (new selfUrl keypair).introduction = ⟨keypair.nodeId.hex, selfUrl, true⟩ :=
  rfl

/-- What a server replies to an introduction is read off its contacts. -/
@[simp]
theorem httpIntroduce_fst (st : ServerState) (req : IntroduceRequest) :
    (st.httpIntroduce req).1 = (st.contacts.introduce req).1 :=
  rfl

/-- A reply changes the node of a server as it changes that of its contacts. -/
@[simp]
theorem doIntroduce_some_node (st : ServerState) (target : String) (intro : IntroduceResponse) :
    (st.doIntroduce target (some intro)).2.node = (st.contacts.introduced target intro).node :=
  rfl

/-- One introduction at a server. -/
def ContactStep (st : ServerState) (call : ContactCall) (st' : ServerState) : Prop :=
  st' = match call with
    | .introduce req => (st.httpIntroduce req).2
    | .introduced target reply => (st.doIntroduce target reply).2

/-- A step of a server is one of its contacts, so what is proved of contacts
holds of servers. -/
theorem contactStep_contacts {st st' : ServerState} {call : ContactCall}
    (h : st.ContactStep call st') : st.contacts.Step call st'.contacts := by
  subst h
  cases call with
  | introduce req => rfl
  | introduced target reply =>
      cases reply with
      | _ => rfl

end ServerState

namespace AdminState

/-- A fresh plain node. -/
def new (selfUrl : String) (keypair : NodeKeypair) : AdminState where
  node := Node.new keypair ⟨5, 0⟩
  peerUrls := ∅
  selfUrl := selfUrl
  inbox := []

def contacts (st : AdminState) : Contacts :=
  ⟨st.node, st.peerUrls⟩

def setContacts (st : AdminState) (c : Contacts) : AdminState :=
  { st with node := c.node, peerUrls := c.peerUrls }

/-- The introduction a node sends to each bootstrap peer. -/
def introduceBody (st : AdminState) : IntroduceRequest :=
  ⟨st.node.id.hex, st.selfUrl, true⟩

/-- `POST /api/introduce`. -/
def handleIntroduce (st : AdminState) (req : IntroduceRequest) : IntroduceResponse × AdminState :=
  ((st.contacts.introduce req).1, st.setContacts (st.contacts.introduce req).2)

/-- Introduce the node to a target; without a reply nothing is learned. -/
def doIntroduce (st : AdminState) (target : String) (reply : Option IntroduceResponse) :
    List NeighborInfo × AdminState :=
  match reply with
  | none => ([], st)
  | some intro => (intro.neighbors, st.setContacts (st.contacts.introduced target intro))

/-- A new admin node has an empty table of at most five greedy slots and knows
no URL. -/
@[simp]
theorem contacts_new (selfUrl : String) (keypair : NodeKeypair) :
    (new selfUrl keypair).contacts = ⟨Node.new keypair ⟨5, 0⟩, ∅⟩ :=
  rfl

/-- A new admin node introduces itself in the same way. -/
@[simp]
theorem introduceBody_new (selfUrl : String) (keypair : NodeKeypair) :
    (new selfUrl keypair).introduceBody = ⟨keypair.nodeId.hex, selfUrl, true⟩ :=
  rfl

/-- What an admin node replies to an introduction is read off its contacts. -/
@[simp]
theorem handleIntroduce_fst (st : AdminState) (req : IntroduceRequest) :
    (st.handleIntroduce req).1 = (st.contacts.introduce req).1 :=
  rfl

/-- A reply changes the node of an admin node as it changes that of its
contacts. -/
@[simp]
theorem doIntroduce_some_node (st : AdminState) (target : String) (intro : IntroduceResponse) :
    (st.doIntroduce target (some intro)).2.node = (st.contacts.introduced target intro).node :=
  rfl

/-- One introduction at a plain node. -/
def ContactStep (st : AdminState) (call : ContactCall) (st' : AdminState) : Prop :=
  st' = match call with
    | .introduce req => (st.handleIntroduce req).2
    | .introduced target reply => (st.doIntroduce target reply).2

/-- A step of an admin node is one of its contacts, so what is proved of
contacts holds of both kinds of node. -/
theorem contactStep_contacts {st st' : AdminState} {call : ContactCall}
    (h : st.ContactStep call st') : st.contacts.Step call st'.contacts := by
  subst h
  cases call with
  | introduce req => rfl
  | introduced target reply =>
      cases reply with
      | _ => rfl

end AdminState

/-- Some slot of the node names the node itself. -/
def Node.RoutesToSelf (n : Node) : Prop :=
  ∃ s ∈ n.table.slots, s.peerId = n.id

namespace Contacts

/-- What introductions make of the table of a node: greedy slots only, each
with its peer as referrer. -/
structure Bootstrapped (own : NodeId) (c : Contacts) : Prop where
  id : c.node.id = own
  self : c.node.table.selfId = own
  room : 0 < c.node.table.maxGreedy
  slots : ∀ s ∈ c.node.table.slots, s.kind = .greedy ∧ s.referrerId = s.peerId

/-- An insertion changes the slots and the budget of the tick, and neither the
owner nor the capacity of the table. -/
theorem tryInsert_frame (t : PeerTable) (entry : SlotEntry) :
    (t.tryInsert entry).2.selfId = t.selfId ∧ (t.tryInsert entry).2.maxGreedy = t.maxGreedy := by
  rcases PeerTable.tryInsert_placed t entry with hsame | hplaced
  · rw [hsame]
    exact ⟨rfl, rfl⟩
  · exact hplaced.frame

/-- Entering a peer keeps contacts as a bootstrap leaves them, since the slot
is made the way the others were. -/
theorem bootstrapped_enter {own nid : NodeId} {c : Contacts} (h : c.Bootstrapped own)
    (url : String) : (c.enter nid url).Bootstrapped own := by
  obtain ⟨hself, hmax⟩ := tryInsert_frame c.node.table.resetTick (SlotEntry.new .greedy nid nid)
  refine ⟨h.id, hself.trans h.self, ?_, ?_⟩
  · rw [enter, hmax]
    exact h.room
  · intro s hs
    rcases PeerTable.mem_tryInsert hs with hold | rfl
    · exact h.slots s hold
    · exact ⟨rfl, rfl⟩

/-- **Entering a peer** gives the node a slot for itself exactly when the peer
is the node itself; and a slot for the node itself stays. -/
theorem routesToSelf_enter_iff {own nid : NodeId} {c : Contacts} (h : c.Bootstrapped own)
    (url : String) :
    (c.enter nid url).node.RoutesToSelf ↔ c.node.RoutesToSelf ∨ nid = own := by
  constructor
  · rintro ⟨s, hs, hself⟩
    rcases PeerTable.mem_tryInsert hs with hold | rfl
    · exact Or.inl ⟨s, hold, hself⟩
    · exact Or.inr (hself.trans h.id)
  · intro hcause
    by_cases hbefore : c.node.RoutesToSelf
    · obtain ⟨s, hs, hself⟩ := hbefore
      have htable : s.peerId = c.node.table.resetTick.selfId :=
        hself.trans (h.id.trans h.self.symm)
      exact ⟨s, PeerTable.own_slot_stays (t := c.node.table.resetTick) hs htable rfl, hself⟩
    · have hnid : nid = own := hcause.resolve_left hbefore
      have hforeign : ∀ s ∈ c.node.table.slots, s.peerId ≠ nid := by
        intro s hs heq
        exact hbefore ⟨s, hs, heq.trans (hnid.trans h.id.symm)⟩
      have hquota : c.node.table.resetTick.referrerQuotaExceeded nid = false := by
        refine PeerTable.quotaExceeded_eq_false_iff.mpr ?_
        have hnone : PeerTable.greedyBehind nid c.node.table.resetTick.labels = 0 := by
          refine List.countP_eq_zero.mpr ?_
          intro l hl hbehind
          obtain ⟨s, hs, rfl⟩ := List.mem_map.mp hl
          have hreferrer : s.referrerId = nid := (of_decide_eq_true hbehind).2
          exact hforeign s hs ((h.slots s hs).2.symm.trans hreferrer)
        rw [hnone]
        decide
      have hinserted := @PeerTable.tryInsert_self c.node.table.resetTick
        (SlotEntry.new .greedy nid nid) rfl (hnid.trans h.self.symm) hforeign hquota h.room rfl
      exact ⟨_, hinserted, hnid.trans h.id.symm⟩

/-- Registering a peer makes a slot for the node itself exactly if the
registered identifier is its own. -/
theorem register_spec {own : NodeId} {c : Contacts} (h : c.Bootstrapped own)
    (nodeId url : String) :
    (c.register nodeId url).Bootstrapped own ∧
      ((c.register nodeId url).node.RoutesToSelf ↔
        c.node.RoutesToSelf ∨ NodeId.parse nodeId = some own) := by
  unfold register
  cases NodeId.parse nodeId with
  | none => exact ⟨h, by simp⟩
  | some nid =>
      refine ⟨bootstrapped_enter h url, ?_⟩
      rw [Option.some.injEq]
      exact routesToSelf_enter_iff h url

/-- The bookkeeping of a call is that of the peers it names, one by one. -/
theorem perform_eq_foldl (c : Contacts) (call : ContactCall) :
    c.perform call = (named call).foldl (fun c entry => c.register entry.1 entry.2) c := by
  cases call with
  | introduce req =>
      unfold perform introduce named
      dsimp only
      split
      · rfl
      · rfl
  | introduced target reply =>
      cases reply with
      | none => rfl
      | some intro =>
          rw [perform, introduced, named, List.foldl_cons, List.foldl_map]

/-- A call makes a slot for the node itself exactly if it names the node;
otherwise there is one afterwards only if there was one before. -/
theorem perform_spec {own : NodeId} {c : Contacts} (h : c.Bootstrapped own)
    (call : ContactCall) :
    (c.perform call).Bootstrapped own ∧
      ((c.perform call).node.RoutesToSelf ↔
        c.node.RoutesToSelf ∨ call.Names own) := by
  rw [perform_eq_foldl]
  unfold ContactCall.Names
  induction named call generalizing c with
  | nil => exact ⟨h, by simp⟩
  | cons entry rest ih =>
      obtain ⟨hentry, hself⟩ := register_spec h entry.1 entry.2
      obtain ⟨hrest, hiff⟩ := ih hentry
      refine ⟨hrest, ?_⟩
      rw [List.foldl_cons, hiff, hself, List.exists_mem_cons_iff, or_assoc]

/-- **Introductions and slots for the node itself.**  From a table that
introductions have built, a node comes to route to itself exactly when it did
already or one of the calls names it. -/
theorem routesToSelf_iff {own : NodeId} {c c' : Contacts}
    {es : List (Transition Contacts ContactCall)} (run : Trace Step c es c')
    (h : c.Bootstrapped own) :
    c'.Bootstrapped own ∧
      (c'.node.RoutesToSelf ↔
        c.node.RoutesToSelf ∨ ∃ e ∈ es, e.label.Names own) := by
  induction run with
  | nil => exact ⟨h, by simp⟩
  | @snoc t u call es init last ih =>
      obtain ⟨hbefore, hiff⟩ := ih
      have hstep := perform_spec hbefore call
      rw [← show u = t.perform call from last] at hstep
      refine ⟨hstep.1, ?_⟩
      rw [hstep.2, hiff, or_assoc]
      simp [or_and_right, exists_or]

theorem bootstrapped_new (keypair : NodeKeypair) :
    Bootstrapped keypair.nodeId ⟨Node.new keypair ⟨5, 0⟩, ∅⟩ := by
  refine ⟨rfl, rfl, Nat.succ_pos 4, ?_⟩
  intro s hs
  cases hs

/-- The same for a run of what holds the contacts of a fresh node. -/
theorem routesToSelf_of_run {σ : Type} {step : σ → ContactCall → σ → Prop} (contacts : σ → Contacts)
    (hstep : ∀ st call st', step st call st' → (contacts st).Step call (contacts st'))
    {keypair : NodeKeypair} {st st' : σ} {es : List (Transition σ ContactCall)}
    (hstart : contacts st = ⟨Node.new keypair ⟨5, 0⟩, ∅⟩) (run : Trace step st es st') :
    (contacts st').node.RoutesToSelf ↔
      ∃ e ∈ es, e.label.Names (contacts st').node.id := by
  have hrun := run.simulate contacts (fun e => some e.label)
    (fun e _ hsilent => nomatch hsilent)
    (fun e he call hcall => by
      cases hcall
      exact hstep _ _ _ (run.step_of_mem he))
  rw [hstart] at hrun
  obtain ⟨hboot, hiff⟩ := routesToSelf_iff hrun (bootstrapped_new keypair)
  have hempty : ¬ (Node.new keypair ⟨5, 0⟩).RoutesToSelf := by
    rintro ⟨s, hs, _⟩
    cases hs
  rw [hiff, hboot.id, or_iff_right hempty]
  simp [Trace.project]

/-- A fresh node that is introduced to another one lists the newcomer in its
reply. -/
theorem introduce_new (keypair : NodeKeypair) (nid : NodeId) (url : String) :
    (introduce ⟨Node.new keypair ⟨5, 0⟩, ∅⟩ ⟨nid.hex, url, true⟩).1 =
      ⟨keypair.nodeId.hex, [⟨nid.hex, url⟩]⟩ := by
  have hregister : register ⟨Node.new keypair ⟨5, 0⟩, ∅⟩ nid.hex url =
      enter ⟨Node.new keypair ⟨5, 0⟩, ∅⟩ nid url := by
    rw [register, NodeId.parse_hex]
  have hslots : (enter ⟨Node.new keypair ⟨5, 0⟩, ∅⟩ nid url).node.table.slots =
      [SlotEntry.new .greedy nid nid] := rfl
  rw [introduce]
  dsimp only
  rw [if_pos rfl, hregister, neighbors, hslots]
  simp [enter, SlotEntry.new, Node.new]

/-- The reply to a node that wants to be registered names that node among the
neighbours: it was registered before the reply was made. -/
theorem reply_names_caller (keypair : NodeKeypair) (nid : NodeId) (url target : String) :
    (ContactCall.introduced target
      (some (introduce ⟨Node.new keypair ⟨5, 0⟩, ∅⟩ ⟨nid.hex, url, true⟩).1)).Names nid := by
  rw [introduce_new]
  exact ⟨(nid.hex, url), by simp [named], NodeId.parse_hex nid⟩

/-- **A node learns of itself.**  A fresh node that introduces itself to a
fresh node routes to itself once it has taken in the reply. -/
theorem routesToSelf_of_reply (keypair other : NodeKeypair) (url target : String) :
    (introduced ⟨Node.new keypair ⟨5, 0⟩, ∅⟩ target
      (introduce ⟨Node.new other ⟨5, 0⟩, ∅⟩
        ⟨keypair.nodeId.hex, url, true⟩).1).node.RoutesToSelf := by
  have hnamed := reply_names_caller other keypair.nodeId url target
  have hstep := (perform_spec (bootstrapped_new keypair) _).2.mpr (Or.inr hnamed)
  exact hstep

end Contacts

end Zona
