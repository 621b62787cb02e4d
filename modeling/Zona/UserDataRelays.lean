import Zona.NodeRuns

/-!
# What a node does with user data

A user envelope that passes the guard is taken at the node it names and sent
on by every other node, in at most one copy, to the hop that `userHop` picks.
No other kind of message makes a node send user data.

`SameMessage` says what a relay is allowed to change.  The copy a node makes
is the same message only when the hop is the destination itself
(`relayedCopy_sameMessage_iff`): the hop is written over the destination.
-/

namespace Zona

/-- The same message, up to what a relay has to change. -/
def Envelope.SameMessage (copy original : Envelope) : Prop :=
  copy = { original with ttl := copy.ttl, signature := copy.signature }

namespace Envelope.SameMessage

/-- A copy of the same message has the same destination. -/
theorem toId_eq {copy original : Envelope} (h : copy.SameMessage original) :
    copy.toId = original.toId := by
  unfold SameMessage at h
  rw [h]

theorem refl (e : Envelope) : e.SameMessage e :=
  rfl

theorem trans {a b c : Envelope} (h₁ : a.SameMessage b) (h₂ : b.SameMessage c) :
    a.SameMessage c := by
  unfold SameMessage at h₁ h₂ ⊢
  rw [h₁, h₂]

end Envelope.SameMessage

/-- Nothing is reported and no user data is sent. -/
def Handled.Quiet (handled : Handled) : Prop :=
  handled.event = none ∧ ∀ p ∈ handled.out, p.2.body.isUserData = false

namespace Node

variable [Crypto]

/-- A node takes the envelope as delivered: it passes the guard, carries user
data and names the node. -/
def Takes (n : Node) (peer : NodeId) (env : Envelope) : Prop :=
  n.admits peer env = true ∧ env.body.isUserData = true ∧ env.toId = n.id

/-- A node relays the envelope to the hop: it passes the guard, carries user
data, names another node and may live on. -/
def Relays (n : Node) (peer : NodeId) (env : Envelope) (hop : NodeId) : Prop :=
  n.admits peer env = true ∧ env.body.isUserData = true ∧ env.toId ≠ n.id ∧
    1 < env.ttl ∧ n.userHop env.toId = some hop

omit [Crypto] in
/-- A body that counts as user data carries a payload. -/
theorem eq_userData_of_isUserData {body : MessageKind} (h : body.isUserData = true) :
    ∃ payload, body = .userData payload := by
  cases body with
  | userData payload => exact ⟨payload, rfl⟩
  | _ => cases h

/-- A packet goes to the chosen hop as a relayed copy, if it has life left, and
nothing else is sent. -/
theorem mem_sendUserHop {n : Node} {env copy : Envelope} {next hop : NodeId} :
    (hop, copy) ∈ (n.sendUserHop env next).1 ↔
      1 < env.ttl ∧ hop = next ∧ copy = n.relayedCopy env hop := by
  by_cases hle : env.ttl ≤ 1
  · rw [sendUserHop_of_le hle]
    have hlt : ¬ 1 < env.ttl := UInt8.not_lt.mpr hle
    simp [hlt]
  · have hlt := UInt8.not_le.mp hle
    rw [sendUserHop_of_lt hlt, List.mem_singleton, Prod.mk.injEq]
    constructor
    · intro ⟨hhop, hcopy⟩
      exact ⟨hlt, hhop, by rw [hcopy, hhop]⟩
    · intro ⟨_, hhop, hcopy⟩
      exact ⟨hhop, by rw [hcopy, hhop]⟩

/-- **Forwarding** sends one copy to the chosen hop, if there is a hop and life
left.  Lookups for a repair are sent beside it. -/
theorem mem_forwardUserData {n : Node} {env copy : Envelope} {hop : NodeId}
    (huser : copy.body.isUserData = true) :
    (hop, copy) ∈ (n.forwardUserData env).1 ↔
      1 < env.ttl ∧ n.userHop env.toId = some hop ∧ copy = n.relayedCopy env hop := by
  obtain ⟨repairs, counter, hrepairs, hforward⟩ := forwardUserData_spec n env
  have hquiet : (hop, copy) ∉ repairs := by
    intro hmem
    rw [hrepairs _ hmem] at huser
    exact Bool.false_ne_true huser
  rw [hforward]
  cases n.userHop env.toId with
  | some next =>
      rw [List.mem_append, or_iff_left hquiet, mem_sendUserHop, Option.some.injEq,
        eq_comm (a := next)]
  | none => simp [hquiet]

omit [Crypto] in
/-- Handling that reports nothing and sends nothing is quiet. -/
theorem quiet_of_nil {handled : Handled} (hevent : handled.event = none)
    (hout : handled.out = []) : handled.Quiet := by
  refine ⟨hevent, ?_⟩
  intro p hp
  rw [hout] at hp
  cases hp

theorem reply_quiet (n : Node) (peer : NodeId) {body : MessageKind}
    (hbody : body.isUserData = false) : (n.reply peer body).Quiet := by
  refine ⟨rfl, ?_⟩
  intro p hp
  rw [List.mem_singleton.mp hp]
  exact hbody

/-- Handling anything but user data is quiet, so deliveries and forwards come
from user data alone. -/
theorem dispatch_quiet {n : Node} {now : Nat} {peer : NodeId} {env : Envelope}
    (hbody : env.body.isUserData = false) : (n.dispatch now peer env).Quiet := by
  unfold dispatch
  cases hkind : env.body with
  | hello d => exact reply_quiet _ peer rfl
  | ping nonce => exact reply_quiet n peer rfl
  | pong nonce => exact quiet_of_nil rfl rfl
  | findNode target count =>
      obtain ⟨_, checked, _, hdropped | hanswered⟩ :=
        handleFindNode_cases n now peer target count
      · dsimp only
        rw [hdropped]
        exact quiet_of_nil rfl rfl
      · dsimp only
        rw [hanswered]
        exact reply_quiet checked peer rfl
  | foundNodes peers => exact quiet_of_nil rfl rfl
  | pex candidates => exact quiet_of_nil rfl rfl
  | announceDescriptor d => exact quiet_of_nil rfl rfl
  | userData payload =>
      rw [hkind] at hbody
      cases hbody
  | invite token => exact quiet_of_nil rfl rfl

/-- At its destination a message is reported and nothing is sent. -/
theorem handleUserData_taken {n : Node} {env : Envelope} {payload : List UInt8}
    (hdest : env.toId = n.id) :
    (n.handleUserData env payload).out = [] ∧
      (n.handleUserData env payload).event.isSome = true := by
  by_cases hclass : env.messageClass = .criticalUser
  · rw [handleUserData_critical hdest hclass]
    exact ⟨rfl, rfl⟩
  · rw [handleUserData_normal hdest hclass]
    exact ⟨rfl, rfl⟩

/-- **What an envelope amounts to**: admitted user data is handled as such, and
anything else is quiet. -/
theorem handleEnvelope_userData (n : Node) (now : Nat) (peer : NodeId) (env : Envelope) :
    (¬ (n.admits peer env = true ∧ env.body.isUserData = true) ∧
      (n.handleEnvelope now peer env).Quiet) ∨
    ∃ payload, n.admits peer env = true ∧ env.body = .userData payload ∧
      n.handleEnvelope now peer env = n.handleUserData env payload := by
  cases hadmits : n.admits peer env with
  | false =>
      rw [handleEnvelope_refused hadmits]
      exact Or.inl ⟨by simp, quiet_of_nil rfl rfl⟩
  | true =>
      rw [handleEnvelope_admitted hadmits]
      cases hbody : env.body.isUserData with
      | false => exact Or.inl ⟨by simp, dispatch_quiet hbody⟩
      | true =>
          obtain ⟨payload, hpayload⟩ := eq_userData_of_isUserData hbody
          exact Or.inr ⟨payload, rfl, hpayload, by simp only [dispatch, hpayload]⟩

/-- **User data leaves a node only as a relayed copy** of the envelope being
handled. -/
theorem mem_handleEnvelope {n : Node} {now : Nat} {peer hop : NodeId} {env copy : Envelope}
    (huser : copy.body.isUserData = true) :
    (hop, copy) ∈ (n.handleEnvelope now peer env).out ↔
      n.Relays peer env hop ∧ copy = n.relayedCopy env hop := by
  unfold Relays
  rcases handleEnvelope_userData n now peer env with
    ⟨hother, hquiet⟩ | ⟨payload, hadmits, hbody, hhandled⟩
  · refine iff_of_false ?_ (fun h => hother ⟨h.1.1, h.1.2.1⟩)
    intro hmem
    exact Bool.false_ne_true ((hquiet.2 _ hmem).symm.trans huser)
  · have hisUser : env.body.isUserData = true := by rw [hbody, MessageKind.isUserData]
    rw [hhandled]
    by_cases hdest : env.toId = n.id
    · rw [(handleUserData_taken hdest).1]
      simp [hdest]
    · rw [handleUserData_forward hdest, mem_forwardUserData huser]
      simp [hadmits, hisUser, hdest, and_assoc]

/-- **At most one copy.**  Of what handling an envelope sends, nothing is user
data, or exactly the copy relayed to the hop. -/
theorem filter_handleEnvelope (n : Node) (now : Nat) (peer : NodeId) (env : Envelope) :
    (n.handleEnvelope now peer env).out.filter (fun sent => sent.2.body.isUserData) = [] ∨
      ∃ hop, n.Relays peer env hop ∧
        (n.handleEnvelope now peer env).out.filter (fun sent => sent.2.body.isUserData) =
          [(hop, n.relayedCopy env hop)] := by
  by_cases hrelays : ∃ hop, n.Relays peer env hop
  · obtain ⟨hop, hadmits, huser, hdest, httl, hhop⟩ := hrelays
    refine Or.inr ⟨hop, ⟨hadmits, huser, hdest, httl, hhop⟩, ?_⟩
    obtain ⟨payload, hpayload⟩ := eq_userData_of_isUserData huser
    obtain ⟨repairs, counter, hrepairs, hforward⟩ := forwardUserData_spec n env
    have hnone : repairs.filter (fun sent => sent.2.body.isUserData) = [] := by
      refine List.filter_eq_nil_iff.mpr ?_
      intro sent hsent
      rw [hrepairs sent hsent]
      exact Bool.false_ne_true
    have hcopy : (n.relayedCopy env hop).body.isUserData = true := huser
    rw [handleEnvelope_admitted hadmits]
    simp only [dispatch, hpayload]
    rw [handleUserData_forward hdest, hforward, hhop]
    dsimp only
    rw [sendUserHop_of_lt httl, List.filter_append, hnone, List.append_nil]
    exact List.filter_cons_of_pos hcopy
  · refine Or.inl (List.filter_eq_nil_iff.mpr ?_)
    intro sent hsent huser
    exact hrelays ⟨sent.1, (mem_handleEnvelope huser).mp hsent |>.1⟩

/-- A node reports a message exactly when it takes it as delivered. -/
theorem event_isSome_iff {n : Node} {now : Nat} {peer : NodeId} {env : Envelope} :
    (n.handleEnvelope now peer env).event.isSome = true ↔ n.Takes peer env := by
  unfold Takes
  rcases handleEnvelope_userData n now peer env with
    ⟨hother, hquiet⟩ | ⟨payload, hadmits, hbody, hhandled⟩
  · rw [hquiet.1]
    exact iff_of_false Bool.false_ne_true (fun h => hother ⟨h.1, h.2.1⟩)
  · have hisUser : env.body.isUserData = true := by rw [hbody, MessageKind.isUserData]
    rw [hhandled]
    by_cases hdest : env.toId = n.id
    · simp [(handleUserData_taken hdest).2, hadmits, hisUser, hdest]
    · rw [handleUserData_forward hdest]
      simp [hdest]

/-- **A copy is the same message** exactly when its hop is its destination, as
relaying overwrites the destination with the hop. -/
theorem relayedCopy_sameMessage_iff {n : Node} {env : Envelope} {hop : NodeId} :
    (n.relayedCopy env hop).SameMessage env ↔ hop = env.toId := by
  constructor
  · intro h
    exact h.toId_eq
  · intro h
    unfold Envelope.SameMessage relayedCopy signEnvelope
    rw [h]

end Node

end Zona
