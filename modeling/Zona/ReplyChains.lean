import Zona.EnvelopeGuards

/-!
# What an envelope sets off

Handling an envelope sends others.  A ping, a lookup and user data set off
chains that end: `chainLength` bounds them, and `out_shorter` says that each
envelope sent is a link further.  A hello is answered by a hello, whatever it
is itself an answer to.
-/

namespace Zona

/-- A bound on the chains of envelopes that an envelope sets off, hellos
apart. -/
def Envelope.chainLength (env : Envelope) : Nat :=
  match env.body with
  | .ping _ => 2
  | .findNode _ _ => 2
  | .userData _ => env.ttl.toNat + 3
  | _ => 1

/-- An envelope that is no hello and sets off less than that. -/
def Envelope.Shorter (sent : Envelope) (length : Nat) : Prop :=
  sent.body.isHello = false ∧ sent.chainLength < length

namespace Node

variable [Crypto]

/-- A lookup sets off its answer only, so it is shorter than any chain that it
is sent in. -/
theorem emitFindNodeRepair_shorter (n : Node) (target : NodeId) {length : Nat}
    (hlength : 3 ≤ length) : ∀ sent ∈ (n.emitFindNodeRepair target).1, sent.2.Shorter length := by
  intro sent hsent
  unfold emitFindNodeRepair at hsent
  cases hhop : n.findHop target with
  | none =>
      rw [hhop] at hsent
      cases hsent
  | some next =>
      rw [hhop] at hsent
      rw [List.mem_singleton.mp hsent]
      exact ⟨rfl, hlength⟩

/-- A copy of user data has one hop less to live. -/
theorem sendUserHop_shorter (n : Node) {env : Envelope} {payload : List UInt8}
    (hbody : env.body = .userData payload) (next : NodeId) :
    ∀ sent ∈ (n.sendUserHop env next).1, sent.2.Shorter (env.ttl.toNat + 3) := by
  intro sent hsent
  by_cases hle : env.ttl ≤ 1
  · rw [sendUserHop_of_le hle] at hsent
    cases hsent
  · have hlt := UInt8.not_le.mp hle
    rw [sendUserHop_of_lt hlt] at hsent
    rw [List.mem_singleton.mp hsent]
    have hcopy : (n.relayedCopy env next).body = .userData payload := hbody
    have httl : (env.ttl - 1).toNat < env.ttl.toNat := by
      have hone : (1 : UInt8).toNat < env.ttl.toNat := UInt8.lt_iff_toNat_lt.mp hlt
      rw [UInt8.toNat_sub_of_le env.ttl 1 (UInt8.le_of_lt hlt)]
      have hpos : (1 : UInt8).toNat = 1 := rfl
      omega
    refine ⟨by rw [hcopy]; rfl, ?_⟩
    dsimp only
    rw [Envelope.chainLength, hcopy]
    have hsame : (n.relayedCopy env next).ttl = env.ttl - 1 := rfl
    dsimp only
    rw [hsame]
    omega

/-- Forwarding shortens the life of user data by one, and what else is sent is
a lookup. -/
theorem forwardUserData_shorter (n : Node) {env : Envelope} {payload : List UInt8}
    (hbody : env.body = .userData payload) :
    ∀ sent ∈ (n.forwardUserData env).1, sent.2.Shorter (env.ttl.toNat + 3) := by
  intro sent hsent
  unfold forwardUserData at hsent
  dsimp only at hsent
  cases hhop : nextHop n.id env.toId n.table with
  | forward next =>
      rw [hhop] at hsent
      exact sendUserHop_shorter n hbody next sent hsent
  | deliver =>
      rw [hhop] at hsent
      cases hsent
  | localMinimum =>
      rw [hhop] at hsent
      dsimp only at hsent
      cases hjump : n.table.longJumpSlot.filter fun l => l.peerId ≠ n.id with
      | some l =>
          rw [hjump] at hsent
          rcases List.mem_append.mp hsent with hcopy | hrepair
          · exact sendUserHop_shorter n hbody l.peerId sent hcopy
          · exact emitFindNodeRepair_shorter _ _ (by omega) sent hrepair
      | none =>
          rw [hjump] at hsent
          exact emitFindNodeRepair_shorter _ _ (by omega) sent hsent

/-- **Chains that end.**  What handling an envelope sends is no hello and one
link further, unless the envelope is a hello itself. -/
theorem out_shorter {n : Node} {now : Nat} {peer : NodeId} {env : Envelope}
    (hbody : env.body.isHello = false) :
    ∀ sent ∈ (n.handleEnvelope now peer env).out, sent.2.Shorter env.chainLength := by
  intro sent hsent
  cases hadmits : n.admits peer env with
  | false =>
      rw [handleEnvelope_refused hadmits] at hsent
      cases hsent
  | true =>
      rw [handleEnvelope_admitted hadmits] at hsent
      unfold dispatch at hsent
      unfold Envelope.chainLength
      cases hkind : env.body with
      | hello d =>
          rw [hkind] at hbody
          cases hbody
      | ping nonce =>
          rw [hkind] at hsent
          rw [List.mem_singleton.mp hsent]
          exact ⟨rfl, Nat.lt_succ_self 1⟩
      | findNode target count =>
          rw [hkind] at hsent
          dsimp only at hsent
          obtain ⟨find, checked, _, hdropped | hanswered⟩ :=
            handleFindNode_cases n now peer target count
          · rw [hdropped] at hsent
            cases hsent
          · rw [hanswered] at hsent
            rw [List.mem_singleton.mp hsent]
            exact ⟨rfl, Nat.lt_succ_self 1⟩
      | userData payload =>
          rw [hkind] at hsent
          dsimp only at hsent
          by_cases hdest : env.toId = n.id
          · by_cases hclass : env.messageClass = .criticalUser
            · rw [handleUserData_critical hdest hclass] at hsent
              cases hsent
            · rw [handleUserData_normal hdest hclass] at hsent
              cases hsent
          · rw [handleUserData_forward hdest] at hsent
            exact forwardUserData_shorter n hkind sent hsent
      | _ =>
          rw [hkind] at hsent
          cases hsent

/-- **A hello is answered by a hello**, signed by the node, when it passes the
guard. -/
theorem hello_answered {n : Node} {now : Nat} {peer : NodeId} {env : Envelope}
    (hbody : env.body.isHello = true) (hadmits : n.admits peer env = true) :
    ∃ answer : Envelope, (n.handleEnvelope now peer env).out = [(peer, answer)] ∧
      answer.body.isHello = true ∧
        ∃ plain, answer = signEnvelope plain n.keypair.signing := by
  cases hkind : env.body with
  | hello d =>
      rw [handleEnvelope_admitted hadmits, dispatch, hkind]
      dsimp only
      unfold handleHello
      rcases n.store.upsert d none with ⟨verdict, store⟩
      cases verdict with
      | ok updated => exact ⟨_, rfl, rfl, _, rfl⟩
      | error e => exact ⟨_, rfl, rfl, _, rfl⟩
  | _ =>
      rw [hkind] at hbody
      cases hbody

/-- All that handling a hello sends is its answer. -/
theorem hello_out {n : Node} {now : Nat} {peer : NodeId} {env : Envelope}
    (hbody : env.body.isHello = true) {sent : NodeId × Envelope}
    (hsent : sent ∈ (n.handleEnvelope now peer env).out) :
    sent.1 = peer ∧ sent.2.body.isHello = true ∧
      ∃ plain, sent.2 = signEnvelope plain n.keypair.signing := by
  cases hadmits : n.admits peer env with
  | false =>
      rw [handleEnvelope_refused hadmits] at hsent
      cases hsent
  | true =>
      obtain ⟨answer, hout, hhello, hsigned⟩ := hello_answered hbody hadmits
      rw [hout] at hsent
      rw [List.mem_singleton.mp hsent]
      exact ⟨rfl, hhello, hsigned⟩

end Node

end Zona
