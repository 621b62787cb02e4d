import Zona.NodeRuns

/-!
# What an unsigned envelope can do

The guard of `handleEnvelope` looks at signed envelopes only; an unsigned one
is processed whatever it carries.  `effect_authenticates_iff` says for
every reachable node which envelopes have an effect only with a valid
signature: those that are signed at all, and the unsigned ones that are
`Inert`, that is, that would change nothing in this state anyway.

The proof goes through the kinds of message.  A list of found peers is the
one kind with a loop: what one candidate does to the store or the table is
never undone by the next one (`Shows`).
-/

namespace Zona

namespace Node

variable [Crypto]

/-- Handling an envelope did something: the node changed or sent something. -/
def HasEffect (n : Node) (handled : Handled) : Prop :=
  handled.node ≠ n ∨ handled.out ≠ []

/-- The envelope is validly signed under the key held for the peer. -/
def Authenticates (n : Node) (peer : NodeId) (env : Envelope) : Prop :=
  ∃ cached, n.store.get peer = some cached ∧ env.AuthenticBy cached.descriptor.pubkey

/-- **The guard.**  What passes is unsigned, validly signed by the peer, or a
signed hello from a stranger. -/
theorem admits_iff {n : Node} {peer : NodeId} {env : Envelope} :
    n.admits peer env = true ↔
      env.signature = [] ∨ n.Authenticates peer env ∨
        (n.store.get peer = none ∧ env.body.isHello = true) := by
  unfold admits Authenticates
  by_cases hsig : env.signature = []
  · simp [hsig]
  · rw [if_neg hsig]
    cases hget : n.store.get peer with
    | none => simp [hsig]
    | some cached =>
        have hverify : verifyEnvelope env cached.descriptor.pubkey = .ok () ↔
            env.signature = [] ∨ env.AuthenticBy cached.descriptor.pubkey :=
          verifyEnvelope_ok
        cases hresult : verifyEnvelope env cached.descriptor.pubkey with
        | ok u =>
            rw [hresult] at hverify
            have hauthentic := (hverify.mp rfl).resolve_left hsig
            simp [hauthentic, hresult]
        | error e =>
            rw [hresult] at hverify
            have hforged : ¬ env.AuthenticBy cached.descriptor.pubkey := by
              intro hauthentic
              have hok := hverify.mpr (Or.inr hauthentic)
              cases hok
            simp [hsig, hforged, hresult]

/-- A signed envelope that is no hello does something only when it is validly
signed by the peer. -/
theorem authenticates_of_effect {n : Node} {now : Nat} {peer : NodeId} {env : Envelope}
    (hbody : env.body.isHello = false) (hsig : env.signature ≠ [])
    (heffect : n.HasEffect (n.handleEnvelope now peer env)) : n.Authenticates peer env := by
  by_cases hadmits : n.admits peer env = true
  · rcases admits_iff.mp hadmits with hunsigned | hauthentic | ⟨_, hhello⟩
    · exact (hsig hunsigned).elim
    · exact hauthentic
    · rw [hbody] at hhello
      cases hhello
  · rw [handleEnvelope_refused (Bool.eq_false_iff.mpr hadmits)] at heffect
    rcases heffect with hnode | hout
    · exact (hnode rfl).elim
    · exact (hout rfl).elim

/-- An envelope with an empty signature goes straight to its arm, whatever its
kind, as the check is made for signed ones only. -/
theorem handleEnvelope_of_unsigned {n : Node} {now : Nat} {peer : NodeId} {env : Envelope}
    (hsig : env.signature = []) : n.handleEnvelope now peer env = n.dispatch now peer env := by
  rw [handleEnvelope_admitted (admits_iff.mpr (Or.inl hsig))]

theorem reply_hasEffect (n m : Node) (peer : NodeId) (body : MessageKind) :
    n.HasEffect (m.reply peer body) :=
  Or.inr (List.cons_ne_nil _ _)

omit [Crypto] in
/-- Counting a dropped packet is an effect: the counter wraps around, but it
does not stay where it was. -/
theorem countDropped_ne (n m : Node) (h : m.metrics = n.metrics) : m.countDropped ≠ n := by
  intro hsame
  have hcount := congrArg (fun k : Node => k.metrics.messagesDropped) hsame
  simp only [countDropped, h] at hcount
  grind

/-- Sending a user envelope on leaves a copy or a dropped message behind. -/
theorem sendUserHop_shows (n : Node) (env : Envelope) (next : NodeId) :
    (n.sendUserHop env next).1 ≠ [] ∨ (n.sendUserHop env next).2 = n.countDropped := by
  by_cases hle : env.ttl ≤ 1
  · rw [sendUserHop_of_le hle]
    exact Or.inr rfl
  · rw [sendUserHop_of_lt (UInt8.not_le.mp hle)]
    exact Or.inl (List.cons_ne_nil _ _)

/-- User data for another node always leaves a trace: it is sent on, or a
counter of the node has moved. -/
theorem forwardUserData_hasEffect {n : Node} {env : Envelope} (h : env.toId ≠ n.id) :
    (n.forwardUserData env).2 ≠ n ∨ (n.forwardUserData env).1 ≠ [] := by
  obtain ⟨repairs, counter, _, hforward⟩ := forwardUserData_spec n env
  have hcounts : ∀ m : Node, m.metrics = n.countDropped.metrics → m ≠ n := by
    intro m hm hsame
    have hcount := congrArg Metrics.messagesDropped hm
    rw [hsame] at hcount
    simp only [countDropped] at hcount
    grind
  rw [hforward]
  cases n.userHop env.toId with
  | some hop =>
      rcases sendUserHop_shows n env hop with hout | hdropped
      · exact Or.inr fun hnil => hout (List.append_eq_nil_iff.mp hnil).1
      · refine Or.inl (hcounts _ ?_)
        dsimp only
        rw [hdropped]
  | none =>
      refine Or.inl (hcounts _ ?_)
      dsimp only
      rw [if_neg (fun heq => h heq.symm)]

/-- The table is at least as long and as much of the budget is spent. -/
def TableGrows (t u : PeerTable) : Prop :=
  t.slots.length + t.replacementsThisTick ≤ u.slots.length + u.replacementsThisTick

/-- Nothing that the store and the table hold was lost. -/
def Keeps (n m : Node) : Prop :=
  n.store.Improves m.store ∧ TableGrows n.table m.table

/-- The store or the table gained something. -/
def Shows (n m : Node) : Prop :=
  n.store.Changed m.store ∨ n.table.Grew m.table

/-- Neither the store nor the table takes anything from the candidate. -/
def RefusesCandidate (n : Node) (c : PexCandidate) : Prop :=
  (verifyDescriptor c.descriptor = .ok () → n.store.wins ⟨c.descriptor, none⟩ = false) ∧
    (n.table.tryInsert (SlotEntry.new .greedy c.descriptor.nodeId c.referrerId)).1 = false

theorem Shows.ne {n m : Node} (h : n.Shows m) : m ≠ n := by
  intro hsame
  rcases h with hstore | htable
  · exact hstore.ne (by rw [hsame])
  · exact htable.ne (by rw [hsame])

/-- A change still shows after steps that keep the parts of a node in which it
shows. -/
theorem Shows.trans_keeps {n m k : Node} (h : n.Shows m) (h' : m.Keeps k) : n.Shows k := by
  rcases h with hstore | htable
  · exact Or.inl (hstore.trans_improves h'.1)
  · exact Or.inr (Nat.lt_of_lt_of_le htable h'.2)

theorem integrate_cases (n : Node) (c : PexCandidate) :
    n.Keeps (n.integrate c) ∧
      ((n.RefusesCandidate c ∧ n.integrate c = n) ∨
        (¬ n.RefusesCandidate c ∧ n.Shows (n.integrate c))) := by
  have himproves := DescriptorStore.upsert_improves n.store c.descriptor none
  have htable := PeerTable.tryInsert_greedy_cases n.table
    (SlotEntry.new .greedy c.descriptor.nodeId c.referrerId) rfl
  have hgrows : TableGrows n.table (n.integrate c).table := by
    rcases htable with hrefused | ⟨_, hgrew⟩
    · have hsame : (n.integrate c).table = n.table := by
        rw [integrate, hrefused]
      rw [hsame]
      exact Nat.le_refl _
    · exact Nat.le_of_lt hgrew
  refine ⟨⟨himproves, hgrows⟩, ?_⟩
  rcases DescriptorStore.upsert_cases n.store c.descriptor none with
    ⟨hnot, hsame⟩ | ⟨hverify, hwins, hrun⟩
  · have hquiet : verifyDescriptor c.descriptor = .ok () →
        n.store.wins ⟨c.descriptor, none⟩ = false := by
      intro hverify
      rw [DescriptorStore.upsert, hverify] at hnot
      cases hwins : n.store.wins ⟨c.descriptor, none⟩ with
      | false => rfl
      | true =>
          rw [hwins] at hnot
          exact (hnot rfl).elim
    rcases htable with hrefused | ⟨hadmitted, hgrew⟩
    · refine Or.inl ⟨⟨hquiet, by rw [hrefused]⟩, ?_⟩
      rw [integrate, hsame, hrefused]
    · refine Or.inr ⟨?_, Or.inr hgrew⟩
      intro hrefuses
      rw [hrefuses.2] at hadmitted
      cases hadmitted
  · refine Or.inr ⟨?_, Or.inl ?_⟩
    · intro hrefuses
      rw [hrefuses.1 hverify] at hwins
      cases hwins
    · have hchanged := DescriptorStore.changed_of_wins hwins
      rw [integrate, hrun]
      exact hchanged

theorem keeps_foldl (peers : List PexCandidate) (n : Node) :
    n.Keeps (peers.foldl integrate n) := by
  induction peers generalizing n with
  | nil => exact ⟨DescriptorStore.improves_refl n.store, Nat.le_refl _⟩
  | cons c rest ih =>
      have hone := (integrate_cases n c).1
      have hrest := ih (n.integrate c)
      exact ⟨hone.1.trans hrest.1, Nat.le_trans hone.2 hrest.2⟩

/-- **A list of found peers leaves no trace** exactly when every one of them
would be refused. -/
theorem foldl_integrate_eq_iff (peers : List PexCandidate) (n : Node) :
    peers.foldl integrate n = n ↔ ∀ c ∈ peers, n.RefusesCandidate c := by
  induction peers with
  | nil => simp
  | cons c rest ih =>
      rw [List.foldl_cons, List.forall_mem_cons]
      rcases (integrate_cases n c).2 with ⟨hrefuses, hsame⟩ | ⟨htakes, hshows⟩
      · rw [hsame, ih]
        exact ⟨fun h => ⟨hrefuses, h⟩, fun h => h.2⟩
      · have hvisible := hshows.trans_keeps (keeps_foldl rest (n.integrate c))
        exact ⟨fun h => (hvisible.ne h).elim, fun h => (htakes h.1).elim⟩

/-- The envelope would change nothing in this state, signed or not: a pong
from a peer without a slot or with a slot that a success leaves as it is,
found peers that are all refused, a descriptor that does not win, ordinary
user data at its destination, an invite from an issuer with nothing left. -/
def Inert (n : Node) (now : Nat) (peer : NodeId) (env : Envelope) : Prop :=
  match env.body with
  | .pong _ =>
      ∀ s, (n.table.slots.find? fun s => s.peerId = peer) = some s → s.recordProbe true = s
  | .foundNodes peers => ∀ c ∈ peers, n.RefusesCandidate c
  | .announceDescriptor d =>
      verifyDescriptor d = .ok () → n.store.wins ⟨d, none⟩ = false
  | .userData _ => env.toId = n.id ∧ env.messageClass = .normal
  | .invite _ => PeerExhausted n.limits.invite peer now
  | _ => False

omit [Crypto] in
/-- A node whose only trace is a changed part is unchanged exactly when the
part is. -/
theorem not_hasEffect_iff {n : Node} {handled : Handled} (hout : handled.out = []) :
    ¬ n.HasEffect handled ↔ handled.node = n := by
  unfold HasEffect
  rw [hout]
  simp

omit [Crypto] in
/-- A pong has no effect exactly if there is no slot for its sender, or the
probe leaves the slot as it is. -/
theorem handlePong_inert_iff (n : Node) (peer : NodeId) :
    ¬ n.HasEffect (n.handlePong peer) ↔
      ∀ s, (n.table.slots.find? fun s => s.peerId = peer) = some s → s.recordProbe true = s := by
  rw [not_hasEffect_iff rfl, ← PeerTable.recordProbe_eq_self_iff]
  constructor
  · intro h
    exact congrArg Node.table h
  · intro h
    rw [handlePong, h]

/-- An announced descriptor has no effect exactly if it is invalid or does not
win against the stored one. -/
theorem handleAnnounceDescriptor_inert_iff (n : Node) (d : Descriptor) :
    ¬ n.HasEffect (n.handleAnnounceDescriptor d) ↔
      (verifyDescriptor d = .ok () → n.store.wins ⟨d, none⟩ = false) := by
  rw [not_hasEffect_iff rfl]
  rcases DescriptorStore.upsert_cases n.store d none with ⟨hnot, hsame⟩ | ⟨hverify, hwins, hrun⟩
  · constructor
    · intro _ hverify
      rw [DescriptorStore.upsert, hverify] at hnot
      cases hwins : n.store.wins ⟨d, none⟩ with
      | false => rfl
      | true =>
          rw [hwins] at hnot
          exact (hnot rfl).elim
    · intro _
      rw [handleAnnounceDescriptor, hsame]
  · constructor
    · intro h
      have hstore := congrArg Node.store h
      rw [handleAnnounceDescriptor, hrun] at hstore
      exact ((DescriptorStore.changed_of_wins hwins).ne hstore).elim
    · intro h
      rw [h hverify] at hwins
      cases hwins

omit [Crypto] in
/-- An invite has no effect exactly if the limiter of the sender is exhausted,
since otherwise the call is counted. -/
theorem handleInvite_inert_iff {n : Node} {now : Nat} {peer : NodeId}
    (hlimits : Usable n.limits.invite) :
    ¬ n.HasEffect (n.handleInvite now peer) ↔ PeerExhausted n.limits.invite peer now := by
  have hconsume := @consume_eq_self_iff n.limits.invite LimitConfig.invite peer now hlimits
  rw [not_hasEffect_iff rfl, ← hconsume]
  rw [handleInvite, RateLimiter.checkInvite_snd]
  constructor
  · intro h
    exact congrArg (fun m : Node => m.limits.invite) h
  · intro h
    rw [h]

/-- User data has no effect on state or messages exactly if it is for the node
itself and not critical. -/
theorem handleUserData_inert_iff (n : Node) (env : Envelope) (payload : List UInt8) :
    ¬ n.HasEffect (n.handleUserData env payload) ↔
      env.toId = n.id ∧ env.messageClass = .normal := by
  by_cases hdest : env.toId = n.id
  · cases hclass : env.messageClass with
    | normal =>
        rw [handleUserData_normal hdest (by rw [hclass]; simp)]
        simp [HasEffect, hdest]
    | criticalUser =>
        rw [handleUserData_critical hdest hclass]
        have heffect : ∀ event, n.HasEffect
            ⟨if (n.quorum.record env.messageId payload).1 = .inconsistent then
              { n with quorum := (n.quorum.record env.messageId payload).2 }.countDropped
            else { n with quorum := (n.quorum.record env.messageId payload).2 }, [], event⟩ := by
          intro event
          refine Or.inl ?_
          rcases QuorumTracker.record_shows n.quorum env.messageId payload with hbad | hchanged
          · rw [if_pos hbad]
            exact countDropped_ne n _ rfl
          · split
            · exact countDropped_ne n _ rfl
            · intro hsame
              exact hchanged (congrArg Node.quorum hsame)
        simp [heffect]
  · rw [handleUserData_forward hdest]
    have heffect := forwardUserData_hasEffect hdest
    simp [HasEffect, hdest, heffect]

/-- A lookup always has an effect, because the limiter counts it or the
refusal. -/
theorem handleFindNode_hasEffect (n : Node) (now : Nat) (peer target : NodeId) (count : UInt8) :
    n.HasEffect (n.handleFindNode now peer target count) := by
  obtain ⟨find, checked, hchecked, hdropped | hanswered⟩ :=
    handleFindNode_cases n now peer target count
  · rw [hdropped, hchecked]
    exact Or.inl (countDropped_ne n _ rfl)
  · rw [hanswered]
    exact reply_hasEffect n checked peer _

omit [Crypto] in
/-- A peer exchange always has an effect, because the round is counted. -/
theorem handlePex_hasEffect (n : Node) (candidates : List PexCandidate) :
    n.HasEffect (n.handlePex candidates) := by
  refine Or.inl ?_
  intro hsame
  have hrounds := congrArg (fun m : Node => m.metrics.pexRounds) hsame
  simp only [handlePex] at hrounds
  grind

/-- **Dispatch and inertness.**  Processing an envelope that is no hello has no
effect exactly when the envelope is inert. -/
theorem dispatch_inert_iff {n : Node} {now : Nat} {peer : NodeId} {env : Envelope}
    (hlimits : Usable n.limits.invite) (hbody : env.body.isHello = false) :
    ¬ n.HasEffect (n.dispatch now peer env) ↔ n.Inert now peer env := by
  unfold dispatch Inert
  cases hkind : env.body with
  | hello d =>
      rw [hkind] at hbody
      cases hbody
  | ping nonce => exact iff_of_false (fun h => h (reply_hasEffect n n peer _)) not_false
  | pong nonce => exact handlePong_inert_iff n peer
  | findNode target count =>
      exact iff_of_false (fun h => h (handleFindNode_hasEffect n now peer target count)) not_false
  | foundNodes peers => exact (not_hasEffect_iff rfl).trans (foldl_integrate_eq_iff peers n)
  | pex candidates => exact iff_of_false (fun h => h (handlePex_hasEffect n candidates)) not_false
  | announceDescriptor d => exact handleAnnounceDescriptor_inert_iff n d
  | userData payload => exact handleUserData_inert_iff n env payload
  | invite token => exact handleInvite_inert_iff hlimits

/-- **When an effect proves a signature.**  In a reachable node, an envelope
that is no hello can only have an effect when it is validly signed by the
transport peer, exactly when it carries a signature at all or is inert. -/
theorem effect_authenticates_iff {keypair : NodeKeypair} {config : NodeConfig} {n : Node}
    (h : Reachable Step (Node.new keypair config) n) (now : Nat) (peer : NodeId)
    {env : Envelope} (hbody : env.body.isHello = false) :
    (n.HasEffect (n.handleEnvelope now peer env) → n.Authenticates peer env) ↔
      env.signature ≠ [] ∨ n.Inert now peer env := by
  have hlimits := usable_invite_of_reachable h
  by_cases hsig : env.signature = []
  · have hinert := @dispatch_inert_iff _ n now peer env hlimits hbody
    have hforged : ¬ n.Authenticates peer env := by
      intro ⟨cached, _, hauthentic⟩
      exact not_authenticBy_of_unsigned hsig cached.descriptor.pubkey hauthentic
    rw [handleEnvelope_of_unsigned hsig, ← hinert]
    constructor
    · intro hsigned
      exact Or.inr fun heffect => hforged (hsigned heffect)
    · intro hquiet heffect
      exact (hquiet.resolve_left fun hne => hne hsig) heffect |>.elim
  · exact ⟨fun _ => Or.inl hsig, fun _ => authenticates_of_effect hbody hsig⟩

/-- A ping from a stranger, without a signature. -/
def unsignedPing : Envelope where
  toId := (sample 7).id
  fromId := (sample 8).id
  messageId := 1
  ttl := 20
  messageClass := .normal
  routeFork := false
  body := .ping 5
  signature := []

omit [Crypto] in
/-- At a fresh node the guarantee fails for the unsigned ping. -/
theorem effect_authenticates_iff_ping :
    (@HasEffect (sample 7)
        (@handleEnvelope checksumCrypto (sample 7) 0 (sample 8).id unsignedPing) →
      @Authenticates checksumCrypto (sample 7) (sample 8).id unsignedPing) ↔
      unsignedPing.signature ≠ [] ∨
        @Inert checksumCrypto (sample 7) 0 (sample 8).id unsignedPing :=
  @effect_authenticates_iff checksumCrypto (sample 7).keypair (sample 7).config (sample 7)
    ⟨[], .nil⟩ 0 (sample 8).id unsignedPing rfl

omit [Crypto] in
/-- **Anybody gets an answer to an unsigned ping**, although the comment on the
check has unsigned envelopes skip it for greetings only. -/
theorem unsigned_ping_answered :
    @Reachable _ _ (@Step checksumCrypto) (sample 7) (sample 7) ∧
      unsignedPing.body.isHello = false ∧
        @HasEffect (sample 7)
          (@handleEnvelope checksumCrypto (sample 7) 0 (sample 8).id unsignedPing) ∧
        ¬ @Authenticates checksumCrypto (sample 7) (sample 8).id unsignedPing := by
  refine ⟨⟨[], .nil⟩, rfl, Or.inr (List.cons_ne_nil _ _), ?_⟩
  intro ⟨cached, _, hauthentic⟩
  exact @not_authenticBy_of_unsigned checksumCrypto _ rfl _ hauthentic

end Node

end Zona
