import Zona.AuthenticAdverts

/-!
# Iteration orders

A hash map may be iterated in any order.  Two maps are `Alike` when a reader
sees the same entries; two nodes are when their maps are, and everything else is
the same.  The rate limits say what the clock was, and they are compared only
where the nodes are `rated`.

A node looks entries up, with one exception: the answer to a lookup searches all
descriptors for those of a peer.  Every descriptor is filed under its own
identifier, so the search finds what a lookup would, and no order shows:
`handleEnvelope_alike` says that alike nodes treat a message alike, if they read
the same clock or neither of them refuses it for its rate.
-/

namespace HashMap

variable {κ ν : Type} [DecidableEq κ]

/-- A reader sees the same entries. -/
def Alike (m m' : HashMap κ ν) : Prop :=
  ∀ k, m'.lookup k = m.lookup k

namespace Alike

variable {m m' : HashMap κ ν}

theorem refl (m : HashMap κ ν) : m.Alike m :=
  fun _ => rfl

theorem symm (h : m.Alike m') : m'.Alike m :=
  fun k => (h k).symm

theorem trans {m'' : HashMap κ ν} (h : m.Alike m') (h' : m'.Alike m'') : m.Alike m'' :=
  fun k => (h' k).trans (h k)

/-- Inserting the same value keeps two maps alike, whether the key is a new one
or not. -/
theorem put (h : m.Alike m') (k : κ) (v : ν) : (m.put k v).Alike (m'.put k v) := by
  intro k'
  rw [lookup_put, lookup_put, h k']

theorem erase (h : m.Alike m') (k : κ) : HashMap.Alike (m.erase k) (m'.erase k) := by
  intro k'
  rw [lookup_erase, lookup_erase, h k']

end Alike

/-- The same keys, with related values. -/
def Related {ν' : Type} (r : ν → ν' → Prop) (m : HashMap κ ν) (m' : HashMap κ ν') : Prop :=
  ∀ k, Option.Rel r (m.lookup k) (m'.lookup k)

namespace Related

variable {ν' : Type} {r : ν → ν' → Prop} {m : HashMap κ ν} {m' : HashMap κ ν'}

/-- Inserting related values under one key keeps two maps related. -/
theorem put (h : Related r m m') (k : κ) {v : ν} {v' : ν'} (hv : r v v') :
    Related r (m.put k v) (m'.put k v') := by
  intro k'
  rw [lookup_put, lookup_put]
  by_cases hk : k' = k
  · rw [if_pos hk, if_pos hk]
    exact .some hv
  · rw [if_neg hk, if_neg hk]
    exact h k'

/-- Erasing a key keeps two maps related, as it removes related values or none. -/
theorem erase (h : Related r m m') (k : κ) : Related r (m.erase k) (m'.erase k) := by
  intro k'
  rw [lookup_erase, lookup_erase]
  by_cases hk : k' = k
  · rw [if_pos hk, if_pos hk]
    exact .none
  · rw [if_neg hk, if_neg hk]
    exact h k'

/-- Related maps at one key: it is missing in both, or both have it with
related values. -/
theorem lookup_cases (h : Related r m m') (k : κ) :
    (m.lookup k = none ∧ m'.lookup k = none) ∨
      ∃ v v', m.lookup k = some v ∧ m'.lookup k = some v' ∧ r v v' := by
  have hk := h k
  cases hv : m.lookup k with
  | none =>
      cases hv' : m'.lookup k with
      | none => exact Or.inl ⟨rfl, rfl⟩
      | some v' =>
          rw [hv, hv'] at hk
          cases hk
  | some v =>
      cases hv' : m'.lookup k with
      | none =>
          rw [hv, hv'] at hk
          cases hk
      | some v' =>
          rw [hv, hv'] at hk
          exact Or.inr ⟨v, v', rfl, rfl, Option.rel_some_some.mp hk⟩

/-- Maps that are alike are related by whatever relates a value to itself. -/
theorem of_alike {r : ν → ν → Prop} {m m' : HashMap κ ν} (h : m.Alike m')
    (hr : ∀ v, r v v) : Related r m m' := by
  intro k
  rw [h k]
  cases m.lookup k with
  | none => exact .none
  | some v => exact .some (hr v)

/-- Maps that are related are related in any weaker way. -/
theorem imp {r' : ν → ν' → Prop} (h : Related r m m') (hr : ∀ {v v'}, r v v' → r' v v') :
    Related r' m m' := by
  intro k
  rcases h.lookup_cases k with ⟨hv, hv'⟩ | ⟨v, v', hv, hv', hvr⟩
  · rw [hv, hv']
    exact .none
  · rw [hv, hv']
    exact .some (hr hvr)

theorem symm {r' : ν' → ν → Prop} (h : Related r m m') (hr : ∀ {v v'}, r v v' → r' v' v) :
    Related r' m' m := by
  intro k
  rcases h.lookup_cases k with ⟨hv, hv'⟩ | ⟨v, v', hv, hv', hvr⟩
  · rw [hv, hv']
    exact .none
  · rw [hv, hv']
    exact .some (hr hvr)

theorem trans {ν'' : Type} {s : ν' → ν'' → Prop} {q : ν → ν'' → Prop} {m'' : HashMap κ ν''}
    (h : Related r m m') (h' : Related s m' m'')
    (hr : ∀ {v v' v''}, r v v' → s v' v'' → q v v'') : Related q m m'' := by
  intro k
  rcases h.lookup_cases k with ⟨hv, hv'⟩ | ⟨v, v', hv, hv', hvr⟩
  · rcases h'.lookup_cases k with ⟨_, hv''⟩ | ⟨w, _, hw, _⟩
    · rw [hv, hv'']
      exact .none
    · rw [hv'] at hw
      cases hw
  · rcases h'.lookup_cases k with ⟨hw, _⟩ | ⟨w, v'', hw, hv'', hws⟩
    · rw [hv'] at hw
      cases hw
    · obtain rfl : v' = w := Option.some.inj (hv'.symm.trans hw)
      rw [hv, hv'']
      exact .some (hr hvr hws)

theorem keys_perm (h : Related r m m') : m'.keys.Perm m.keys := by
  refine (List.perm_ext_iff_of_nodup m'.keys_nodup m.keys_nodup).mpr fun k => ?_
  rw [← AList.mem_keys, ← AList.mem_keys, ← AList.lookup_isSome, ← AList.lookup_isSome]
  rcases h.lookup_cases k with ⟨hv, hv'⟩ | ⟨v, v', hv, hv', _⟩
  · rw [hv, hv']
    rfl
  · rw [hv, hv']
    rfl

end Related

/-- The map with a key that it holds in the first place. -/
def bringFirst (k : κ) (m : HashMap κ ν) : HashMap κ ν :=
  match m.lookup k with
  | none => m
  | some v => AList.insert k v (m.erase k)

/-- Bringing a key to the front changes the order of a map and nothing else. -/
theorem bringFirst_alike (k : κ) (m : HashMap κ ν) : m.Alike (m.bringFirst k) := by
  intro k'
  unfold bringFirst
  cases hv : m.lookup k with
  | none => rfl
  | some v =>
      dsimp only
      by_cases hk : k' = k
      · rw [hk, AList.lookup_insert, hv]
      · rw [AList.lookup_insert_ne hk, AList.lookup_erase_ne hk]

theorem keys_bringFirst {m : HashMap κ ν} {k : κ} {v : ν} (h : m.lookup k = some v) :
    ∃ rest, (m.bringFirst k).keys = k :: rest := by
  unfold bringFirst
  rw [h]
  exact ⟨_, AList.keys_insert _⟩

end HashMap

namespace Zona

variable [Crypto]

namespace DescriptorStore

/-- A search for the descriptor of a peer finds what a lookup would. -/
theorem descriptorOf_allDescriptors {s : DescriptorStore} (h : s.Authentic) (peer : NodeId) :
    descriptorOf s.allDescriptors peer = (s.get peer).map CachedDescriptor.descriptor := by
  cases hfound : descriptorOf s.allDescriptors peer with
  | some d =>
      obtain ⟨hd, hid⟩ := descriptorOf_eq_some hfound
      obtain ⟨id, c, hget, rfl⟩ := mem_allDescriptors.mp hd
      rw [← hid, (h id c hget).1, hget]
      rfl
  | none =>
      cases hget : s.get peer with
      | none => rfl
      | some c =>
          have hmem : c.descriptor ∈ s.allDescriptors := mem_allDescriptors.mpr ⟨peer, c, hget, rfl⟩
          have hnot := List.find?_eq_none.mp hfound c.descriptor hmem
          simp [(h peer c hget).1] at hnot

/-- Stores that are alike take updates alike: they accept the same ones and
stay alike, since an update looks at one key only. -/
theorem upsert_alike {s s' : DescriptorStore} (h : s.entries.Alike s'.entries) (d : Descriptor)
    (height : Option UInt64) :
    (s'.upsert d height).1 = (s.upsert d height).1 ∧
      (s.upsert d height).2.entries.Alike (s'.upsert d height).2.entries := by
  have hwins : s'.wins ⟨d, height⟩ = s.wins ⟨d, height⟩ := by
    unfold wins get
    rw [h]
  unfold upsert
  cases verifyDescriptor d with
  | error e => exact ⟨rfl, h⟩
  | ok =>
      dsimp only
      rw [hwins]
      cases s.wins ⟨d, height⟩ with
      | true => exact ⟨rfl, h.put _ _⟩
      | false => exact ⟨rfl, h⟩

/-- A store with the same descriptors holds authentic ones if the other does. -/
theorem authentic_of_alike {s s' : DescriptorStore} (h : s.entries.Alike s'.entries)
    (hs : s.Authentic) : s'.Authentic := by
  intro id c hget
  refine hs id c ?_
  rw [get, ← h id]
  exact hget

end DescriptorStore

omit [Crypto] in
/-- Limiters that are alike admit the same calls at the same time, as each call
looks at the bucket of one peer only. -/
theorem consume_alike {buckets buckets' : HashMap NodeId Bucket} (h : buckets.Alike buckets')
    (config : LimitConfig) (peer : NodeId) (now : Nat) :
    (consume buckets' config peer now).1 = (consume buckets config peer now).1 ∧
      (consume buckets config peer now).2.Alike (consume buckets' config peer now).2 := by
  unfold consume
  dsimp only
  rw [h peer]
  exact ⟨rfl, h.put _ _⟩

/-- The buckets of the peers are alike. -/
structure RateLimiter.Alike (l l' : RateLimiter) : Prop where
  find : l.find.Alike l'.find
  ping : l.ping.Alike l'.ping
  invite : l.invite.Alike l'.invite

omit [Crypto] in
/-- The check of lookups, with its two buckets for known and unknown peers,
does not see the order of the buckets. -/
theorem RateLimiter.checkFind_alike {l l' : RateLimiter} (h : l.Alike l') (peer : NodeId)
    (authenticated : Bool) (now : Nat) :
    (l'.checkFind peer authenticated now).1 = (l.checkFind peer authenticated now).1 ∧
      (l.checkFind peer authenticated now).2.Alike (l'.checkFind peer authenticated now).2 := by
  unfold checkFind
  dsimp only
  generalize (if authenticated = true then LimitConfig.findNode else LimitConfig.findUnauth)
    = config
  obtain ⟨hallowed, hfind⟩ := consume_alike h.find config peer now
  rcases hrun : consume l.find config peer now with ⟨allowed, find⟩
  rcases hrun' : consume l'.find config peer now with ⟨allowed', find'⟩
  rw [hrun, hrun'] at hallowed hfind
  obtain rfl : allowed' = allowed := hallowed
  cases allowed' with
  | true => exact ⟨rfl, hfind, h.ping, h.invite⟩
  | false => exact ⟨rfl, hfind, h.ping, h.invite⟩

omit [Crypto] in
/-- Trackers that are alike give the same verdict on a copy, since they look
under its message id only. -/
theorem QuorumTracker.record_alike {q q' : QuorumTracker} (h : q.pending.Alike q'.pending)
    (messageId : UInt64) (payload : List UInt8) :
    (q'.record messageId payload).1 = (q.record messageId payload).1 ∧
      (q.record messageId payload).2.pending.Alike (q'.record messageId payload).2.pending := by
  have hcompare : q'.compare messageId payload = q.compare messageId payload := by
    unfold compare
    rw [h messageId]
  unfold record
  dsimp only
  rw [hcompare]
  split
  · exact ⟨rfl, h.put _ _⟩
  · split
    · exact ⟨rfl, h.erase _⟩
    · exact ⟨rfl, h.put _ _⟩

namespace Node

/-- The node with other maps. -/
def withMaps (n : Node) (store : DescriptorStore) (limits : RateLimiter)
    (quorum : QuorumTracker) : Node :=
  { n with store := store, limits := limits, quorum := quorum }

/-- The maps of a node are alike to these, the limits where the node is rated. -/
structure MapsAlike (rated : Prop) (n : Node) (store : DescriptorStore) (limits : RateLimiter)
    (quorum : QuorumTracker) : Prop where
  store : n.store.entries.Alike store.entries
  limits : rated → n.limits.Alike limits
  quorum : n.quorum.pending.Alike quorum.pending

/-- The nodes differ at most in the order of their maps and, unless they are
rated, in their limits. -/
def Alike (rated : Prop) (n n' : Node) : Prop :=
  ∃ store limits quorum,
    n' = n.withMaps store limits quorum ∧ n.MapsAlike rated store limits quorum

end Node

/-- The outcomes differ at most in the maps of the nodes. -/
structure Handled.Alike (rated : Prop) (r r' : Handled) : Prop where
  node : r.node.Alike rated r'.node
  out : r'.out = r.out
  event : r'.event = r.event

namespace Node

variable {rated : Prop} {n n' : Node} {store : DescriptorStore} {limits : RateLimiter}
  {quorum : QuorumTracker}

section Equivalence

omit [Crypto]

theorem Alike.refl (rated : Prop) (n : Node) : n.Alike rated n :=
  ⟨n.store, n.limits, n.quorum, rfl, .refl _, fun _ => ⟨.refl _, .refl _, .refl _⟩, .refl _⟩

theorem Alike.symm (h : n.Alike rated n') : n'.Alike rated n := by
  obtain ⟨store, limits, quorum, rfl, hmaps⟩ := h
  refine ⟨n.store, n.limits, n.quorum, rfl, hmaps.store.symm, ?_, hmaps.quorum.symm⟩
  intro hrated
  obtain ⟨hfind, hping, hinvite⟩ := hmaps.limits hrated
  exact ⟨hfind.symm, hping.symm, hinvite.symm⟩

theorem Alike.trans {n'' : Node} (h : n.Alike rated n') (h' : n'.Alike rated n'') :
    n.Alike rated n'' := by
  obtain ⟨store, limits, quorum, rfl, hmaps⟩ := h
  obtain ⟨store', limits', quorum', rfl, hmaps'⟩ := h'
  refine ⟨store', limits', quorum', rfl, hmaps.store.trans hmaps'.store, ?_,
    hmaps.quorum.trans hmaps'.quorum⟩
  intro hrated
  obtain ⟨hfind, hping, hinvite⟩ := hmaps.limits hrated
  obtain ⟨hfind', hping', hinvite'⟩ := hmaps'.limits hrated
  exact ⟨hfind.trans hfind', hping.trans hping', hinvite.trans hinvite'⟩

/-- Nodes that are alike throughout are alike however they are compared. -/
theorem Alike.weaken (h : n.Alike True n') : n.Alike rated n' := by
  obtain ⟨store, limits, quorum, hn, hmaps⟩ := h
  exact ⟨store, limits, quorum, hn, hmaps.store, fun _ => hmaps.limits trivial, hmaps.quorum⟩

end Equivalence

omit [Crypto] in
/-- An outcome in which the maps are as they were. -/
theorem MapsAlike.handled (h : n.MapsAlike rated store limits quorum) {r : Handled}
    (hstore : r.node.store = n.store) (hlimits : r.node.limits = n.limits)
    (hquorum : r.node.quorum = n.quorum) :
    Handled.Alike rated r ⟨r.node.withMaps store limits quorum, r.out, r.event⟩ := by
  refine ⟨⟨store, limits, quorum, rfl, ?_, ?_, ?_⟩, rfl, rfl⟩
  · rw [hstore]
    exact h.store
  · rw [hlimits]
    exact h.limits
  · rw [hquorum]
    exact h.quorum

section Frames

variable (n : Node) (store : DescriptorStore) (limits : RateLimiter) (quorum : QuorumTracker)

/-- Handing a packet on reads none of the three maps, so other maps in the node
make no difference to what is sent. -/
theorem sendUserHop_withMaps (env : Envelope) (next : NodeId) :
    (n.withMaps store limits quorum).sendUserHop env next =
      ((n.sendUserHop env next).1,
        (n.sendUserHop env next).2.withMaps store limits quorum) := by
  unfold sendUserHop
  dsimp only
  generalize (if env.ttl = 0 then 0 else env.ttl - 1) = ttl
  by_cases hspent : ttl = 0
  · rw [if_pos hspent, if_pos hspent]
    rfl
  · rw [if_neg hspent, if_neg hspent]
    rfl

/-- A repair lookup reads none of the three maps: its next hop comes from the
table. -/
theorem emitFindNodeRepair_withMaps (target : NodeId) :
    (n.withMaps store limits quorum).emitFindNodeRepair target =
      ((n.emitFindNodeRepair target).1,
        (n.emitFindNodeRepair target).2.withMaps store limits quorum) := by
  have hhop : (n.withMaps store limits quorum).findHop target = n.findHop target := rfl
  unfold emitFindNodeRepair
  rw [hhop]
  cases n.findHop target with
  | none => rfl
  | some next => rfl

/-- Forwarding user data reads none of the three maps, in any of its three
ways. -/
theorem forwardUserData_withMaps (env : Envelope) :
    (n.withMaps store limits quorum).forwardUserData env =
      ((n.forwardUserData env).1,
        (n.forwardUserData env).2.withMaps store limits quorum) := by
  have hid : (n.withMaps store limits quorum).id = n.id := rfl
  have htable : (n.withMaps store limits quorum).table = n.table := rfl
  unfold forwardUserData
  rw [hid, htable]
  dsimp only
  cases nextHop n.id env.toId n.table with
  | forward next => exact sendUserHop_withMaps n store limits quorum env next
  | deliver => rfl
  | localMinimum =>
      dsimp only
      cases n.table.longJumpSlot.filter fun l => l.peerId ≠ n.id with
      | some l =>
          dsimp only
          rw [sendUserHop_withMaps, emitFindNodeRepair_withMaps]
      | none =>
          dsimp only
          rw [emitFindNodeRepair_withMaps]
          rfl

/-- One step of a repair reads none of the three maps. -/
theorem repairStep_withMaps (out : Outbox) (target : NodeId) :
    repairStep (out, n.withMaps store limits quorum) target =
      ((repairStep (out, n) target).1,
        (repairStep (out, n) target).2.withMaps store limits quorum) := by
  have hhop : (n.withMaps store limits quorum).findHop target = n.findHop target := rfl
  unfold repairStep
  dsimp only
  rw [hhop]
  cases n.findHop target with
  | none => rfl
  | some next => rfl

/-- A whole repair reads none of the three maps, whatever its targets are. -/
theorem foldl_repairStep_withMaps (targets : List NodeId) (out : Outbox) (n : Node) :
    targets.foldl repairStep (out, n.withMaps store limits quorum) =
      ((targets.foldl repairStep (out, n)).1,
        (targets.foldl repairStep (out, n)).2.withMaps store limits quorum) := by
  induction targets generalizing out n with
  | nil => rfl
  | cons target rest ih =>
      rw [List.foldl_cons, List.foldl_cons, repairStep_withMaps]
      exact ih _ _

theorem repairTick_withMaps :
    (n.withMaps store limits quorum).repairTick =
      (n.repairTick.1, n.repairTick.2.withMaps store limits quorum) := by
  have hfold := foldl_repairStep_withMaps store limits quorum
    (repairTargets n.config.epochSeed n.id repairTargetsPerTick) []
    { n with metrics := { n.metrics with repairTicks := n.metrics.repairTicks + 1 } }
  unfold repairTick
  dsimp only [withMaps] at hfold ⊢
  rw [hfold]
  generalize List.foldl repairStep _ _ = repaired
  cases repaired.2.table.longJumpSlot with
  | some l => rfl
  | none =>
      cases repaired.2.table.slots.head? with
      | none => rfl
      | some slot => rfl

end Frames

/-- A greeting is handled alike by nodes whose maps are alike, as it looks into
the store at one key only. -/
theorem MapsAlike.handleHello (h : n.MapsAlike rated store limits quorum) (peer : NodeId)
    (d : Descriptor) :
    Handled.Alike rated (n.handleHello peer d)
      ((n.withMaps store limits quorum).handleHello peer d) := by
  obtain ⟨hverdict, hstore⟩ := DescriptorStore.upsert_alike h.store d none
  rcases hupsert : n.store.upsert d none with ⟨verdict, after⟩
  rcases hupsert' : store.upsert d none with ⟨verdict', after'⟩
  rw [hupsert, hupsert'] at hverdict hstore
  obtain rfl : verdict' = verdict := hverdict
  have heq : (n.withMaps store limits quorum).store = store := rfl
  unfold Node.handleHello
  rw [heq, hupsert, hupsert']
  cases verdict' with
  | ok updated => exact ⟨⟨after', limits, quorum, rfl, hstore, h.limits, h.quorum⟩, rfl, rfl⟩
  | error e => exact ⟨⟨after', limits, quorum, rfl, hstore, h.limits, h.quorum⟩, rfl, rfl⟩

/-- No order of the store shows in the answer to a lookup. -/
theorem MapsAlike.foundCandidates (h : n.MapsAlike rated store limits quorum)
    (hstore : n.store.Authentic) (target : NodeId) (count : UInt8) :
    (n.withMaps store limits quorum).foundCandidates target count =
      n.foundCandidates target count := by
  have hstore' := DescriptorStore.authentic_of_alike h.store hstore
  have hfind : ∀ peer, descriptorOf store.allDescriptors peer =
      descriptorOf n.store.allDescriptors peer := by
    intro peer
    rw [DescriptorStore.descriptorOf_allDescriptors hstore,
      DescriptorStore.descriptorOf_allDescriptors hstore', DescriptorStore.get, h.store peer]
    rfl
  unfold Node.foundCandidates
  refine congrArg (fun f => List.filterMap f _) (funext fun peer => ?_)
  exact congrArg (Option.map _) (hfind peer)

/-- A lookup is handled alike where the limiter is asked at the same time, or
admits the call in both.  The answer joins peers of the table with the store. -/
theorem MapsAlike.handleFindNode (h : n.MapsAlike rated store limits quorum)
    (hstore : n.store.Authentic) {now now' : Nat} {peer : NodeId}
    (hclock : rated → now' = now)
    (hallowed : ¬ rated → (n.limits.checkFind peer true now).1 = .ok () ∧
      (limits.checkFind peer true now').1 = .ok ()) (target : NodeId) (count : UInt8) :
    Handled.Alike rated (n.handleFindNode now peer target count)
      ((n.withMaps store limits quorum).handleFindNode now' peer target count) := by
  have hcheck : (limits.checkFind peer true now').1 = (n.limits.checkFind peer true now).1 ∧
      (rated → (n.limits.checkFind peer true now).2.Alike
        (limits.checkFind peer true now').2) := by
    by_cases hrated : rated
    · rw [hclock hrated]
      obtain ⟨hverdict, hafter⟩ :=
        RateLimiter.checkFind_alike (h.limits hrated) peer true now
      exact ⟨hverdict, fun _ => hafter⟩
    · obtain ⟨hfirst, hsecond⟩ := hallowed hrated
      exact ⟨hsecond.trans hfirst.symm, fun hyes => absurd hyes hrated⟩
  obtain ⟨hverdict, hafter⟩ := hcheck
  rcases hrun : n.limits.checkFind peer true now with ⟨verdict, after⟩
  rcases hrun' : limits.checkFind peer true now' with ⟨verdict', after'⟩
  rw [hrun, hrun'] at hverdict hafter
  obtain rfl : verdict' = verdict := hverdict
  have heq : (n.withMaps store limits quorum).limits = limits := rfl
  have hcandidates := h.foundCandidates hstore target count
  unfold Node.handleFindNode
  rw [heq, hrun, hrun']
  cases verdict' with
  | error e => exact ⟨⟨store, after', quorum, rfl, h.store, hafter, h.quorum⟩, rfl, rfl⟩
  | ok =>
      refine ⟨⟨store, after', quorum, rfl, h.store, hafter, h.quorum⟩, ?_, rfl⟩
      exact congrArg (fun found => (n.reply peer (.foundNodes found)).out) hcandidates

/-- Taking up a candidate looks into the store at one key, so nodes that are
alike stay alike. -/
theorem integrate_alike (h : n.Alike rated n') (c : PexCandidate) :
    (n.integrate c).Alike rated (n'.integrate c) := by
  obtain ⟨store, limits, quorum, rfl, hmaps⟩ := h
  exact ⟨(store.upsert c.descriptor none).2, limits, quorum, rfl,
    (DescriptorStore.upsert_alike hmaps.store c.descriptor none).2, hmaps.limits, hmaps.quorum⟩

/-- Taking up a list of candidates, one after the other, keeps nodes alike. -/
theorem foldl_integrate_alike (peers : List PexCandidate) (h : n.Alike rated n') :
    (peers.foldl integrate n).Alike rated (peers.foldl integrate n') := by
  induction peers generalizing n n' with
  | nil => exact h
  | cons c rest ih => exact ih (integrate_alike h c)

/-- User data is handled alike, for the node itself or for another one. -/
theorem MapsAlike.handleUserData (h : n.MapsAlike rated store limits quorum) (env : Envelope)
    (payload : List UInt8) :
    Handled.Alike rated (n.handleUserData env payload)
      ((n.withMaps store limits quorum).handleUserData env payload) := by
  by_cases hdest : env.toId = n.id
  · have hdest' : env.toId = (n.withMaps store limits quorum).id := hdest
    by_cases hclass : env.messageClass = .criticalUser
    · obtain ⟨hresult, hpending⟩ := QuorumTracker.record_alike h.quorum env.messageId payload
      rcases hrecord : n.quorum.record env.messageId payload with ⟨result, after⟩
      rcases hrecord' : quorum.record env.messageId payload with ⟨result', after'⟩
      rw [hrecord, hrecord'] at hresult hpending
      obtain rfl : result' = result := hresult
      have heq : (n.withMaps store limits quorum).quorum = quorum := rfl
      unfold Node.handleUserData
      rw [if_pos hdest, if_pos hdest', if_pos hclass, if_pos hclass, heq, hrecord, hrecord']
      cases result' with
      | inconsistent =>
          exact ⟨⟨store, limits, after', rfl, h.store, h.limits, hpending⟩, rfl, rfl⟩
      | accepted => exact ⟨⟨store, limits, after', rfl, h.store, h.limits, hpending⟩, rfl, rfl⟩
      | pending => exact ⟨⟨store, limits, after', rfl, h.store, h.limits, hpending⟩, rfl, rfl⟩
    · rw [handleUserData_normal hdest hclass, handleUserData_normal hdest' hclass]
      exact h.handled rfl rfl rfl
  · have hdest' : env.toId ≠ (n.withMaps store limits quorum).id := hdest
    rw [handleUserData_forward hdest, handleUserData_forward hdest', forwardUserData_withMaps]
    obtain ⟨counter, metrics, hframe⟩ := forwardUserData_snd n env
    refine h.handled ?_ ?_ ?_
    all_goals
      dsimp only
      rw [hframe]

omit [Crypto] in
/-- An invite is handled alike where the limiter is asked at the same time, and
it changes nothing but the limiter. -/
theorem MapsAlike.handleInvite (h : n.MapsAlike rated store limits quorum) {now now' : Nat}
    (hclock : rated → now' = now) (peer : NodeId) :
    Handled.Alike rated (n.handleInvite now peer)
      ((n.withMaps store limits quorum).handleInvite now' peer) := by
  refine ⟨⟨store, (limits.checkInvite peer now').2, quorum, rfl, h.store, ?_, h.quorum⟩, rfl, rfl⟩
  intro hrated
  obtain ⟨hfind, hping, hinvite⟩ := h.limits hrated
  unfold Node.handleInvite
  rw [hclock hrated, RateLimiter.checkInvite_snd, RateLimiter.checkInvite_snd]
  exact ⟨hfind, hping, (consume_alike hinvite _ peer now).2⟩

/-- The limits allow the message, if it is a lookup that the node takes in. -/
def Allows (n : Node) (now : Nat) (peer : NodeId) (env : Envelope) : Prop :=
  n.admits peer env = true → ∀ target count, env.body = .findNode target count →
    (n.limits.checkFind peer true now).1 = .ok ()

/-- Whether an envelope is admitted depends on the descriptor of its sender
alone, so nodes that are alike admit the same ones. -/
theorem MapsAlike.admits (h : n.MapsAlike rated store limits quorum) (peer : NodeId)
    (env : Envelope) : (n.withMaps store limits quorum).admits peer env = n.admits peer env := by
  have hget : (n.withMaps store limits quorum).store.get peer = n.store.get peer := h.store peer
  unfold Node.admits
  rw [hget]

/-- **Alike nodes treat a message alike**, if they read the same clock or
neither refuses it for its rate. -/
theorem handleEnvelope_alike (hn : n.Alike rated n') (hstore : n.store.Authentic)
    {now now' : Nat} {peer : NodeId} {env : Envelope} (hclock : rated → now' = now)
    (hallows : ¬ rated → n.Allows now peer env ∧ n'.Allows now' peer env) :
    Handled.Alike rated (n.handleEnvelope now peer env)
      (n'.handleEnvelope now' peer env) := by
  obtain ⟨store, limits, quorum, rfl, h⟩ := hn
  have hadmits' := h.admits peer env
  cases hadmits : n.admits peer env with
  | false =>
      rw [hadmits] at hadmits'
      rw [handleEnvelope_refused hadmits, handleEnvelope_refused hadmits']
      exact h.handled rfl rfl rfl
  | true =>
      rw [hadmits] at hadmits'
      rw [handleEnvelope_admitted hadmits, handleEnvelope_admitted hadmits']
      unfold dispatch
      cases hbody : env.body with
      | hello d => exact h.handleHello peer d
      | ping nonce => exact h.handled rfl rfl rfl
      | pong nonce => exact h.handled rfl rfl rfl
      | findNode target count =>
          refine h.handleFindNode hstore hclock ?_ target count
          intro hrated
          obtain ⟨hfirst, hsecond⟩ := hallows hrated
          exact ⟨hfirst hadmits target count hbody, hsecond hadmits' target count hbody⟩
      | foundNodes peers =>
          exact ⟨foldl_integrate_alike peers ⟨store, limits, quorum, rfl, h⟩, rfl, rfl⟩
      | pex candidates => exact h.handled rfl rfl rfl
      | announceDescriptor d =>
          exact ⟨⟨(store.upsert d none).2, limits, quorum, rfl,
            (DescriptorStore.upsert_alike h.store d none).2, h.limits, h.quorum⟩, rfl, rfl⟩
      | userData payload => exact h.handleUserData env payload
      | invite token => exact h.handleInvite hclock peer

/-- Alike nodes send the same lookups in a repair tick. -/
theorem repairTick_alike (hn : n.Alike rated n') :
    n'.repairTick.1 = n.repairTick.1 ∧ n.repairTick.2.Alike rated n'.repairTick.2 := by
  obtain ⟨store, limits, quorum, rfl, h⟩ := hn
  obtain ⟨counter, metrics, hframe⟩ := repairTick_snd n
  rw [repairTick_withMaps]
  refine ⟨rfl, store, limits, quorum, rfl, ?_, ?_, ?_⟩
  · rw [hframe]
    exact h.store
  · rw [hframe]
    exact h.limits
  · rw [hframe]
    exact h.quorum

omit [Crypto] in
/-- A hop is found once there is a slot. -/
theorem findHop_eq_none_iff (n : Node) (target : NodeId) :
    n.findHop target = none ↔ n.table.slots = [] := by
  unfold findHop
  cases hhop : nextHop n.id target n.table with
  | forward peer =>
      obtain ⟨⟨s, hs, _⟩, _⟩ := nextHop_forward hhop
      have hslot : s ∈ n.table.slots := List.mem_of_mem_filter hs
      refine ⟨fun h => (nomatch h), fun h => ?_⟩
      rw [h] at hslot
      cases hslot
  | deliver => simp
  | localMinimum => simp

/-- A step of a repair keeps the table, and it sends something exactly if the
table has a slot. -/
theorem repairStep_spec (out : Outbox) (n : Node) (target : NodeId) :
    (repairStep (out, n) target).2.table = n.table ∧
      ((repairStep (out, n) target).1 = [] ↔ out = [] ∧ n.table.slots = []) := by
  have hnone := n.findHop_eq_none_iff target
  unfold repairStep
  dsimp only
  cases hhop : n.findHop target with
  | none =>
      rw [hhop] at hnone
      exact ⟨rfl, fun h => ⟨h, hnone.mp rfl⟩, fun h => h.1⟩
  | some next =>
      rw [hhop] at hnone
      refine ⟨rfl, fun h => ?_, fun h => ?_⟩
      · simp at h
      · cases hnone.mpr h.2

/-- A whole repair keeps the table, and it sends nothing exactly if there is no
target or no slot. -/
theorem foldl_repairStep_spec (targets : List NodeId) (out : Outbox) (n : Node) :
    (targets.foldl repairStep (out, n)).2.table = n.table ∧
      ((targets.foldl repairStep (out, n)).1 = [] ↔
        out = [] ∧ (targets = [] ∨ n.table.slots = [])) := by
  induction targets generalizing out n with
  | nil => simp
  | cons target rest ih =>
      obtain ⟨htable, hsilent⟩ := repairStep_spec out n target
      obtain ⟨htable', hsilent'⟩ :=
        ih (repairStep (out, n) target).1 (repairStep (out, n) target).2
      rw [List.foldl_cons]
      refine ⟨htable'.trans htable, hsilent'.trans ?_⟩
      rw [htable, hsilent]
      simp only [reduceCtorEq, false_or]
      exact ⟨fun h => h.1, fun h => ⟨h, Or.inr h.2⟩⟩

/-- A repair tick sends something exactly when there is a slot. -/
theorem repairTick_silent_iff (n : Node) : n.repairTick.1 = [] ↔ n.table.slots = [] := by
  have htargets : repairTargets n.config.epochSeed n.id repairTargetsPerTick ≠ [] := by
    simp [repairTargets, repairTargetsPerTick, List.range_succ]
  obtain ⟨htable, hsilent⟩ := foldl_repairStep_spec
    (repairTargets n.config.epochSeed n.id repairTargetsPerTick) []
    { n with metrics := { n.metrics with repairTicks := n.metrics.repairTicks + 1 } }
  have hslots : (∃ slot, n.table.slots.head? = some slot) → n.table.slots ≠ [] := by
    rintro ⟨slot, hslot⟩ hnil
    rw [hnil] at hslot
    cases hslot
  unfold repairTick
  dsimp only at htable hsilent ⊢
  split
  · rename_i slot _ hhead
    rw [htable] at hhead
    exact ⟨fun h => by simp at h, fun h => absurd h (hslots ⟨slot, hhead⟩)⟩
  · rw [hsilent]
    simp [htargets]

end Node

end Zona
