import Zona.GreedyWalks
import Zona.PartitionIsolation

/-!
# Inspecting routes

The simulator has two functions that follow the greedy hops without sending
anything.  One says whether a route exists, the other returns the path.  They
are loops of their own: the first gives up after 20 hops and panics at a node
that does not exist, the second gives up after 30, stops at such a node, and
keeps the nodes it has been at.

Both follow the same walk, here `walk`.  `routeFrom_spec` and
`traceFrom_spec` say what each makes of it; that no node is visited twice is
the progress of greedy routing.  `route_inspection_iff` says when the two
agree.
-/

namespace Zona

namespace Sim

variable {ρ : Type}

/-- The next node on the way to `dst`, if the walk goes on. -/
def hop (sim : Sim ρ) (dst current : NodeId) : Option NodeId :=
  match sim.nodes.lookup current with
  | none => none
  | some node =>
      match nextHop current dst node.table with
      | .forward next => some next
      | _ => none

/-- The node that the walk from `current` to `dst` is at after some hops. -/
def walk (sim : Sim ρ) (dst : NodeId) : Nat → NodeId → Option NodeId
  | 0, current => some current
  | k + 1, current =>
      match sim.hop dst current with
      | none => none
      | some next => walk sim dst k next

variable {sim : Sim ρ} {dst current next : NodeId}

/-- The walk ends at the destination, as both functions of the source test for
it before anything else. -/
theorem hop_self : sim.hop dst dst = none := by
  unfold hop
  cases sim.nodes.lookup dst with
  | none => rfl
  | some node =>
      dsimp only
      rw [nextHop, if_pos rfl]

/-- A node that is not in the simulator hands nothing on. -/
theorem hop_of_missing (h : sim.nodes.lookup current = none) : sim.hop dst current = none := by
  rw [hop, h]

/-- Every hop leads closer to the destination, since a greedy hop is taken only
to a peer that is closer than the node. -/
theorem closer_of_hop (h : sim.hop dst current = some next) :
    next.xorDistance dst < current.xorDistance dst := by
  unfold hop at h
  cases hnode : sim.nodes.lookup current with
  | none =>
      rw [hnode] at h
      cases h
  | some node =>
      rw [hnode] at h
      dsimp only at h
      cases hroute : nextHop current dst node.table with
      | forward peer =>
          rw [hroute] at h
          obtain rfl := Option.some.inj h
          exact Forwards.closer hroute
      | _ =>
          rw [hroute] at h
          cases h

/-- From a node without a hop the walk does not go on, for any number of steps. -/
theorem walk_of_no_hop (h : sim.hop dst current = none) (k : Nat) :
    sim.walk dst (k + 1) current = none := by
  rw [walk, h]

/-- The first step of a walk is the hop, and the rest is the walk from there. -/
theorem walk_of_hop (h : sim.hop dst current = some next) (k : Nat) :
    sim.walk dst (k + 1) current = sim.walk dst k next := by
  rw [walk, h]

/-- The walk is at the destination once: it stops there, and later there is
nothing to be at. -/
theorem walk_after_arrival {j k : Nat} (h : sim.walk dst j current = some dst) (hlater : j < k) :
    sim.walk dst k current = none := by
  induction j generalizing current k with
  | zero =>
      obtain rfl := Option.some.inj h
      obtain ⟨k, rfl⟩ := Nat.exists_eq_succ_of_ne_zero (Nat.ne_of_gt hlater)
      exact walk_of_no_hop hop_self k
  | succ j ih =>
      obtain ⟨k, rfl⟩ := Nat.exists_eq_succ_of_ne_zero (Nat.ne_of_gt (Nat.zero_lt_of_lt hlater))
      cases hhop : sim.hop dst current with
      | none =>
          rw [walk_of_no_hop hhop] at h
          cases h
      | some next =>
          rw [walk_of_hop hhop] at h ⊢
          exact ih h (Nat.lt_of_succ_lt_succ hlater)

/-- The walk comes past the destination within some hops. -/
def Arrives (sim : Sim ρ) (dst : NodeId) (ttl : Nat) (current : NodeId) : Prop :=
  ∃ k, k ≤ ttl ∧ sim.walk dst k current = some dst

/-- The walk comes to a node that does not exist, before its last hop. -/
def Strands (sim : Sim ρ) (dst : NodeId) (ttl : Nat) (current : NodeId) : Prop :=
  ∃ k v, k < ttl ∧ sim.walk dst k current = some v ∧ v ≠ dst ∧ sim.nodes.lookup v = none

/-- At the destination the walk has arrived, with any budget of hops. -/
theorem arrives_self (ttl : Nat) : sim.Arrives dst ttl dst :=
  ⟨0, Nat.zero_le ttl, rfl⟩

/-- At the destination no walk is stranded, with any budget of hops. -/
theorem not_strands_self (ttl : Nat) : ¬ sim.Strands dst ttl dst := by
  intro hgiven
  obtain ⟨k, v, _, hwalk, hne, _⟩ := hgiven
  cases k with
  | zero => exact hne (Option.some.inj hwalk).symm
  | succ k =>
      rw [walk_of_no_hop hop_self] at hwalk
      cases hwalk

/-- Where the walk does not go on, it arrives only if it is there. -/
theorem not_arrives_of_no_hop (hother : current ≠ dst) (h : sim.hop dst current = none)
    (ttl : Nat) : ¬ sim.Arrives dst ttl current := by
  intro hgiven
  obtain ⟨k, _, hwalk⟩ := hgiven
  cases k with
  | zero => exact hother (Option.some.inj hwalk)
  | succ k =>
      rw [walk_of_no_hop h] at hwalk
      cases hwalk

/-- One hop on, there is one hop less to arrive in. -/
theorem arrives_of_hop (hother : current ≠ dst) (h : sim.hop dst current = some next)
    (ttl : Nat) : sim.Arrives dst (ttl + 1) current ↔ sim.Arrives dst ttl next := by
  constructor
  · intro hgiven
    obtain ⟨k, hk, hwalk⟩ := hgiven
    cases k with
    | zero => exact absurd (Option.some.inj hwalk) hother
    | succ k =>
        rw [walk_of_hop h] at hwalk
        exact ⟨k, Nat.le_of_succ_le_succ hk, hwalk⟩
  · intro hgiven
    obtain ⟨k, hk, hwalk⟩ := hgiven
    exact ⟨k + 1, Nat.succ_le_succ hk, (walk_of_hop h k).trans hwalk⟩

/-- Likewise for a walk that strands, when it does not strand here. -/
theorem strands_of_hop (hhere : sim.nodes.lookup current ≠ none)
    (h : sim.hop dst current = some next) (ttl : Nat) :
    sim.Strands dst (ttl + 1) current ↔ sim.Strands dst ttl next := by
  constructor
  · intro hgiven
    obtain ⟨k, v, hk, hwalk, hne, hmissing⟩ := hgiven
    cases k with
    | zero =>
        obtain rfl := Option.some.inj hwalk
        exact absurd hmissing hhere
    | succ k =>
        rw [walk_of_hop h] at hwalk
        exact ⟨k, v, Nat.lt_of_succ_lt_succ hk, hwalk, hne, hmissing⟩
  · intro hgiven
    obtain ⟨k, v, hk, hwalk, hne, hmissing⟩ := hgiven
    exact ⟨k + 1, v, Nat.succ_lt_succ hk, (walk_of_hop h k).trans hwalk, hne, hmissing⟩

/-- A walk that does not go on strands only where it is. -/
theorem not_strands_of_no_hop (hhere : sim.nodes.lookup current ≠ none)
    (h : sim.hop dst current = none) (ttl : Nat) : ¬ sim.Strands dst ttl current := by
  intro hgiven
  obtain ⟨k, v, _, hwalk, _, hmissing⟩ := hgiven
  cases k with
  | zero =>
      obtain rfl := Option.some.inj hwalk
      exact hhere hmissing
  | succ k =>
      rw [walk_of_no_hop h] at hwalk
      cases hwalk

/-- **Whether a route exists**: the loop panics when the walk strands, and
finds the route when the walk arrives. -/
theorem routeFrom_spec (ttl : Nat) (current : NodeId) :
    (sim.routeFrom dst ttl current = none ↔ sim.Strands dst ttl current) ∧
      (sim.routeFrom dst ttl current = some true ↔ sim.Arrives dst ttl current) := by
  induction ttl generalizing current with
  | zero =>
      rw [routeFrom]
      constructor
      · refine iff_of_false (Option.some_ne_none _) ?_
        intro hgiven
        obtain ⟨k, _, hk, _⟩ := hgiven
        exact Nat.not_lt_zero k hk
      · rw [Option.some.injEq, decide_eq_true_eq]
        constructor
        · rintro rfl
          exact arrives_self 0
        · intro hgiven
          obtain ⟨k, hk, hwalk⟩ := hgiven
          rw [Nat.le_zero.mp hk] at hwalk
          exact Option.some.inj hwalk
  | succ ttl ih =>
      rw [routeFrom]
      by_cases hthere : current = dst
      · subst hthere
        rw [if_pos rfl]
        exact ⟨iff_of_false (Option.some_ne_none true) (not_strands_self _),
          iff_of_true rfl (arrives_self _)⟩
      · rw [if_neg hthere]
        cases hnode : sim.nodes.lookup current with
        | none =>
            have hstranded : sim.Strands dst (ttl + 1) current :=
              ⟨0, current, Nat.succ_pos ttl, rfl, hthere, hnode⟩
            exact ⟨iff_of_true rfl hstranded, iff_of_false (Option.some_ne_none true).symm
              (not_arrives_of_no_hop hthere (hop_of_missing hnode) _)⟩
        | some node =>
            have hhere : sim.nodes.lookup current ≠ none := by
              rw [hnode]
              exact Option.some_ne_none node
            dsimp only
            cases hroute : nextHop current dst node.table with
            | forward next =>
                have hhop : sim.hop dst current = some next := by simp only [hop, hnode, hroute]
                rw [strands_of_hop hhere hhop, arrives_of_hop hthere hhop]
                exact ih next
            | deliver => exact absurd hroute (nextHop_ne_deliver hthere node.table)
            | localMinimum =>
                have hhop : sim.hop dst current = none := by simp only [hop, hnode, hroute]
                have hstays : some false ≠ some true := by decide
                exact ⟨iff_of_false (Option.some_ne_none false)
                  (not_strands_of_no_hop hhere hhop _),
                  iff_of_false hstays (not_arrives_of_no_hop hthere hhop _)⟩

/-- **The path** ends at the destination when the walk arrives there: the nodes
it has been at are no closer than the one it is at, and never in its way. -/
theorem traceFrom_spec (ttl : Nat) (current : NodeId) (visited : Finset NodeId)
    (path : List NodeId) (hlast : path.getLast? = some current)
    (hbehind : ∀ v ∈ visited, current.xorDistance dst ≤ v.xorDistance dst) :
    (sim.traceFrom dst ttl current visited path).getLast? = some dst ↔
      sim.Arrives dst ttl current := by
  have hstay : path.getLast? = some dst ↔ current = dst := by
    rw [hlast, Option.some.injEq]
  induction ttl generalizing current visited path with
  | zero =>
      rw [traceFrom, hstay]
      constructor
      · rintro rfl
        exact arrives_self 0
      · intro hgiven
        obtain ⟨k, hk, hwalk⟩ := hgiven
        rw [Nat.le_zero.mp hk] at hwalk
        exact Option.some.inj hwalk
  | succ ttl ih =>
      rw [traceFrom]
      by_cases hthere : current = dst
      · rw [if_pos hthere]
        refine iff_of_true (hstay.mpr hthere) ?_
        rw [hthere]
        exact arrives_self _
      · rw [if_neg hthere]
        have hends : sim.hop dst current = none →
            (path.getLast? = some dst ↔ sim.Arrives dst (ttl + 1) current) := by
          intro hhop
          exact iff_of_false (fun h => hthere (hstay.mp h)) (not_arrives_of_no_hop hthere hhop _)
        cases hnode : sim.nodes.lookup current with
        | none => exact hends (hop_of_missing hnode)
        | some node =>
            dsimp only
            cases hroute : nextHop current dst node.table with
            | forward next =>
                have hhop : sim.hop dst current = some next := by simp only [hop, hnode, hroute]
                have hcloser := closer_of_hop hhop
                have hnew : next ∉ visited := fun hmem =>
                  absurd (hbehind next hmem) (not_le_of_gt hcloser)
                dsimp only
                rw [if_neg hnew, arrives_of_hop hthere hhop]
                refine ih next (insert next visited) (path ++ [next]) (by simp) ?_ (by simp)
                intro v hv
                rcases Finset.mem_insert.mp hv with rfl | hold
                · exact le_refl _
                · exact le_trans (le_of_lt hcloser) (hbehind v hold)
            | deliver => exact absurd hroute (nextHop_ne_deliver hthere node.table)
            | localMinimum => exact hends (by simp only [hop, hnode, hroute])

/-- The existence of a route is reported as the path has it. -/
def InspectionsAgree (sim : Sim ρ) (src dst : NodeId) : Prop :=
  ∃ found, sim.canRoute src dst = some found ∧
    (found = true ↔ (sim.traceRoute src dst).getLast? = some dst)

/-- **Inspections agree**, without a panic, exactly when each of the first 20
nodes of the walk exists or is the destination, and the walk does not take 21
to 30 hops to arrive. -/
theorem route_inspection_iff (sim : Sim ρ) (src dst : NodeId) :
    sim.InspectionsAgree src dst ↔
      (∀ k v, k < 20 → sim.walk dst k src = some v → v = dst ∨ v ∈ sim.nodes) ∧
        ∀ k, 20 < k → k ≤ 30 → sim.walk dst k src ≠ some dst := by
  obtain ⟨hpanics, hfound⟩ := @routeFrom_spec ρ sim dst 20 src
  have htraced : (sim.traceRoute src dst).getLast? = some dst ↔ sim.Arrives dst 30 src := by
    refine traceFrom_spec 30 src {src} [src] rfl ?_
    intro v hv
    rw [Finset.mem_singleton.mp hv]
  have hexist : (∀ k v, k < 20 → sim.walk dst k src = some v → v = dst ∨ v ∈ sim.nodes) ↔
      ¬ sim.Strands dst 20 src := by
    constructor
    · rintro h ⟨k, v, hk, hwalk, hne, hmissing⟩
      rcases h k v hk hwalk with heq | hmem
      · exact hne heq
      · exact AList.lookup_eq_none.mp hmissing hmem
    · intro h k v hk hwalk
      refine or_iff_not_imp_left.mpr fun hne => ?_
      apply Classical.byContradiction
      intro hmem
      exact h ⟨k, v, hk, hwalk, hne, AList.lookup_eq_none.mpr hmem⟩
  have hlate : (∀ k, 20 < k → k ≤ 30 → sim.walk dst k src ≠ some dst) ↔
      (sim.Arrives dst 30 src → sim.Arrives dst 20 src) := by
    constructor
    · rintro h ⟨k, hk, hwalk⟩
      refine ⟨k, Nat.le_of_not_lt fun hgt => ?_, hwalk⟩
      exact h k hgt hk hwalk
    · intro h k hgt hk hwalk
      obtain ⟨j, hj, hearlier⟩ := h ⟨k, hk, hwalk⟩
      rw [walk_after_arrival hearlier (Nat.lt_of_le_of_lt hj hgt)] at hwalk
      cases hwalk
  have hlonger : sim.routeFrom dst 20 src = some true → sim.Arrives dst 30 src := by
    intro h
    obtain ⟨k, hk, hwalk⟩ := hfound.mp h
    exact ⟨k, Nat.le_trans hk (by decide), hwalk⟩
  unfold InspectionsAgree canRoute
  rw [hexist, hlate, htraced, ← hpanics, ← hfound]
  cases hroute : sim.routeFrom dst 20 src with
  | none => simp
  | some found =>
      rw [hroute] at hlonger
      constructor
      · intro hgiven
        obtain ⟨_, ⟨rfl⟩, hagree⟩ := hgiven
        exact ⟨fun h => (nomatch h), fun h => congrArg some (hagree.mpr h)⟩
      · intro hgiven
        obtain ⟨_, hshort⟩ := hgiven
        exact ⟨found, rfl, fun h => hlonger (congrArg some h), fun h => Option.some.inj (hshort h)⟩

end Sim

/-- The introduction of the two nodes, evaluated: two greetings are in the
queue. -/
theorem greeting_eq :
    @Sim.introduce Unit checksumCrypto twoNodes (sampleId 1) (sampleId 2) = some greeting := by
  have hboth : (@Sim.introduce Unit checksumCrypto twoNodes
      (sampleId 1) (sampleId 2)).isSome = true := by decide +kernel
  obtain ⟨sim, hsim⟩ := Option.isSome_iff_exists.mp hboth
  rw [greeting, hsim, Option.getD_some]

/-- Two nodes that have met, after the second was killed. -/
def widowed : Sim Unit :=
  (acquainted.killNode (sampleId 2)).2

/-- The simulator of the example can be reached: two nodes greet each other and
one of them is killed. -/
theorem widowed_reachable : @Sim.IsReachable Unit checksumCrypto evenDice widowed := by
  have hgreeting : @Sim.IsReachable Unit checksumCrypto evenDice greeting :=
    twoNodes_reachable (@Sim.Step.introduce Unit checksumCrypto evenDice _ _ _ _ greeting_eq)
  obtain ⟨rng, dropProb, es, run⟩ := hgreeting
  exact ⟨rng, dropProb, _, .snoc (.snoc run (@Sim.Step.step Unit checksumCrypto evenDice _ _))
    (@Sim.Step.killNode Unit checksumCrypto evenDice _ _)⟩

/-- Asked for a route to a node beyond the killed one, the first function
panics; the path stops at the killed node. -/
theorem inspection_panics :
    @Sim.IsReachable Unit checksumCrypto evenDice widowed ∧ sampleId 1 ∈ widowed.nodes ∧
      widowed.canRoute (sampleId 1) (sampleId 3) = none ∧
      widowed.traceRoute (sampleId 1) (sampleId 3) = [sampleId 1, sampleId 2] :=
  ⟨widowed_reachable, by decide +kernel⟩

end Zona
