import Zona.RankedRuns
import Zona.RelaySearch

/-!
# Loops of relaying

Every node that passes a request on adds the next one to its path, so that
nobody passes it there again.  The server that makes the call puts itself on
the path, and posts the request to a first hop that it does not add.  The first
hop is thus the one node that the request can come back to:
`calls_visit_once_iff` says that no chain of calls visits a node twice exactly
when no chain of hops leads from the first hop back to it, past the server.
A call to the own identifier is answered on the spot: it has no first hop.
-/

namespace Zona

namespace RelayNetwork

open FreshWalk Relation

variable {κ : Type} {net : RelayNetwork κ} {hexError : String → String} {target : NodeId}

/-- A server of the network posts the request of a call to this node first.  The
call begins by being posted only if it is not to the server's own identifier and
the server has a URL for its first hop. -/
def Injects (net : RelayNetwork κ) (st : ServerState) (t : Ticket) (first : κ) : Prop :=
  ∃ k url, net.nodes k = .server st ∧
    Process.firstStage st t.toId t.payload = .posting url ∧ net.resolve url = some first

/-- **A call to the own identifier** posts nothing, so it comes to no node: the
handlers of the caller take it. -/
theorem not_injects_own (st : ServerState) (cid : UInt64) (payload : List UInt8) (first : κ) :
    ¬ net.Injects st ⟨cid, st.node.id, payload⟩ first := by
  rintro ⟨_, _, _, hstage, _⟩
  rw [Process.firstStage, if_pos rfl] at hstage
  cases hstage

/-- No node handles the request twice along these calls. -/
def VisitsOnce (first : κ) (es : List (Transition (κ × RelayRequest) Post)) : Prop :=
  (first :: es.map fun e => e.after.1).Nodup

/-- **The path** of a request says whom it went to since it was posted, in
their order, after the path that it was posted with. -/
theorem path_of_calls (hcorrect : net.Correct) {a b : κ × RelayRequest}
    {es : List (Transition (κ × RelayRequest) Post)} (run : Trace (net.Calls hexError) a es b)
    (hparse : NodeId.parse a.2.toId = some target) :
    NodeId.parse b.2.toId = some target ∧
      b.2.path = a.2.path ++ es.map (fun e => net.name e.after.1) := by
  induction run with
  | nil => simp [hparse]
  | @snoc c d i es init last ih =>
      obtain ⟨hparsed, hpath⟩ := ih
      obtain ⟨_, hrequest⟩ := (calls_iff hcorrect hparsed).mp ⟨i, last⟩
      refine ⟨by rw [hrequest]; exact hparsed, ?_⟩
      rw [hrequest, List.map_append, ← List.append_assoc, ← hpath]
      rfl

/-- **Fresh nodes.**  After the first node a chain of calls visits nodes that
are on the path neither of the request nor of each other. -/
theorem fresh_of_calls (hcorrect : net.Correct) {a b : κ × RelayRequest}
    {es : List (Transition (κ × RelayRequest) Post)} (run : Trace (net.Calls hexError) a es b)
    (hparse : NodeId.parse a.2.toId = some target) :
    (es.map fun e => e.after.1).Nodup := by
  induction run with
  | nil => exact List.nodup_nil
  | @snoc c d i es init last ih =>
      obtain ⟨hparsed, hpath⟩ := path_of_calls hcorrect init hparse
      obtain ⟨⟨_, hfresh⟩, _⟩ := (calls_iff hcorrect hparsed).mp ⟨i, last⟩
      rw [List.map_append]
      refine List.nodup_append.mpr ⟨ih, List.nodup_singleton _, ?_⟩
      intro x hx y hy heq
      obtain ⟨e, he, rfl⟩ := List.mem_map.mp hx
      have hsame : e.after.1 = d.1 := heq.trans (List.mem_singleton.mp hy)
      apply hfresh
      rw [hpath, ← hsame]
      exact List.mem_append_right _ (List.mem_map_of_mem he)

/-- A chain of calls is a walk past the path of the request. -/
theorem walk_of_calls (hcorrect : net.Correct) {a b : κ × RelayRequest}
    {es : List (Transition (κ × RelayRequest) Post)} (run : Trace (net.Calls hexError) a es b)
    (hparse : NodeId.parse a.2.toId = some target) :
    ReflTransGen (Avoiding (net.Hops target) net.name a.2.path) a.1 b.1 := by
  induction run with
  | nil => exact .refl
  | @snoc c d i es init last ih =>
      obtain ⟨hparsed, hpath⟩ := path_of_calls hcorrect init hparse
      obtain ⟨hhop, _⟩ := (calls_iff hcorrect hparsed).mp ⟨i, last⟩
      rw [hpath] at hhop
      exact ih.tail (hhop.mono (List.subset_append_left _ _))

/-- **A walk past the path** of the request can be made by calls, as each hop
on it is on offer and not on the path. -/
theorem calls_of_walk [Fintype κ] (hcorrect : net.Correct) {k goal : κ} {req : RelayRequest}
    (hparse : NodeId.parse req.toId = some target)
    (h : ReflTransGen (Avoiding (net.Hops target) net.name req.path) k goal) :
    ∃ es b, Trace (net.Calls hexError) (k, req) es b ∧ b.1 = goal := by
  have hsearch : ∀ req' : RelayRequest, req'.path = req.path →
      NodeId.parse req'.toId = some target →
        ∃ es b, Trace (net.Calls hexError) (k, req') es b ∧ b.1 = goal := by
    refine explore (motive := fun path u => ∀ req' : RelayRequest, req'.path = path →
      NodeId.parse req'.toId = some target →
        ∃ es b, Trace (net.Calls hexError) (u, req') es b ∧ b.1 = goal)
      hcorrect.name_injective ?_ ?_ h
    · intro path req' _ _
      exact ⟨[], _, .nil, rfl⟩
    · intro path u w hhop ih req' hpath hparse'
      subst hpath
      obtain ⟨post, hcall⟩ := (@calls_iff κ net hexError target hcorrect (u, req')
        (w, { req' with path := req'.path ++ [net.name w] }) hparse').mpr ⟨hhop, rfl⟩
      obtain ⟨es, b, hrest, hgoal⟩ :=
        ih { req' with path := req'.path ++ [net.name w] } rfl hparse'
      exact ⟨_, b, .cons hcall hrest, hgoal⟩
  exact hsearch req rfl hparse

/-- A chain of calls that comes back to its first node is a cycle of hops, and
conversely. -/
theorem cycle_iff [Fintype κ] (hcorrect : net.Correct) {first : κ} {req : RelayRequest}
    (hparse : NodeId.parse req.toId = some target) :
    (∃ es b, Trace (net.Calls hexError) (first, req) es b ∧ ¬ VisitsOnce first es) ↔
      TransGen (Avoiding (net.Hops target) net.name req.path) first first := by
  constructor
  · intro ⟨es, b, run, htwice⟩
    have hback : first ∈ es.map fun e => e.after.1 := by
      by_contra hnot
      exact htwice (List.nodup_cons.mpr ⟨hnot, fresh_of_calls hcorrect run hparse⟩)
    obtain ⟨e, he, hfirst⟩ := List.mem_map.mp hback
    obtain ⟨pre, post, rfl, hpre, hstep, _⟩ := run.split he
    obtain ⟨hparsed, hpath⟩ := path_of_calls hcorrect hpre hparse
    obtain ⟨hhop, _⟩ := (calls_iff hcorrect hparsed).mp ⟨e.label, hstep⟩
    rw [hpath, hfirst] at hhop
    exact TransGen.tail' (walk_of_calls hcorrect hpre hparse)
      (hhop.mono (List.subset_append_left _ _))
  · intro hcycle
    obtain ⟨v, hhop, hrest⟩ := TransGen.head'_iff.mp hcycle
    obtain ⟨post, hcall⟩ := (@calls_iff κ net hexError target hcorrect (first, req)
      (v, { req with path := req.path ++ [net.name v] }) hparse).mpr ⟨hhop, rfl⟩
    obtain ⟨es, b, run, hb⟩ := @calls_of_walk κ net hexError target _ hcorrect v first
      { req with path := req.path ++ [net.name v] } hparse
      (not_returning hcorrect.name_injective hrest)
    refine ⟨_, b, .cons hcall run, ?_⟩
    intro honce
    apply (List.nodup_cons.mp honce).1
    have hmem := List.mem_map_of_mem (f := Prod.fst) run.mem_visited
    rw [hb] at hmem
    simpa [Trace.visited] using hmem

/-- **Loops of relaying.**  In a network with correct URLs, no chain of calls
that comes of a posted call visits a node twice exactly when no chain of hops
leads from the first hop back to it, past the server that made the call. -/
theorem calls_visit_once_iff [Fintype κ] (hcorrect : net.Correct) {st : ServerState} {t : Ticket} :
    (∀ first, net.Injects st t first → ∀ es b,
        Trace (net.Calls hexError) (first, Process.callRelay st t) es b → VisitsOnce first es) ↔
      ∀ first, net.Injects st t first →
        ¬ TransGen (fun u v => net.Hops t.toId u v ∧ net.name v ∉ [st.node.id.hex])
          first first := by
  refine forall_congr' fun first => imp_congr_right fun _ => ?_
  have hparse : NodeId.parse (Process.callRelay st t).toId = some t.toId :=
    NodeId.parse_hex t.toId
  have hiff := @cycle_iff κ net hexError t.toId _ hcorrect first (Process.callRelay st t) hparse
  refine Iff.trans ?_ (not_congr hiff)
  simp only [not_exists, not_and, not_not]

/-- A server that knows these peers, which listen at their identifiers. -/
def serverWith (id : NodeId) (peers : List NodeId) : ServerState where
  node := (relayWith id peers).node
  peerUrls := (relayWith id peers).peerUrls
  selfUrl := id.hex
  pending := ∅
  handlers := []

/-- A server, the node that it posts its calls to, and another node.  The last
two know these peers. -/
def threeNodes (peers₁ peers₂ : List NodeId) : RelayNetwork (Fin 3) where
  nodes
    | 0 => .server (serverWith (byteId 4) [byteId 1])
    | 1 => relayWith (byteId 1) peers₁
    | 2 => relayWith (byteId 2) peers₂
  resolve url := [(0, 4), (1, 1), (2, 2)].find? (fun e => (byteId e.2).hex = url) |>.map Prod.fst

/-- A call to a node that is not there. -/
def lostTicket : Ticket :=
  ⟨1, byteId 0, []⟩

/-- The server posts its call to the first of the two nodes. -/
theorem threeNodes_injects {peers₁ peers₂ : List NodeId} {first : Fin 3} :
    (threeNodes peers₁ peers₂).Injects (serverWith (byteId 4) [byteId 1]) lostTicket first ↔
      first = 1 := by
  have hstage : Process.firstStage (serverWith (byteId 4) [byteId 1]) lostTicket.toId
      lostTicket.payload = .posting (byteId 1).hex := by
    decide +kernel
  have hresolve : (threeNodes [] []).resolve (byteId 1).hex = some 1 := by
    decide +kernel
  constructor
  · intro ⟨k, url, _, hfirst, hat⟩
    rw [hstage] at hfirst
    rw [← Stage.posting.inj hfirst] at hat
    exact Option.some.inj (hat.symm.trans hresolve)
  · intro hfirst
    rw [hfirst]
    exact ⟨0, (byteId 1).hex, rfl, hstage, hresolve⟩

/-- Both nodes know each other, and nobody closer to the destination. -/
def roundabout : RelayNetwork (Fin 3) :=
  threeNodes [byteId 2] [byteId 1]

/-- The first node knows the server only. -/
def blindAlley : RelayNetwork (Fin 3) :=
  threeNodes [byteId 4] [byteId 1]

theorem roundabout_correct : roundabout.Correct :=
  correct_of_entries (by decide +kernel) (by decide +kernel)

/-- The network without a way back has correct URLs. -/
theorem blindAlley_correct : blindAlley.Correct :=
  correct_of_entries (by decide +kernel) (by decide +kernel)

/-- **The first hop is met again.**  The request goes to the other node and
comes back. -/
theorem first_hop_met_again :
    roundabout.Correct ∧
      roundabout.Injects (serverWith (byteId 4) [byteId 1]) lostTicket 1 ∧
        ∃ es b, Trace (roundabout.Calls id)
          (1, Process.callRelay (serverWith (byteId 4) [byteId 1]) lostTicket) es b ∧
            ¬ VisitsOnce 1 es := by
  refine ⟨roundabout_correct, threeNodes_injects.mpr rfl, ?_⟩
  have hthere : roundabout.Hops lostTicket.toId 1 2 := by
    refine ⟨(byteId 2).hex, ?_⟩
    unfold Offers
    decide +kernel
  have hback : roundabout.Hops lostTicket.toId 2 1 := by
    refine ⟨(byteId 1).hex, ?_⟩
    unfold Offers
    decide +kernel
  have hparse : NodeId.parse (Process.callRelay (serverWith (byteId 4) [byteId 1])
      lostTicket).toId = some lostTicket.toId :=
    NodeId.parse_hex lostTicket.toId
  refine (cycle_iff roundabout_correct hparse).mpr ?_
  exact .tail (.single ⟨hthere, by decide +kernel⟩) ⟨hback, by decide +kernel⟩

/-- In a blind alley the call is sent, and no node is met twice. -/
theorem blindAlley_visits_once :
    blindAlley.Injects (serverWith (byteId 4) [byteId 1]) lostTicket 1 ∧
      ∀ first, blindAlley.Injects (serverWith (byteId 4) [byteId 1]) lostTicket first → ∀ es b,
        Trace (blindAlley.Calls id)
          (first, Process.callRelay (serverWith (byteId 4) [byteId 1]) lostTicket) es b →
            VisitsOnce first es := by
  refine ⟨threeNodes_injects.mpr rfl, (calls_visit_once_iff blindAlley_correct).mpr ?_⟩
  intro first hfirst hcycle
  obtain ⟨v, ⟨⟨url, hoffers⟩, hfresh⟩, _⟩ := TransGen.head'_iff.mp hcycle
  rw [threeNodes_injects.mp hfirst] at hoffers
  have honly : ∀ v, blindAlley.idOf v ∈ (blindAlley.nodes 1).peerUrls →
      blindAlley.name v = (byteId 4).hex := by
    decide +kernel
  have hknown : blindAlley.idOf v ∈ (blindAlley.nodes 1).peerUrls :=
    HashMap.mem_of_lookup hoffers.1
  exact hfresh (List.mem_singleton.mpr (honly v hknown))

end RelayNetwork

end Zona
