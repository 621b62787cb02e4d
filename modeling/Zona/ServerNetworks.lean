import Zona.LabelledRuns
import Zona.RelayServers
import Mathlib.Logic.Function.Basic

/-!
# Networks of servers

A network of servers is a family of processes and the relay requests in
flight.  A request may reach any process, at any time, more than once or never:
which process listens at which URL is left open.  Every action is what one
task does while it holds the lock of its server.

Calls are numbered (`Numbered`): the correlation id of a call is its number,
and the pending table leads back from the id to the call, as long as the
numbers have not run out.
-/

namespace Zona

namespace Process

/-- The process after it has handled a relay request. -/
def relayed (p : Process) (outcome : Outcome) : Process :=
  { p with state := outcome.state }.receive outcome.answered

end Process

/-- Server processes and the relay requests in flight. -/
structure Servers (ι : Type) where
  procs : ι → Process
  flight : List Post

namespace Servers

/-- What may happen at the process `i`: a call begins, is posted, fails to be
posted, receives its answer, finds its channel closed, times out, or takes its
entry out of the pending table; a relay request is handled; or the routes
change. -/
inductive Action (ι : Type)
  | call (i : ι) (toId : NodeId) (payload : List UInt8)
  | post (i : ι) (k : Nat)
  | fail (i : ι) (k : Nat) (error : String)
  | receive (i : ι) (k : Nat)
  | closed (i : ι) (k : Nat)
  | expire (i : ι) (k : Nat)
  | close (i : ι) (k : Nat)
  | relay (i : ι) (post : Post) (tried : Nat)
  | host (i : ι) (table : PeerTable) (peerUrls : HashMap NodeId String)

variable {ι : Type}

/-- The node id of a process. -/
def idOf (net : Servers ι) (i : ι) : NodeId :=
  (net.procs i).state.node.id

section Steps

variable [DecidableEq ι]

/-- A process has changed and posted requests. -/
def put (net : Servers ι) (i : ι) (p : Process) (posts : List Post) : Servers ι where
  procs := Function.update net.procs i p
  flight := net.flight ++ posts

/-- The process that was put is the one found at its place. -/
@[simp]
theorem procs_put_self (net : Servers ι) (i : ι) (p : Process) (posts : List Post) :
    (net.put i p posts).procs i = p := by
  unfold put
  exact Function.update_self (β := fun _ => Process) i p net.procs

/-- The processes at other places stay as they are. -/
theorem procs_put_of_ne (net : Servers ι) {i j : ι} (h : j ≠ i) (p : Process)
    (posts : List Post) : (net.put i p posts).procs j = net.procs j := by
  unfold put
  exact Function.update_of_ne (β := fun _ => Process) h p net.procs

/-- One action. -/
inductive Step : Servers ι → Action ι → Servers ι → Prop
  | call {net : Servers ι} {i : ι} {toId : NodeId} {payload : List UInt8} :
      Step net (.call i toId payload)
        (net.put i ((net.procs i).sendAndWait toId payload) [])
  | post {net : Servers ι} {i : ι} {k : Nat} {c : Call} {url : String}
      (hcall : (net.procs i).calls[k]? = some c) (hstage : c.stage = .posting url) :
      Step net (.post i k)
        (net.put i ((net.procs i).setCall k { c with stage := .waiting })
          [⟨url, Process.callRelay (net.procs i).state c.ticket⟩])
  | fail {net : Servers ι} {i : ι} {k : Nat} {c : Call} {error : String}
      (hcall : (net.procs i).calls[k]? = some c)
      (hstage : (∃ url, c.stage = .posting url) ∨ c.stage = .waiting) :
      Step net (.fail i k error)
        (net.put i ((net.procs i).setCall k
          { c with stage := .closing (.error ("relay send failed: " ++ error)) }) [])
  | receive {net : Servers ι} {i : ι} {k : Nat} {c : Call} {bytes : List UInt8}
      (hcall : (net.procs i).calls[k]? = some c) (hstage : c.stage = .waiting)
      (hmail : c.mailbox = some bytes) :
      Step net (.receive i k)
        (net.put i ((net.procs i).setCall k { c with stage := .returned (.ok bytes) }) [])
  | closed {net : Servers ι} {i : ι} {k : Nat} {c : Call}
      (hcall : (net.procs i).calls[k]? = some c) (hstage : c.stage = .waiting)
      (hmail : c.mailbox = none)
      (hgone : (net.procs i).state.pending.lookup c.ticket.cid ≠ some k) :
      Step net (.closed i k)
        (net.put i ((net.procs i).setCall k
          { c with stage := .returned (.error "response channel closed") }) [])
  | expire {net : Servers ι} {i : ι} {k : Nat} {c : Call}
      (hcall : (net.procs i).calls[k]? = some c) (hstage : c.stage = .waiting)
      (hmail : c.mailbox = none) :
      Step net (.expire i k)
        (net.put i ((net.procs i).setCall k
          { c with stage := .closing (.error "timeout waiting for response") }) [])
  | close {net : Servers ι} {i : ι} {k : Nat} {c : Call}
      {result : Except String (List UInt8)}
      (hcall : (net.procs i).calls[k]? = some c) (hstage : c.stage = .closing result) :
      Step net (.close i k)
        (net.put i (((net.procs i).setCall k { c with stage := .returned result }).forget
          c.ticket.cid) [])
  | relay {net : Servers ι} {i : ι} {post : Post} {tried : Nat} (hflight : post ∈ net.flight) :
      Step net (.relay i post tried)
        (net.put i ((net.procs i).relayed ((net.procs i).state.doRelay post.request tried))
          ((net.procs i).state.doRelay post.request tried).posts)
  | host {net : Servers ι} {i : ι} {table : PeerTable} {peerUrls : HashMap NodeId String} :
      Step net (.host i table peerUrls)
        (net.put i
          { net.procs i with
            state := { (net.procs i).state with
              node := { (net.procs i).state.node with table := table }
              peerUrls := peerUrls } } [])

end Steps

/-- Processes of different nodes that have just been started. -/
structure Fresh (net : Servers ι) : Prop where
  distinct : Function.Injective net.idOf
  counters : ∀ i, (net.procs i).nextCid = 1
  calls : ∀ i, (net.procs i).calls = []
  pending : ∀ i, (net.procs i).state.pending = ∅
  flight : net.flight = []

end Servers

namespace Process

/-- Calls are numbered, and the pending table leads from numbers to calls. -/
structure Numbered (p : Process) : Prop where
  bound : p.tickets.length ≤ 2 ^ 64
  next : p.nextCid = UInt64.ofNat (p.tickets.length + 1)
  cids : ∀ (k : Nat) (t : Ticket), p.tickets[k]? = some t → t.cid = UInt64.ofNat (k + 1)
  pending : ∀ (cid : UInt64) (k : Nat), p.state.pending.lookup cid = some k →
    ∃ t, p.tickets[k]? = some t ∧ t.cid = cid

/-- The same node with the same handlers, and at least the same calls. -/
structure Extends (p p' : Process) : Prop where
  id_eq : p'.state.node.id = p.state.node.id
  handlers_eq : p'.state.handlers = p.state.handlers
  tickets : ∀ (k : Nat) (t : Ticket), p.tickets[k]? = some t → p'.tickets[k]? = some t

/-- The same node with the same calls, of which no more are pending. -/
structure Keeps (p p' : Process) : Prop where
  id_eq : p'.state.node.id = p.state.node.id
  handlers_eq : p'.state.handlers = p.state.handlers
  next_eq : p'.nextCid = p.nextCid
  tickets_eq : p'.tickets = p.tickets
  pending : ∀ cid k, p'.state.pending.lookup cid = some k →
    p.state.pending.lookup cid = some k

/-- A process that keeps its calls extends the one before. -/
theorem Keeps.extends {p p' : Process} (h : p.Keeps p') : p.Extends p' := by
  refine ⟨h.id_eq, h.handlers_eq, ?_⟩
  intro k t ht
  rw [h.tickets_eq]
  exact ht

/-- A process that keeps its calls keeps their numbers. -/
theorem Keeps.numbered {p p' : Process} (h : p.Keeps p') (hp : p.Numbered) : p'.Numbered := by
  constructor
  · rw [h.tickets_eq]
    exact hp.bound
  · rw [h.next_eq, h.tickets_eq]
    exact hp.next
  · rw [h.tickets_eq]
    exact hp.cids
  · intro cid k hk
    rw [h.tickets_eq]
    exact hp.pending cid k (h.pending cid k hk)

theorem Keeps.refl (p : Process) : p.Keeps p :=
  ⟨rfl, rfl, rfl, rfl, fun _ _ h => h⟩

theorem Keeps.trans {p q r : Process} (h : p.Keeps q) (h' : q.Keeps r) : p.Keeps r := by
  refine ⟨h'.id_eq.trans h.id_eq, h'.handlers_eq.trans h.handlers_eq,
    h'.next_eq.trans h.next_eq, h'.tickets_eq.trans h.tickets_eq, ?_⟩
  intro cid k hk
  exact h.pending cid k (h'.pending cid k hk)

/-- **Numbers are unique.**  Two calls of a process under one correlation id
are the same call. -/
theorem Numbered.unique {p : Process} (h : p.Numbered) {k l : Nat} {t u : Ticket}
    (hk : p.tickets[k]? = some t) (hl : p.tickets[l]? = some u) (hcid : t.cid = u.cid) :
    k = l := by
  obtain ⟨hklt, _⟩ := List.getElem?_eq_some_iff.mp hk
  obtain ⟨hllt, _⟩ := List.getElem?_eq_some_iff.mp hl
  have hbound := h.bound
  have hnat := congrArg UInt64.toNat hcid
  rw [h.cids k t hk, h.cids l u hl, UInt64.toNat_ofNat', UInt64.toNat_ofNat'] at hnat
  omega

/-- The call that waits under the number of a ticket is the call with that
ticket. -/
theorem Numbered.waiting_call {p : Process} (h : p.Numbered) {req : RelayRequest} {t : Ticket}
    {cid : UInt64} {k : Nat} (ht : t ∈ p.tickets) (hcid : req.correlationId = some t.cid)
    (hwaiting : p.state.waitingCall req = some (cid, k)) :
    ∃ c, p.calls[k]? = some c ∧ c.ticket = t := by
  unfold ServerState.waitingCall at hwaiting
  rw [hcid, Option.bind_some] at hwaiting
  obtain ⟨k', hlookup, hpair⟩ := Option.map_eq_some_iff.mp hwaiting
  obtain ⟨_, hk⟩ := Prod.mk.inj hpair
  subst hk
  obtain ⟨t', ht', hsame⟩ := h.pending t.cid k' hlookup
  obtain ⟨l, hl⟩ := List.mem_iff_getElem?.mp ht
  have hindex : k' = l := h.unique ht' hl hsame
  rw [← hindex] at hl
  unfold tickets at hl
  rw [List.getElem?_map] at hl
  exact Option.map_eq_some_iff.mp hl

/-- Moving a call to its next stage keeps all calls with their tickets. -/
theorem keeps_setCall {p : Process} {k : Nat} {c c' : Call} (hcall : p.calls[k]? = some c)
    (hticket : c'.ticket = c.ticket) : p.Keeps (p.setCall k c') := by
  refine ⟨rfl, rfl, rfl, ?_, fun _ _ h => h⟩
  obtain ⟨hlt, hget⟩ := List.getElem?_eq_some_iff.mp hcall
  unfold tickets setCall
  dsimp only
  rw [List.map_set, hticket, ← hget]
  apply List.ext_getElem
  · simp
  · intro n h₁ h₂
    rw [List.getElem_set]
    split
    · subst_vars
      simp
    · rfl

/-- Taking an entry out of the pending table keeps all calls. -/
theorem keeps_erase (p : Process) (cid : UInt64) :
    p.Keeps { p with state := { p.state with pending := p.state.pending.erase cid } } := by
  refine ⟨rfl, rfl, rfl, rfl, ?_⟩
  intro cid' k hk
  exact HashMap.lookup_of_erase hk

theorem Numbered.sendAndWait {p : Process} (h : p.Numbered)
    (hroom : p.calls.length < 2 ^ 64) (toId : NodeId) (payload : List UInt8) :
    (p.sendAndWait toId payload).Numbered := by
  have htickets : (p.sendAndWait toId payload).tickets =
      p.tickets ++ [⟨p.nextCid, toId, payload⟩] := by
    simp [tickets, Process.sendAndWait]
  have hlen : p.tickets.length = p.calls.length := List.length_map _
  have hlast : (p.tickets ++ [⟨p.nextCid, toId, payload⟩])[p.calls.length]? =
      some ⟨p.nextCid, toId, payload⟩ := by
    rw [← hlen]
    exact List.getElem?_concat_length
  constructor
  · rw [htickets, List.length_append, List.length_singleton]
    omega
  · rw [htickets, List.length_append, List.length_singleton, UInt64.ofNat_add, ← h.next]
    rfl
  · intro k t hk
    rw [htickets] at hk
    rcases Nat.lt_or_ge k p.tickets.length with hold | hnew
    · rw [List.getElem?_append_left hold] at hk
      exact h.cids k t hk
    · obtain ⟨hlt, _⟩ := List.getElem?_eq_some_iff.mp hk
      rw [List.length_append, List.length_singleton] at hlt
      have hk' : k = p.calls.length := by omega
      rw [hk', hlast, Option.some.injEq] at hk
      rw [← hk, hk', ← hlen]
      exact h.next
  · intro cid k hk
    rw [htickets]
    unfold Process.sendAndWait at hk
    dsimp only at hk
    rw [HashMap.lookup_put] at hk
    by_cases hsame : cid = p.nextCid
    · rw [if_pos hsame, Option.some.injEq] at hk
      rw [← hk]
      exact ⟨_, hlast, hsame.symm⟩
    · rw [if_neg hsame] at hk
      obtain ⟨t, ht, hcid⟩ := h.pending cid k hk
      obtain ⟨hlt, _⟩ := List.getElem?_eq_some_iff.mp ht
      exact ⟨t, by rw [List.getElem?_append_left hlt, ht], hcid⟩

end Process

end Zona
