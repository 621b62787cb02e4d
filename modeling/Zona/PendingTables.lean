import Zona.ServerNetworks

/-!
# The pending table of a server

One server, lock by lock.  A call draws its correlation id before it takes the
lock for the first time, and takes it again to remove its entry on the way
out; `deliver` removes the entry of a call under the lock and hands the bytes
over after it has let go.  Between any two of these steps anything else may
happen: other calls, other requests, other servers of the process that draw
ids from the same counter.

`Orderly` is the invariant.  An id is in the table exactly while its call has
been entered, has not returned and has not been answered; `pending_hygiene`
says so for every run.
-/

namespace Zona

/-- The call has returned. -/
def Call.returned (c : Call) : Bool :=
  match c.stage with
  | .returned _ => true
  | _ => false

namespace Process

/-- `send_and_wait` from its first lock to the next release, under an id that
was drawn before. -/
def enter (p : Process) (t : Ticket) : Process :=
  { { p with nextCid := t.cid }.sendAndWait t.toId t.payload with nextCid := p.nextCid }

/-- A call that is entered as soon as it has drawn its id. -/
theorem sendAndWait_eq_enter (p : Process) (toId : NodeId) (payload : List UInt8) :
    p.sendAndWait toId payload =
      { p with nextCid := p.nextCid + 1 }.enter ⟨p.nextCid, toId, payload⟩ :=
  rfl

/-- The process with another pending table. -/
def withPending (p : Process) (m : HashMap UInt64 Nat) : Process :=
  { p with state := { p.state with pending := m } }

/-- The call that is entered comes last, and the others keep their numbers. -/
theorem calls_enter {p : Process} {t : Ticket} {k : Nat} {c : Call} :
    (p.enter t).calls[k]? = some c ↔
      p.calls[k]? = some c ∨
        k = p.calls.length ∧ c = ⟨t, firstStage p.state t.toId t.payload, none⟩ := by
  have hcalls : (p.enter t).calls = p.calls ++ [⟨t, firstStage p.state t.toId t.payload, none⟩] :=
    rfl
  rw [hcalls]
  rcases Nat.lt_trichotomy k p.calls.length with hold | hnew | hbeyond
  · rw [List.getElem?_append_left hold]
    exact ⟨Or.inl, fun h => h.resolve_right fun hnew => Nat.ne_of_lt hold hnew.1⟩
  · subst hnew
    rw [List.getElem?_concat_length, List.getElem?_eq_none (Nat.le_refl _), Option.some.injEq]
    simp [eq_comm]
  · have hlength : p.calls.length + 1 ≤ k := hbeyond
    rw [List.getElem?_eq_none (by simpa using hlength),
      List.getElem?_eq_none (Nat.le_of_lt hbeyond)]
    simp [Nat.ne_of_gt hbeyond]

/-- A call that has changed is found under its number, and the others are as
they were. -/
theorem calls_setCall {p : Process} {k : Nat} {c : Call} (hcall : p.calls[k]? = some c)
    (c' : Call) (l : Nat) :
    (p.setCall k c').calls[l]? = if l = k then some c' else p.calls[l]? := by
  have hk : k < p.calls.length := (List.getElem?_eq_some_iff.mp hcall).1
  dsimp only [setCall]
  rw [List.getElem?_set]
  by_cases hl : k = l
  · rw [if_pos hl, if_pos hk, if_pos hl.symm]
  · rw [if_neg hl, if_neg fun heq => hl heq.symm]

end Process

/-- A server between two locks: the process, the calls that have drawn an id
and are not entered yet, and the senders taken out of the table whose bytes are
not handed over yet. -/
structure LockedProcess where
  proc : Process
  drawn : List Ticket
  handing : List (Nat × List UInt8)

namespace LockedProcess

/-- What may happen: a call draws its id, another server of the process draws
one, a call is entered, is posted, fails to be posted, receives its answer,
finds its channel closed, times out, or takes its entry out of the table;
`deliver` looks a request up and hands bytes over; or the routes change. -/
inductive Action
  | draw (toId : NodeId) (payload : List UInt8)
  | foreign
  | enter (t : Ticket)
  | post (k : Nat)
  | fail (k : Nat) (error : String)
  | receive (k : Nat)
  | closed (k : Nat)
  | expire (k : Nat)
  | close (k : Nat)
  | deliver (req : RelayRequest)
  | hand (k : Nat) (bytes : List UInt8)
  | host (table : PeerTable) (peerUrls : HashMap NodeId String)

/-- The pending table. -/
def pending (d : LockedProcess) : HashMap UInt64 Nat :=
  d.proc.state.pending

/-- The ids in use, those of calls that are not entered yet included. -/
def cids (d : LockedProcess) : List UInt64 :=
  (d.drawn ++ d.proc.tickets).map Ticket.cid

/-- The answer of a call has left the table: it is on its way to the mailbox
or has reached it. -/
def Answered (d : LockedProcess) (k : Nat) (c : Call) : Prop :=
  c.mailbox.isSome = true ∨ ∃ bytes, (k, bytes) ∈ d.handing

/-- The process has gone on. -/
def put (d : LockedProcess) (p : Process) : LockedProcess :=
  { d with proc := p }

/-- One action. -/
inductive Step : LockedProcess → Action → LockedProcess → Prop
  | draw {d : LockedProcess} {toId : NodeId} {payload : List UInt8} :
      Step d (.draw toId payload)
        { d with
          proc := { d.proc with nextCid := d.proc.nextCid + 1 }
          drawn := ⟨d.proc.nextCid, toId, payload⟩ :: d.drawn }
  | foreign {d : LockedProcess} :
      Step d .foreign (d.put { d.proc with nextCid := d.proc.nextCid + 1 })
  | enter {d : LockedProcess} {t : Ticket} (hdrawn : t ∈ d.drawn) :
      Step d (.enter t) { d with proc := d.proc.enter t, drawn := d.drawn.erase t }
  | post {d : LockedProcess} {k : Nat} {c : Call} {url : String}
      (hcall : d.proc.calls[k]? = some c) (hstage : c.stage = .posting url) :
      Step d (.post k) (d.put (d.proc.setCall k { c with stage := .waiting }))
  | fail {d : LockedProcess} {k : Nat} {c : Call} {error : String}
      (hcall : d.proc.calls[k]? = some c)
      (hstage : (∃ url, c.stage = .posting url) ∨ c.stage = .waiting) :
      Step d (.fail k error)
        (d.put (d.proc.setCall k
          { c with stage := .closing (.error ("relay send failed: " ++ error)) }))
  | receive {d : LockedProcess} {k : Nat} {c : Call} {bytes : List UInt8}
      (hcall : d.proc.calls[k]? = some c) (hstage : c.stage = .waiting)
      (hmail : c.mailbox = some bytes) :
      Step d (.receive k) (d.put (d.proc.setCall k { c with stage := .returned (.ok bytes) }))
  | closed {d : LockedProcess} {k : Nat} {c : Call}
      (hcall : d.proc.calls[k]? = some c) (hstage : c.stage = .waiting)
      (hgone : d.pending.lookup c.ticket.cid ≠ some k) (hlost : ¬ d.Answered k c) :
      Step d (.closed k)
        (d.put (d.proc.setCall k
          { c with stage := .returned (.error "response channel closed") }))
  | expire {d : LockedProcess} {k : Nat} {c : Call}
      (hcall : d.proc.calls[k]? = some c) (hstage : c.stage = .waiting)
      (hmail : c.mailbox = none) :
      Step d (.expire k)
        (d.put (d.proc.setCall k
          { c with stage := .closing (.error "timeout waiting for response") }))
  | close {d : LockedProcess} {k : Nat} {c : Call} {result : Except String (List UInt8)}
      (hcall : d.proc.calls[k]? = some c) (hstage : c.stage = .closing result) :
      Step d (.close k)
        (d.put ((d.proc.setCall k { c with stage := .returned result }).forget c.ticket.cid))
  | deliver {d : LockedProcess} {req : RelayRequest} :
      Step d (.deliver req)
        { d with
          proc := { d.proc with state := (d.proc.state.deliver req).state }
          handing := (d.proc.state.deliver req).answered.toList ++ d.handing }
  | hand {d : LockedProcess} {k : Nat} {bytes : List UInt8} (hhanding : (k, bytes) ∈ d.handing) :
      Step d (.hand k bytes)
        { d with
          proc := d.proc.receive (some (k, bytes))
          handing := d.handing.erase (k, bytes) }
  | host {d : LockedProcess} {table : PeerTable} {peerUrls : HashMap NodeId String} :
      Step d (.host table peerUrls)
        (d.put { d.proc with
          state := { d.proc.state with
            node := { d.proc.state.node with table := table }
            peerUrls := peerUrls } })

/-- A server that has just been started, wherever the counter of the process
stands. -/
structure Fresh (d : LockedProcess) : Prop where
  calls : d.proc.calls = []
  pending : d.pending = ∅
  drawn : d.drawn = []
  handing : d.handing = []

/-- The action draws an id. -/
def Action.draws : Action → Bool
  | .draw _ _ => true
  | .foreign => true
  | _ => false

/-- How many ids a run has drawn. -/
def draws (es : List (Transition LockedProcess Action)) : Nat :=
  es.countP fun e => e.label.draws

/-- The id that a transition resolves: `deliver` takes its entry out. -/
def resolved (e : Transition LockedProcess Action) : Option UInt64 :=
  match e.label with
  | .deliver req => (e.before.proc.state.waitingCall req).map Prod.fst
  | _ => none

/-- The ids that a run has resolved, in order. -/
def resolutions (es : List (Transition LockedProcess Action)) : List UInt64 :=
  es.filterMap resolved

/-- After so many draws from the first id on, and with the ids of the log
resolved, the table holds the calls that are entered, have not returned and
have not been answered. -/
structure Orderly (first : UInt64) (n : Nat) (log : List UInt64) (d : LockedProcess) : Prop where
  next : d.proc.nextCid = first + UInt64.ofNat n
  numbered : ∀ cid ∈ d.cids, ∃ j < n, cid = first + UInt64.ofNat j
  distinct : d.cids.Nodup
  pending : ∀ cid k, d.pending.lookup cid = some k ↔
    ∃ c, d.proc.calls[k]? = some c ∧ c.ticket.cid = cid ∧ c.returned = false ∧ ¬ d.Answered k c
  answered : ∀ k c, d.proc.calls[k]? = some c → (d.Answered k c ↔ c.ticket.cid ∈ log)
  handed : ∀ k bytes, (k, bytes) ∈ d.handing → k < d.proc.calls.length
  known : ∀ cid ∈ log, cid ∈ d.proc.tickets.map Ticket.cid
  once : log.Nodup

section Invariant

variable {d : LockedProcess} {first : UInt64} {n : Nat} {log : List UInt64}

/-- A fresh process is orderly: nothing was drawn, nothing is pending and
nothing has been resolved. -/
theorem Fresh.orderly (h : d.Fresh) : d.Orderly d.proc.nextCid 0 [] := by
  have hcids : d.cids = [] := by
    rw [cids, h.drawn, Process.tickets, h.calls]
    rfl
  refine ⟨(UInt64.add_zero _).symm, ?_, ?_, ?_, ?_, ?_, by simp, List.nodup_nil⟩
  · rw [hcids]
    simp
  · rw [hcids]
    exact List.nodup_nil
  · intro cid k
    rw [h.pending, h.calls]
    simp
  · intro k c hc
    rw [h.calls] at hc
    cases hc
  · rw [h.handing]
    simp

/-- Ids drawn from the counter are distinct until it comes round. -/
theorem drawn_inj {i j : Nat} (hi : i < 2 ^ 64) (hj : j < 2 ^ 64)
    (h : first + UInt64.ofNat i = first + UInt64.ofNat j) : i = j := by
  have hnat := congrArg UInt64.toNat (UInt64.add_right_inj first |>.mp h)
  rw [UInt64.toNat_ofNat', UInt64.toNat_ofNat', Nat.mod_eq_of_lt hi, Nat.mod_eq_of_lt hj] at hnat
  exact hnat

/-- The next id is not in use, as long as fewer than 2^64 were drawn before. -/
theorem Orderly.next_fresh (h : d.Orderly first n log) (hroom : n < 2 ^ 64) :
    d.proc.nextCid ∉ d.cids := by
  intro hmem
  obtain ⟨j, hj, heq⟩ := h.numbered _ hmem
  rw [h.next] at heq
  have hsame := drawn_inj hroom (Nat.lt_trans hj hroom) heq
  omega

/-- The ids of entered calls are distinct, and no call that is not entered yet
has one of them. -/
theorem Orderly.entered (h : d.Orderly first n log) :
    (d.proc.tickets.map Ticket.cid).Nodup ∧
      ∀ t ∈ d.drawn, t.cid ∉ d.proc.tickets.map Ticket.cid := by
  have hall := h.distinct
  rw [cids, List.map_append] at hall
  obtain ⟨_, hentered, hapart⟩ := List.nodup_append.mp hall
  refine ⟨hentered, ?_⟩
  intro t ht hmem
  exact hapart _ (List.mem_map_of_mem ht) _ hmem rfl

/-- Two calls under one id are the same call. -/
theorem Orderly.index_unique (h : d.Orderly first n log) {k l : Nat} {c c' : Call}
    (hk : d.proc.calls[k]? = some c) (hl : d.proc.calls[l]? = some c')
    (hcid : c.ticket.cid = c'.ticket.cid) : k = l := by
  obtain ⟨hklt, _⟩ := List.getElem?_eq_some_iff.mp hk
  refine (List.getElem?_inj (i := k) (by simpa [Process.tickets] using hklt) h.entered.1).mp ?_
  simp [Process.tickets, hk, hl, hcid]

/-- The id of an entered call is among those of the tickets. -/
theorem cid_mem_tickets {k : Nat} {c : Call} (hc : d.proc.calls[k]? = some c) :
    c.ticket.cid ∈ d.proc.tickets.map Ticket.cid :=
  List.mem_map_of_mem (List.mem_map_of_mem (List.mem_of_getElem? hc))

/-- Nothing is on its way to a call that is not entered yet. -/
theorem Orderly.unanswered (h : d.Orderly first n log) {c : Call} (hmail : c.mailbox = none) :
    ¬ d.Answered d.proc.calls.length c := by
  intro hanswered
  rcases hanswered with hsome | ⟨bytes, hbytes⟩
  · rw [hmail] at hsome
    cases hsome
  · exact Nat.lt_irrefl _ (h.handed _ bytes hbytes)

/-- A transition that resolves nothing leaves the log as it is. -/
theorem Orderly.quiet (h : d.Orderly first n log) {e : Transition LockedProcess Action}
    (hquiet : resolved e = none) : d.Orderly first n (log ++ (resolved e).toList) := by
  rw [hquiet, Option.toList_none, List.append_nil]
  exact h

/-- The counter moves on when another task of the process draws, and the table
stays as it is. -/
theorem Orderly.foreign (h : d.Orderly first n log) :
    (d.put { d.proc with nextCid := d.proc.nextCid + 1 }).Orderly first (n + 1) log := by
  refine ⟨?_, ?_, h.distinct, h.pending, h.answered, h.handed, h.known, h.once⟩
  · dsimp only [put]
    rw [h.next, UInt64.ofNat_add, UInt64.add_assoc]
    rfl
  · intro cid hcid
    obtain ⟨j, hj, heq⟩ := h.numbered cid hcid
    exact ⟨j, Nat.lt_succ_of_lt hj, heq⟩

/-- A call draws the next id, which is then its own and nobody else's. -/
theorem Orderly.draw (h : d.Orderly first n log) (hroom : n < 2 ^ 64) {t : Ticket}
    (ht : t.cid = d.proc.nextCid) :
    Orderly first (n + 1) log
      { d with
        proc := { d.proc with nextCid := d.proc.nextCid + 1 }
        drawn := t :: d.drawn } := by
  have hmoved := h.foreign
  refine ⟨hmoved.next, ?_, ?_, h.pending, h.answered, h.handed, h.known, h.once⟩
  · intro cid hcid
    rcases List.mem_cons.mp hcid with hnew | hold
    · exact ⟨n, Nat.lt_succ_self n, by rw [hnew, ht, h.next]⟩
    · exact hmoved.numbered cid hold
  · refine List.nodup_cons.mpr ⟨?_, h.distinct⟩
    rw [ht]
    exact h.next_fresh hroom

/-- A call has not returned after its first stage, even where its result is
already known. -/
theorem firstStage_open (st : ServerState) (toId : NodeId) (payload : List UInt8)
    (t : Ticket) (mailbox : Option (List UInt8)) :
    Call.returned ⟨t, Process.firstStage st toId payload, mailbox⟩ = false := by
  unfold Call.returned Process.firstStage
  dsimp only
  by_cases hself : st.node.id = toId
  · rw [if_pos hself]
  · rw [if_neg hself]
    cases Process.firstHopUrl st toId <;> rfl

/-- A call is entered with the id that it has drawn, which moves from the drawn
ones into the table or to the calls that are done. -/
theorem Orderly.enter (h : d.Orderly first n log) {t : Ticket} (ht : t ∈ d.drawn) :
    Orderly first n log { d with proc := d.proc.enter t, drawn := d.drawn.erase t } := by
  have hperm : (d.drawn.erase t ++ (d.proc.tickets ++ [t])).Perm (d.drawn ++ d.proc.tickets) := by
    rw [← List.append_assoc]
    refine (List.perm_append_singleton t _).trans ?_
    exact (List.perm_cons_erase ht).symm.append_right d.proc.tickets
  have htickets : (d.proc.enter t).tickets = d.proc.tickets ++ [t] := by
    simp [Process.tickets, Process.enter, Process.sendAndWait]
  have hcids := hperm.map Ticket.cid
  rw [← htickets] at hcids
  have hfresh := h.entered.2 t ht
  have hlookup : ∀ cid, (d.proc.enter t).state.pending.lookup cid =
      if cid = t.cid then some d.proc.calls.length else d.pending.lookup cid :=
    fun cid => HashMap.lookup_put
  have hother : ∀ {k : Nat} {c : Call}, d.proc.calls[k]? = some c → c.ticket.cid ≠ t.cid := by
    intro k c hc heq
    apply hfresh
    rw [← heq]
    exact cid_mem_tickets hc
  refine ⟨h.next, ?_, hcids.nodup_iff.mpr h.distinct, ?_, ?_, ?_, ?_, h.once⟩
  · intro cid hcid
    exact h.numbered cid (hcids.mem_iff.mp hcid)
  · intro cid k
    dsimp only [LockedProcess.pending]
    rw [hlookup]
    by_cases hcid : cid = t.cid
    · rw [if_pos hcid, Option.some.injEq]
      constructor
      · intro hk
        refine ⟨_, Process.calls_enter.mpr (Or.inr ⟨hk.symm, rfl⟩), hcid.symm,
          firstStage_open _ _ _ _ _, ?_⟩
        rw [← hk]
        exact h.unanswered rfl
      · rintro ⟨c, hc, hsame, _⟩
        rcases Process.calls_enter.mp hc with hold | ⟨hk, _⟩
        · exact (hother hold (hsame.trans hcid)).elim
        · exact hk.symm
    · rw [if_neg hcid, h.pending]
      constructor
      · rintro ⟨c, hc, hrest⟩
        exact ⟨c, Process.calls_enter.mpr (Or.inl hc), hrest⟩
      · rintro ⟨c, hc, hsame, hrest⟩
        rcases Process.calls_enter.mp hc with hold | ⟨_, rfl⟩
        · exact ⟨c, hold, hsame, hrest⟩
        · exact (hcid hsame.symm).elim
  · intro k c hc
    rcases Process.calls_enter.mp hc with hold | ⟨rfl, rfl⟩
    · exact h.answered k c hold
    · exact iff_of_false (h.unanswered rfl) (fun hmem => hfresh (h.known _ hmem))
  · intro k bytes hmem
    exact Nat.lt_of_lt_of_le (h.handed k bytes hmem) (by simp [Process.enter, Process.sendAndWait])
  · intro cid hcid
    rw [htickets, List.map_append]
    exact List.mem_append_left _ (h.known cid hcid)

/-- A call changes, and with it the table and what is on its way, but only as
far as this call is concerned. -/
theorem Orderly.change (h : d.Orderly first n log) {k : Nat} {c c' : Call}
    (hcall : d.proc.calls[k]? = some c) (hticket : c'.ticket = c.ticket)
    {handing : List (Nat × List UInt8)} {m : HashMap UInt64 Nat}
    (hsame : (c'.mailbox.isSome = true ∨ ∃ bytes, (k, bytes) ∈ handing) ↔ d.Answered k c)
    (hothers : ∀ l, l ≠ k → ∀ bytes, (l, bytes) ∈ handing ↔ (l, bytes) ∈ d.handing)
    (hm : ∀ cid l, m.lookup cid = some l ↔
      if l = k then c.ticket.cid = cid ∧ c'.returned = false ∧ ¬ d.Answered k c
      else d.pending.lookup cid = some l) :
    Orderly first n log
      { d with proc := (d.proc.setCall k c').withPending m, handing := handing } := by
  have htickets := (Process.keeps_setCall hcall hticket).tickets_eq
  have hcids : (d.put ((d.proc.setCall k c').withPending m)).cids = d.cids :=
    congrArg (fun ts => (d.drawn ++ ts).map Ticket.cid) htickets
  have hcalls := Process.calls_setCall hcall c'
  have hother : ∀ l, l ≠ k → ∀ b : Call,
      (b.mailbox.isSome = true ∨ ∃ bytes, (l, bytes) ∈ handing) ↔ d.Answered l b :=
    fun l hl b => or_congr_right (exists_congr (hothers l hl))
  refine ⟨h.next, ?_, ?_, ?_, ?_, ?_, ?_, h.once⟩
  · intro cid hcid
    exact h.numbered cid (hcids ▸ hcid)
  · exact hcids.symm ▸ h.distinct
  · intro cid l
    dsimp only [LockedProcess.pending, Process.withPending, Answered]
    rw [hm, hcalls]
    by_cases hl : l = k
    · subst hl
      rw [if_pos rfl, if_pos rfl]
      constructor
      · intro ⟨hcid, hopen, hwaits⟩
        exact ⟨c', rfl, by rw [hticket, hcid], hopen, fun ha => hwaits (hsame.mp ha)⟩
      · intro ⟨b, hb, hcid, hopen, hwaits⟩
        obtain rfl := Option.some.inj hb
        exact ⟨by rw [← hticket, hcid], hopen, fun ha => hwaits (hsame.mpr ha)⟩
    · rw [if_neg hl, if_neg hl, h.pending]
      simp only [hother l hl]
  · intro l b hb
    dsimp only [Process.withPending, Answered] at hb ⊢
    rw [hcalls] at hb
    by_cases hl : l = k
    · subst hl
      rw [if_pos rfl] at hb
      obtain rfl := Option.some.inj hb
      rw [hticket, ← h.answered l c hcall]
      exact hsame
    · rw [if_neg hl] at hb
      rw [hother l hl]
      exact h.answered l b hb
  · intro l bytes hmem
    have hlength : ((d.proc.setCall k c').withPending m).calls.length = d.proc.calls.length :=
      List.length_set
    rw [hlength]
    by_cases hl : l = k
    · rw [hl]
      exact (List.getElem?_eq_some_iff.mp hcall).1
    · exact h.handed l bytes ((hothers l hl bytes).mp hmem)
  · intro cid hcid
    have hmem := h.known cid hcid
    rw [← htickets] at hmem
    exact hmem

/-- A call goes on without returning, so its id stays in use. -/
theorem Orderly.goes_on (h : d.Orderly first n log) {k : Nat} {c : Call} {stage : Stage}
    (hcall : d.proc.calls[k]? = some c) (hopen : c.returned = false)
    (hstage : Call.returned { c with stage := stage } = false) :
    (d.put (d.proc.setCall k { c with stage := stage })).Orderly first n log := by
  refine @Orderly.change d first n log h k c { c with stage := stage } hcall rfl d.handing
    d.pending Iff.rfl (fun _ _ _ => Iff.rfl) ?_
  intro cid l
  by_cases hl : l = k
  · subst hl
    rw [if_pos rfl, h.pending, hcall, hstage]
    simp [hopen]
  · rw [if_neg hl]

/-- A call returns, and its id is not in the table any more. -/
theorem Orderly.returns (h : d.Orderly first n log) {k : Nat} {c : Call}
    {result : Except String (List UInt8)} {m : HashMap UInt64 Nat}
    (hcall : d.proc.calls[k]? = some c)
    (hm : ∀ cid, m.lookup cid = if cid = c.ticket.cid then none else d.pending.lookup cid) :
    (d.put ((d.proc.setCall k { c with stage := .returned result }).withPending m)).Orderly
      first n log := by
  refine @Orderly.change d first n log h k c { c with stage := .returned result } hcall rfl
    d.handing m Iff.rfl (fun _ _ _ => Iff.rfl) ?_
  intro cid l
  rw [hm]
  by_cases hl : l = k
  · subst hl
    rw [if_pos rfl]
    refine iff_of_false ?_ (fun hreturned => Bool.noConfusion hreturned.2.1)
    intro hlookup
    by_cases hcid : cid = c.ticket.cid
    · rw [if_pos hcid] at hlookup
      cases hlookup
    · rw [if_neg hcid, h.pending] at hlookup
      obtain ⟨c', hc', hsame, _⟩ := hlookup
      rw [hcall] at hc'
      obtain rfl := Option.some.inj hc'
      exact hcid hsame.symm
  · rw [if_neg hl]
    by_cases hcid : cid = c.ticket.cid
    · rw [if_pos hcid]
      refine iff_of_false (by simp) ?_
      intro hlookup
      obtain ⟨c', hc', hsame, _⟩ := (h.pending cid l).mp hlookup
      exact hl (h.index_unique hc' hcall (hsame.trans hcid))
    · rw [if_neg hcid]

/-- An id that is not in the table may be taken for removed. -/
theorem Orderly.lookup_gone (h : d.Orderly first n log) {k : Nat} {c : Call}
    (hcall : d.proc.calls[k]? = some c) (hgone : d.pending.lookup c.ticket.cid ≠ some k)
    (cid : UInt64) :
    d.pending.lookup cid = if cid = c.ticket.cid then none else d.pending.lookup cid := by
  by_cases hcid : cid = c.ticket.cid
  · rw [if_pos hcid, hcid]
    refine Option.eq_none_iff_forall_ne_some.mpr ?_
    intro l hlookup
    obtain ⟨c', hc', hsame, _⟩ := (h.pending _ l).mp hlookup
    rw [h.index_unique hc' hcall hsame] at hlookup
    exact hgone hlookup
  · rw [if_neg hcid]

/-- The call that a packet resolves is the one in the table under the number of
the packet. -/
theorem waitingCall_eq_some {st : ServerState} {req : RelayRequest} {cid : UInt64} {k : Nat}
    (h : st.waitingCall req = some (cid, k)) :
    req.correlationId = some cid ∧ st.pending.lookup cid = some k := by
  unfold ServerState.waitingCall at h
  obtain ⟨cid', hnamed, hcall⟩ := Option.bind_eq_some_iff.mp h
  obtain ⟨k', hlookup, hpair⟩ := Option.map_eq_some_iff.mp hcall
  obtain ⟨rfl, rfl⟩ := Prod.mk.inj hpair
  exact ⟨hnamed, hlookup⟩

/-- **A call is answered**: its entry leaves the table and its bytes are on
their way. -/
theorem Orderly.take (h : d.Orderly first n log) {cid : UInt64} {k : Nat} {bytes : List UInt8}
    (hlookup : d.pending.lookup cid = some k) :
    Orderly first n (log ++ [cid])
      { d with
        proc := d.proc.withPending (d.pending.erase cid)
        handing := (k, bytes) :: d.handing } := by
  obtain ⟨c, hc, hcid, hopen, hwaits⟩ := (h.pending cid k).mp hlookup
  have hanswered : ∀ l c', Answered
      { d with
        proc := d.proc.withPending (d.pending.erase cid)
        handing := (k, bytes) :: d.handing } l c' ↔ d.Answered l c' ∨ l = k := by
    intro l c'
    dsimp only [Answered]
    simp only [List.mem_cons, Prod.mk.injEq]
    grind
  refine ⟨h.next, h.numbered, h.distinct, ?_, ?_, ?_, ?_, ?_⟩
  · intro cid' l
    simp only [hanswered]
    dsimp only [LockedProcess.pending, Process.withPending]
    rw [HashMap.lookup_erase]
    by_cases hsame : cid' = cid
    · rw [if_pos hsame]
      refine iff_of_false (by simp) ?_
      intro ⟨c', hc', hcid', _, hneither⟩
      exact hneither (Or.inr (h.index_unique hc' hc (by rw [hcid', hcid, hsame])))
    · rw [if_neg hsame]
      refine (h.pending cid' l).trans (exists_congr fun c' => and_congr_right fun hc' =>
        and_congr_right fun hcid' => and_congr_right fun _ => ?_)
      have hne : l ≠ k := by
        intro hl
        rw [hl, hc] at hc'
        obtain rfl := Option.some.inj hc'
        exact hsame (hcid'.symm.trans hcid)
      simp [hne]
  · intro l c' hc'
    rw [hanswered, List.mem_append, List.mem_singleton, h.answered l c' hc']
    refine or_congr_right ?_
    constructor
    · intro hl
      subst hl
      rw [Process.withPending, hc] at hc'
      obtain rfl := Option.some.inj hc'
      exact hcid
    · intro hsame
      exact h.index_unique hc' hc (hsame.trans hcid.symm)
  · intro l bytes' hmem
    rcases List.mem_cons.mp hmem with hnew | hold
    · obtain ⟨rfl, _⟩ := Prod.mk.inj hnew
      exact (List.getElem?_eq_some_iff.mp hc).1
    · exact h.handed l bytes' hold
  · intro cid' hmem
    rcases List.mem_append.mp hmem with hold | hnew
    · exact h.known cid' hold
    · rw [List.mem_singleton.mp hnew, ← hcid]
      exact cid_mem_tickets hc
  · refine List.nodup_append.mpr ⟨h.once, List.nodup_singleton cid, ?_⟩
    intro a ha b hb heq
    rw [heq, List.mem_singleton.mp hb, ← hcid] at ha
    exact hwaits ((h.answered k c hc).mpr ha)

theorem Orderly.hand (h : d.Orderly first n log) {k : Nat} {bytes : List UInt8}
    (hhanding : (k, bytes) ∈ d.handing) :
    Orderly first n log
      { d with
        proc := d.proc.receive (some (k, bytes))
        handing := d.handing.erase (k, bytes) } := by
  obtain ⟨c, hc⟩ : ∃ c, d.proc.calls[k]? = some c :=
    ⟨_, List.getElem?_eq_getElem (h.handed k bytes hhanding)⟩
  have hreceive : d.proc.receive (some (k, bytes)) =
      d.proc.setCall k { c with mailbox := some bytes } := by
    rw [Process.receive, hc]
  rw [hreceive]
  have hanswered : d.Answered k c := Or.inr ⟨bytes, hhanding⟩
  refine @Orderly.change d first n log h k c { c with mailbox := some bytes } hc rfl
    (d.handing.erase (k, bytes)) d.pending (iff_of_true (Or.inl rfl) hanswered) ?_ ?_
  · intro l hl bytes'
    exact List.mem_erase_of_ne fun heq => hl (Prod.mk.inj heq).1
  · intro cid l
    by_cases hl : l = k
    · subst hl
      rw [if_pos rfl, h.pending, hc]
      simp [hanswered]
    · rw [if_neg hl]

/-- What `deliver` does to the table: nothing, or it takes out the entry that
the request resolves. -/
theorem deliver_cases (st : ServerState) (req : RelayRequest) :
    (st.waitingCall req = none ∧ (st.deliver req).state = st ∧
        (st.deliver req).answered = none) ∨
      ∃ cid k, st.waitingCall req = some (cid, k) ∧ st.pending.lookup cid = some k ∧
        (st.deliver req).state = { st with pending := st.pending.erase cid } ∧
          (st.deliver req).answered = some (k, Utf8.encode req.text) := by
  cases hwaiting : st.waitingCall req with
  | none =>
      obtain ⟨hstate, hanswered, _⟩ := ServerState.deliver_of_not_waiting hwaiting
      exact Or.inl ⟨rfl, hstate, hanswered⟩
  | some waiting =>
      obtain ⟨cid, k⟩ := waiting
      obtain ⟨hstate, _, hanswered, _⟩ := ServerState.deliver_of_waiting hwaiting
      exact Or.inr ⟨cid, k, rfl, (waitingCall_eq_some hwaiting).2, hstate, hanswered⟩

/-- **The step.**  Every action keeps the table in order, as long as the
counter does not come round. -/
theorem orderly_step {e : Transition LockedProcess Action}
    (hstep : Step e.before e.label e.after) (h : e.before.Orderly first n log)
    (hroom : n + (if e.label.draws then 1 else 0) ≤ 2 ^ 64) :
    e.after.Orderly first (n + if e.label.draws then 1 else 0) (log ++ (resolved e).toList) := by
  rcases e with ⟨d, a, d'⟩
  dsimp only at hstep h hroom ⊢
  cases hstep with
  | draw => exact (h.draw hroom rfl).quiet rfl
  | foreign => exact h.foreign.quiet rfl
  | enter hdrawn => exact (h.enter hdrawn).quiet rfl
  | @post k c url hcall hstage =>
      exact (h.goes_on hcall (by rw [Call.returned, hstage]) rfl).quiet rfl
  | @fail k c error hcall hstage =>
      refine (h.goes_on hcall ?_ rfl).quiet rfl
      rcases hstage with ⟨url, hposting⟩ | hwaiting
      · rw [Call.returned, hposting]
      · rw [Call.returned, hwaiting]
  | @receive k c bytes hcall hstage hmail =>
      refine (h.returns hcall (h.lookup_gone hcall ?_)).quiet rfl
      intro hlookup
      obtain ⟨c', hc', _, _, hwaits⟩ := (h.pending _ k).mp hlookup
      rw [hcall] at hc'
      obtain rfl := Option.some.inj hc'
      exact hwaits (Or.inl (by rw [hmail]; rfl))
  | @closed k c hcall hstage hgone hlost =>
      exact (h.returns hcall (h.lookup_gone hcall hgone)).quiet rfl
  | @expire k c hcall hstage hmail =>
      exact (h.goes_on hcall (by rw [Call.returned, hstage]) rfl).quiet rfl
  | @close k c result hcall hstage =>
      exact (h.returns hcall (HashMap.lookup_erase d.pending c.ticket.cid)).quiet rfl
  | @deliver req =>
      rcases deliver_cases d.proc.state req with
        ⟨hwaiting, hstate, hanswered⟩ | ⟨cid, k, hwaiting, hlookup, hstate, hanswered⟩
      · rw [resolved]
        dsimp only
        rw [hwaiting, hstate, hanswered, Option.map_none]
        dsimp only [Option.toList_none]
        rw [List.append_nil, List.nil_append]
        exact h
      · rw [resolved]
        dsimp only
        rw [hwaiting, hstate, hanswered]
        exact h.take hlookup
  | hand hhanding => exact (h.hand hhanding).quiet rfl
  | host =>
      refine Orderly.quiet ?_ rfl
      exact ⟨h.next, h.numbered, h.distinct, h.pending, h.answered, h.handed, h.known, h.once⟩

end Invariant

/-- **The invariant along a run**: by induction, a process stays orderly while
fewer than 2^64 ids are drawn. -/
theorem orderly_of_run {start final : LockedProcess}
    {es : List (Transition LockedProcess Action)} (hstart : start.Fresh)
    (run : Trace Step start es final) (hfew : draws es ≤ 2 ^ 64) :
    final.Orderly start.proc.nextCid (draws es) (resolutions es) := by
  induction run with
  | nil => exact hstart.orderly
  | @snoc d d' a es init last ih =>
      have hdraws : draws (es ++ [⟨d, a, d'⟩]) = draws es + if a.draws then 1 else 0 := by
        rw [draws, List.countP_append, List.countP_singleton]
        rfl
      have hlog : resolutions (es ++ [⟨d, a, d'⟩]) =
          resolutions es ++ (resolved ⟨d, a, d'⟩).toList := by
        rw [resolutions, List.filterMap_append]
        cases hresolved : resolved ⟨d, a, d'⟩ with
        | none => simp [resolutions, hresolved]
        | some cid => simp [resolutions, hresolved]
      rw [hdraws] at hfew ⊢
      rw [hlog]
      exact @orderly_step _ _ _ ⟨d, a, d'⟩ last (ih (by omega)) hfew

/-- **The pending table is clean.**  Along every run from a fresh server in
which the counter does not come round: an id is in the table exactly while a
call under it has been entered, has not returned and has not been answered; a
call that has returned, by whichever exit, has left no entry; no two calls share
an id; and no id is resolved twice. -/
theorem pending_hygiene {start final : LockedProcess}
    {es : List (Transition LockedProcess Action)} (hstart : start.Fresh)
    (run : Trace Step start es final) (hfew : draws es ≤ 2 ^ 64) :
    (∀ cid, (∃ k, final.pending.lookup cid = some k) ↔
      ∃ c ∈ final.proc.calls, c.ticket.cid = cid ∧ c.returned = false ∧ cid ∉ resolutions es) ∧
    (∀ c ∈ final.proc.calls, c.returned = true → final.pending.lookup c.ticket.cid = none) ∧
    final.cids.Nodup ∧ (resolutions es).Nodup := by
  have h := orderly_of_run hstart run hfew
  refine ⟨?_, ?_, h.distinct, h.once⟩
  · intro cid
    constructor
    · intro ⟨k, hlookup⟩
      obtain ⟨c, hc, hcid, hopen, hwaits⟩ := (h.pending cid k).mp hlookup
      refine ⟨c, List.mem_of_getElem? hc, hcid, hopen, ?_⟩
      rw [← hcid, ← h.answered k c hc]
      exact hwaits
    · intro ⟨c, hmem, hcid, hopen, hlog⟩
      obtain ⟨k, hc⟩ := List.mem_iff_getElem?.mp hmem
      rw [← hcid, ← h.answered k c hc] at hlog
      exact ⟨k, (h.pending cid k).mpr ⟨c, hc, hcid, hopen, hlog⟩⟩
  · intro c hmem hreturned
    obtain ⟨k, hc⟩ := List.mem_iff_getElem?.mp hmem
    refine Option.eq_none_iff_forall_ne_some.mpr ?_
    intro l hlookup
    obtain ⟨c', hc', hcid, hopen, _⟩ := (h.pending _ l).mp hlookup
    rw [h.index_unique hc' hc hcid, hc] at hc'
    obtain rfl := Option.some.inj hc'
    rw [hreturned] at hopen
    cases hopen

/-- A server that has just been started, with one peer and a handler for
everything. -/
def sampleStart : LockedProcess where
  proc :=
    { state :=
        { node := Node.sample 1
          peerUrls := HashMap.put ∅ (Node.sample 2).id (Node.sample 2).id.display
          selfUrl := (Node.sample 1).id.display
          pending := ∅
          handlers := [catchAllHandler fun app => some app.payload] }
      nextCid := 1
      calls := [] }
  drawn := []
  handing := []

/-- A call to the peer at a stage. -/
def sampleCall (stage : Stage) : Call where
  ticket := ⟨1, (Node.sample 2).id, [0x61]⟩
  stage := stage
  mailbox := none

/-- The server with the call at a later stage. -/
def sampleAt (stage : Stage) : LockedProcess :=
  let entered := sampleStart.proc.sendAndWait (Node.sample 2).id [0x61]
  sampleStart.put (entered.setCall 0 (sampleCall stage))

def timeoutError : Except String (List UInt8) :=
  .error "timeout waiting for response"

/-- The server when the call has timed out and returned. -/
def timedOut : LockedProcess :=
  sampleStart.put
    (((sampleAt (.closing timeoutError)).proc.setCall 0
      (sampleCall (.returned timeoutError))).forget 1)

/-- The call is entered, posted, and times out. -/
def timeoutRun : List (Transition LockedProcess Action) :=
  let drawn : LockedProcess :=
    { sampleStart with
      proc := { sampleStart.proc with nextCid := 2 }
      drawn := [(sampleCall .waiting).ticket] }
  let entered := sampleAt (.posting (Node.sample 2).id.display)
  [⟨sampleStart, .draw (Node.sample 2).id [0x61], drawn⟩,
    ⟨drawn, .enter (sampleCall .waiting).ticket, entered⟩,
    ⟨entered, .post 0, sampleAt .waiting⟩,
    ⟨sampleAt .waiting, .expire 0, sampleAt (.closing timeoutError)⟩,
    ⟨sampleAt (.closing timeoutError), .close 0, timedOut⟩]

theorem sampleStart_fresh : sampleStart.Fresh :=
  ⟨rfl, rfl, rfl, rfl⟩

/-- The run in which the one call expires before an answer has come. -/
theorem timeoutRun_trace : Trace Step sampleStart timeoutRun timedOut := by
  have henter : Step
      { sampleStart with
        proc := { sampleStart.proc with nextCid := 2 }
        drawn := [(sampleCall .waiting).ticket] }
      (.enter (sampleCall .waiting).ticket) (sampleAt (.posting (Node.sample 2).id.display)) := by
    have hstage : Process.firstStage sampleStart.proc.state (Node.sample 2).id [0x61] =
        .posting (Node.sample 2).id.display := by
      decide +kernel
    have hafter : sampleAt (.posting (Node.sample 2).id.display) =
        { sampleStart with
          proc := { sampleStart.proc with nextCid := 2 }.enter (sampleCall .waiting).ticket
          drawn := [(sampleCall .waiting).ticket].erase (sampleCall .waiting).ticket } := by
      have hcall : sampleCall (.posting (Node.sample 2).id.display) =
          ⟨(sampleCall .waiting).ticket,
            Process.firstStage sampleStart.proc.state (Node.sample 2).id [0x61], none⟩ := by
        rw [hstage]
        rfl
      rw [List.erase_cons_head, sampleAt, hcall]
      rfl
    rw [hafter]
    exact .enter List.mem_cons_self
  have hpost : Step (sampleAt (.posting (Node.sample 2).id.display)) (.post 0)
      (sampleAt .waiting) :=
    .post (c := sampleCall (.posting (Node.sample 2).id.display)) (by rfl) rfl
  have hexpire : Step (sampleAt .waiting) (.expire 0) (sampleAt (.closing timeoutError)) :=
    .expire (c := sampleCall .waiting) rfl rfl rfl
  have hclose : Step (sampleAt (.closing timeoutError)) (.close 0) timedOut :=
    .close (c := sampleCall (.closing timeoutError)) rfl rfl
  exact .snoc (.snoc (.snoc (.snoc (.single .draw) henter) hpost) hexpire) hclose

/-- A call that has timed out has left no entry. -/
theorem timedOut_clean : timedOut.pending.lookup 1 = none := by
  have hclean := pending_hygiene sampleStart_fresh timeoutRun_trace (by decide)
  exact hclean.2.1 (sampleCall (.returned timeoutError)) List.mem_cons_self rfl

end LockedProcess

end Zona
