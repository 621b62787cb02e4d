import Mathlib.Data.List.Infix
import Zona.CallCorrelation
import Zona.PendingTables

/-!
# The life of a call

`call_goes` says once what an action of a network of servers may do to a call:
the call keeps its place and its ticket, and moves on by its own actions.  No
other call appears than the one an action begins (`call_cases`), and every
process keeps its node and its handlers (`stays_of_step`).

`Traced` is what a run says of a call.  An error that speaks of a timeout is
the mark of a call that expired or whose post failed with one, and a call of a
process to itself has ended with what its own handler computed.
-/

namespace Zona

/-- The text of an error speaks of a timeout. -/
def SaysTimeout (error : String) : Prop :=
  "timeout".toList <:+: error.toList

instance (error : String) : Decidable (SaysTimeout error) := by
  unfold SaysTimeout
  infer_instance

/-- A text without an `i` or without an `m` does not. -/
theorem not_saysTimeout {error : String} (h : 'i' ∉ error.toList ∨ 'm' ∉ error.toList) :
    ¬ SaysTimeout error := by
  intro hword
  rcases h with h | h
  · exact h (List.IsInfix.subset hword (by decide))
  · exact h (List.IsInfix.subset hword (by decide))

/-- None of the texts of a call that ends by itself does, but one. -/
theorem quiet_errors :
    ¬ SaysTimeout "handler returned no response" ∧ ¬ SaysTimeout "no handler matched" ∧
      ¬ SaysTimeout "response channel closed" :=
  ⟨not_saysTimeout (Or.inl (by decide)), not_saysTimeout (Or.inl (by decide)),
    not_saysTimeout (Or.inl (by decide))⟩

/-- A word whose first letter does not occur in the beginning of a text occurs
in the rest. -/
theorem infix_of_append {α : Type} {x : α} {word start rest : List α} (hx : x ∉ start)
    (h : (x :: word) <:+: start ++ rest) : (x :: word) <:+: rest := by
  induction start with
  | nil => exact h
  | cons y start ih =>
      rw [List.cons_append, List.infix_cons_iff] at h
      rcases h with hhere | hlater
      · rw [List.cons_prefix_cons] at hhere
        exact (hx (by simp [hhere.1])).elim
      · exact ih (fun hmem => hx (List.mem_cons_of_mem y hmem)) hlater

/-- An error of a relay speaks of a timeout only if the cause does, as the
words in front of it do not contain that word. -/
theorem saysTimeout_of_relay {error : String}
    (h : SaysTimeout ("relay send failed: " ++ error)) : SaysTimeout error := by
  unfold SaysTimeout at h
  rw [String.toList_append] at h
  exact infix_of_append (by decide) h

/-- A call without a route does not speak of a timeout: hexadecimal has no `m`. -/
theorem not_saysTimeout_noRoute (a : NodeId) : ¬ SaysTimeout ("no route to " ++ a.hex) := by
  refine not_saysTimeout (Or.inr ?_)
  rw [String.toList_append, List.mem_append]
  rintro (hstart | hhex)
  · revert hstart
    decide
  · rw [NodeId.hex, Hex.encode, String.toList_ofList, Hex.encodeChars, List.mem_flatMap] at hhex
    obtain ⟨byte, _, hdigit⟩ := hhex
    have hlt := byte.toNat_lt
    have hnone : ∀ n < 16, Hex.digit n ≠ 'm' := by
      decide
    have hhi := hnone (byte.toNat / 16) (by omega)
    have hlo := hnone (byte.toNat % 16) (by omega)
    simp only [List.mem_cons, List.not_mem_nil, or_false] at hdigit
    rcases hdigit with h | h
    · exact hhi h.symm
    · exact hlo h.symm

namespace Servers

variable {ι : Type}

/-- What an action may do to the call `k` of the process `i`. -/
inductive Goes (i : ι) (k : Nat) : Action ι → Zona.Call → Zona.Call → Prop
  | stays {a : Action ι} {c c' : Zona.Call} (ticket : c'.ticket = c.ticket)
      (stage : c'.stage = c.stage) : Goes i k a c c'
  | posted {c : Zona.Call} {url : String} (posting : c.stage = .posting url) :
      Goes i k (.post i k) c { c with stage := .waiting }
  | failed {c : Zona.Call} (error : String)
      (pending : (∃ url, c.stage = .posting url) ∨ c.stage = .waiting) :
      Goes i k (.fail i k error) c
        { c with stage := .closing (.error ("relay send failed: " ++ error)) }
  | received {c : Zona.Call} {bytes : List UInt8} (waiting : c.stage = .waiting)
      (mail : c.mailbox = some bytes) :
      Goes i k (.receive i k) c { c with stage := .returned (.ok bytes) }
  | closed {c : Zona.Call} (waiting : c.stage = .waiting) :
      Goes i k (.closed i k) c { c with stage := .returned (.error "response channel closed") }
  | expired {c : Zona.Call} (waiting : c.stage = .waiting) :
      Goes i k (.expire i k) c
        { c with stage := .closing (.error "timeout waiting for response") }
  | returned {c : Zona.Call} {result : Except String (List UInt8)}
      (closing : c.stage = .closing result) :
      Goes i k (.close i k) c { c with stage := .returned result }

/-- A call may stay as it is while something else happens. -/
theorem Goes.refl (i : ι) (k : Nat) (a : Action ι) (c : Zona.Call) : Goes i k a c c :=
  .stays rfl rfl

/-- A call keeps its number, its destination and its payload through all its
stages. -/
theorem Goes.ticket_eq {i : ι} {k : Nat} {a : Action ι} {c c' : Zona.Call}
    (h : Goes i k a c c') : c'.ticket = c.ticket := by
  cases h with
  | stays ticket stage => exact ticket
  | _ => rfl

variable [DecidableEq ι]

theorem calls_put_setCall {net : Servers ι} {i j : ι} {k l : Nat} {c d : Zona.Call}
    {a : Action ι} {p : Process} {posts : List Post} (hcall : (net.procs j).calls[l]? = some d)
    {d' : Zona.Call} (hp : p.calls = ((net.procs j).setCall l d').calls)
    (hgoes : Goes j l a d d')
    (hbefore : (net.procs i).calls[k]? = some c) :
    ∃ c', ((net.put j p posts).procs i).calls[k]? = some c' ∧ Goes i k a c c' := by
  by_cases hij : i = j
  · subst hij
    rw [procs_put_self, hp, Process.calls_setCall hcall]
    by_cases hkl : k = l
    · subst hkl
      rw [hcall] at hbefore
      obtain rfl := Option.some.inj hbefore
      exact ⟨d', if_pos rfl, hgoes⟩
    · rw [if_neg hkl]
      exact ⟨c, hbefore, Goes.refl i k a c⟩
  · rw [procs_put_of_ne net hij]
    exact ⟨c, hbefore, Goes.refl i k a c⟩

/-- An action that leaves the calls of a process alone. -/
theorem calls_put_same {net : Servers ι} {i j : ι} {k : Nat} {c : Zona.Call} {a : Action ι}
    {p : Process} {posts : List Post} (hp : p.calls = (net.procs j).calls)
    (hbefore : (net.procs i).calls[k]? = some c) :
    ∃ c', ((net.put j p posts).procs i).calls[k]? = some c' ∧ Goes i k a c c' := by
  refine ⟨c, ?_, Goes.refl i k a c⟩
  by_cases hij : i = j
  · subst hij
    rw [procs_put_self, hp]
    exact hbefore
  · rw [procs_put_of_ne net hij]
    exact hbefore

/-- A relay request may fill the mailbox of a call. -/
theorem calls_relayed {net : Servers ι} {i j : ι} {k : Nat} {c : Zona.Call} {a : Action ι}
    {outcome : Outcome} {posts : List Post} (hbefore : (net.procs i).calls[k]? = some c) :
    ∃ c', ((net.put j ((net.procs j).relayed outcome) posts).procs i).calls[k]? = some c' ∧
      Goes i k a c c' := by
  unfold Process.relayed Process.receive
  cases outcome.answered with
  | none => exact calls_put_same rfl hbefore
  | some found =>
      dsimp only
      cases hfound : (net.procs j).calls[found.1]? with
      | none => exact calls_put_same rfl hbefore
      | some d =>
          have hgoes : Goes j found.1 a d { d with mailbox := some found.2 } := .stays rfl rfl
          exact calls_put_setCall hfound rfl hgoes hbefore

/-- **One action and one call.**  A call stays where it is in the list of its
process, with its ticket, and moves on by its own actions only. -/
theorem call_goes {net net' : Servers ι} {a : Action ι} (hstep : Step net a net') {i : ι}
    {k : Nat} {c : Zona.Call} (hcall : (net.procs i).calls[k]? = some c) :
    ∃ c', (net'.procs i).calls[k]? = some c' ∧ Goes i k a c c' := by
  cases hstep with
  | @call j toId payload =>
      refine ⟨c, ?_, Goes.refl i k _ c⟩
      by_cases hij : i = j
      · subst hij
        rw [procs_put_self]
        dsimp only [Process.sendAndWait]
        rw [List.getElem?_append_left (List.getElem?_eq_some_iff.mp hcall).1]
        exact hcall
      · rw [procs_put_of_ne net hij]
        exact hcall
  | post hd hstage => exact calls_put_setCall hd rfl (.posted hstage) hcall
  | fail hd hstage => exact calls_put_setCall hd rfl (.failed _ hstage) hcall
  | receive hd hstage hmail => exact calls_put_setCall hd rfl (.received hstage hmail) hcall
  | closed hd hstage hmail hgone => exact calls_put_setCall hd rfl (.closed hstage) hcall
  | expire hd hstage hmail => exact calls_put_setCall hd rfl (.expired hstage) hcall
  | close hd hstage => exact calls_put_setCall hd rfl (.returned hstage) hcall
  | relay hflight => exact calls_relayed hcall
  | host => exact calls_put_same rfl hcall

/-- **No other call appears** than the one that an action begins, and every
call that was there has gone on in one of the ways that are listed, or not at
all. -/
theorem call_cases {net net' : Servers ι} {a : Action ι} (hstep : Step net a net') {i : ι}
    {k : Nat} {c' : Zona.Call} (hcall : (net'.procs i).calls[k]? = some c') :
    (∃ c, (net.procs i).calls[k]? = some c ∧ Goes i k a c c') ∨
      ∃ toId payload, a = .call i toId payload ∧ k = (net.procs i).calls.length ∧
        c' = ⟨⟨(net.procs i).nextCid, toId, payload⟩,
          Process.firstStage (net.procs i).state toId payload, none⟩ := by
  by_cases hold : k < (net.procs i).calls.length
  · obtain ⟨d', hd', hgoes⟩ := call_goes hstep (List.getElem?_eq_getElem hold)
    rw [hcall] at hd'
    obtain rfl := Option.some.inj hd'
    exact Or.inl ⟨_, List.getElem?_eq_getElem hold, hgoes⟩
  · right
    obtain ⟨hlt, heq⟩ := List.getElem?_eq_some_iff.mp hcall
    have hother : ∀ {j : ι} {p : Process} {posts : List Post}, net' = net.put j p posts →
        p.calls.length = (net.procs j).calls.length → False := by
      intro j p posts hnet hlength
      apply hold
      rw [hnet] at hlt
      by_cases hij : i = j
      · subst hij
        rw [procs_put_self, hlength] at hlt
        exact hlt
      · rw [procs_put_of_ne net hij] at hlt
        exact hlt
    have hset : ∀ (p : Process) (l : Nat) (d : Zona.Call),
        (p.setCall l d).calls.length = p.calls.length :=
      fun p l d => List.length_set
    cases hstep with
    | @call j toId payload =>
        by_cases hij : i = j
        · subst hij
          have hcalls : ((net.put i ((net.procs i).sendAndWait toId payload) []).procs i).calls =
              (net.procs i).calls ++ [⟨⟨(net.procs i).nextCid, toId, payload⟩,
                Process.firstStage (net.procs i).state toId payload, none⟩] := by
            rw [procs_put_self]
            rfl
          rw [hcalls, List.length_append, List.length_singleton] at hlt
          have hk : k = (net.procs i).calls.length := by omega
          subst hk
          rw [hcalls, List.getElem?_concat_length] at hcall
          exact ⟨toId, payload, rfl, rfl, (Option.some.inj hcall).symm⟩
        · rw [procs_put_of_ne net hij] at hlt
          exact (hold hlt).elim
    | post hd hstage => exact (hother rfl (hset _ _ _)).elim
    | fail hd hstage => exact (hother rfl (hset _ _ _)).elim
    | receive hd hstage hmail => exact (hother rfl (hset _ _ _)).elim
    | closed hd hstage hmail hgone => exact (hother rfl (hset _ _ _)).elim
    | expire hd hstage hmail => exact (hother rfl (hset _ _ _)).elim
    | close hd hstage => exact (hother rfl (hset _ _ _)).elim
    | relay hflight =>
        refine (hother rfl ?_).elim
        unfold Process.relayed Process.receive
        split
        · rfl
        · split
          · rfl
          · exact hset _ _ _
    | host => exact (hother rfl rfl).elim

omit [DecidableEq ι] in
/-- Handling a relay request changes neither the node nor its handlers. -/
theorem doRelay_state (st : ServerState) (req : RelayRequest) (tried : Nat) :
    (st.doRelay req tried).state.node = st.node ∧
      (st.doRelay req tried).state.handlers = st.handlers := by
  by_cases hdest : NodeId.parse req.toId = some st.node.id
  · rw [ServerState.doRelay_of_destination hdest]
    rcases LockedProcess.deliver_cases st req with ⟨_, hstate, _⟩ | ⟨cid, k, _, _, hstate, _⟩
    · rw [hstate]
      exact ⟨rfl, rfl⟩
    · rw [hstate]
      exact ⟨rfl, rfl⟩
  · rw [(ServerState.doRelay_of_relay hdest).1]
    exact ⟨rfl, rfl⟩

/-- **What stays.**  Every process keeps its node id and its handlers, so an
answer computed for a packet would be computed again. -/
theorem stays_of_step {net net' : Servers ι} {a : Action ι} (hstep : Step net a net') (i : ι) :
    net'.idOf i = net.idOf i ∧
      (net'.procs i).state.handlers = (net.procs i).state.handlers := by
  have hput : ∀ {j : ι} {p : Process} {posts : List Post},
      p.state.node.id = (net.procs j).state.node.id →
      p.state.handlers = (net.procs j).state.handlers →
      (net.put j p posts).idOf i = net.idOf i ∧
        ((net.put j p posts).procs i).state.handlers = (net.procs i).state.handlers := by
    intro j p posts hid hhandlers
    unfold idOf
    by_cases hij : i = j
    · subst hij
      rw [procs_put_self]
      exact ⟨hid, hhandlers⟩
    · rw [procs_put_of_ne net hij]
      exact ⟨rfl, rfl⟩
  cases hstep with
  | call => exact hput rfl rfl
  | post hd hstage => exact hput rfl rfl
  | fail hd hstage => exact hput rfl rfl
  | receive hd hstage hmail => exact hput rfl rfl
  | closed hd hstage hmail hgone => exact hput rfl rfl
  | expire hd hstage hmail => exact hput rfl rfl
  | close hd hstage => exact hput rfl rfl
  | @relay j post tried hflight =>
      obtain ⟨hnode, hhandlers⟩ := doRelay_state (net.procs j).state post.request tried
      have hkept : ∀ answered, (({ net.procs j with
          state := ((net.procs j).state.doRelay post.request tried).state }).receive
            answered).state = ((net.procs j).state.doRelay post.request tried).state := by
        intro answered
        unfold Process.receive
        split
        · rfl
        · split <;> rfl
      apply hput
      · unfold Process.relayed
        rw [hkept, hnode]
      · unfold Process.relayed
        rw [hkept, hhandlers]
  | host => exact hput rfl rfl

/-- Answers are answers ever after: what a handler computed for a ticket is not
taken back by a later step. -/
theorem answers_of_step {net net' : Servers ι} {a : Action ι} (hstep : Step net a net') {i : ι}
    {t : Ticket} {bytes : List UInt8} (h : net.Answers i t bytes) : net'.Answers i t bytes := by
  obtain ⟨j, hj, hbytes⟩ := h
  refine ⟨j, ?_, ?_⟩
  · rw [(stays_of_step hstep j).1, hj]
  · rw [(stays_of_step hstep j).2, (stays_of_step hstep i).1, hbytes]

/-- The call expired in the run, or its post failed with a timeout. -/
def TimedOut (es : List (Transition (Servers ι) (Action ι))) (i : ι) (k : Nat) : Prop :=
  ∃ e ∈ es, e.label = .expire i k ∨ ∃ error, e.label = .fail i k error ∧ SaysTimeout error

/-- The call is over with a result. -/
def Ends (c : Zona.Call) (result : Except String (List UInt8)) : Prop :=
  c.stage = .closing result ∨ c.stage = .returned result

/-- A call that ends with a timeout timed out, and a call of a process to itself
has ended, with what its own handler computed. -/
structure Traced (es : List (Transition (Servers ι) (Action ι))) (net : Servers ι) (i : ι)
    (k : Nat) (c : Zona.Call) : Prop where
  timedOut : ∀ error, Ends c (.error error) → SaysTimeout error → TimedOut es i k
  own : c.ticket.toId = net.idOf i → ∃ result, Ends c result ∧
    ∀ bytes, result = .ok bytes → net.Answers i c.ticket bytes

omit [DecidableEq ι] in
/-- A call that begins has not failed, and one to the own identifier is done at
once with what a handler computed. -/
theorem traced_new {es : List (Transition (Servers ι) (Action ι))} {net : Servers ι} {i : ι}
    {k : Nat} {cid : UInt64} {toId : NodeId} {payload : List UInt8} :
    Traced es net i k
      ⟨⟨cid, toId, payload⟩, Process.firstStage (net.procs i).state toId payload, none⟩ := by
  unfold Process.firstStage
  by_cases hself : (net.procs i).state.node.id = toId
  · rw [if_pos hself]
    constructor
    · rintro error (hclosing | hreturned) hword
      · have hresult := Stage.closing.inj hclosing
        unfold Process.localResult at hresult
        split at hresult
        · split at hresult
          · cases hresult
          · obtain rfl := Except.error.inj hresult
            exact (quiet_errors.1 hword).elim
        · obtain rfl := Except.error.inj hresult
          exact (quiet_errors.2.1 hword).elim
      · cases hreturned
    · intro _
      refine ⟨Process.localResult (net.procs i).state toId payload, Or.inl rfl, ?_⟩
      intro bytes hbytes
      refine ⟨i, hself, ?_⟩
      unfold Process.localResult at hbytes
      unfold answerOf idOf
      rw [hself]
      dsimp only
      split at hbytes
      · next h hfound =>
          rw [hfound]
          dsimp only [Option.bind_some]
          split at hbytes
          · next bytes' hhandled =>
              rw [hhandled, Except.ok.inj hbytes]
          · cases hbytes
      · cases hbytes
  · rw [if_neg hself]
    constructor
    · rintro error (hclosing | hreturned) hword
      · dsimp only at hclosing
        split at hclosing
        · cases hclosing
        · obtain rfl := Except.error.inj (Stage.closing.inj hclosing)
          exact (not_saysTimeout_noRoute toId hword).elim
      · dsimp only at hreturned
        split at hreturned <;> cases hreturned
    · intro htoId
      exact (hself htoId.symm).elim

/-- **The step**: a call that moved on is traced to what moved it, and its
earlier history is that of the run before. -/
theorem traced_goes {es : List (Transition (Servers ι) (Action ι))} {net net' : Servers ι}
    {a : Action ι} (hstep : Step net a net') {i : ι} {k : Nat} {c c' : Zona.Call}
    (h : Traced es net i k c) (hgoes : Goes i k a c c') :
    Traced (es ++ [⟨net, a, net'⟩]) net' i k c' := by
  have hearlier : TimedOut es i k → TimedOut (es ++ [⟨net, a, net'⟩]) i k := by
    intro ⟨e, he, hcause⟩
    exact ⟨e, List.mem_append_left _ he, hcause⟩
  have hnow : (a = .expire i k ∨ ∃ error, a = .fail i k error ∧ SaysTimeout error) →
      TimedOut (es ++ [⟨net, a, net'⟩]) i k :=
    fun hcause => ⟨⟨net, a, net'⟩, by simp, hcause⟩
  have hown : c'.ticket.toId = net'.idOf i → ∃ result, Ends c result ∧
      ∀ bytes, result = .ok bytes → net'.Answers i c'.ticket bytes := by
    intro hself
    rw [hgoes.ticket_eq, (stays_of_step hstep i).1] at hself
    obtain ⟨result, hends, hbytes⟩ := h.own hself
    refine ⟨result, hends, ?_⟩
    intro bytes hresult
    rw [hgoes.ticket_eq]
    exact answers_of_step hstep (hbytes bytes hresult)
  -- a call that has ended neither waits nor is it being posted
  have hover : ∀ {stage : Stage}, c.stage = stage → ((∃ url, stage = .posting url) ∨
      stage = .waiting) → ∀ {result}, Ends c result → False := by
    rintro stage hstage (⟨url, rfl⟩ | rfl) result (hends | hends)
    all_goals
      rw [hstage] at hends
      cases hends
  cases hgoes with
  | stays ticket stage =>
      have hsame : ∀ result, Ends c' result ↔ Ends c result := by
        intro result
        unfold Ends
        rw [stage]
      constructor
      · intro error hends hword
        exact hearlier (h.timedOut error ((hsame _).mp hends) hword)
      · intro hself
        obtain ⟨result, hends, hbytes⟩ := hown hself
        exact ⟨result, (hsame result).mpr hends, hbytes⟩
  | @posted _ url hposting =>
      constructor
      · rintro error (hends | hends) hword
        · cases hends
        · cases hends
      · intro hself
        obtain ⟨result, hends, _⟩ := hown hself
        exact (hover hposting (Or.inl ⟨url, rfl⟩) hends).elim
  | failed error hpending =>
      constructor
      · rintro error' (hends | hends) hword
        · obtain rfl := Except.error.inj (Stage.closing.inj hends)
          exact hnow (Or.inr ⟨error, rfl, saysTimeout_of_relay hword⟩)
        · cases hends
      · intro hself
        obtain ⟨result, hends, _⟩ := hown hself
        exact (hover rfl hpending hends).elim
  | received hwaiting hmail =>
      constructor
      · rintro error (hends | hends) hword
        · cases hends
        · cases hends
      · intro hself
        obtain ⟨result, hends, _⟩ := hown hself
        exact (hover hwaiting (Or.inr rfl) hends).elim
  | closed hwaiting =>
      constructor
      · rintro error (hends | hends) hword
        · cases hends
        · obtain rfl := Except.error.inj (Stage.returned.inj hends)
          exact (quiet_errors.2.2 hword).elim
      · intro hself
        obtain ⟨result, hends, _⟩ := hown hself
        exact (hover hwaiting (Or.inr rfl) hends).elim
  | expired hwaiting =>
      constructor
      · intro error hends hword
        exact hnow (Or.inl rfl)
      · intro hself
        obtain ⟨result, hends, _⟩ := hown hself
        exact (hover hwaiting (Or.inr rfl) hends).elim
  | @returned _ result hclosing =>
      constructor
      · rintro error (hends | hends) hword
        · cases hends
        · obtain rfl := Stage.returned.inj hends
          exact hearlier (h.timedOut error (Or.inl hclosing) hword)
      · intro hself
        obtain ⟨result', hends, hbytes⟩ := hown hself
        have hresult : result' = result := by
          rcases hends with hends | hends
          · rw [hclosing] at hends
            exact (Stage.closing.inj hends).symm
          · rw [hclosing] at hends
            cases hends
        subst hresult
        exact ⟨result', Or.inr rfl, hbytes⟩

/-- **The run.**  Every call of every server is traced to the steps that
brought it where it is, in whichever order the messages came. -/
theorem traced_of_run {net final : Servers ι} {es : List (Transition (Servers ι) (Action ι))}
    (hstart : net.Fresh) (run : Trace Step net es final) :
    ∀ (i : ι) (k : Nat) (c : Zona.Call), (final.procs i).calls[k]? = some c →
      Traced es final i k c := by
  induction run with
  | nil =>
      intro i k c hcall
      rw [hstart.calls i] at hcall
      cases hcall
  | @snoc t u a es init last ih =>
      intro i k c' hcall
      rcases call_cases last hcall with ⟨c, hbefore, hgoes⟩ | ⟨toId, payload, rfl, hk, rfl⟩
      · exact traced_goes last (ih i k c hbefore) hgoes
      · exact traced_goes last traced_new (Goes.refl i k _ _)

end Servers

end Zona
