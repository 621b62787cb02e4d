import Zona.HashMaps
import Zona.PeerTables
import Zona.WireMessages

/-!
# Critical messages over two routes

A critical message leaves its sender in two copies over two first hops, and
its receiver acts on it only when two matching copies have come in.
`forkEnvelopes` makes the copies: it writes the first hop of each into the
field that names the destination.

The receiver's side is `QuorumTracker`: one entry per message id, created by
the first copy and removed by the second one that matches it.
-/

namespace Zona

/-- Choose two first hops with different referrers, or any two peers. -/
def pickForkHops (table : PeerTable) : Option (NodeId × NodeId) :=
  let gSlots := table.greedySlots.filter fun s => !s.shouldEvict
  let all := table.liveSlots
  let byDiversity := do
    let d ← table.diversitySlot
    let g ← gSlots.find? fun s => s.referrerId ≠ d.referrerId
    pure (g.peerId, d.peerId)
  let byLongJump := do
    let g ← gSlots.head?
    let l ← table.longJumpSlot
    if l.peerId ≠ g.peerId then pure (g.peerId, l.peerId) else none
  let anyTwo :=
    match all with
    | a :: c :: _ => some (a.peerId, c.peerId)
    | _ => none
  byDiversity <|> byLongJump <|> anyTwo

/-- Build two forked envelopes from a template. -/
def forkEnvelopes (template : Envelope) (hopA hopB : NodeId) : Envelope × Envelope :=
  let forked := { template with routeFork := true }
  ({ forked with toId := hopA }, { forked with toId := hopB })

/-- Result of recording a copy. -/
inductive QuorumResult
  | pending
  | accepted
  | inconsistent
  deriving DecidableEq

/-- What is known of a message before its quorum. -/
structure PendingEntry where
  payload : List UInt8
  matchCount : Nat
  mismatch : Bool
  deriving DecidableEq

/-- The receiver's copies, by message id. -/
structure QuorumTracker where
  pending : HashMap UInt64 PendingEntry

namespace QuorumTracker

def new : QuorumTracker := ⟨∅⟩

/-- The entry of a message with one more copy compared to it. -/
def compare (q : QuorumTracker) (messageId : UInt64) (payload : List UInt8) : PendingEntry :=
  let entry := (q.pending.lookup messageId).getD ⟨payload, 0, false⟩
  if entry.payload ≠ payload then { entry with mismatch := true } else entry

/-- Record an incoming copy of a critical message. -/
def record (q : QuorumTracker) (messageId : UInt64) (payload : List UInt8) :
    QuorumResult × QuorumTracker :=
  let entry := q.compare messageId payload
  if entry.mismatch then (.inconsistent, ⟨q.pending.put messageId entry⟩)
  else
    let counted := { entry with matchCount := entry.matchCount + 1 }
    if 2 ≤ counted.matchCount then (.accepted, ⟨q.pending.erase messageId⟩)
    else (.pending, ⟨q.pending.put messageId counted⟩)

/-- Evict every entry. -/
def clear (_ : QuorumTracker) : QuorumTracker := new

/-- Recording a copy of one message leaves the others alone. -/
theorem record_other (q : QuorumTracker) {messageId other : UInt64} (payload : List UInt8)
    (h : other ≠ messageId) :
    (q.record messageId payload).2.pending.lookup other = q.pending.lookup other := by
  unfold record
  dsimp only
  split
  · exact HashMap.lookup_put_of_ne h
  · split
    · exact AList.lookup_erase_ne h
    · exact HashMap.lookup_put_of_ne h

/-- The first copy of a message waits for a second one. -/
theorem record_first {q : QuorumTracker} {messageId : UInt64} (payload : List UInt8)
    (h : q.pending.lookup messageId = none) :
    q.record messageId payload =
      (.pending, ⟨q.pending.put messageId ⟨payload, 1, false⟩⟩) := by
  simp [record, compare, h]

/-- A matching second copy completes the quorum, and the entry is removed.  A
third copy therefore opens a new one. -/
theorem record_second {q : QuorumTracker} {messageId : UInt64} {payload : List UInt8}
    (h : q.pending.lookup messageId = some ⟨payload, 1, false⟩) :
    q.record messageId payload = (.accepted, ⟨q.pending.erase messageId⟩) := by
  simp [record, compare, h]

/-- Comparing a copy with the entry leaves the number of matches as it was,
which only the next step of `record` changes. -/
theorem compare_matchCount (q : QuorumTracker) (messageId : UInt64) (payload : List UInt8) :
    (q.compare messageId payload).matchCount =
      ((q.pending.lookup messageId).map PendingEntry.matchCount).getD 0 := by
  unfold compare
  cases q.pending.lookup messageId with
  | none => simp
  | some entry =>
      by_cases hpayload : entry.payload = payload
      · simp [hpayload]
      · simp [hpayload]

/-- A recorded copy changes the tracker, or is reported as inconsistent. -/
theorem record_shows (q : QuorumTracker) (messageId : UInt64) (payload : List UInt8) :
    (q.record messageId payload).1 = .inconsistent ∨ (q.record messageId payload).2 ≠ q := by
  have hcompare := compare_matchCount q messageId payload
  unfold record
  dsimp only
  by_cases hmismatch : (q.compare messageId payload).mismatch = true
  · rw [if_pos hmismatch]
    exact Or.inl rfl
  · rw [if_neg hmismatch]
    refine Or.inr ?_
    intro hsame
    have hlookup := congrArg (fun t : QuorumTracker => t.pending.lookup messageId) hsame
    by_cases hcount : 2 ≤ (q.compare messageId payload).matchCount + 1
    · simp only [if_pos hcount, AList.lookup_erase] at hlookup
      rw [← hlookup] at hcompare
      simp only [Option.map_none, Option.getD_none] at hcompare
      omega
    · simp only [if_neg hcount, HashMap.lookup_put_self] at hlookup
      rw [← hlookup] at hcompare
      simp only [Option.map_some, Option.getD_some] at hcompare
      omega

end QuorumTracker

end Zona
