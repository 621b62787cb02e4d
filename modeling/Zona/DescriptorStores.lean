import Zona.HashMaps
import Zona.WireMessages
import Mathlib.Data.Prod.Lex

/-!
# The descriptor store

A node keeps one descriptor per peer.  An incoming descriptor must verify, and
it replaces the one held when it is preferred: by the height at which it was
finalised, then by version, then by the smaller content hash.

The preference is the strict order of `CachedDescriptor.rank`, so what the
store holds for a peer only ever moves up (`Improves`); a change can never be
undone by later updates.
-/

namespace Zona

/-- A cached descriptor with optional finalisation metadata. -/
structure CachedDescriptor where
  descriptor : Descriptor
  finalisedHeight : Option UInt64
  deriving DecidableEq

section Preference

variable [Crypto]

/-- The hash that breaks ties between descriptors of one version. -/
def contentHash (d : Descriptor) : Bytes 32 :=
  Crypto.sha256 d.signingPayload

/-- Does `incoming` win over `existing`? -/
def preferIncoming (incoming existing : CachedDescriptor) : Bool :=
  let byContent :=
    if incoming.descriptor.version ≠ existing.descriptor.version then
      decide (existing.descriptor.version < incoming.descriptor.version)
    else decide (contentHash incoming.descriptor < contentHash existing.descriptor)
  match incoming.finalisedHeight, existing.finalisedHeight with
  | some a, some b => if a ≠ b then decide (b < a) else byContent
  | some _, none => true
  | none, some _ => false
  | none, none => byContent

/-- Finalised heights in order, with provisional below all of them. -/
def heightRank : Option UInt64 → Nat
  | none => 0
  | some height => height.toNat + 1

/-- What the preference compares: finalised height, then version, then the
content hash with the smaller one above. -/
def CachedDescriptor.rank (c : CachedDescriptor) : Lex (Nat × Lex (Nat × (Bytes 32)ᵒᵈ)) :=
  toLex (heightRank c.finalisedHeight,
    toLex (c.descriptor.version.toNat, OrderDual.toDual (contentHash c.descriptor)))

/-- The comparison by version and then by hash is the lexicographic order, with
the smaller hash winning among equal versions. -/
theorem byContent_iff (d e : Descriptor) :
    (if d.version ≠ e.version then decide (e.version < d.version)
      else decide (contentHash d < contentHash e)) = true ↔
      toLex (e.version.toNat, OrderDual.toDual (contentHash e)) <
        toLex (d.version.toNat, OrderDual.toDual (contentHash d)) := by
  rw [Prod.Lex.toLex_lt_toLex]
  by_cases hversion : d.version = e.version
  · simp [hversion]
  · have hne : e.version.toNat ≠ d.version.toNat :=
      fun h => hversion (UInt64.toNat_inj.mp h).symm
    simp [hversion, hne, UInt64.lt_iff_toNat_lt]

/-- **The preference is a strict order**: the incoming descriptor wins exactly
if its rank is higher than that of the stored one. -/
theorem preferIncoming_iff (incoming existing : CachedDescriptor) :
    preferIncoming incoming existing = true ↔ existing.rank < incoming.rank := by
  obtain ⟨d, height⟩ := incoming
  obtain ⟨e, height'⟩ := existing
  unfold preferIncoming CachedDescriptor.rank
  rw [Prod.Lex.toLex_lt_toLex, ← byContent_iff]
  cases height with
  | none =>
      cases height' with
      | none => simp [heightRank]
      | some b => simp [heightRank]
  | some a =>
      cases height' with
      | none => simp [heightRank]
      | some b =>
          by_cases hab : a = b
          · simp [heightRank, hab]
          · have hne : b.toNat ≠ a.toNat := fun h => hab (UInt64.toNat_inj.mp h).symm
            simp [heightRank, hab, hne, UInt64.lt_iff_toNat_lt]

end Preference

/-- The local store of peer descriptors. -/
structure DescriptorStore where
  entries : HashMap NodeId CachedDescriptor

namespace DescriptorStore

def new : DescriptorStore := ⟨∅⟩

/-- Get a descriptor by node id. -/
def get (s : DescriptorStore) (nodeId : NodeId) : Option CachedDescriptor :=
  s.entries.lookup nodeId

/-- All known descriptors. -/
def allDescriptors (s : DescriptorStore) : List Descriptor :=
  s.entries.values.map CachedDescriptor.descriptor

variable [Crypto]

/-- The incoming descriptor takes the place of what the store holds. -/
def wins (s : DescriptorStore) (incoming : CachedDescriptor) : Bool :=
  match s.get incoming.descriptor.nodeId with
  | none => true
  | some existing => preferIncoming incoming existing

/-- Insert or update a descriptor: whether the store was updated, and the
store. -/
def upsert (s : DescriptorStore) (d : Descriptor) (finalisedHeight : Option UInt64) :
    Except ProtocolError Bool × DescriptorStore :=
  match verifyDescriptor d with
  | .error e => (.error e, s)
  | .ok () =>
      if s.wins ⟨d, finalisedHeight⟩ then
        (.ok true, ⟨s.entries.put d.nodeId ⟨d, finalisedHeight⟩⟩)
      else (.ok false, s)

/-- **What an update can do.**  It leaves the store as it is, or it files a
verified descriptor that wins. -/
theorem upsert_cases (s : DescriptorStore) (d : Descriptor) (height : Option UInt64) :
    ((s.upsert d height).1 ≠ .ok true ∧ (s.upsert d height).2 = s) ∨
      (verifyDescriptor d = .ok () ∧ s.wins ⟨d, height⟩ = true ∧
        s.upsert d height = (.ok true, ⟨s.entries.put d.nodeId ⟨d, height⟩⟩)) := by
  unfold upsert
  cases hverify : verifyDescriptor d with
  | error e => exact Or.inl ⟨by simp, rfl⟩
  | ok u =>
      cases hwins : s.wins ⟨d, height⟩ with
      | true => exact Or.inr ⟨rfl, rfl, rfl⟩
      | false => exact Or.inl ⟨by simp, rfl⟩

/-- What the store holds for any peer is at least as good afterwards. -/
def Improves (s t : DescriptorStore) : Prop :=
  ∀ id c, s.get id = some c → ∃ c', t.get id = some c' ∧ c.rank ≤ c'.rank

/-- For some peer the store holds something new or strictly better. -/
def Changed (s t : DescriptorStore) : Prop :=
  ∃ id c', t.get id = some c' ∧ ∀ c, s.get id = some c → c.rank < c'.rank

theorem improves_refl (s : DescriptorStore) : s.Improves s :=
  fun _ c hget => ⟨c, hget, le_refl _⟩

/-- Improvements add up, so a list of updates can be taken one by one. -/
theorem Improves.trans {s t u : DescriptorStore} (h : s.Improves t) (h' : t.Improves u) :
    s.Improves u := by
  intro id c hget
  obtain ⟨c', hget', hle⟩ := h id c hget
  obtain ⟨c'', hget'', hle'⟩ := h' id c' hget'
  exact ⟨c'', hget'', le_trans hle hle'⟩

/-- A change stays visible through improvements, because no later update brings
the lower rank back. -/
theorem Changed.trans_improves {s t u : DescriptorStore} (h : s.Changed t) (h' : t.Improves u) :
    s.Changed u := by
  obtain ⟨id, c', hget', hbetter⟩ := h
  obtain ⟨c'', hget'', hle⟩ := h' id c' hget'
  exact ⟨id, c'', hget'', fun c hget => lt_of_lt_of_le (hbetter c hget) hle⟩

theorem Changed.ne {s t : DescriptorStore} (h : s.Changed t) : t ≠ s := by
  intro heq
  obtain ⟨id, c', hget', hbetter⟩ := h
  rw [heq] at hget'
  exact lt_irrefl _ (hbetter c' hget')

/-- An incoming descriptor wins exactly if its rank is above that of whatever
is stored under its identifier, if anything is. -/
theorem wins_iff {s : DescriptorStore} {incoming : CachedDescriptor} :
    s.wins incoming = true ↔
      ∀ c, s.get incoming.descriptor.nodeId = some c → c.rank < incoming.rank := by
  unfold wins
  cases s.get incoming.descriptor.nodeId with
  | none => simp
  | some existing => simp [preferIncoming_iff]

/-- A descriptor that wins changes the store, as the rank under its identifier
rises. -/
theorem changed_of_wins {s : DescriptorStore} {d : Descriptor} {height : Option UInt64}
    (h : s.wins ⟨d, height⟩ = true) :
    s.Changed ⟨s.entries.put d.nodeId ⟨d, height⟩⟩ :=
  ⟨d.nodeId, ⟨d, height⟩, by simp [get], wins_iff.mp h⟩

/-- **Updates only improve the store**: an update is refused, ignored, or
raises the rank under one identifier. -/
theorem upsert_improves (s : DescriptorStore) (d : Descriptor) (height : Option UInt64) :
    s.Improves (s.upsert d height).2 := by
  rcases upsert_cases s d height with ⟨_, hsame⟩ | ⟨_, hwins, hrun⟩
  · rw [hsame]
    exact improves_refl s
  · rw [hrun]
    intro id c hget
    by_cases hid : id = d.nodeId
    · subst hid
      exact ⟨⟨d, height⟩, by simp [get], le_of_lt (wins_iff.mp hwins c hget)⟩
    · refine ⟨c, ?_, le_refl _⟩
      have hother : (s.entries.put d.nodeId ⟨d, height⟩).lookup id = s.entries.lookup id :=
        HashMap.lookup_put_of_ne hid
      rw [get, hother]
      exact hget

/-- Every entry is a verified descriptor filed under its own identifier. -/
def Authentic (s : DescriptorStore) : Prop :=
  ∀ id c, s.get id = some c → c.descriptor.nodeId = id ∧ verifyDescriptor c.descriptor = .ok ()

/-- A new store holds nothing, so everything in it is authentic. -/
theorem authentic_new : new.Authentic := by
  intro id c hget
  simp [new, get] at hget

/-- Updates keep the store authentic, since a descriptor is verified before
anything else is done with it. -/
theorem authentic_upsert {s : DescriptorStore} (h : s.Authentic) (d : Descriptor)
    (height : Option UInt64) : (s.upsert d height).2.Authentic := by
  rcases upsert_cases s d height with ⟨_, hsame⟩ | ⟨hverify, _, hrun⟩
  · rw [hsame]
    exact h
  · rw [hrun]
    exact HashMap.forall_put h ⟨rfl, hverify⟩

end DescriptorStore

end Zona
