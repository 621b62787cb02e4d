import Zona.Certificates
import Mathlib.Data.List.Chain

/-!
# Epoch headers and the chain of commitments

A header names its epoch, the hash of that epoch's committee, and the hash of
the committee that comes next.  `verifyEpochChain` walks a list of headers
from a trusted hash.  Every check compares stored hashes: `verifyNextSet`
reads the field `setHash` of the committee it is shown, not its entries.

`verifyEpochChain_ok` says what an accepted chain is: it starts at the trusted
hash and every header follows its predecessor.  An accepted chain can be
extended by any header that follows its last one (`verifyEpochChain_snoc`).
-/

namespace Zona

/-- A header published once per epoch. -/
structure EpochHeader where
  epoch : UInt64
  validatorSetHash : Bytes 32
  nextValidatorCommitment : Option (Bytes 32)
  publishedAtHeight : UInt64
  deriving DecidableEq

namespace EpochHeader

/-- Build a header from the current and, when there is one, the next set. -/
def new (current : ValidatorSet) (next : Option ValidatorSet) (publishedAtHeight : UInt64) :
    EpochHeader where
  epoch := current.epoch
  validatorSetHash := current.setHash
  nextValidatorCommitment := next.map ValidatorSet.setHash
  publishedAtHeight := publishedAtHeight

/-- Verify that the set matches this header's `validatorSetHash`. -/
def verifyCurrentSet (header : EpochHeader) (currentVs : ValidatorSet) : Outcome BftError Unit :=
  if currentVs.setHash ≠ header.validatorSetHash then
    .err (.validatorSetHashMismatch header.validatorSetHash currentVs.setHash)
  else .ok ()

/-- Verify that the set matches the committed `nextValidatorCommitment`. -/
def verifyNextSet (header : EpochHeader) (nextVs : ValidatorSet) : Outcome BftError Unit :=
  match header.nextValidatorCommitment with
  | none => .err .noNextEpochCommitment
  | some committed =>
      if nextVs.setHash ≠ committed then
        .err (.validatorSetHashMismatch committed nextVs.setHash)
      else .ok ()

/-- A header names the current committee exactly if the stored hashes agree. -/
theorem verifyCurrentSet_ok {header : EpochHeader} {vs : ValidatorSet} :
    header.verifyCurrentSet vs = .ok () ↔ header.validatorSetHash = vs.setHash := by
  unfold verifyCurrentSet
  by_cases h : vs.setHash = header.validatorSetHash
  · simp [h]
  · simp [h, Ne.symm h]

/-- The commitment is compared with the stored hash and with nothing else. -/
theorem verifyNextSet_ok {header : EpochHeader} {vs : ValidatorSet} :
    header.verifyNextSet vs = .ok () ↔ header.nextValidatorCommitment = some vs.setHash := by
  unfold verifyNextSet
  cases header.nextValidatorCommitment with
  | none => simp
  | some committed =>
      by_cases h : vs.setHash = committed
      · simp [h]
      · simp [h, Ne.symm h]

/-- The header is the one that the epoch of `vs` publishes: it carries that
epoch and the hash of that set. -/
def Describes (header : EpochHeader) (vs : ValidatorSet) : Prop :=
  header.epoch = vs.epoch ∧ header.validatorSetHash = vs.setHash

/-- A header made from a committee describes it, by construction. -/
theorem new_describes (vs : ValidatorSet) (next : Option ValidatorSet) (height : UInt64) :
    (new vs next height).Describes vs :=
  ⟨rfl, rfl⟩

/-- `child` may stand after `parent` in a chain. -/
def Follows (b : Build) (parent child : EpochHeader) : Prop :=
  addU64 (E := BftError) b parent.epoch 1 = .ok child.epoch ∧
    parent.nextValidatorCommitment = some child.validatorSetHash

end EpochHeader

/-- The loop over `chain.windows(2)`. -/
def verifyWindows (b : Build) : List EpochHeader → Outcome BftError Unit
  | [] => .ok ()
  | [_] => .ok ()
  | parent :: child :: rest => do
      let expected ← addU64 b parent.epoch 1
      if child.epoch ≠ expected then .err (.nonConsecutiveEpoch expected child.epoch)
      else
        match parent.nextValidatorCommitment with
        | none => .err .noNextEpochCommitment
        | some committed =>
            if child.validatorSetHash ≠ committed then
              .err (.validatorSetHashMismatch committed child.validatorSetHash)
            else verifyWindows b (child :: rest)

/-- Verify a chain of epoch headers from a trusted anchor. -/
def verifyEpochChain (b : Build) (anchorSetHash : Bytes 32) (chain : List EpochHeader) :
    Outcome BftError Unit :=
  match chain with
  | [] => .ok ()
  | first :: _ =>
      if first.validatorSetHash ≠ anchorSetHash then
        .err (.validatorSetHashMismatch anchorSetHash first.validatorSetHash)
      else verifyWindows b chain

/-- One window of an accepted chain: the second header follows the first, and
the rest is accepted from the second. -/
theorem verifyWindows_cons_cons_ok {b : Build} {parent child : EpochHeader}
    {rest : List EpochHeader} :
    verifyWindows b (parent :: child :: rest) = .ok () ↔
      parent.Follows b child ∧ verifyWindows b (child :: rest) = .ok () := by
  unfold EpochHeader.Follows
  rw [verifyWindows]
  cases hadd : addU64 (E := BftError) b parent.epoch 1 with
  | err e => simp
  | panic => simp
  | ok expected =>
      by_cases hepoch : child.epoch = expected
      · cases hnext : parent.nextValidatorCommitment with
        | none => simp [hepoch]
        | some committed =>
            by_cases hhash : child.validatorSetHash = committed
            · simp [hepoch, hhash]
            · simp [hepoch, hhash, Ne.symm hhash]
      · simp [hepoch, Ne.symm hepoch]

/-- The windows accept exactly the chains in which each header follows the one
before, which is the form for inductions. -/
theorem verifyWindows_ok {b : Build} {chain : List EpochHeader} :
    verifyWindows b chain = .ok () ↔ chain.IsChain (EpochHeader.Follows b) := by
  induction chain with
  | nil => simp [verifyWindows]
  | cons parent rest ih =>
      cases rest with
      | nil => simp [verifyWindows]
      | cons child rest =>
          rw [verifyWindows_cons_cons_ok, ih, List.isChain_cons_cons]

/-- **Accepted chains.**  A chain is accepted when it starts at the trusted
hash and every header follows the one before it. -/
theorem verifyEpochChain_ok {b : Build} {anchor : Bytes 32} {chain : List EpochHeader} :
    verifyEpochChain b anchor chain = .ok () ↔
      (∀ first ∈ chain.head?, first.validatorSetHash = anchor) ∧
        chain.IsChain (EpochHeader.Follows b) := by
  cases chain with
  | nil => simp [verifyEpochChain]
  | cons first rest =>
      by_cases h : first.validatorSetHash = anchor
      · simp [verifyEpochChain, h, verifyWindows_ok]
      · simp [verifyEpochChain, h]

/-- A chain of one header is accepted exactly if it carries the hash of the
anchor. -/
theorem verifyEpochChain_singleton {b : Build} {anchor : Bytes 32} {header : EpochHeader} :
    verifyEpochChain b anchor [header] = .ok () ↔ header.validatorSetHash = anchor := by
  simp [verifyEpochChain_ok]

/-- **Extending a chain.**  One more header is accepted exactly when the chain
before it is and the header follows its last one. -/
theorem verifyEpochChain_snoc {b : Build} {anchor : Bytes 32} {chain : List EpochHeader}
    {parent child : EpochHeader} :
    verifyEpochChain b anchor (chain ++ [parent] ++ [child]) = .ok () ↔
      verifyEpochChain b anchor (chain ++ [parent]) = .ok () ∧ parent.Follows b child := by
  have hhead : (chain ++ [parent] ++ [child]).head? = (chain ++ [parent]).head? := by
    cases chain <;> rfl
  rw [verifyEpochChain_ok, verifyEpochChain_ok, hhead,
    List.isChain_append]
  simp only [List.IsChain.singleton, List.getLast?_concat, List.head?_cons, Option.mem_def,
    Option.some.injEq, true_and]
  constructor
  · intro ⟨hfirst, hchain, hlink⟩
    exact ⟨⟨hfirst, hchain⟩, hlink parent rfl child rfl⟩
  · intro ⟨⟨hfirst, hchain⟩, hlink⟩
    refine ⟨hfirst, hchain, ?_⟩
    rintro _ rfl _ rfl
    exact hlink

/-- Two headers one of which follows the other name consecutive epochs, in
either profile. -/
theorem EpochHeader.Follows.epoch_eq {b : Build} {parent child : EpochHeader}
    (h : parent.Follows b child) : child.epoch = parent.epoch + 1 :=
  addU64_eq_ok h.1

/-- The checks on a rotation out of `epoch`, which the full node and the light
client share: the header commits to the new set, and the epoch of the new set
follows the epoch in force. -/
def checkRotation (b : Build) (epoch : UInt64) (newSet : ValidatorSet) (header : EpochHeader) :
    Outcome BftError Unit := do
  header.verifyNextSet newSet
  let expected ← addU64 b epoch 1
  if newSet.epoch ≠ expected then .err (.nonConsecutiveEpoch expected newSet.epoch)
  else .ok ()

/-- **What an accepted rotation has established.**  The header's own epoch and
its own committee hash do not occur. -/
theorem checkRotation_ok {b : Build} {epoch : UInt64} {newSet : ValidatorSet}
    {header : EpochHeader} :
    checkRotation b epoch newSet header = .ok () ↔
      header.nextValidatorCommitment = some newSet.setHash ∧
        addU64 (E := BftError) b epoch 1 = .ok newSet.epoch := by
  rw [checkRotation, Outcome.bind_eq_ok, ← EpochHeader.verifyNextSet_ok]
  constructor
  · intro ⟨_, hnext, hrest⟩
    obtain ⟨expected, hadd, hepoch⟩ := Outcome.bind_eq_ok.mp hrest
    by_cases heq : newSet.epoch = expected
    · exact ⟨hnext, by rw [heq]; exact hadd⟩
    · rw [if_pos heq] at hepoch
      cases hepoch
  · intro ⟨hnext, hadd⟩
    refine ⟨(), hnext, ?_⟩
    rw [hadd, Outcome.ok_bind, if_neg (fun h => h rfl)]

end Zona
