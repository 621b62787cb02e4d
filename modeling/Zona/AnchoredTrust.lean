import Zona.LightClients

/-!
# Where a committee comes from

Two questions about the committee in force.  Is it the one that the header
committed to?  The checks read the stored hash, so the answer is yes exactly
for the sets whose stored hash summarises their entries (`committed_iff`);
the constructor makes such sets, and a decoded set may be any other.  Is it
linked to the anchor of the light client by a chain of commitments?
`trust_anchored_iff` answers it twice: for chains of any headers whatever, and
for the chain of the headers that the client was shown.
-/

namespace Zona

section Committed

variable [Crypto]

/-- The stored hash summarises the epoch and the entries. -/
def ValidatorSet.HashFaithful (vs : ValidatorSet) : Prop :=
  vs.setHash = ValidatorSet.computeSetHash vs.epoch vs.entries

/-- The constructor computes the hash it stores, so the sets it makes are
faithful. -/
theorem ValidatorSet.new_hashFaithful (epoch : UInt64) (entries : List ValidatorEntry) :
    (ValidatorSet.new epoch entries).HashFaithful :=
  rfl

/-- A faithful set that a header committed to some entries accepts has these
entries, or it exhibits a collision of the hash. -/
theorem entries_of_committed {vs : ValidatorSet} (hfaithful : vs.HashFaithful)
    {header : EpochHeader} {epoch : UInt64} {entries : List ValidatorEntry}
    (hlen : vs.entries.length < 2 ^ 64) (hlen' : entries.length < 2 ^ 64)
    (hcommit : header.nextValidatorCommitment =
      some (ValidatorSet.computeSetHash epoch entries))
    (hnext : header.verifyNextSet vs = .ok ()) :
    (vs.epoch = epoch ∧ vs.entries = entries) ∨
      (setPayload vs.epoch vs.entries ≠ setPayload epoch entries ∧
        Crypto.sha256 (setPayload vs.epoch vs.entries) =
          Crypto.sha256 (setPayload epoch entries)) := by
  have hhash : Crypto.sha256 (setPayload vs.epoch vs.entries) =
      Crypto.sha256 (setPayload epoch entries) := by
    have hstored := EpochHeader.verifyNextSet_ok.mp hnext
    rw [hcommit, hfaithful] at hstored
    exact (Option.some.inj hstored).symm
  by_cases hpayload : setPayload vs.epoch vs.entries = setPayload epoch entries
  · exact Or.inl (setPayload_inj hlen hlen' hpayload)
  · exact Or.inr ⟨hpayload, hhash⟩

/-- **The installed committee is the committed one** for exactly the sets whose
stored hash is the hash of their epoch and entries: through `verifyNextSet`,
through both rotations, and, short of a collision of the hash, down to the
entries themselves. -/
theorem committed_iff (vs : ValidatorSet) :
    ((∀ header : EpochHeader, header.verifyNextSet vs = .ok () →
        header.nextValidatorCommitment =
          some (ValidatorSet.computeSetHash vs.epoch vs.entries)) ∧
      (∀ (b : Build) (s : BftState) (header : EpochHeader),
        (s.advanceEpoch b vs header).1 = .ok () →
          (s.advanceEpoch b vs header).2.validatorSet = vs ∧
            header.nextValidatorCommitment =
              some (ValidatorSet.computeSetHash vs.epoch vs.entries)) ∧
      (∀ (b : Build) (c : LightClient) (header : EpochHeader),
        (c.advanceEpoch b vs header).1 = .ok () →
          (c.advanceEpoch b vs header).2.validatorSet = vs ∧
            header.nextValidatorCommitment =
              some (ValidatorSet.computeSetHash vs.epoch vs.entries)) ∧
      ∀ (header : EpochHeader) (epoch : UInt64) (entries : List ValidatorEntry),
        vs.entries.length < 2 ^ 64 → entries.length < 2 ^ 64 →
        header.nextValidatorCommitment = some (ValidatorSet.computeSetHash epoch entries) →
        header.verifyNextSet vs = .ok () →
          (vs.epoch = epoch ∧ vs.entries = entries) ∨
            (setPayload vs.epoch vs.entries ≠ setPayload epoch entries ∧
              Crypto.sha256 (setPayload vs.epoch vs.entries) =
                Crypto.sha256 (setPayload epoch entries))) ↔
      vs.setHash = ValidatorSet.computeSetHash vs.epoch vs.entries := by
  constructor
  · intro h
    -- a header made for this very set shows what its stored hash must be
    have hown := h.1 ⟨0, vs.setHash, some vs.setHash, 0⟩ (EpochHeader.verifyNextSet_ok.mpr rfl)
    exact Option.some.inj hown
  · intro hfaithful
    refine ⟨?_, ?_, ?_, ?_⟩
    · intro header hnext
      rw [EpochHeader.verifyNextSet_ok.mp hnext, hfaithful]
    · intro b s header hok
      have hcommit := (checkRotation_ok.mp (BftState.advanceEpoch_ok.mp hok)).1
      rw [BftState.advanceEpoch_installs hok, hcommit, hfaithful]
      exact ⟨rfl, rfl⟩
    · intro b c header hok
      have hcheck := LightClient.advanceEpoch_ok.mp hok
      rw [LightClient.advanceEpoch_snd, if_pos hcheck, (checkRotation_ok.mp hcheck).1, hfaithful]
      exact ⟨rfl, rfl⟩
    · intro header epoch entries hlen hlen' hcommit hnext
      exact entries_of_committed hfaithful hlen hlen' hcommit hnext

end Committed

/-- A set that stores the hash of the committee of epoch 1 next to the entry of
an outsider, as a decoder may produce it. -/
def forgedSet : ValidatorSet where
  epoch := 1
  entries := [sampleEntry 9 1]
  setHash := (sampleSet 1 [5]).setHash

/-- The forged set passes for the committed one on both rotation paths. -/
theorem forged_set_installed :
    currentHeader.verifyNextSet forgedSet = .ok () ∧
      (sampleGenesis.advanceEpoch .debug forgedSet currentHeader).1 = .ok () ∧
      (sampleClient.advanceEpoch .debug forgedSet currentHeader).1 = .ok () ∧
      currentHeader.nextValidatorCommitment ≠
        some (@ValidatorSet.computeSetHash checksumCrypto forgedSet.epoch forgedSet.entries) := by
  refine ⟨?_, ?_, ?_, ?_⟩ <;> decide +kernel

/-- Which epochs are the successor of an epoch: all but 0 in a debug build,
where the addition panics instead of wrapping around. -/
theorem exists_pred_iff {b : Build} {epoch : UInt64} :
    (∃ pred, addU64 (E := BftError) b pred 1 = .ok epoch) ↔ b = .release ∨ epoch ≠ 0 := by
  constructor
  · intro ⟨pred, hadd⟩
    cases b with
    | release => exact Or.inl rfl
    | debug =>
        refine Or.inr ?_
        intro hzero
        have hexact := toNat_of_addU64_debug hadd
        rw [hzero] at hexact
        simp at hexact
  · intro h
    refine ⟨epoch - 1, ?_⟩
    have hback : epoch - 1 + 1 = epoch := UInt64.sub_add_cancel epoch 1
    rcases h with hrelease | hne
    · rw [hrelease, addU64_release, hback]
    · have hpos : 1 ≤ epoch.toNat := by
        have hnonzero : epoch.toNat ≠ 0 := fun hzero => hne (UInt64.toNat_inj.mp hzero)
        omega
      have hpred : (epoch - 1).toNat = epoch.toNat - 1 :=
        UInt64.toNat_sub_of_le _ _ (UInt64.le_iff_toNat_le.mpr hpos)
      have hbound := epoch.toNat_lt
      rw [addU64_of_lt (by rw [hpred]; simp only [UInt64.reduceToNat]; omega), hback]

/-- Chains of headers made up at will end in a given committee unless the
committee is of epoch 0, the build is a debug one, and the anchor is another
set's. -/
theorem exists_chain_iff {b : Build} {anchor : Bytes 32} {vs : ValidatorSet} :
    (∃ chain last, verifyEpochChain b anchor (chain ++ [last]) = .ok () ∧ last.Describes vs) ↔
      b = .release ∨ vs.epoch ≠ 0 ∨ anchor = vs.setHash := by
  constructor
  · intro ⟨chain, last, hchain, hlast⟩
    rcases List.eq_nil_or_concat chain with hnil | ⟨init, parent, hconcat⟩
    · rw [hnil, List.nil_append, verifyEpochChain_singleton, hlast.2] at hchain
      exact Or.inr (Or.inr hchain.symm)
    · rw [hconcat, List.concat_eq_append, verifyEpochChain_snoc] at hchain
      have hpred := exists_pred_iff.mp ⟨parent.epoch, hchain.2.1⟩
      rw [hlast.1] at hpred
      rcases hpred with hrelease | hne
      · exact Or.inl hrelease
      · exact Or.inr (Or.inl hne)
  · intro h
    by_cases hanchor : anchor = vs.setHash
    · refine ⟨[], .new vs none 0, ?_, EpochHeader.new_describes vs none 0⟩
      rw [List.nil_append, verifyEpochChain_singleton, hanchor]
      rfl
    · have hsuccessor : b = .release ∨ vs.epoch ≠ 0 := by
        rcases h with hrelease | hne | heq
        · exact Or.inl hrelease
        · exact Or.inr hne
        · exact (hanchor heq).elim
      obtain ⟨pred, hpred⟩ := exists_pred_iff.mpr hsuccessor
      refine ⟨[⟨pred, anchor, some vs.setHash, 0⟩], .new vs none 0, ?_,
        EpochHeader.new_describes vs none 0⟩
      have hstart : verifyEpochChain b anchor [⟨pred, anchor, some vs.setHash, 0⟩] = .ok () :=
        verifyEpochChain_singleton.mpr rfl
      exact (@verifyEpochChain_snoc b anchor [] _ _).mpr ⟨hstart, hpred, rfl⟩

section Anchored

variable [Crypto]

omit [Crypto] in
/-- A debug build never comes back to epoch 0. -/
theorem epoch_ne_zero_or_first {first vs : ValidatorSet}
    {rotations : List (Transition ValidatorSet EpochHeader)}
    (run : Trace (Rotates .debug) first rotations vs) : vs = first ∨ vs.epoch ≠ 0 := by
  cases run with
  | nil => exact Or.inl rfl
  | @snoc mid _ header rotations init last =>
      have hnext := exists_pred_iff.mp ⟨mid.epoch, (checkRotation_ok.mp last).2⟩
      rcases hnext with hrelease | hne
      · cases hrelease
      · exact Or.inr hne

/-- **Trust and the anchor.**  In every state of every run from `fromGenesis`
some list of headers is an accepted chain from the anchor to the committee in
force exactly when the build wraps around, or the first epoch is not 0, or the
anchor carries the hash of the first set.  And in a run the headers presented
form such a chain, at the start and at the end, exactly when the anchor carries
the hash of the first set and no request brought a foreign header past the
checks. -/
theorem trust_anchored_iff (b : Build) (anchor : Anchor) (vs : ValidatorSet) :
    ((∀ es c, Trace (LightClient.Step b) (.fromGenesis anchor vs) es c →
        ∃ chain last,
          verifyEpochChain b anchor.validatorSetHash (chain ++ [last]) = .ok () ∧
            last.epoch = c.validatorSet.epoch ∧
            last.validatorSetHash = c.validatorSet.setHash) ↔
      b = .release ∨ vs.epoch ≠ 0 ∨ anchor.validatorSetHash = vs.setHash) ∧
    ∀ es c, Trace (LightClient.Step b) (.fromGenesis anchor vs) es c →
      ((verifyEpochChain b anchor.validatorSetHash [.new vs none 0] = .ok () ∧
          verifyEpochChain b anchor.validatorSetHash
            (headerChain (LightClient.rotations b es) (.new c.validatorSet none 0)) = .ok ()) ↔
        anchor.validatorSetHash = vs.setHash ∧
          ∀ e ∈ es, ∀ newSet header, e.label = .advanceEpoch newSet header →
            DrivenByCurrent b e.before.validatorSet newSet header) := by
  constructor
  · constructor
    · intro h
      obtain ⟨chain, last, hchain, hdescribes⟩ := h [] _ Trace.nil
      exact exists_chain_iff.mp ⟨chain, last, hchain, hdescribes⟩
    · intro h es c run
      have hhistory := LightClient.rotations_run run
      apply exists_chain_iff.mpr
      cases b with
      | release => exact Or.inl rfl
      | debug =>
          rcases epoch_ne_zero_or_first hhistory with hfirst | hne
          · rw [hfirst]
            exact h
          · exact Or.inr (Or.inl hne)
  · intro es c run
    have hhistory : Trace (Rotates b) vs (LightClient.rotations b es) c.validatorSet :=
      LightClient.rotations_run run
    rw [anchored_iff hhistory (EpochHeader.new_describes vs none 0)
      (EpochHeader.new_describes c.validatorSet none 0), LightClient.rotations,
      allDescribed_rotations_iff]
    simp only [LightClient.rotationRequest_eq_some]

end Anchored

/-- A client of the committee of epoch 0 under the anchor of another one. -/
def unanchoredClient : LightClient :=
  .fromGenesis ⟨0, Bytes.replicate 32 0, Bytes.replicate 32 0xEE⟩ (sampleSet 0 [1])

/-- In a debug build no list of headers at all leads from its anchor to its
committee, and in either build the header of its committee does not start a
chain from the anchor. -/
theorem unanchored_client_trusts :
    (¬ ∃ chain last,
      verifyEpochChain .debug unanchoredClient.anchor.validatorSetHash (chain ++ [last]) = .ok () ∧
        last.epoch = unanchoredClient.validatorSet.epoch ∧
        last.validatorSetHash = unanchoredClient.validatorSet.setHash) ∧
    ∀ b, unanchoredClient.verifyEpochChain b [.new unanchoredClient.validatorSet none 0] ≠
      .ok () := by
  constructor
  · intro h
    have hcases := exists_chain_iff.mp h
    revert hcases
    decide +kernel
  · intro b hchain
    have hhash := verifyEpochChain_singleton.mp hchain
    revert hhash
    decide +kernel

end Zona
