import Zona.CommitteeRotations

/-!
# The state of a full consensus node

`BftState` holds the highest finalised height, the committee in force and the
pause flag.  Certificates raise the height, `advanceEpoch` replaces the
committee, a reported divergence pauses finality.

A rotation is checked by `checkRotation` alone: the header that drives it is
not compared with the epoch or with the committee in force.  `obeys_of_step`
makes a run refine a history of committees, and `advanceEpoch_current_iff`
says exactly which runs are driven by headers of the current epoch all the
same.
-/

namespace Zona

inductive FinalityStatus
  | active
  | paused
  deriving DecidableEq

/-- The consensus state of a node. -/
structure BftState where
  finalisedHeight : UInt64
  blockHash : Bytes 32
  epoch : UInt64
  validatorSet : ValidatorSet
  finalityStatus : FinalityStatus
  divergenceCount : UInt32
  deriving DecidableEq

namespace BftState

/-- Initialise from genesis. -/
def genesis (validatorSet : ValidatorSet) (genesisHash : Bytes 32) : BftState where
  finalisedHeight := 0
  blockHash := genesisHash
  epoch := validatorSet.epoch
  validatorSet := validatorSet
  finalityStatus := .active
  divergenceCount := 0

/-- Apply a certificate: `ok true` when the state advances, `ok false` when the
height is already finalised. -/
def applyCertificate [Crypto] (b : Build) (s : BftState) (cert : BftCertificate) :
    Outcome BftError Bool × BftState :=
  if s.finalityStatus = .paused then (.err .finalityPaused, s)
  else
    match cert.verify b s.validatorSet with
    | .err e => (.err e, s)
    | .panic => (.panic, s)
    | .ok () =>
        if cert.payload.height ≤ s.finalisedHeight then (.ok false, s)
        else
          (.ok true, { s with
            finalisedHeight := cert.payload.height
            blockHash := cert.payload.blockHash })

/-- Rotate to the validator set of a new epoch. -/
def advanceEpoch (b : Build) (s : BftState) (newSet : ValidatorSet) (header : EpochHeader) :
    Outcome BftError Unit × BftState :=
  match checkRotation b s.epoch newSet header with
  | .ok () => (.ok (), { s with epoch := newSet.epoch, validatorSet := newSet })
  | refused => (refused, s)

/-- Report a divergence between peers. -/
def recordDivergence (b : Build) (s : BftState) : Outcome BftError Unit × BftState :=
  match addU32 (E := BftError) b s.divergenceCount 1 with
  | .err e => (.err e, s)
  | .panic => (.panic, s)
  | .ok count =>
      if count ≥ 1 ∧ s.finalityStatus = .active then
        (.ok (), { s with divergenceCount := count, finalityStatus := .paused })
      else (.ok (), { s with divergenceCount := count })

/-- Resume finality after a divergence is resolved. -/
def resumeFinality (s : BftState) : BftState :=
  { s with divergenceCount := 0, finalityStatus := .active }

/-- Whether a client should consider a height final. -/
def isFinal (s : BftState) (height : UInt64) : Bool :=
  decide (s.finalityStatus = .active) && decide (height ≤ s.finalisedHeight)

/-- The calls that change a state. -/
inductive Call
  | applyCertificate (cert : BftCertificate)
  | advanceEpoch (newSet : ValidatorSet) (header : EpochHeader)
  | recordDivergence
  | resumeFinality
  deriving DecidableEq

/-- The state after a call, whatever the call returned. -/
def perform [Crypto] (b : Build) (s : BftState) : Call → BftState
  | .applyCertificate cert => (s.applyCertificate b cert).2
  | .advanceEpoch newSet header => (s.advanceEpoch b newSet header).2
  | .recordDivergence => (s.recordDivergence b).2
  | .resumeFinality => s.resumeFinality

/-- One call on a state. -/
def Step [Crypto] (b : Build) (s : BftState) (call : Call) (t : BftState) : Prop :=
  t = s.perform b call

/-- A rotation is accepted exactly if the checks on the header and the new set
pass; the status of finality is not asked for. -/
theorem advanceEpoch_ok {b : Build} {s : BftState} {newSet : ValidatorSet}
    {header : EpochHeader} :
    (s.advanceEpoch b newSet header).1 = .ok () ↔
      checkRotation b s.epoch newSet header = .ok () := by
  unfold advanceEpoch
  cases checkRotation b s.epoch newSet header <;> simp

/-- An accepted rotation installs the new set and nothing else. -/
theorem advanceEpoch_installs {b : Build} {s : BftState} {newSet : ValidatorSet}
    {header : EpochHeader} (h : (s.advanceEpoch b newSet header).1 = .ok ()) :
    (s.advanceEpoch b newSet header).2 =
      { s with epoch := newSet.epoch, validatorSet := newSet } := by
  rw [advanceEpoch_ok] at h
  rw [advanceEpoch, h]

/-- A refused rotation changes nothing, as the checks come before the
assignments. -/
theorem advanceEpoch_refused {b : Build} {s : BftState} {newSet : ValidatorSet}
    {header : EpochHeader} (h : (s.advanceEpoch b newSet header).1 ≠ .ok ()) :
    (s.advanceEpoch b newSet header).2 = s := by
  unfold advanceEpoch at h ⊢
  cases hcheck : checkRotation b s.epoch newSet header with
  | ok u =>
      rw [hcheck] at h
      exact (h rfl).elim
  | err e => rfl
  | panic => rfl

section Runs

variable [Crypto] {b : Build}

/-- No call but a rotation touches the epoch or the committee. -/
theorem perform_committee {s : BftState} {call : Call}
    (h : ∀ newSet header, call ≠ .advanceEpoch newSet header) :
    (s.perform b call).epoch = s.epoch ∧
      (s.perform b call).validatorSet = s.validatorSet := by
  cases call with
  | applyCertificate cert =>
      simp only [perform, applyCertificate]
      split
      · exact ⟨rfl, rfl⟩
      · split
        · exact ⟨rfl, rfl⟩
        · exact ⟨rfl, rfl⟩
        · split <;> exact ⟨rfl, rfl⟩
  | advanceEpoch newSet header => exact (h newSet header rfl).elim
  | recordDivergence =>
      simp only [perform, recordDivergence]
      split
      · exact ⟨rfl, rfl⟩
      · exact ⟨rfl, rfl⟩
      · split <;> exact ⟨rfl, rfl⟩
  | resumeFinality => exact ⟨rfl, rfl⟩

/-- The state's epoch is the epoch of its committee. -/
def EpochInForce (s : BftState) : Prop :=
  s.epoch = s.validatorSet.epoch

/-- One call keeps the epoch of the node equal to that of its committee, since
a rotation sets both. -/
theorem epochInForce_step {s t : BftState} {call : Call} (hstep : s.Step b call t)
    (h : s.EpochInForce) : t.EpochInForce := by
  subst hstep
  by_cases hrotate : ∃ newSet header, call = .advanceEpoch newSet header
  · obtain ⟨newSet, header, rfl⟩ := hrotate
    by_cases hok : (s.advanceEpoch b newSet header).1 = .ok ()
    · rw [EpochInForce, perform, advanceEpoch_installs hok]
    · rw [perform, advanceEpoch_refused hok]
      exact h
  · have hkeep := perform_committee (b := b) (s := s)
      (fun newSet header hcall => hrotate ⟨newSet, header, hcall⟩)
    rw [EpochInForce, hkeep.1, hkeep.2]
    exact h

/-- In every state of every run from genesis the epoch is that of the committee. -/
theorem epochInForce_run {vs : ValidatorSet} {genesisHash : Bytes 32}
    {es : List (Transition BftState Call)} {t : BftState}
    (run : Trace (Step b) (genesis vs genesisHash) es t) : t.EpochInForce :=
  run.invariant (fun _ _ _ hstep h => epochInForce_step hstep h) rfl

/-- What a call asks for, when it asks for a rotation. -/
def rotationRequest : Call → Option (ValidatorSet × EpochHeader)
  | .advanceEpoch newSet header => some (newSet, header)
  | _ => none

/-- The rotations of a run. -/
def rotations (b : Build) (es : List (Transition BftState Call)) :
    List (Transition ValidatorSet EpochHeader) :=
  Zona.rotations b validatorSet rotationRequest es

omit [Crypto] in
/-- A call asks for a rotation exactly if it is `advanceEpoch` with that set
and that header. -/
theorem rotationRequest_eq_some {call : Call} {newSet : ValidatorSet} {header : EpochHeader} :
    rotationRequest call = some (newSet, header) ↔ call = .advanceEpoch newSet header := by
  cases call <;> simp [rotationRequest]

/-- Every call treats the committee as a rotation system does. -/
theorem obeys_of_step {e : Transition BftState Call} (hstep : e.before.Step b e.label e.after)
    (hepoch : e.before.EpochInForce) : Obeys b validatorSet rotationRequest e := by
  have hafter : e.after = e.before.perform b e.label := hstep
  cases hrequest : rotationRequest e.label with
  | none =>
      rw [obeys_of_silent hrequest, hafter]
      apply (perform_committee _).2
      intro newSet header hlabel
      rw [rotationRequest_eq_some.mpr hlabel] at hrequest
      cases hrequest
  | some pair =>
      obtain ⟨newSet, header⟩ := pair
      have hlabel := rotationRequest_eq_some.mp hrequest
      rw [obeys_of_request hrequest, hafter, hlabel, ← hepoch, perform]
      by_cases hok : (e.before.advanceEpoch b newSet header).1 = .ok ()
      · rw [advanceEpoch_installs hok, if_pos (advanceEpoch_ok.mp hok)]
      · rw [advanceEpoch_refused hok, if_neg (fun hcheck => hok (advanceEpoch_ok.mpr hcheck))]

/-- **Rotation by the current header.**  In a run from genesis every accepted
rotation carries a header of the epoch and of the committee in force exactly
when no call of the run brings a foreign header past the two checks of
`advanceEpoch`; and it is in these runs, and no others, that the headers
presented form a chain from the genesis committee to the one in force. -/
theorem advanceEpoch_current_iff (b : Build) (vs : ValidatorSet) (genesisHash : Bytes 32)
    (es : List (Transition BftState Call)) (t : BftState)
    (run : Trace (Step b) (genesis vs genesisHash) es t) :
    ((∀ e ∈ es, ∀ newSet header, e.label = .advanceEpoch newSet header →
      (e.before.advanceEpoch b newSet header).1 = .ok () →
        header.epoch = e.before.epoch ∧
          header.validatorSetHash = e.before.validatorSet.setHash) ↔
      ∀ e ∈ es, ∀ newSet header, e.label = .advanceEpoch newSet header →
        DrivenByCurrent b e.before.validatorSet newSet header) ∧
    (verifyEpochChain b vs.setHash
      (headerChain (rotations b es) (EpochHeader.new t.validatorSet none t.finalisedHeight)) =
        .ok () ↔
      ∀ e ∈ es, ∀ newSet header, e.label = .advanceEpoch newSet header →
        DrivenByCurrent b e.before.validatorSet newSet header) := by
  have hepoch : ∀ e ∈ es, e.before.EpochInForce := fun e he =>
    run.invariant_before (fun _ _ _ hstep h => epochInForce_step hstep h) rfl he
  have hobeys : ∀ e ∈ es, Obeys b validatorSet rotationRequest e := fun e he =>
    obeys_of_step (run.step_of_mem he) (hepoch e he)
  constructor
  · constructor
    · intro h e he newSet header hlabel
      rw [drivenByCurrent_iff]
      intro hcheck
      rw [← hepoch e he] at hcheck
      have hcurrent := h e he newSet header hlabel (advanceEpoch_ok.mpr hcheck)
      rw [hepoch e he] at hcurrent
      exact hcurrent
    · intro h e he newSet header hlabel hok
      have hcheck := advanceEpoch_ok.mp hok
      rw [hepoch e he] at hcheck ⊢
      exact drivenByCurrent_iff.mp (h e he newSet header hlabel) hcheck
  · have hhistory : Trace (Rotates b) vs (rotations b es) t.validatorSet :=
      rotations_run run hobeys
    rw [chain_iff_described hhistory (EpochHeader.new_describes _ _ _), rotations,
      allDescribed_rotations_iff]
    simp only [rotationRequest_eq_some]

end Runs

end BftState

/-- The genesis state of a committee of one in epoch 0. -/
def sampleGenesis : BftState :=
  BftState.genesis (sampleSet 0 [1]) (Bytes.replicate 32 0)

/-- A header of epoch 7 and of no known committee that commits to `next`. -/
def strayHeader (next : ValidatorSet) : EpochHeader where
  epoch := 7
  validatorSetHash := Bytes.replicate 32 0xEE
  nextValidatorCommitment := some next.setHash
  publishedAtHeight := 0

/-- The rotation to a committee of one in epoch 1, driven by `header`. -/
def sampleRotation (header : EpochHeader) : Transition BftState BftState.Call where
  before := sampleGenesis
  label := .advanceEpoch (sampleSet 1 [5]) header
  after := (sampleGenesis.advanceEpoch .debug (sampleSet 1 [5]) header).2

/-- One rotation from the sample genesis is a run. -/
theorem sampleRotation_run (header : EpochHeader) :
    Trace (@BftState.Step checksumCrypto .debug) sampleGenesis
      [sampleRotation header] (sampleRotation header).after :=
  Trace.single rfl

/-- The header that epoch 0 publishes for that rotation. -/
def currentHeader : EpochHeader :=
  .new (sampleSet 0 [1]) (sampleSet 1 [5]) 3

/-- A run of one rotation driven by the header of epoch 0: the headers
presented form a chain from genesis. -/
theorem sample_rotation_chain :
    verifyEpochChain .debug (sampleSet 0 [1]).setHash
      (headerChain (BftState.rotations .debug [sampleRotation currentHeader])
        (.new (sampleRotation currentHeader).after.validatorSet none
          (sampleRotation currentHeader).after.finalisedHeight)) = .ok () := by
  have hiff := (@BftState.advanceEpoch_current_iff checksumCrypto .debug
    (sampleSet 0 [1]) (Bytes.replicate 32 0) _ _
    (sampleRotation_run currentHeader)).2
  apply hiff.mpr
  intro e he newSet header hlabel _ _
  obtain rfl := List.mem_singleton.mp he
  cases hlabel
  exact ⟨rfl, EpochHeader.verifyCurrentSet_ok.mpr rfl⟩

/-- In the genesis state, a header of epoch 7 and of another committee installs
a new committee. -/
theorem advanceEpoch_takes_stray_header :
    @Reachable _ _ (@BftState.Step checksumCrypto .debug) sampleGenesis sampleGenesis ∧
      (sampleGenesis.advanceEpoch .debug (sampleSet 1 [5])
        (strayHeader (sampleSet 1 [5]))).1 = .ok () ∧
      (strayHeader (sampleSet 1 [5])).epoch ≠ sampleGenesis.epoch ∧
      (strayHeader (sampleSet 1 [5])).validatorSetHash ≠
        sampleGenesis.validatorSet.setHash := by
  refine ⟨⟨[], Trace.nil⟩, ?_, ?_, ?_⟩ <;> decide +kernel

end Zona
