import Zona.CertifiedFollowers
import Zona.CheckpointBudgets
import Zona.CrossNodeAgreement

/-!
# A light client and a node

A light client and a consensus node are both followers of certified blocks:
the client adopts the block of an observation it accepts, the node that of a
certificate it applies, and both install the committee of a rotation that
passes its check.

`head_agreement` compares them.  The client may have been anchored at a
checkpoint, with the committee that earlier rotations had put in force there.
Where it has risen to another block than a node at one height, some committee
equivocated at that height, or the height lies across a rotation.
-/

namespace Zona

/-- The certificates of blocks, as the committees of a build accept them. -/
def certifiedBlocks [Crypto] (b : Build) :
    CertifiedBlocks ValidatorSet BftCertificate UInt64 (Bytes 32) where
  accepts vs cert := cert.verify b vs = .ok ()
  heightOf cert := cert.payload.height
  blockOf cert := cert.payload.blockHash

namespace BftState

/-- What a node follows. -/
def follower (s : BftState) : Follower ValidatorSet UInt64 (Bytes 32) :=
  ⟨s.validatorSet, s.finalisedHeight, s.blockHash⟩

/-- What a call changes of it. -/
def follows (b : Build) (e : Transition BftState Call) :
    Option (Follower.Event ValidatorSet BftCertificate) :=
  match e.label with
  | .applyCertificate cert =>
      if e.before.finalisedHeight < e.after.finalisedHeight then some (.adopt cert) else none
  | .advanceEpoch newSet header =>
      if (e.before.advanceEpoch b newSet header).1 = .ok () then some (.install newSet) else none
  | .recordDivergence => none
  | .resumeFinality => none

variable [Crypto] {b : Build}

/-- A call that changes nothing of it: where a node refuses a certificate or a
rotation, or is paused, the follower stays as it was. -/
theorem follower_silent {e : Transition BftState Call}
    (hstep : e.before.Step b e.label e.after) (hnone : follows b e = none) :
    e.after.follower = e.before.follower := by
  have hidle : ¬ Rotation b e := by
    rintro ⟨newSet, header, hlabel, hok⟩
    rw [follows, hlabel] at hnone
    simp [hok] at hnone
  have hcommittee := (epoch_kept hstep hidle).2
  rcases block_cases hstep with ⟨hheight, hhash⟩ | ⟨cert, hlabel, _, _, habove, hheight, _⟩
  · rw [follower, follower, hcommittee, hheight, hhash]
  · rw [follows, hlabel] at hnone
    simp [hheight, habove] at hnone

/-- A call that changes something of it is a step of the follower: a newer
certificate that verified, or a rotation that passed the checks. -/
theorem follower_visible {e : Transition BftState Call}
    (hstep : e.before.Step b e.label e.after)
    {event : Follower.Event ValidatorSet BftCertificate} (hsome : follows b e = some event) :
    Follower.Step (certifiedBlocks b) e.before.follower event e.after.follower := by
  have hafter : e.after = e.before.perform b e.label := hstep
  unfold follows at hsome
  cases hlabel : e.label with
  | applyCertificate cert =>
      rw [hlabel] at hsome
      dsimp only at hsome
      split at hsome
      case isFalse => cases hsome
      case isTrue hraised =>
        obtain rfl := Option.some.inj hsome
        rcases block_cases hstep with
          ⟨hheight, _⟩ | ⟨cert', hlabel', _, hverify, habove, hheight, hhash⟩
        · rw [hheight] at hraised
          exact (UInt64.lt_irrefl _ hraised).elim
        · rw [hlabel] at hlabel'
          obtain rfl := Call.applyCertificate.inj hlabel'
          have hidle : ¬ Rotation b e := by
            rintro ⟨newSet, header, hrotate, _⟩
            rw [hlabel] at hrotate
            cases hrotate
          have hcommittee := (epoch_kept hstep hidle).2
          have hnext : e.after.follower =
              { e.before.follower with
                height := (certifiedBlocks b).heightOf cert
                block := (certifiedBlocks b).blockOf cert } := by
            rw [follower, hcommittee, hheight, hhash]
            rfl
          rw [hnext]
          exact .adopt hverify habove
  | advanceEpoch newSet header =>
      rw [hlabel] at hsome
      dsimp only at hsome
      split at hsome
      case isFalse => cases hsome
      case isTrue hok =>
        obtain rfl := Option.some.inj hsome
        have hnext : e.after.follower =
            { e.before.follower with committee := newSet } := by
          rw [hafter, hlabel, perform, advanceEpoch_installs hok]
          rfl
        rw [hnext]
        exact .install
  | recordDivergence =>
      rw [hlabel] at hsome
      cases hsome
  | resumeFinality =>
      rw [hlabel] at hsome
      cases hsome

/-- **Refinement.**  The run of a node is a run of a follower: calls that are
refused disappear, and the others are adoptions and installations. -/
theorem follower_run {s t : BftState} {es : List (Transition BftState Call)}
    (run : Trace (Step b) s es t) :
    Trace (Follower.Step (certifiedBlocks b)) s.follower (Trace.project follower (follows b) es)
      t.follower :=
  run.simulate follower (follows b) (fun _ he => follower_silent (run.step_of_mem he))
    (fun _ he _ => follower_visible (run.step_of_mem he))

omit [Crypto] in
/-- The rotations of the follower are those of the node, each with the height
at which it was made. -/
theorem installed_follower (es : List (Transition BftState Call)) :
    Follower.installed (Trace.project follower (follows b) es) = madeRotations b es := by
  apply Follower.installed_project
  intro e
  unfold follows
  cases e.label with
  | applyCertificate cert => dsimp only; split <;> simp_all
  | advanceEpoch newSet header => dsimp only; split <;> simp_all [follower]
  | recordDivergence => rfl
  | resumeFinality => rfl

omit [Crypto] in
/-- The certificates that the follower adopted were given to the node; those
that were refused are left out. -/
theorem adopted_follower (es : List (Transition BftState Call)) :
    Follower.adopted (Trace.project follower (follows b) es) ⊆ givenCertificates es := by
  apply Follower.adopted_project
  intro e cert hview
  unfold follows at hview
  cases hlabel : e.label with
  | applyCertificate given =>
      rw [hlabel] at hview
      simp_all
  | advanceEpoch newSet header =>
      rw [hlabel] at hview
      simp_all
  | recordDivergence =>
      rw [hlabel] at hview
      cases hview
  | resumeFinality =>
      rw [hlabel] at hview
      cases hview

/-- The block of a node is the genesis block, or certified to it. -/
theorem certified_of_run {vs : ValidatorSet} {genesisHash : Bytes 32} {t : BftState}
    {es : List (Transition BftState Call)}
    (run : Trace (Step b) (genesis vs genesisHash) es t) :
    (t.finalisedHeight = 0 ∧ t.blockHash = genesisHash) ∨
      (0 < t.finalisedHeight ∧
        Follower.Certified (certifiedBlocks b) vs (givenCertificates es) (madeRotations b es)
          t.finalisedHeight t.blockHash) := by
  rcases (Follower.followed_of_run (follower_run run)).cause with hstart | ⟨habove, hcertified⟩
  · exact Or.inl hstart
  · rw [installed_follower] at hcertified
    exact Or.inr ⟨habove, hcertified.mono (adopted_follower es)⟩

end BftState

namespace LightClient

/-- The rotations a client made, oldest first: the committee that it put in
force, and its best height then. -/
def madeRotations (b : Build) (es : List (Transition LightClient Call)) :
    List (ValidatorSet × UInt64) :=
  es.filterMap fun e =>
    match e.label with
    | .advanceEpoch newSet header =>
        if (e.before.advanceEpoch b newSet header).1 = .ok () then
          some (newSet, e.before.bestHeight)
        else none
    | _ => none

/-- The certificates a client was shown. -/
def givenCertificates (es : List (Transition LightClient Call)) : List BftCertificate :=
  es.filterMap fun e =>
    match e.label with
    | .observe obs => some obs.cert
    | _ => none

/-- What a client follows. -/
def follower (c : LightClient) : Follower ValidatorSet UInt64 (Bytes 32) :=
  ⟨c.validatorSet, c.bestHeight, c.bestHash⟩

/-- What a call changes of it. -/
def follows (b : Build) (e : Transition LightClient Call) :
    Option (Follower.Event ValidatorSet BftCertificate) :=
  match e.label with
  | .observe obs =>
      if e.before.bestHeight < e.after.bestHeight then some (.adopt obs.cert) else none
  | .advanceEpoch newSet header =>
      if (e.before.advanceEpoch b newSet header).1 = .ok () then some (.install newSet) else none
  | .provideExternalCheckpoint => none

variable [Crypto] {b : Build}

/-- A call that changes nothing of it: an observation that does not move the
head of the client, or a rotation that was refused. -/
theorem follower_silent {e : Transition LightClient Call}
    (hstep : e.before.Step b e.label e.after) (hnone : follows b e = none) :
    e.after.follower = e.before.follower := by
  have hafter : e.after = e.before.perform b e.label := hstep
  have hidle : ¬ Advances b e := by
    intro hadvances
    obtain ⟨obs, hlabel, _, habove, hheight, _⟩ := head_certified hstep hadvances
    rw [follows, hlabel] at hnone
    simp [hheight, habove] at hnone
  obtain ⟨hheight, hhash⟩ := head_kept hstep hidle
  have hcommittee : e.after.validatorSet = e.before.validatorSet := by
    cases hlabel : e.label with
    | observe obs =>
        rw [hafter, hlabel]
        exact (observe_keeps e.before obs).2
    | provideExternalCheckpoint =>
        rw [hafter, hlabel]
        rfl
    | advanceEpoch newSet header =>
        have hrefused : (e.before.advanceEpoch b newSet header).1 ≠ .ok () := by
          intro hok
          rw [follows, hlabel] at hnone
          simp [hok] at hnone
        rw [hafter, hlabel, perform, advanceEpoch_snd, if_neg (mt advanceEpoch_ok.mpr hrefused)]
  rw [follower, follower, hcommittee, hheight, hhash]

/-- A call that changes something of it is a step of the follower: a block with
enough channels, or a rotation that passed the checks. -/
theorem follower_visible {e : Transition LightClient Call}
    (hstep : e.before.Step b e.label e.after)
    {event : Follower.Event ValidatorSet BftCertificate} (hsome : follows b e = some event) :
    Follower.Step (certifiedBlocks b) e.before.follower event e.after.follower := by
  have hafter : e.after = e.before.perform b e.label := hstep
  unfold follows at hsome
  cases hlabel : e.label with
  | observe obs =>
      rw [hlabel] at hsome
      dsimp only at hsome
      split at hsome
      case isFalse => cases hsome
      case isTrue hraised =>
        obtain rfl := Option.some.inj hsome
        have hadvances := (headLaw_of_step hstep).raised_iff.mp hraised
        obtain ⟨obs', hlabel', hverify, habove, hheight, hhash⟩ := head_certified hstep hadvances
        rw [hlabel] at hlabel'
        obtain rfl := Call.observe.inj hlabel'
        have hcommittee : e.after.validatorSet = e.before.validatorSet := by
          rw [hafter, hlabel]
          exact (observe_keeps e.before obs).2
        have hnext : e.after.follower =
            { e.before.follower with
              height := (certifiedBlocks b).heightOf obs.cert
              block := (certifiedBlocks b).blockOf obs.cert } := by
          rw [follower, hcommittee, hheight, hhash]
          rfl
        rw [hnext]
        exact .adopt hverify habove
  | advanceEpoch newSet header =>
      rw [hlabel] at hsome
      dsimp only at hsome
      split at hsome
      case isFalse => cases hsome
      case isTrue hok =>
        obtain rfl := Option.some.inj hsome
        have hnext : e.after.follower =
            { e.before.follower with committee := newSet } := by
          rw [hafter, hlabel, perform, advanceEpoch_snd, if_pos (advanceEpoch_ok.mp hok)]
          rfl
        rw [hnext]
        exact .install
  | provideExternalCheckpoint =>
      rw [hlabel] at hsome
      cases hsome

/-- **Refinement.**  The run of a light client is a run of a follower:
observations that only count a channel disappear. -/
theorem follower_run {c d : LightClient} {es : List (Transition LightClient Call)}
    (run : Trace (Step b) c es d) :
    Trace (Follower.Step (certifiedBlocks b)) c.follower (Trace.project follower (follows b) es)
      d.follower :=
  run.simulate follower (follows b) (fun _ he => follower_silent (run.step_of_mem he))
    (fun _ he _ => follower_visible (run.step_of_mem he))

omit [Crypto] in
/-- The rotations of the follower are those of the client, each with the height
of its head when it was made. -/
theorem installed_follower (es : List (Transition LightClient Call)) :
    Follower.installed (Trace.project follower (follows b) es) = madeRotations b es := by
  apply Follower.installed_project
  intro e
  unfold follows
  cases e.label with
  | observe obs => dsimp only; split <;> simp_all
  | provideExternalCheckpoint => rfl
  | advanceEpoch newSet header => dsimp only; split <;> simp_all [follower]

omit [Crypto] in
/-- The certificates that the follower adopted are among the observations that
were given to the client. -/
theorem adopted_follower (es : List (Transition LightClient Call)) :
    Follower.adopted (Trace.project follower (follows b) es) ⊆ givenCertificates es := by
  apply Follower.adopted_project
  intro e cert hview
  unfold follows at hview
  cases hlabel : e.label with
  | observe obs =>
      rw [hlabel] at hview
      simp_all
  | provideExternalCheckpoint =>
      rw [hlabel] at hview
      cases hview
  | advanceEpoch newSet header =>
      rw [hlabel] at hview
      simp_all

/-- The rotations that a client knows of: those before its anchor, which count
as made at the height of the anchor, and those it made. -/
def rotationsSince (b : Build) (anchor : Anchor) (earlier : List ValidatorSet)
    (es : List (Transition LightClient Call)) : List (ValidatorSet × UInt64) :=
  Follower.earlierAt earlier anchor.height ++ madeRotations b es

/-- The best block of a client is that of its anchor, or certified to it. -/
theorem certified_of_run {anchor : Anchor} {vs : ValidatorSet} {earlier : List ValidatorSet}
    {c : LightClient} {es : List (Transition LightClient Call)}
    (run : Trace (Step b) (fromGenesis anchor (earlier.getLastD vs)) es c) :
    (c.bestHeight = anchor.height ∧ c.bestHash = anchor.blockHash) ∨
      (anchor.height < c.bestHeight ∧
        Follower.Certified (certifiedBlocks b) vs (givenCertificates es)
          (rotationsSince b anchor earlier es) c.bestHeight c.bestHash) := by
  rcases (Follower.followed_of_run (follower_run run)).cause with hstart | ⟨habove, hcertified⟩
  · exact Or.inl hstart
  · rw [installed_follower] at hcertified
    exact Or.inr ⟨habove, (hcertified.mono (adopted_follower es)).since rfl habove⟩

end LightClient

/-- Rotate, take a checkpoint, and see a report of the block of epoch 1 at
height 9. -/
def rotatedCalls : List LightClient.Call :=
  [.advanceEpoch (sampleSet 1 [5]) currentHeader, .provideExternalCheckpoint,
    .observe
      { cert := sampleCert ⟨1, 9, Bytes.replicate 32 0xCD⟩ [5]
        referrerId := ⟨Bytes.replicate 32 0xAA⟩ }]

/-- The client of the committee of epoch 0 after these calls. -/
def rotatedClient : LightClient :=
  rotatedCalls.foldl (@LightClient.perform checksumCrypto .debug) sampleClient

def rotatedRun : List (Transition LightClient LightClient.Call) :=
  Trace.record (@LightClient.perform checksumCrypto .debug) sampleClient rotatedCalls

/-- The calls of the client below make a run: it sees a rotation and then a
block of the new committee. -/
theorem rotatedRun_trace :
    Trace (@LightClient.Step checksumCrypto .debug) sampleClient rotatedRun rotatedClient :=
  @Trace.of_record _ _ (@LightClient.Step checksumCrypto .debug)
    (@LightClient.perform checksumCrypto .debug) (fun _ _ => rfl) rotatedCalls sampleClient

/-- The client and the node that is behind hold different blocks at height 9. -/
theorem rotatedClient_facts :
    (BftState.madeRotations .debug
          (nodeRun .debug (sampleSet 0 [1]) behindCalls)).map Prod.fst = [sampleSet 1 [5]] ∧
      (LightClient.rotationsSince .debug sampleClient.anchor [] rotatedRun).map Prod.fst =
        [sampleSet 1 [5]] ∧
      sampleClient.anchor.height < rotatedClient.bestHeight ∧
      (nodeAfter .debug (sampleSet 0 [1]) behindCalls).finalisedHeight =
        rotatedClient.bestHeight ∧
      (nodeAfter .debug (sampleSet 0 [1]) behindCalls).blockHash ≠ rotatedClient.bestHash := by
  decide +kernel

end Zona
