import Zona.FinalityStates

/-!
# Runs of the finality state

`CallLaw` says what one call may do to the state of a consensus node, and
`callLaw_of_step` proves it from one statement for each operation.  Over a run
two things are added: the epoch is that of the committee in force, and a
reported divergence stops finality until it is resumed.

The pause rests on the counter: while finality is active the counter is zero
(`CountedWhenActive`), so that a divergence always brings it to one.
-/

namespace Zona

namespace BftState

variable [Crypto] {b : Build}

/-- The call returns an error, panics, or returns `ok false`. -/
def Refused (b : Build) (e : Transition BftState Call) : Prop :=
  match e.label with
  | .applyCertificate cert => (e.before.applyCertificate b cert).1 ≠ .ok true
  | .advanceEpoch newSet header => (e.before.advanceEpoch b newSet header).1 ≠ .ok ()
  | .recordDivergence => (e.before.recordDivergence b).1 ≠ .ok ()
  | .resumeFinality => False

/-- The call is a rotation that succeeds. -/
def Rotation (b : Build) (e : Transition BftState Call) : Prop :=
  ∃ newSet header, e.label = .advanceEpoch newSet header ∧
    (e.before.advanceEpoch b newSet header).1 = .ok ()

/-- **Applying a certificate** leaves the state as it is, or makes the block of
a verified certificate above the finalised height the finalised one. -/
theorem applyCertificate_cases (b : Build) (s : BftState) (cert : BftCertificate) :
    ((s.applyCertificate b cert).1 ≠ .ok true ∧ (s.applyCertificate b cert).2 = s) ∨
      (s.finalityStatus = .active ∧ cert.verify b s.validatorSet = .ok () ∧
        s.finalisedHeight < cert.payload.height ∧
        s.applyCertificate b cert = (.ok true, { s with
          finalisedHeight := cert.payload.height
          blockHash := cert.payload.blockHash })) := by
  unfold applyCertificate
  by_cases hpaused : s.finalityStatus = .paused
  · rw [if_pos hpaused]
    exact Or.inl ⟨by simp, rfl⟩
  · rw [if_neg hpaused]
    have hactive : s.finalityStatus = .active := by
      cases hstatus : s.finalityStatus with
      | active => rfl
      | paused => exact (hpaused hstatus).elim
    cases hverify : cert.verify b s.validatorSet with
    | err e => exact Or.inl ⟨by simp, rfl⟩
    | panic => exact Or.inl ⟨by simp, rfl⟩
    | ok u =>
        by_cases hstale : cert.payload.height ≤ s.finalisedHeight
        · exact Or.inl ⟨by simp [hstale], by simp [hstale]⟩
        · exact Or.inr ⟨hactive, rfl, UInt64.not_le.mp hstale, by simp [hstale]⟩

omit [Crypto] in
/-- **Reporting a divergence** touches the counter and the pause flag only,
never lifts a pause, and panics without a trace. -/
theorem recordDivergence_cases (b : Build) (s : BftState) :
    ((s.recordDivergence b).1 ≠ .ok () ∧ (s.recordDivergence b).2 = s) ∨
      ((s.recordDivergence b).1 = .ok () ∧ ∃ count status,
        addU32 (E := BftError) b s.divergenceCount 1 = .ok count ∧
        status = (if 1 ≤ count ∧ s.finalityStatus = .active then .paused
          else s.finalityStatus) ∧
        (s.recordDivergence b).2 =
          { s with divergenceCount := count, finalityStatus := status }) := by
  unfold recordDivergence
  cases hadd : addU32 (E := BftError) b s.divergenceCount 1 with
  | err e => exact Or.inl ⟨by simp, rfl⟩
  | panic => exact Or.inl ⟨by simp, rfl⟩
  | ok count =>
      by_cases hpause : 1 ≤ count ∧ s.finalityStatus = .active
      · exact Or.inr ⟨by simp [hpause], count, .paused, rfl, by rw [if_pos hpause],
          by simp [hpause]⟩
      · refine Or.inr ⟨?_, count, s.finalityStatus, rfl, by rw [if_neg hpause], ?_⟩
        · simp only [ge_iff_le, if_neg hpause]
        · simp only [ge_iff_le, if_neg hpause]

/-- What one call may do to the state. -/
structure CallLaw (b : Build) (e : Transition BftState Call) : Prop where
  monotone : e.before.finalisedHeight ≤ e.after.finalisedHeight
  hash_kept : ¬ e.before.finalisedHeight < e.after.finalisedHeight →
    e.after.blockHash = e.before.blockHash
  certified : e.before.finalisedHeight < e.after.finalisedHeight →
    ∃ cert, e.label = .applyCertificate cert ∧
      cert.verify b e.before.validatorSet = .ok () ∧ cert.payload.epoch = e.before.epoch ∧
      e.after.finalisedHeight = cert.payload.height ∧
      e.after.blockHash = cert.payload.blockHash
  committee : e.before.epoch = e.before.validatorSet.epoch ∧
    e.after.epoch = e.after.validatorSet.epoch
  rotated : Rotation b e → e.after.epoch = e.before.epoch + 1
  not_rotated : ¬ Rotation b e →
    e.after.epoch = e.before.epoch ∧ e.after.validatorSet = e.before.validatorSet
  refused : Refused b e → e.after = e.before

/-- A refused call leaves the whole state as it was. -/
theorem refused_keeps {e : Transition BftState Call} (hstep : e.before.Step b e.label e.after)
    (h : Refused b e) : e.after = e.before := by
  have hafter : e.after = e.before.perform b e.label := hstep
  rw [hafter]
  unfold Refused at h
  cases hlabel : e.label with
  | applyCertificate cert =>
      rw [hlabel] at h
      dsimp only at h
      rcases applyCertificate_cases b e.before cert with ⟨_, hsame⟩ | ⟨_, _, _, hrun⟩
      · exact hsame
      · rw [hrun] at h
        exact (h rfl).elim
  | advanceEpoch newSet header =>
      rw [hlabel] at h
      dsimp only at h
      exact advanceEpoch_refused h
  | recordDivergence =>
      rw [hlabel] at h
      dsimp only at h
      rcases recordDivergence_cases b e.before with ⟨_, hsame⟩ | ⟨hok, _⟩
      · exact hsame
      · exact (h hok).elim
  | resumeFinality =>
      rw [hlabel] at h
      exact h.elim

/-- Only a certificate moves the finalised block: every other call keeps height
and hash. -/
theorem block_kept {s : BftState} {call : Call} (h : ∀ cert, call ≠ .applyCertificate cert) :
    (s.perform b call).finalisedHeight = s.finalisedHeight ∧
      (s.perform b call).blockHash = s.blockHash := by
  cases call with
  | applyCertificate cert => exact (h cert rfl).elim
  | advanceEpoch newSet header =>
      by_cases hok : (s.advanceEpoch b newSet header).1 = .ok ()
      · rw [perform, advanceEpoch_installs hok]
        exact ⟨rfl, rfl⟩
      · rw [perform, advanceEpoch_refused hok]
        exact ⟨rfl, rfl⟩
  | recordDivergence =>
      rcases recordDivergence_cases b s with ⟨_, hsame⟩ | ⟨_, count, status, _, _, hnext⟩
      · rw [perform, hsame]
        exact ⟨rfl, rfl⟩
      · rw [perform, hnext]
        exact ⟨rfl, rfl⟩
  | resumeFinality => exact ⟨rfl, rfl⟩

/-- **What moves the finalised block.**  A call leaves it alone, or it applies
a certificate that verifies against the committee in force. -/
theorem block_cases {e : Transition BftState Call} (hstep : e.before.Step b e.label e.after) :
    (e.after.finalisedHeight = e.before.finalisedHeight ∧
        e.after.blockHash = e.before.blockHash) ∨
      ∃ cert, e.label = .applyCertificate cert ∧ e.before.finalityStatus = .active ∧
        cert.verify b e.before.validatorSet = .ok () ∧
        e.before.finalisedHeight < cert.payload.height ∧
        e.after.finalisedHeight = cert.payload.height ∧
        e.after.blockHash = cert.payload.blockHash := by
  have hafter : e.after = e.before.perform b e.label := hstep
  by_cases hcert : ∃ cert, e.label = .applyCertificate cert
  · obtain ⟨cert, hlabel⟩ := hcert
    rw [hlabel, perform] at hafter
    rcases applyCertificate_cases b e.before cert with
      ⟨_, hsame⟩ | ⟨hactive, hverify, habove, hrun⟩
    · rw [hafter, hsame]
      exact Or.inl ⟨rfl, rfl⟩
    · rw [hrun] at hafter
      exact Or.inr ⟨cert, hlabel, hactive, hverify, habove, by rw [hafter], by rw [hafter]⟩
  · rw [hafter]
    exact Or.inl (block_kept fun cert hlabel => hcert ⟨cert, hlabel⟩)

theorem epoch_rotated {e : Transition BftState Call} (hstep : e.before.Step b e.label e.after)
    (h : Rotation b e) : e.after.epoch = e.before.epoch + 1 := by
  have hafter : e.after = e.before.perform b e.label := hstep
  obtain ⟨newSet, header, hlabel, hok⟩ := h
  rw [hafter, hlabel, perform, advanceEpoch_installs hok]
  exact addU64_eq_ok (checkRotation_ok.mp (advanceEpoch_ok.mp hok)).2

/-- Any other call leaves the epoch and the committee alone. -/
theorem epoch_kept {e : Transition BftState Call} (hstep : e.before.Step b e.label e.after)
    (h : ¬ Rotation b e) :
    e.after.epoch = e.before.epoch ∧ e.after.validatorSet = e.before.validatorSet := by
  have hafter : e.after = e.before.perform b e.label := hstep
  rw [hafter]
  by_cases hrotate : ∃ newSet header, e.label = .advanceEpoch newSet header
  · obtain ⟨newSet, header, hlabel⟩ := hrotate
    have hrefused : (e.before.advanceEpoch b newSet header).1 ≠ .ok () :=
      fun hok => h ⟨newSet, header, hlabel, hok⟩
    rw [hlabel, perform, advanceEpoch_refused hrefused]
    exact ⟨rfl, rfl⟩
  · exact perform_committee fun newSet header hlabel => hrotate ⟨newSet, header, hlabel⟩

/-- **One call**: what it may do to the height, the hash, the epoch and the
status of a node, for each of the four calls. -/
theorem callLaw_of_step {e : Transition BftState Call} (hstep : e.before.Step b e.label e.after)
    (hepoch : e.before.EpochInForce) : CallLaw b e where
  monotone := by
    rcases block_cases hstep with ⟨hheight, _⟩ | ⟨cert, _, _, _, habove, hheight, _⟩
    · rw [hheight]
      exact UInt64.le_refl _
    · rw [hheight]
      exact UInt64.le_of_lt habove
  hash_kept := by
    intro hidle
    rcases block_cases hstep with ⟨_, hhash⟩ | ⟨cert, _, _, _, habove, hheight, _⟩
    · exact hhash
    · rw [hheight] at hidle
      exact (hidle habove).elim
  certified := by
    intro hraised
    rcases block_cases hstep with ⟨hheight, _⟩ | ⟨cert, hlabel, _, hverify, _, hheight, hhash⟩
    · rw [hheight] at hraised
      exact (UInt64.lt_irrefl _ hraised).elim
    · have hcurrent : cert.payload.epoch = e.before.epoch := by
        rw [(BftCertificate.verify_ok.mp hverify).1, hepoch]
      exact ⟨cert, hlabel, hverify, hcurrent, hheight, hhash⟩
  committee := ⟨hepoch, epochInForce_step hstep hepoch⟩
  rotated := epoch_rotated hstep
  not_rotated := epoch_kept hstep
  refused := refused_keeps hstep

/-- While finality is active no divergence is counted. -/
def CountedWhenActive (s : BftState) : Prop :=
  s.finalityStatus = .active → s.divergenceCount = 0

omit [Crypto] in
/-- A reported divergence leaves finality paused, be it active or paused
before. -/
theorem paused_of_divergence {s : BftState} (h : s.CountedWhenActive) :
    (s.recordDivergence b).2.finalityStatus = .paused := by
  have hnot : (s.recordDivergence b).2.finalityStatus ≠ .active := by
    intro hactive
    rcases recordDivergence_cases b s with ⟨hpanic, hsame⟩ | ⟨_, count, status, hadd, hstatus, hnext⟩
    · rw [hsame] at hactive
      have hone : addU32 (E := BftError) b 0 1 = .ok 1 := by
        cases b <;> rfl
      apply hpanic
      rw [recordDivergence, h hactive, hone, hactive]
      rfl
    · rw [hnext] at hactive
      have hstill : status = .active := hactive
      rw [hstatus] at hstill
      split at hstill
      · cases hstill
      · rename_i hbelow
        -- an active state counts from zero, so the counter cannot stay below one
        rw [h hstill] at hadd
        have hone : count = 1 := addU32_eq_ok hadd
        exact hbelow ⟨by rw [hone]; exact UInt32.le_refl 1, hstill⟩
  cases hstatus : (s.recordDivergence b).2.finalityStatus with
  | active => exact (hnot hstatus).elim
  | paused => rfl

/-- One call keeps the counter of divergences at zero while finality is active:
resuming sets it back. -/
theorem countedWhenActive_step {s t : BftState} {call : Call} (hstep : s.Step b call t)
    (h : s.CountedWhenActive) : t.CountedWhenActive := by
  subst hstep
  cases call with
  | applyCertificate cert =>
      rw [perform]
      rcases applyCertificate_cases b s cert with ⟨_, hsame⟩ | ⟨_, _, _, hrun⟩
      · rw [hsame]
        exact h
      · rw [hrun]
        exact h
  | advanceEpoch newSet header =>
      by_cases hok : (s.advanceEpoch b newSet header).1 = .ok ()
      · rw [perform, advanceEpoch_installs hok]
        exact h
      · rw [perform, advanceEpoch_refused hok]
        exact h
  | recordDivergence =>
      intro hactive
      rw [perform, paused_of_divergence h] at hactive
      cases hactive
  | resumeFinality => exact fun _ => rfl

/-- Finality is paused and the finalised block is the given one. -/
def PausedAt (height : UInt64) (hash : Bytes 32) (s : BftState) : Prop :=
  s.finalityStatus = .paused ∧ s.finalisedHeight = height ∧ s.blockHash = hash

/-- Only `resumeFinality` ends a pause, so under any other call a paused node
stays at its block. -/
theorem pausedAt_step {height : UInt64} {hash : Bytes 32} {e : Transition BftState Call}
    (hstep : e.before.Step b e.label e.after) (h : PausedAt height hash e.before)
    (hresume : e.label ≠ .resumeFinality) : PausedAt height hash e.after := by
  obtain ⟨hpaused, hheight, hhash⟩ := h
  have hafter : e.after = e.before.perform b e.label := hstep
  have hstatus : e.after.finalityStatus = .paused := by
    rw [hafter]
    cases hlabel : e.label with
    | applyCertificate cert =>
        rw [perform, applyCertificate, if_pos hpaused]
        exact hpaused
    | advanceEpoch newSet header =>
        by_cases hok : (e.before.advanceEpoch b newSet header).1 = .ok ()
        · rw [perform, advanceEpoch_installs hok]
          exact hpaused
        · rw [perform, advanceEpoch_refused hok]
          exact hpaused
    | recordDivergence =>
        rw [perform]
        apply paused_of_divergence
        intro hactive
        rw [hpaused] at hactive
        cases hactive
    | resumeFinality => exact (hresume hlabel).elim
  rcases block_cases hstep with ⟨hsameHeight, hsameHash⟩ | ⟨_, _, hactive, _⟩
  · exact ⟨hstatus, hsameHeight.trans hheight, hsameHash.trans hhash⟩
  · rw [hpaused] at hactive
    cases hactive

/-- **The finality state machine.**  In every run from genesis every call obeys
`CallLaw`, an epoch below the largest one grows by one in a rotation, and from
a reported divergence to the next resumption the finalised block stands and
nothing is final. -/
theorem finality_run (b : Build) (vs : ValidatorSet) (genesisHash : Bytes 32)
    (es : List (Transition BftState Call)) (t : BftState)
    (run : Trace (Step b) (genesis vs genesisHash) es t) :
    (∀ e ∈ es, CallLaw b e) ∧
      (∀ e ∈ es, Rotation b e → e.before.epoch.toNat < 2 ^ 64 - 1 →
        e.after.epoch.toNat = e.before.epoch.toNat + 1) ∧
      ∀ pre divergence mid, es = pre ++ divergence :: mid →
        divergence.label = .recordDivergence → (∀ e ∈ mid, e.label ≠ .resumeFinality) →
          t.finalisedHeight = divergence.before.finalisedHeight ∧
            t.blockHash = divergence.before.blockHash ∧ ∀ height, t.isFinal height = false := by
  have hlaw : ∀ e ∈ es, CallLaw b e := fun e he =>
    callLaw_of_step (run.step_of_mem he)
      (run.invariant_before (fun _ _ _ hstep h => epochInForce_step hstep h) rfl he)
  refine ⟨hlaw, ?_, ?_⟩
  · intro e he hrotation hbelow
    rw [(hlaw e he).rotated hrotation]
    exact toNat_add_of_lt (by simp only [UInt64.reduceToNat]; omega)
  · intro pre divergence mid hsplit hlabel hmid
    have hcounted : divergence.before.CountedWhenActive :=
      run.invariant_before (fun _ _ _ hstep h => countedWhenActive_step hstep h) (fun _ => rfl)
        (by rw [hsplit]; simp)
    have hsplit' : es = (pre ++ [divergence]) ++ mid := by rw [hsplit]; simp
    rw [hsplit'] at run
    obtain ⟨u, hfirst, hrest⟩ := run.append_inv
    obtain ⟨_, hstep, rfl⟩ := hfirst.snoc_inv
    have hafter : divergence.after = divergence.before.perform b divergence.label := hstep
    have hstart : PausedAt divergence.before.finalisedHeight divergence.before.blockHash
        divergence.after := by
      rw [hafter, hlabel]
      have hother : ∀ cert, Call.recordDivergence ≠ .applyCertificate cert := by
        intro cert h
        cases h
      have hblock := block_kept (b := b) (s := divergence.before) hother
      exact ⟨paused_of_divergence hcounted, hblock.1, hblock.2⟩
    obtain ⟨hpaused, hheight, hhash⟩ :=
      hrest.invariant_of_all (fun e hstep h hresume => pausedAt_step hstep h hresume) hstart hmid
    refine ⟨hheight, hhash, ?_⟩
    intro height
    simp [isFinal, hpaused]

end BftState

/-- The genesis state after a divergence is reported. -/
def divergedGenesis : BftState :=
  (sampleGenesis.recordDivergence .debug).2

/-- After a divergence nothing is final, the genesis block included. -/
theorem diverged_not_final : divergedGenesis.isFinal 0 = false :=
  ((@BftState.finality_run checksumCrypto .debug (sampleSet 0 [1]) (Bytes.replicate 32 0)
    [⟨sampleGenesis, .recordDivergence, divergedGenesis⟩] divergedGenesis
    (Trace.single rfl)).2.2 [] _ [] rfl rfl (by simp)).2.2 0

end Zona
