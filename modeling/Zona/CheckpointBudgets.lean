import Zona.LightClients

/-!
# The head of a light client and its checkpoints

What a call may do to the best header is read off `observe_cases`: it is
raised by exactly the observations that return `ok true`, and by a certificate
that has just verified.  Every pending entry lies above it.

An acceptance on one channel consumes a checkpoint.  `budget_run` keeps the
account over a whole run: single-channel advances, and the checkpoint still
held, never outnumber the checkpoints provided.
-/

namespace Zona

namespace LightClient

variable [Crypto] {b : Build}

/-- The call is an observation that advances the best header. -/
def Advances (b : Build) (e : Transition LightClient Call) : Prop :=
  ∃ obs, e.label = .observe obs ∧ (e.before.observe b obs).1 = .ok true

/-- The call advances the best header with one channel recorded. -/
def advancesAlone (b : Build) (e : Transition LightClient Call) : Bool :=
  match e.label with
  | .observe obs =>
      decide ((e.before.observe b obs).1 = .ok true ∧ (e.before.confirm obs).card = 1)
  | _ => false

/-- The call provides a checkpoint. -/
def providesCheckpoint (e : Transition LightClient Call) : Bool :=
  match e.label with
  | .provideExternalCheckpoint => true
  | _ => false

/-- What one call may do to the best header. -/
structure HeadLaw (b : Build) (e : Transition LightClient Call) : Prop where
  raised_iff : e.before.bestHeight < e.after.bestHeight ↔ Advances b e
  kept : ¬ Advances b e →
    e.after.bestHeight = e.before.bestHeight ∧ e.after.bestHash = e.before.bestHash
  certified : Advances b e →
    ∃ obs, e.label = .observe obs ∧ obs.cert.verify b e.before.validatorSet = .ok () ∧
      e.after.bestHeight = obs.cert.payload.height ∧
      e.after.bestHash = obs.cert.payload.blockHash

/-- **An accepted observation** carries a certificate that verifies, is above
the best height, and becomes the best header. -/
theorem observe_true {c : LightClient} {obs : CertObservation}
    (h : (c.observe b obs).1 = .ok true) :
    obs.cert.verify b c.validatorSet = .ok () ∧ c.bestHeight < obs.cert.payload.height ∧
      c.accepted (c.confirm obs).card = true ∧
      (c.observe b obs).2 = (c.collect obs).accept obs := by
  rcases observe_cases b c obs with ⟨hrefused, _⟩ | ⟨hverify, habove, ⟨hcount, hrun⟩ | ⟨_, hrun⟩⟩
  · exact (hrefused h).elim
  · exact ⟨hverify, habove, hcount, by rw [hrun]⟩
  · rw [hrun] at h
    cases h

/-- Any other observation leaves the best header and the checkpoint alone. -/
theorem observe_not_true {c : LightClient} {obs : CertObservation}
    (h : (c.observe b obs).1 ≠ .ok true) :
    (c.observe b obs).2.bestHeight = c.bestHeight ∧
      (c.observe b obs).2.bestHash = c.bestHash ∧
      (c.observe b obs).2.hasExternalCheckpoint = c.hasExternalCheckpoint := by
  rcases observe_cases b c obs with ⟨_, hsame⟩ | ⟨_, _, ⟨_, hrun⟩ | ⟨_, hrun⟩⟩
  · rw [hsame]
    exact ⟨rfl, rfl, rfl⟩
  · rw [hrun] at h
    exact (h rfl).elim
  · rw [hrun]
    exact ⟨rfl, rfl, rfl⟩

/-- A call that does not advance the best header leaves it as it is. -/
theorem head_kept {e : Transition LightClient Call} (hstep : e.before.Step b e.label e.after)
    (h : ¬ Advances b e) :
    e.after.bestHeight = e.before.bestHeight ∧ e.after.bestHash = e.before.bestHash := by
  have hafter : e.after = e.before.perform b e.label := hstep
  cases hlabel : e.label with
  | observe obs =>
      have hrefused : (e.before.observe b obs).1 ≠ .ok true := fun htrue => h ⟨obs, hlabel, htrue⟩
      rw [hafter, hlabel, perform]
      exact ⟨(observe_not_true hrefused).1, (observe_not_true hrefused).2.1⟩
  | provideExternalCheckpoint =>
      rw [hafter, hlabel]
      exact ⟨rfl, rfl⟩
  | advanceEpoch newSet header =>
      rw [hafter, hlabel, perform, advanceEpoch_snd]
      exact ⟨rfl, rfl⟩

/-- A call that advances the best header raises it to a verified block. -/
theorem head_certified {e : Transition LightClient Call} (hstep : e.before.Step b e.label e.after)
    (h : Advances b e) :
    ∃ obs, e.label = .observe obs ∧ obs.cert.verify b e.before.validatorSet = .ok () ∧
      e.before.bestHeight < obs.cert.payload.height ∧
      e.after.bestHeight = obs.cert.payload.height ∧
      e.after.bestHash = obs.cert.payload.blockHash := by
  have hafter : e.after = e.before.perform b e.label := hstep
  obtain ⟨obs, hlabel, htrue⟩ := h
  obtain ⟨hverify, habove, _, hnext⟩ := observe_true htrue
  refine ⟨obs, hlabel, hverify, habove, ?_⟩
  rw [hafter, hlabel, perform, hnext]
  exact ⟨rfl, rfl⟩

/-- **One call and the best header**: it moves only where the certificate
verified and its channels, or one channel and a checkpoint, suffice. -/
theorem headLaw_of_step {e : Transition LightClient Call}
    (hstep : e.before.Step b e.label e.after) : HeadLaw b e where
  raised_iff := by
    constructor
    · intro hraised
      by_contra hidle
      rw [(head_kept hstep hidle).1] at hraised
      exact UInt64.lt_irrefl _ hraised
    · intro hadvances
      obtain ⟨obs, _, _, habove, hheight, _⟩ := head_certified hstep hadvances
      rw [hheight]
      exact habove
  kept := head_kept hstep
  certified := by
    intro hadvances
    obtain ⟨obs, hlabel, hverify, _, hheight, hhash⟩ := head_certified hstep hadvances
    exact ⟨obs, hlabel, hverify, hheight, hhash⟩

/-- Every pending entry lies above the best height. -/
def PendingAbove (c : LightClient) : Prop :=
  ∀ block ∈ c.pending, c.bestHeight < block.1

/-- One call keeps pending blocks above the head, as moving the head evicts
those at or below it. -/
theorem pendingAbove_step {c d : LightClient} {call : Call} (hstep : c.Step b call d)
    (h : c.PendingAbove) : d.PendingAbove := by
  subst hstep
  cases call with
  | provideExternalCheckpoint => exact h
  | advanceEpoch newSet header =>
      rw [perform, advanceEpoch_snd]
      exact h
  | observe obs =>
      rw [perform]
      rcases observe_cases b c obs with ⟨_, hsame⟩ | ⟨_, habove, ⟨_, hrun⟩ | ⟨_, hrun⟩⟩
      · rw [hsame]
        exact h
      · rw [hrun]
        intro block hblock
        obtain ⟨_, _, hretained⟩ := HashMap.exists_of_mem_retain hblock
        exact of_decide_eq_true hretained
      · rw [hrun]
        intro block hblock
        rcases HashMap.mem_put.mp hblock with hnew | hold
        · rw [hnew]
          exact habove
        · exact h block hold

/-- The checkpoint still held, as a number. -/
def checkpointsHeld (c : LightClient) : Nat :=
  if c.hasExternalCheckpoint then 1 else 0

/-- **One call and the account.**  A single-channel advance spends the
checkpoint that is held, and a checkpoint is held only if it was provided. -/
theorem budget_step {e : Transition LightClient Call}
    (hstep : e.before.Step b e.label e.after) :
    (if advancesAlone b e then 1 else 0) + e.after.checkpointsHeld ≤
      e.before.checkpointsHeld + if providesCheckpoint e then 1 else 0 := by
  have hafter : e.after = e.before.perform b e.label := hstep
  cases hlabel : e.label with
  | provideExternalCheckpoint =>
      have halone : advancesAlone b e = false := by rw [advancesAlone, hlabel]
      have hprovides : providesCheckpoint e = true := by rw [providesCheckpoint, hlabel]
      have hheld : e.after.checkpointsHeld = 1 := by
        rw [hafter, hlabel]
        rfl
      rw [halone, hprovides, hheld, if_neg Bool.false_ne_true, if_pos rfl]
      omega
  | advanceEpoch newSet header =>
      have halone : advancesAlone b e = false := by rw [advancesAlone, hlabel]
      have hheld : e.after.checkpointsHeld = e.before.checkpointsHeld := by
        rw [hafter, hlabel, perform, advanceEpoch_snd, checkpointsHeld, checkpointsHeld]
      rw [halone, hheld, if_neg Bool.false_ne_true]
      omega
  | observe obs =>
      have hnext : e.after = (e.before.observe b obs).2 := by
        rw [hafter, hlabel]
        rfl
      by_cases htrue : (e.before.observe b obs).1 = .ok true
      · obtain ⟨_, _, hcount, haccepted⟩ := observe_true htrue
        have hspent : e.after.checkpointsHeld = 0 := by
          rw [hnext, haccepted]
          rfl
        by_cases hone : (e.before.confirm obs).card = 1
        · have hheld : e.before.hasExternalCheckpoint = true := by
            simpa [accepted, hone] using hcount
          have hbefore : e.before.checkpointsHeld = 1 := by rw [checkpointsHeld, hheld, if_pos rfl]
          rw [hspent, hbefore]
          split <;> omega
        · have halone : advancesAlone b e = false := by
            simp [advancesAlone, hlabel, hone]
          rw [halone, hspent, if_neg Bool.false_ne_true]
          omega
      · have halone : advancesAlone b e = false := by
          simp [advancesAlone, hlabel, htrue]
        have hheld : e.after.checkpointsHeld = e.before.checkpointsHeld := by
          rw [hnext, checkpointsHeld, checkpointsHeld, (observe_not_true htrue).2.2]
        rw [halone, hheld, if_neg Bool.false_ne_true]
        omega

/-- **The account over a run.**  Advances on one channel are paid for by
checkpoints, so there are no more of them than were held or provided. -/
theorem budget_run {c d : LightClient} {es : List (Transition LightClient Call)}
    (run : Trace (Step b) c es d) :
    es.countP (advancesAlone b) + d.checkpointsHeld ≤
      c.checkpointsHeld + es.countP providesCheckpoint := by
  induction run with
  | nil => simp
  | @snoc t u call es init last ih =>
      have hone := budget_step (b := b) (e := ⟨t, call, u⟩) last
      rw [List.countP_append, List.countP_append, List.countP_singleton, List.countP_singleton]
      dsimp only at hone
      omega

/-- **Head and budget.**  In every run from genesis the best header is raised
by exactly the accepted observations, each with a certificate that verified on
that call; pending entries lie above it; and the advances made with a single
channel recorded never outnumber the checkpoints provided before. -/
theorem head_and_budget (b : Build) (anchor : Anchor) (vs : ValidatorSet)
    (es : List (Transition LightClient Call)) (c : LightClient)
    (run : Trace (Step b) (fromGenesis anchor vs) es c) :
    (∀ e ∈ es, HeadLaw b e) ∧ c.PendingAbove ∧
      es.countP (advancesAlone b) ≤ es.countP providesCheckpoint := by
  refine ⟨fun e he => headLaw_of_step (run.step_of_mem he), ?_, ?_⟩
  · apply run.invariant (fun _ _ _ hstep h => pendingAbove_step hstep h)
    intro block hblock
    cases hblock
  · have hbudget := budget_run run
    have hstart : (fromGenesis anchor vs).checkpointsHeld = 0 := rfl
    omega

end LightClient

/-- A client that is given a checkpoint and then one report. -/
def sampleCheckpointRun : List (Transition LightClient LightClient.Call) :=
  [⟨sampleClient, .provideExternalCheckpoint, sampleClient.provideExternalCheckpoint⟩,
    ⟨sampleClient.provideExternalCheckpoint, .observe (sampleObservation 0 [1] 0xAA),
      (@LightClient.observe checksumCrypto .debug sampleClient.provideExternalCheckpoint
        (sampleObservation 0 [1] 0xAA)).2⟩]

/-- The sample client gets a checkpoint and one observation, which makes a run. -/
theorem sampleCheckpointRun_trace :
    Trace (@LightClient.Step checksumCrypto .debug) sampleClient sampleCheckpointRun
      (@LightClient.observe checksumCrypto .debug sampleClient.provideExternalCheckpoint
        (sampleObservation 0 [1] 0xAA)).2 :=
  Trace.snoc (Trace.snoc Trace.nil rfl) rfl

/-- In that run the head advances on one channel, and one checkpoint pays for it. -/
theorem sample_checkpoint_spent :
    sampleCheckpointRun.countP (@LightClient.advancesAlone checksumCrypto .debug) = 1 ∧
      sampleCheckpointRun.countP (@LightClient.advancesAlone checksumCrypto .debug) ≤
        sampleCheckpointRun.countP LightClient.providesCheckpoint :=
  ⟨by decide +kernel,
    (@LightClient.head_and_budget checksumCrypto .debug _ _ sampleCheckpointRun _
      sampleCheckpointRun_trace).2.2⟩

end Zona
