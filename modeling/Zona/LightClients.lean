import Zona.CommitteeRotations
import Zona.FinalityStates
import Zona.HashMaps

/-!
# Light clients

A light client trusts an anchor, keeps one committee, and counts for every
block the channels that reported a certificate for it.  It accepts a block on
the second channel, or on the first when an external checkpoint is held.

The channels are counted per height and hash in the map `pending`, which a
rotation leaves as it is: the certificate of each channel was verified against
the committee in force when it came in.  The committee is neither compared
with the anchor at the start nor with the headers that drive its rotations.
-/

namespace Zona

/-- A trusted genesis or checkpoint anchor. -/
structure Anchor where
  height : UInt64
  blockHash : Bytes 32
  validatorSetHash : Bytes 32
  deriving DecidableEq

/-- An incoming certificate observation from one channel. -/
structure CertObservation where
  cert : BftCertificate
  referrerId : NodeId
  deriving DecidableEq

/-- The block an observation is about. -/
def CertObservation.block (obs : CertObservation) : UInt64 × Bytes 32 :=
  (obs.cert.payload.height, obs.cert.payload.blockHash)

/-- The state of a light client. -/
structure LightClient where
  anchor : Anchor
  bestHeight : UInt64
  bestHash : Bytes 32
  pending : HashMap (UInt64 × Bytes 32) (Finset NodeId)
  validatorSet : ValidatorSet
  hasExternalCheckpoint : Bool

namespace LightClient

/-- Create from an anchor and the genesis validator set. -/
def fromGenesis (anchor : Anchor) (validatorSet : ValidatorSet) : LightClient where
  anchor := anchor
  bestHeight := anchor.height
  bestHash := anchor.blockHash
  pending := ∅
  validatorSet := validatorSet
  hasExternalCheckpoint := false

/-- Record that an out-of-band checkpoint is available. -/
def provideExternalCheckpoint (c : LightClient) : LightClient :=
  { c with hasExternalCheckpoint := true }

/-- The channels that have confirmed a block, with one more. -/
def confirm (c : LightClient) (obs : CertObservation) : Finset NodeId :=
  insert obs.referrerId ((c.pending.lookup obs.block).getD ∅)

/-- The client once it has noted the channel of an observation. -/
def collect (c : LightClient) (obs : CertObservation) : LightClient :=
  { c with pending := c.pending.put obs.block (c.confirm obs) }

/-- The acceptance conditions on the number of channels. -/
def accepted (c : LightClient) (channelCount : Nat) : Bool :=
  decide (2 ≤ channelCount) || (decide (1 ≤ channelCount) && c.hasExternalCheckpoint)

/-- The client once it has made the block of an observation its best: the
checkpoint is consumed and older entries are evicted. -/
def accept (c : LightClient) (obs : CertObservation) : LightClient :=
  { c with
    bestHeight := obs.cert.payload.height
    bestHash := obs.cert.payload.blockHash
    hasExternalCheckpoint := false
    pending := HashMap.retain
      (fun key _ => decide (obs.cert.payload.height < key.1)) c.pending }

/-- Submit an observation: `ok true` when the best header advances. -/
def observe [Crypto] (b : Build) (c : LightClient) (obs : CertObservation) :
    Outcome BftError Bool × LightClient :=
  match obs.cert.verify b c.validatorSet with
  | .err e => (.err e, c)
  | .panic => (.panic, c)
  | .ok () =>
      if obs.cert.payload.height ≤ c.bestHeight then (.ok false, c)
      else if c.accepted (c.confirm obs).card then (.ok true, (c.collect obs).accept obs)
      else (.ok false, c.collect obs)

/-- Verify a chain of headers from the anchor to the current epoch. -/
def verifyEpochChain (b : Build) (c : LightClient) (chain : List EpochHeader) :
    Outcome BftError Unit :=
  Zona.verifyEpochChain b c.anchor.validatorSetHash chain

/-- Advance to a new epoch by verifying the transition commitment. -/
def advanceEpoch (b : Build) (c : LightClient) (newSet : ValidatorSet) (header : EpochHeader) :
    Outcome BftError Unit × LightClient :=
  match checkRotation b c.validatorSet.epoch newSet header with
  | .ok () => (.ok (), { c with validatorSet := newSet })
  | refused => (refused, c)

/-- The calls that change a light client. -/
inductive Call
  | observe (obs : CertObservation)
  | provideExternalCheckpoint
  | advanceEpoch (newSet : ValidatorSet) (header : EpochHeader)
  deriving DecidableEq

/-- The client after a call, whatever the call returned. -/
def perform [Crypto] (b : Build) (c : LightClient) : Call → LightClient
  | .observe obs => (c.observe b obs).2
  | .provideExternalCheckpoint => c.provideExternalCheckpoint
  | .advanceEpoch newSet header => (c.advanceEpoch b newSet header).2

/-- One call on a client. -/
def Step [Crypto] (b : Build) (c : LightClient) (call : Call) (d : LightClient) : Prop :=
  d = c.perform b call

/-- The client accepts a rotation exactly if the checks on the header and the
new set pass, as a full node does. -/
theorem advanceEpoch_ok {b : Build} {c : LightClient} {newSet : ValidatorSet}
    {header : EpochHeader} :
    (c.advanceEpoch b newSet header).1 = .ok () ↔
      checkRotation b c.validatorSet.epoch newSet header = .ok () := by
  unfold advanceEpoch
  cases checkRotation b c.validatorSet.epoch newSet header <;> simp

theorem advanceEpoch_snd (b : Build) (c : LightClient) (newSet : ValidatorSet)
    (header : EpochHeader) :
    (c.advanceEpoch b newSet header).2 =
      { c with validatorSet :=
        if checkRotation b c.validatorSet.epoch newSet header = .ok () then newSet
        else c.validatorSet } := by
  unfold advanceEpoch
  cases hcheck : checkRotation b c.validatorSet.epoch newSet header with
  | ok u => simp
  | err e => simp
  | panic => simp

section Runs

variable [Crypto] {b : Build}

/-- A valid report above the best height is counted, and its block accepted
when the count is reached. -/
theorem observe_of_valid {c : LightClient} {obs : CertObservation}
    (hverify : obs.cert.verify b c.validatorSet = .ok ())
    (habove : c.bestHeight < obs.cert.payload.height) :
    (c.accepted (c.confirm obs).card = true ∧
        c.observe b obs = (.ok true, (c.collect obs).accept obs)) ∨
      (c.accepted (c.confirm obs).card = false ∧
        c.observe b obs = (.ok false, c.collect obs)) := by
  have hheight : ¬ obs.cert.payload.height ≤ c.bestHeight := UInt64.not_le.mpr habove
  cases haccepted : c.accepted (c.confirm obs).card with
  | true => exact Or.inl ⟨rfl, by simp [observe, hverify, hheight, haccepted]⟩
  | false => exact Or.inr ⟨rfl, by simp [observe, hverify, hheight, haccepted]⟩

/-- **What an observation can do.**  It changes nothing; or its certificate
verifies against the committee in force, its block is above the best one, and
its channel is noted, with the block accepted when the count is reached. -/
theorem observe_cases (b : Build) (c : LightClient) (obs : CertObservation) :
    ((c.observe b obs).1 ≠ .ok true ∧ (c.observe b obs).2 = c) ∨
      (obs.cert.verify b c.validatorSet = .ok () ∧ c.bestHeight < obs.cert.payload.height ∧
        ((c.accepted (c.confirm obs).card = true ∧
            c.observe b obs = (.ok true, (c.collect obs).accept obs)) ∨
          (c.accepted (c.confirm obs).card = false ∧
            c.observe b obs = (.ok false, c.collect obs)))) := by
  cases hverify : obs.cert.verify b c.validatorSet with
  | err e => exact Or.inl ⟨by simp [observe, hverify], by simp [observe, hverify]⟩
  | panic => exact Or.inl ⟨by simp [observe, hverify], by simp [observe, hverify]⟩
  | ok u =>
      by_cases hheight : obs.cert.payload.height ≤ c.bestHeight
      · exact Or.inl ⟨by simp [observe, hverify, hheight], by simp [observe, hverify, hheight]⟩
      · have habove : c.bestHeight < obs.cert.payload.height := UInt64.not_le.mp hheight
        exact Or.inr ⟨rfl, habove, observe_of_valid hverify habove⟩

/-- An observation never touches the anchor or the committee. -/
theorem observe_keeps (c : LightClient) (obs : CertObservation) :
    (c.observe b obs).2.anchor = c.anchor ∧
      (c.observe b obs).2.validatorSet = c.validatorSet := by
  rcases observe_cases b c obs with ⟨_, hsame⟩ | ⟨_, _, ⟨_, hrun⟩ | ⟨_, hrun⟩⟩
  · rw [hsame]
    exact ⟨rfl, rfl⟩
  · rw [hrun]
    exact ⟨rfl, rfl⟩
  · rw [hrun]
    exact ⟨rfl, rfl⟩

/-- The anchor is never modified after construction, so it stays the point from
which trust is counted. -/
theorem perform_anchor (c : LightClient) (call : Call) :
    (c.perform b call).anchor = c.anchor := by
  cases call with
  | observe obs => exact (observe_keeps c obs).1
  | provideExternalCheckpoint => rfl
  | advanceEpoch newSet header => rw [perform, advanceEpoch_snd]

/-- What a call asks for, when it asks for a rotation. -/
def rotationRequest : Call → Option (ValidatorSet × EpochHeader)
  | .advanceEpoch newSet header => some (newSet, header)
  | _ => none

/-- The rotations of a run. -/
def rotations (b : Build) (es : List (Transition LightClient Call)) :
    List (Transition ValidatorSet EpochHeader) :=
  Zona.rotations b validatorSet rotationRequest es

omit [Crypto] in
/-- A call asks for a rotation exactly if it is `advanceEpoch` with that set
and that header. -/
theorem rotationRequest_eq_some {call : Call} {newSet : ValidatorSet} {header : EpochHeader} :
    rotationRequest call = some (newSet, header) ↔ call = .advanceEpoch newSet header := by
  cases call <;> simp [rotationRequest]

/-- Every call treats the committee as a rotation system does. -/
theorem obeys_of_step {e : Transition LightClient Call}
    (hstep : e.before.Step b e.label e.after) : Obeys b validatorSet rotationRequest e := by
  have hafter : e.after = e.before.perform b e.label := hstep
  cases hlabel : e.label with
  | observe obs =>
      rw [obeys_of_silent (by rw [hlabel]; rfl), hafter, hlabel]
      exact (observe_keeps e.before obs).2
  | provideExternalCheckpoint =>
      rw [obeys_of_silent (by rw [hlabel]; rfl), hafter, hlabel]
      rfl
  | advanceEpoch newSet header =>
      rw [obeys_of_request (rotationRequest_eq_some.mpr hlabel), hafter, hlabel, perform,
        advanceEpoch_snd]

/-- **Refinement.**  The committees of a run form a history of rotations, so
the argument about trust in committees applies to the client. -/
theorem rotations_run {c d : LightClient} {es : List (Transition LightClient Call)}
    (run : Trace (Step b) c es d) :
    Trace (Rotates b) c.validatorSet (rotations b es) d.validatorSet :=
  Zona.rotations_run run fun _ he => obeys_of_step (run.step_of_mem he)

/-- The chains a client verifies are chains from the anchor it was built with. -/
theorem verifyEpochChain_run {anchor : Anchor} {vs : ValidatorSet} {c : LightClient}
    {es : List (Transition LightClient Call)}
    (run : Trace (Step b) (fromGenesis anchor vs) es c) (chain : List EpochHeader) :
    c.verifyEpochChain b chain = Zona.verifyEpochChain b anchor.validatorSetHash chain := by
  have hstep : ∀ t call u, Step b t call u → t.anchor = anchor → u.anchor = anchor := by
    intro t call u hstep hanchor
    have hafter : u = t.perform b call := hstep
    rw [hafter, perform_anchor, hanchor]
  rw [verifyEpochChain, Trace.invariant hstep run rfl]

/-- The channel confirmed the block earlier in the run. -/
def Confirmed (b : Build) (es : List (Transition LightClient Call))
    (block : UInt64 × Bytes 32) (channel : NodeId) : Prop :=
  ∃ e ∈ es, ∃ obs, e.label = .observe obs ∧ obs.referrerId = channel ∧ obs.block = block ∧
    obs.cert.verify b e.before.validatorSet = .ok ()

/-- A channel is counted for a block.  Every such channel has confirmed the block
in the run, with a certificate that the committee in force then verified. -/
def Counted (c : LightClient) (block : UInt64 × Bytes 32) (channel : NodeId) : Prop :=
  ∃ refs, c.pending.lookup block = some refs ∧ channel ∈ refs

omit [Crypto] in
/-- The channels of a block after an observation are those before it and the
one that made it. -/
theorem mem_confirm {c : LightClient} {obs : CertObservation} {channel : NodeId} :
    channel ∈ c.confirm obs ↔ channel = obs.referrerId ∨ c.Counted obs.block channel := by
  unfold confirm Counted
  cases c.pending.lookup obs.block <;> simp

omit [Crypto] in
/-- What is counted after collecting an observation was counted before, or it
is the channel of that observation for its block. -/
theorem counted_collect {c : LightClient} {obs : CertObservation} {block : UInt64 × Bytes 32}
    {channel : NodeId} (h : (c.collect obs).Counted block channel) :
    c.Counted block channel ∨ (block = obs.block ∧ channel = obs.referrerId) := by
  obtain ⟨refs, hlookup, hmem⟩ := h
  rw [collect, HashMap.lookup_put] at hlookup
  by_cases hblock : block = obs.block
  · rw [if_pos hblock, Option.some.injEq] at hlookup
    rw [← hlookup, mem_confirm] at hmem
    rcases hmem with hchannel | hcounted
    · exact Or.inr ⟨hblock, hchannel⟩
    · rw [hblock]
      exact Or.inl hcounted
  · rw [if_neg hblock] at hlookup
    exact Or.inl ⟨refs, hlookup, hmem⟩

omit [Crypto] in
/-- Accepting a block counts nothing new, as it only evicts blocks that are too
low. -/
theorem counted_accept {c : LightClient} {obs : CertObservation} {block : UInt64 × Bytes 32}
    {channel : NodeId} (h : (c.accept obs).Counted block channel) : c.Counted block channel := by
  obtain ⟨refs, hlookup, hmem⟩ := h
  exact ⟨refs, HashMap.lookup_of_retain hlookup, hmem⟩

/-- A call adds to the channels counted only by a verified observation. -/
theorem counted_perform {c : LightClient} {call : Call} {block : UInt64 × Bytes 32}
    {channel : NodeId} (h : (c.perform b call).Counted block channel) :
    c.Counted block channel ∨ ∃ obs, call = .observe obs ∧ obs.referrerId = channel ∧
      obs.block = block ∧ obs.cert.verify b c.validatorSet = .ok () := by
  cases call with
  | provideExternalCheckpoint => exact Or.inl h
  | advanceEpoch newSet header =>
      rw [perform, advanceEpoch_snd] at h
      exact Or.inl h
  | observe obs =>
      rw [perform] at h
      have hcollected : (obs.cert.verify b c.validatorSet = .ok ()) →
          (c.collect obs).Counted block channel →
          c.Counted block channel ∨ ∃ obs', Call.observe obs = .observe obs' ∧
            obs'.referrerId = channel ∧ obs'.block = block ∧
            obs'.cert.verify b c.validatorSet = .ok () := by
        intro hverify hcounted
        rcases counted_collect hcounted with hbefore | ⟨hblock, hchannel⟩
        · exact Or.inl hbefore
        · exact Or.inr ⟨obs, rfl, hchannel.symm, hblock.symm, hverify⟩
      rcases observe_cases b c obs with ⟨_, hsame⟩ | ⟨hverify, _, ⟨_, hrun⟩ | ⟨_, hrun⟩⟩
      · rw [hsame] at h
        exact Or.inl h
      · rw [hrun] at h
        exact hcollected hverify (counted_accept h)
      · rw [hrun] at h
        exact hcollected hverify h

/-- **Counted channels confirmed.**  In every run from genesis a channel that
is counted for a block has shown a certificate of it that verified. -/
theorem confirmed_of_counted {anchor : Anchor} {vs : ValidatorSet} {c : LightClient}
    {es : List (Transition LightClient Call)}
    (run : Trace (Step b) (fromGenesis anchor vs) es c) {block : UInt64 × Bytes 32}
    {channel : NodeId} (h : c.Counted block channel) : Confirmed b es block channel := by
  induction run with
  | nil =>
      obtain ⟨refs, hlookup, _⟩ := h
      simp [fromGenesis] at hlookup
  | @snoc t u call es init last ih =>
      have hafter : u = t.perform b call := last
      rw [hafter] at h
      rcases counted_perform h with hbefore | ⟨obs, hcall, hchannel, hblock, hverify⟩
      · obtain ⟨e, he, hconfirmed⟩ := ih hbefore
        exact ⟨e, List.mem_append_left _ he, hconfirmed⟩
      · exact ⟨⟨t, call, u⟩, by simp, obs, hcall, hchannel, hblock, hverify⟩

/-- **Two channels.**  When an observation is accepted in a run and no external
checkpoint is held, another channel observed the same block earlier in the
run.  The certificate of each of the two verified against the committee in
force when it was observed. -/
theorem observe_two_channels (b : Build) (anchor : Anchor) (vs : ValidatorSet)
    (es : List (Transition LightClient Call)) (c : LightClient)
    (run : Trace (Step b) (fromGenesis anchor vs) es c) (obs : CertObservation)
    (hcheckpoint : c.hasExternalCheckpoint = false)
    (haccepted : (c.observe b obs).1 = .ok true) :
    obs.cert.verify b c.validatorSet = .ok () ∧
      ∃ e ∈ es, ∃ first, e.label = .observe first ∧
        first.referrerId ≠ obs.referrerId ∧
        first.cert.payload.height = obs.cert.payload.height ∧
        first.cert.payload.blockHash = obs.cert.payload.blockHash ∧
        first.cert.verify b e.before.validatorSet = .ok () := by
  rcases observe_cases b c obs with ⟨hrefused, _⟩ | ⟨hverify, _, ⟨hcount, _⟩ | ⟨_, hrun⟩⟩
  · exact (hrefused haccepted).elim
  · refine ⟨hverify, ?_⟩
    have htwo : 2 ≤ (c.confirm obs).card := by
      simpa [accepted, hcheckpoint] using hcount
    obtain ⟨channel, hmem, hother⟩ := Finset.exists_mem_ne htwo obs.referrerId
    have hcounted : c.Counted obs.block channel :=
      (mem_confirm.mp hmem).resolve_left hother
    obtain ⟨e, he, first, hlabel, hchannel, hblock, hfirst⟩ := confirmed_of_counted run hcounted
    have hheight := congrArg Prod.fst hblock
    have hhash := congrArg Prod.snd hblock
    exact ⟨e, he, first, hlabel, by rw [hchannel]; exact hother, hheight, hhash, hfirst⟩
  · rw [hrun] at haccepted
    cases haccepted

end Runs

end LightClient

/-- A client of the committee of epoch 0, anchored to it. -/
def sampleClient : LightClient :=
  .fromGenesis ⟨0, Bytes.replicate 32 0, (sampleSet 0 [1]).setHash⟩
    (sampleSet 0 [1])

/-- A report of the block at height 9, signed by the given members of an epoch. -/
def sampleObservation (epoch : UInt64) (ks : List UInt8) (channel : UInt8) :
    CertObservation where
  cert := sampleCert ⟨epoch, 9, Bytes.replicate 32 0xAB⟩ ks
  referrerId := ⟨Bytes.replicate 32 channel⟩

/-- The client after one channel reported the block in epoch 0. -/
def clientWithReport : LightClient :=
  @LightClient.perform checksumCrypto .debug sampleClient
    (.observe (sampleObservation 0 [1] 0xAA))

/-- The same client after the rotation to the committee of epoch 1. -/
def clientAfterRotation : LightClient :=
  @LightClient.perform checksumCrypto .debug clientWithReport
    (.advanceEpoch (sampleSet 1 [5]) currentHeader)

/-- The run of these two calls. -/
def sampleClientRun : List (Transition LightClient LightClient.Call) :=
  [⟨sampleClient, .observe (sampleObservation 0 [1] 0xAA), clientWithReport⟩,
    ⟨clientWithReport, .advanceEpoch (sampleSet 1 [5]) currentHeader,
      clientAfterRotation⟩]

/-- The calls on the sample client make a run, ending after a rotation. -/
theorem sampleClientRun_trace :
    Trace (@LightClient.Step checksumCrypto .debug) sampleClient sampleClientRun
      clientAfterRotation :=
  Trace.snoc (Trace.snoc Trace.nil rfl) rfl

/-- After the rotation no checkpoint is held, a second report is accepted, and
the first one no longer verifies. -/
theorem sampleClient_facts :
    clientAfterRotation.hasExternalCheckpoint = false ∧
      (@LightClient.observe checksumCrypto .debug clientAfterRotation
        (sampleObservation 1 [5] 0xBB)).1 = .ok true ∧
      @BftCertificate.verify checksumCrypto .debug (sampleObservation 0 [1] 0xAA).cert
        clientAfterRotation.validatorSet ≠ .ok () := by
  decide +kernel

/-- Two reports in two epochs: the second one is accepted, and the earlier
report is the one that the first channel made under the committee of epoch 0. -/
theorem two_channels_across_rotation :
    ∃ e ∈ sampleClientRun, ∃ first, e.label = .observe first ∧
      first.referrerId ≠ (sampleObservation 1 [5] 0xBB).referrerId ∧
      @BftCertificate.verify checksumCrypto .debug first.cert e.before.validatorSet = .ok () := by
  obtain ⟨hnone, haccepted, _⟩ := sampleClient_facts
  obtain ⟨_, e, he, first, hlabel, hother, _, _, hverify⟩ :=
    @LightClient.observe_two_channels checksumCrypto .debug _ _ sampleClientRun
      clientAfterRotation sampleClientRun_trace (sampleObservation 1 [5] 0xBB)
      hnone haccepted
  exact ⟨e, he, first, hlabel, hother, hverify⟩

/-- In that run the second report is accepted with no checkpoint held, and no
earlier observation verifies against the committee in force. -/
theorem stale_confirmation_counts :
    Trace (@LightClient.Step checksumCrypto .debug) sampleClient sampleClientRun
        clientAfterRotation ∧
      clientAfterRotation.hasExternalCheckpoint = false ∧
      (@LightClient.observe checksumCrypto .debug clientAfterRotation
        (sampleObservation 1 [5] 0xBB)).1 = .ok true ∧
      ∀ e ∈ sampleClientRun, ∀ first, e.label = .observe first →
        @BftCertificate.verify checksumCrypto .debug first.cert
          clientAfterRotation.validatorSet ≠ .ok () := by
  obtain ⟨hnone, haccepted, hstale⟩ := sampleClient_facts
  refine ⟨sampleClientRun_trace, hnone, haccepted, ?_⟩
  intro e he first hlabel
  rcases List.mem_cons.mp he with hfirst | hrest
  · rw [hfirst] at hlabel
    cases hlabel
    exact hstale
  · rw [List.mem_singleton.mp hrest] at hlabel
    cases hlabel

end Zona
