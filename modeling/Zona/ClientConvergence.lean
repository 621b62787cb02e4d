import Zona.LightClients
import Mathlib.Order.Bounds.Basic

/-!
# Convergence of a light client

Under one committee and without a checkpoint, what a client ends up with
depends on the observations it is shown and not on their order or their
number.  A block is `TwiceReported` when two channels made valid reports of it;
the client's best height is the greatest of its initial one and of those of the
blocks so reported.

The client forgets: an acceptance evicts every entry at or below the new
height.  `Summary` is the invariant that makes this harmless: above the best
height the channels counted are exactly those that reported, and no block
there has two of them.
-/

namespace Zona

namespace LightClient

variable [Crypto]

/-- The client after a list of observations, one after the other. -/
def observeAll (b : Build) (c : LightClient) (observations : List CertObservation) :
    LightClient :=
  observations.foldl (fun c obs => (c.observe b obs).2) c

/-- The channel made a valid report of the block. -/
def Reported (b : Build) (vs : ValidatorSet) (observations : List CertObservation)
    (block : UInt64 × Bytes 32) (channel : NodeId) : Prop :=
  ∃ obs ∈ observations, obs.cert.verify b vs = .ok () ∧ obs.block = block ∧
    obs.referrerId = channel

/-- Two observations with valid certificates for the block and with different
referrers occur. -/
def TwiceReported (b : Build) (vs : ValidatorSet) (observations : List CertObservation)
    (block : UInt64 × Bytes 32) : Prop :=
  ∃ channel channel', channel ≠ channel' ∧ Reported b vs observations block channel ∧
    Reported b vs observations block channel'

variable {b : Build} {vs : ValidatorSet}

/-- A report after one more observation was there before, or this observation
verified and is that report. -/
theorem reported_snoc {observations : List CertObservation} {obs : CertObservation}
    {block : UInt64 × Bytes 32} {channel : NodeId} :
    Reported b vs (observations ++ [obs]) block channel ↔
      Reported b vs observations block channel ∨
        (obs.cert.verify b vs = .ok () ∧ obs.block = block ∧ obs.referrerId = channel) := by
  unfold Reported
  constructor
  · intro ⟨o, ho, hreport⟩
    rcases List.mem_append.mp ho with hin | hlast
    · exact Or.inl ⟨o, hin, hreport⟩
    · rw [List.mem_singleton.mp hlast] at hreport
      exact Or.inr hreport
  · rintro (⟨o, ho, hreport⟩ | hreport)
    · exact ⟨o, List.mem_append_left _ ho, hreport⟩
    · exact ⟨obs, by simp, hreport⟩

/-- Reports depend on which observations occur, so more of them give more
reports. -/
theorem Reported.mono {observations arrivals : List CertObservation}
    (hsub : ∀ obs ∈ observations, obs ∈ arrivals) {block : UInt64 × Bytes 32} {channel : NodeId}
    (h : Reported b vs observations block channel) : Reported b vs arrivals block channel := by
  obtain ⟨obs, hobs, hreport⟩ := h
  exact ⟨obs, hsub obs hobs, hreport⟩

/-- More observations make it no harder to be reported by two channels. -/
theorem TwiceReported.mono {observations arrivals : List CertObservation}
    (hsub : ∀ obs ∈ observations, obs ∈ arrivals) {block : UInt64 × Bytes 32}
    (h : TwiceReported b vs observations block) : TwiceReported b vs arrivals block := by
  obtain ⟨channel, channel', hne, hfirst, hsecond⟩ := h
  exact ⟨channel, channel', hne, hfirst.mono hsub, hsecond.mono hsub⟩

/-- An observation that is not a valid report of the block leaves the reports
of the block as they are. -/
theorem reported_snoc_of_not {observations : List CertObservation} {obs : CertObservation}
    {block : UInt64 × Bytes 32} {channel : NodeId}
    (h : ¬ (obs.cert.verify b vs = .ok () ∧ obs.block = block)) :
    Reported b vs (observations ++ [obs]) block channel ↔
      Reported b vs observations block channel := by
  rw [reported_snoc]
  constructor
  · rintro (hbefore | ⟨hverify, hblock, _⟩)
    · exact hbefore
    · exact (h ⟨hverify, hblock⟩).elim
  · exact Or.inl

/-- What a client that started as `start` knows after `observations`. -/
structure Summary (b : Build) (start : LightClient) (observations : List CertObservation)
    (c : LightClient) : Prop where
  committee : c.validatorSet = start.validatorSet
  checkpoint : c.hasExternalCheckpoint = false
  counted : ∀ block channel, c.bestHeight < block.1 →
    (c.Counted block channel ↔ Reported b start.validatorSet observations block channel)
  open_above : ∀ block, c.bestHeight < block.1 →
    ¬ TwiceReported b start.validatorSet observations block
  best : (c.bestHeight = start.bestHeight ∧ c.bestHash = start.bestHash) ∨
    (start.bestHeight < c.bestHeight ∧
      TwiceReported b start.validatorSet observations (c.bestHeight, c.bestHash))

omit [Crypto] in
/-- The channels counted for a block once one more has been noted. -/
theorem counted_collect_iff {c : LightClient} {obs : CertObservation}
    {block : UInt64 × Bytes 32} {channel : NodeId} :
    (c.collect obs).Counted block channel ↔
      c.Counted block channel ∨ (block = obs.block ∧ channel = obs.referrerId) := by
  constructor
  · exact counted_collect
  · unfold Counted collect
    rw [HashMap.lookup_put]
    by_cases hblock : block = obs.block
    · rw [if_pos hblock]
      rintro (⟨refs, hlookup, hmem⟩ | ⟨_, hchannel⟩)
      · refine ⟨c.confirm obs, rfl, mem_confirm.mpr (Or.inr ⟨refs, ?_, hmem⟩)⟩
        rw [← hblock]
        exact hlookup
      · exact ⟨c.confirm obs, rfl, mem_confirm.mpr (Or.inl hchannel)⟩
    · rw [if_neg hblock]
      rintro (hbefore | ⟨heq, _⟩)
      · exact hbefore
      · exact (hblock heq).elim

omit [Crypto] in
/-- Above the accepted height nothing is evicted, so what was counted for a
higher block still is. -/
theorem counted_accept_iff {c : LightClient} {obs : CertObservation}
    {block : UInt64 × Bytes 32} {channel : NodeId} (h : obs.cert.payload.height < block.1) :
    (c.accept obs).Counted block channel ↔ c.Counted block channel := by
  constructor
  · exact counted_accept
  · intro ⟨refs, hlookup, hmem⟩
    exact ⟨refs, HashMap.lookup_retain_of_pos hlookup (by simpa using h), hmem⟩

omit [Crypto] in
/-- Without a checkpoint a block is accepted when two channels are counted. -/
theorem accepted_iff {c : LightClient} (h : c.hasExternalCheckpoint = false)
    (obs : CertObservation) :
    c.accepted (c.confirm obs).card = true ↔
      ∃ channel ∈ c.confirm obs, ∃ channel' ∈ c.confirm obs, channel ≠ channel' := by
  have hcount : c.accepted (c.confirm obs).card = true ↔ 1 < (c.confirm obs).card := by
    simp [accepted, h, Nat.lt_iff_add_one_le]
  rw [hcount, Finset.one_lt_card]

/-- What a client counts once it has noted a valid report above its best
height is what was reported so far, that report included. -/
theorem Summary.counted_snoc {start c : LightClient} {observations : List CertObservation}
    (h : Summary b start observations c) {obs : CertObservation}
    (hverify : obs.cert.verify b start.validatorSet = .ok ())
    {block : UInt64 × Bytes 32} {channel : NodeId} (habove : c.bestHeight < block.1) :
    (c.collect obs).Counted block channel ↔
      Reported b start.validatorSet (observations ++ [obs]) block channel := by
  rw [counted_collect_iff, reported_snoc, h.counted block channel habove]
  constructor
  · rintro (hbefore | ⟨hblock, hchannel⟩)
    · exact Or.inl hbefore
    · exact Or.inr ⟨hverify, hblock.symm, hchannel.symm⟩
  · rintro (hbefore | ⟨_, hblock, hchannel⟩)
    · exact Or.inl hbefore
    · exact Or.inr ⟨hblock.symm, hchannel.symm⟩

/-- The block of a valid report above the best height is accepted exactly when
it has now been reported twice. -/
theorem Summary.accepted_iff_twice {start c : LightClient} {observations : List CertObservation}
    (h : Summary b start observations c) {obs : CertObservation}
    (hverify : obs.cert.verify b start.validatorSet = .ok ())
    (habove : c.bestHeight < obs.cert.payload.height) :
    c.accepted (c.confirm obs).card = true ↔
      TwiceReported b start.validatorSet (observations ++ [obs]) obs.block := by
  have hmem : ∀ channel, channel ∈ c.confirm obs ↔
      Reported b start.validatorSet (observations ++ [obs]) obs.block channel := by
    intro channel
    rw [← h.counted_snoc hverify habove, counted_collect_iff, mem_confirm]
    constructor
    · rintro (hchannel | hcounted)
      · exact Or.inr ⟨rfl, hchannel⟩
      · exact Or.inl hcounted
    · rintro (hcounted | ⟨_, hchannel⟩)
      · exact Or.inr hcounted
      · exact Or.inl hchannel
  rw [accepted_iff h.checkpoint]
  constructor
  · intro ⟨channel, hfirst, channel', hsecond, hne⟩
    exact ⟨channel, channel', hne, (hmem channel).mp hfirst, (hmem channel').mp hsecond⟩
  · intro ⟨channel, channel', hne, hfirst, hsecond⟩
    exact ⟨channel, (hmem channel).mpr hfirst, channel', (hmem channel').mpr hsecond, hne⟩

/-- Only a valid report of a block can make it one that was reported twice. -/
theorem Summary.open_snoc {start c : LightClient} {observations : List CertObservation}
    (h : Summary b start observations c) {obs : CertObservation} {block : UInt64 × Bytes 32}
    (habove : c.bestHeight < block.1)
    (hother : ¬ (obs.cert.verify b start.validatorSet = .ok () ∧ obs.block = block)) :
    ¬ TwiceReported b start.validatorSet (observations ++ [obs]) block := by
  intro ⟨channel, channel', hne, hfirst, hsecond⟩
  rw [reported_snoc_of_not hother] at hfirst hsecond
  exact h.open_above block habove ⟨channel, channel', hne, hfirst, hsecond⟩

/-- What a client had at its best stays justified. -/
theorem Summary.best_snoc {start c : LightClient} {observations : List CertObservation}
    (h : Summary b start observations c) (obs : CertObservation) :
    (c.bestHeight = start.bestHeight ∧ c.bestHash = start.bestHash) ∨
      (start.bestHeight < c.bestHeight ∧
        TwiceReported b start.validatorSet (observations ++ [obs]) (c.bestHeight, c.bestHash)) := by
  rcases h.best with hsame | ⟨hraised, htwice⟩
  · exact Or.inl hsame
  · exact Or.inr ⟨hraised, htwice.mono fun o ho => List.mem_append_left _ ho⟩

/-- An observation that is no valid report above the best height changes
nothing and has no part in the reports that matter. -/
theorem Summary.ignore {start c : LightClient} {observations : List CertObservation}
    (h : Summary b start observations c) {obs : CertObservation}
    (hidle : obs.cert.verify b start.validatorSet = .ok () →
      obs.cert.payload.height ≤ c.bestHeight) :
    Summary b start (observations ++ [obs]) c := by
  have hother : ∀ block : UInt64 × Bytes 32, c.bestHeight < block.1 →
      ¬ (obs.cert.verify b start.validatorSet = .ok () ∧ obs.block = block) := by
    rintro block habove ⟨hverify, hblock⟩
    rw [← hblock] at habove
    exact UInt64.not_lt.mpr (hidle hverify) habove
  refine ⟨h.committee, h.checkpoint, ?_, ?_, h.best_snoc obs⟩
  · intro block channel habove
    rw [h.counted block channel habove, reported_snoc_of_not (hother block habove)]
  · intro block habove
    exact h.open_snoc habove (hother block habove)

/-- **One observation.**  The summary carries over, whether the observation is
refused, too low, counted, or moves the head. -/
theorem Summary.observe {start c : LightClient} {observations : List CertObservation}
    (h : Summary b start observations c) (obs : CertObservation) :
    Summary b start (observations ++ [obs]) (c.observe b obs).2 := by
  by_cases hidle : obs.cert.verify b start.validatorSet = .ok () →
      obs.cert.payload.height ≤ c.bestHeight
  · have hsame : (c.observe b obs).2 = c := by
      rcases observe_cases b c obs with ⟨_, hsame⟩ | ⟨hverify, habove, _⟩
      · exact hsame
      · rw [h.committee] at hverify
        exact (UInt64.not_lt.mpr (hidle hverify) habove).elim
    rw [hsame]
    exact h.ignore hidle
  · obtain ⟨hverify, hheight⟩ := Classical.not_imp.mp hidle
    have habove : c.bestHeight < obs.cert.payload.height := UInt64.not_le.mp hheight
    have hcount := h.accepted_iff_twice hverify habove
    have hvalid : obs.cert.verify b c.validatorSet = .ok () := by
      rw [h.committee]
      exact hverify
    rcases observe_of_valid hvalid habove with ⟨haccepted, hrun⟩ | ⟨hpending, hrun⟩
    · -- the block is the new best one: what matters now lies above it
      rw [hrun]
      refine ⟨h.committee, rfl, ?_, ?_, Or.inr ⟨?_, hcount.mp haccepted⟩⟩
      · intro block channel hnew
        rw [counted_accept_iff hnew]
        exact h.counted_snoc hverify (UInt64.lt_trans habove hnew)
      · intro block hnew
        apply h.open_snoc (UInt64.lt_trans habove hnew)
        intro hgiven
        obtain ⟨_, hblock⟩ := hgiven
        rw [← hblock] at hnew
        exact UInt64.lt_irrefl _ hnew
      · rcases h.best with ⟨hsame, _⟩ | ⟨hraised, _⟩
        · rw [← hsame]
          exact habove
        · exact UInt64.lt_trans hraised habove
    · rw [hrun]
      refine ⟨h.committee, h.checkpoint, ?_, ?_, h.best_snoc obs⟩
      · intro block channel hhigher
        exact h.counted_snoc hverify hhigher
      · intro block hhigher
        by_cases hblock : obs.block = block
        · rw [← hblock]
          intro htwice
          rw [hcount.mpr htwice] at hpending
          cases hpending
        · exact h.open_snoc hhigher (fun hreport => hblock hreport.2)

/-- **All observations**, by induction on the list: the client is the summary
of what it was shown. -/
theorem summary_observeAll (c : LightClient) (hpending : c.pending = ∅)
    (hcheckpoint : c.hasExternalCheckpoint = false) (observations : List CertObservation) :
    Summary b c observations (c.observeAll b observations) := by
  induction observations using List.reverseRecOn with
  | nil =>
      have hnone : ∀ block channel, ¬ Reported b c.validatorSet [] block channel := by
        rintro block channel ⟨obs, hobs, _⟩
        cases hobs
      refine ⟨rfl, hcheckpoint, ?_, ?_, Or.inl ⟨rfl, rfl⟩⟩
      · intro block channel _
        have hcounted : ¬ c.Counted block channel := by
          intro hgiven
          obtain ⟨refs, hlookup, _⟩ := hgiven
          simp [hpending] at hlookup
        exact ⟨fun h => (hcounted h).elim, fun h => (hnone block channel h).elim⟩
      · rintro block _ ⟨channel, _, _, hfirst, _⟩
        exact hnone block channel hfirst
  | append_singleton observations obs ih =>
      have hsplit : c.observeAll b (observations ++ [obs]) =
          ((c.observeAll b observations).observe b obs).2 := by
        rw [observeAll, List.foldl_append]
        rfl
      rw [hsplit]
      exact ih.observe obs

/-- The best height after the observations, in terms of the reports alone. -/
theorem isGreatest_bestHeight (c : LightClient) (hpending : c.pending = ∅)
    (hcheckpoint : c.hasExternalCheckpoint = false) (observations : List CertObservation) :
    IsGreatest
      (insert c.bestHeight
        {height | ∃ hash, TwiceReported b c.validatorSet observations (height, hash)})
      (c.observeAll b observations).bestHeight := by
  have hsummary := summary_observeAll (b := b) c hpending hcheckpoint observations
  have hraise : c.bestHeight ≤ (c.observeAll b observations).bestHeight := by
    rcases hsummary.best with ⟨hsame, _⟩ | ⟨hraised, _⟩
    · rw [hsame]
      exact UInt64.le_refl _
    · exact UInt64.le_of_lt hraised
  constructor
  · rcases hsummary.best with ⟨hsame, _⟩ | ⟨_, htwice⟩
    · exact Or.inl hsame
    · exact Or.inr ⟨_, htwice⟩
  · intro height hheight
    rcases hheight with hinitial | ⟨hash, htwice⟩
    · rw [hinitial]
      exact hraise
    · by_contra hle
      exact hsummary.open_above (height, hash) (UInt64.not_le.mp hle) htwice

/-- Being reported by two channels depends on which observations occur, and not
on their order or number. -/
theorem twiceReported_congr {observations arrivals : List CertObservation}
    (hsame : ∀ obs, obs ∈ arrivals ↔ obs ∈ observations) (block : UInt64 × Bytes 32) :
    TwiceReported b vs arrivals block ↔ TwiceReported b vs observations block :=
  ⟨TwiceReported.mono fun obs => (hsame obs).mp, TwiceReported.mono fun obs => (hsame obs).mpr⟩

/-- **Convergence.**  Whatever the order in which a list of observations
arrives, and however often each of them does, the best height becomes the
greatest of the initial one and of the heights confirmed by two channels.  The
best hash is the same in all orders when no two hashes are so confirmed at that
height. -/
theorem observeAll_converges (b : Build) (c : LightClient) (hpending : c.pending = ∅)
    (hcheckpoint : c.hasExternalCheckpoint = false)
    (observations arrivals : List CertObservation)
    (hsame : ∀ obs, obs ∈ arrivals ↔ obs ∈ observations) :
    IsGreatest
        (insert c.bestHeight
          {height | ∃ hash, TwiceReported b c.validatorSet observations (height, hash)})
        (c.observeAll b arrivals).bestHeight ∧
      (c.observeAll b arrivals).bestHeight = (c.observeAll b observations).bestHeight ∧
      ((∀ hash hash',
          TwiceReported b c.validatorSet observations
            ((c.observeAll b arrivals).bestHeight, hash) →
          TwiceReported b c.validatorSet observations
            ((c.observeAll b arrivals).bestHeight, hash') → hash = hash') →
        (c.observeAll b arrivals).bestHash = (c.observeAll b observations).bestHash) := by
  have hgreatest := isGreatest_bestHeight (b := b) c hpending hcheckpoint arrivals
  have hgreatest' := isGreatest_bestHeight (b := b) c hpending hcheckpoint observations
  simp only [twiceReported_congr hsame] at hgreatest
  have hheight : (c.observeAll b arrivals).bestHeight = (c.observeAll b observations).bestHeight :=
    UInt64.le_antisymm (hgreatest'.2 hgreatest.1) (hgreatest.2 hgreatest'.1)
  refine ⟨hgreatest, hheight, ?_⟩
  intro hunique
  have hsummary := summary_observeAll (b := b) c hpending hcheckpoint arrivals
  have hsummary' := summary_observeAll (b := b) c hpending hcheckpoint observations
  rcases hsummary.best with ⟨hkept, hhash⟩ | ⟨hraised, htwice⟩
  · rcases hsummary'.best with ⟨_, hhash'⟩ | ⟨hraised', _⟩
    · rw [hhash, hhash']
    · rw [← hheight, hkept] at hraised'
      exact (UInt64.lt_irrefl _ hraised').elim
  · rcases hsummary'.best with ⟨hkept', _⟩ | ⟨_, htwice'⟩
    · rw [hheight, hkept'] at hraised
      exact (UInt64.lt_irrefl _ hraised).elim
    · rw [twiceReported_congr hsame] at htwice
      rw [← hheight] at htwice'
      exact hunique _ _ htwice htwice'

end LightClient

/-- Two channels report the block at height 9, in either order and with a
repetition: the client ends up at that height. -/
theorem sample_reports_converge :
    (@LightClient.observeAll checksumCrypto .debug sampleClient
        [sampleObservation 0 [1] 0xBB, sampleObservation 0 [1] 0xAA,
          sampleObservation 0 [1] 0xBB]).bestHeight =
      (@LightClient.observeAll checksumCrypto .debug sampleClient
        [sampleObservation 0 [1] 0xAA, sampleObservation 0 [1] 0xBB]).bestHeight :=
  (@LightClient.observeAll_converges checksumCrypto .debug sampleClient rfl rfl
    [sampleObservation 0 [1] 0xAA, sampleObservation 0 [1] 0xBB]
    [sampleObservation 0 [1] 0xBB, sampleObservation 0 [1] 0xAA,
      sampleObservation 0 [1] 0xBB]
    (by intro obs; simp only [List.mem_cons, List.not_mem_nil, or_false]; tauto)).2.1

end Zona
