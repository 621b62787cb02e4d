import Zona.FinalityRuns

/-!
# Agreement between nodes

Two consensus nodes start from one genesis and make the same rotations, each
at moments of its own.  Nothing in the code ties a height to an epoch: a node
that is one rotation behind finalises a height under the old committee, and a
node that is ahead finalises it under the new one.

`finalised_agreement` is what is left.  Where two nodes finalise different
blocks at one height, either members with more than one third of the weight of
some committee have signed two conflicting certificates that it verifies, or the
height lies across a rotation: one node made it below the height, the other did
not.
-/

namespace Zona

namespace BftState

/-- The rotations a node made, oldest first: the committee that it put in
force, and its finalised height then. -/
def madeRotations (b : Build) (es : List (Transition BftState Call)) :
    List (ValidatorSet × UInt64) :=
  es.filterMap fun e =>
    match e.label with
    | .advanceEpoch newSet header =>
        if (e.before.advanceEpoch b newSet header).1 = .ok () then
          some (newSet, e.before.finalisedHeight)
        else none
    | _ => none

/-- The certificates a node was given. -/
def givenCertificates (es : List (Transition BftState Call)) : List BftCertificate :=
  es.filterMap fun e =>
    match e.label with
    | .applyCertificate cert => some cert
    | _ => none

/-- Members with more than one third of the weight are listed as signers of two
payloads with that height and different block hashes, in certificates that may
be refused. -/
def ListedTwice (committee : ValidatorSet) (certs : List BftCertificate) (height : UInt64) :
    Prop :=
  ∃ cert₁ ∈ certs, ∃ cert₂ ∈ certs,
    cert₁.payload.height = height ∧ cert₂.payload.height = height ∧
      cert₁.payload.blockHash ≠ cert₂.payload.blockHash ∧
      committee.exactWeight < 3 * committee.weightOf (cert₁.signers ∩ cert₂.signers)

instance (committee : ValidatorSet) (certs : List BftCertificate) (height : UInt64) :
    Decidable (ListedTwice committee certs height) := by
  unfold ListedTwice
  infer_instance

/-- The committee equivocated: it verifies two certificates with that height and
different block hashes, and the members that signed both payloads hold more than
one third of its weight. -/
def Equivocation [Crypto] (b : Build) (committee : ValidatorSet) (certs : List BftCertificate)
    (height : UInt64) : Prop :=
  ∃ cert₁ ∈ certs, ∃ cert₂ ∈ certs,
    (cert₁.verify b committee = .ok () ∧ cert₂.verify b committee = .ok ()) ∧
      (cert₁.payload.height = height ∧ cert₂.payload.height = height) ∧
      cert₁.payload.blockHash ≠ cert₂.payload.blockHash ∧
      committee.exactWeight < 3 * committee.weightOf (cert₁.signers ∩ cert₂.signers) ∧
      ∀ id ∈ cert₁.signers ∩ cert₂.signers,
        cert₁.SignedBy committee id ∧ cert₂.SignedBy committee id

/-- **Two certified blocks.**  A committee whose weights are counted exactly and
that verifies two certificates of different blocks at one height equivocated. -/
theorem equivocation_of_verified [Crypto] {b : Build} {committee : ValidatorSet}
    (hexact : committee.CountsExactly b) {certs certs' : List BftCertificate}
    {cert cert' : BftCertificate} {height : UInt64} (hgiven : cert ∈ certs)
    (hgiven' : cert' ∈ certs') (hverify : cert.verify b committee = .ok ())
    (hverify' : cert'.verify b committee = .ok ()) (hheight : cert.payload.height = height)
    (hheight' : cert'.payload.height = height)
    (hhash : cert.payload.blockHash ≠ cert'.payload.blockHash) :
    Equivocation b committee (certs ++ certs') height := by
  obtain ⟨hweight, hsigned⟩ := BftCertificate.common_signers hexact hverify hverify'
  exact ⟨cert, List.mem_append_left _ hgiven, cert', List.mem_append_right _ hgiven',
    ⟨hverify, hverify'⟩, ⟨hheight, hheight'⟩, hhash, hweight, hsigned⟩

/-- Some rotation was made below the height by the one node, and by the other
not below it or not at all. -/
def Straddled (made made' : List (ValidatorSet × UInt64)) (height : UInt64) : Prop :=
  ∃ (k : Nat) (rotation : ValidatorSet × UInt64), made[k]? = some rotation ∧
    rotation.2 < height ∧ ∀ rotation', made'[k]? = some rotation' → height ≤ rotation'.2

variable [Crypto] {b : Build}

omit [Crypto] in
/-- The rotation that a call makes, if it makes one. -/
theorem madeRotations_single {e : Transition BftState Call} :
    (madeRotations b [e] = [] ∧ ¬ Rotation b e) ∨
      ∃ newSet header, e.label = .advanceEpoch newSet header ∧
        (e.before.advanceEpoch b newSet header).1 = .ok () ∧
        madeRotations b [e] = [(newSet, e.before.finalisedHeight)] := by
  unfold madeRotations Rotation
  cases hlabel : e.label with
  | advanceEpoch newSet header =>
      by_cases hok : (e.before.advanceEpoch b newSet header).1 = .ok ()
      · exact Or.inr ⟨newSet, header, rfl, hok, by simp [hlabel, hok]⟩
      · refine Or.inl ⟨by simp [hlabel, hok], ?_⟩
        rintro ⟨newSet', header', heq, hok'⟩
        cases heq
        exact hok hok'
  | applyCertificate cert => exact Or.inl ⟨by simp [hlabel], by simp⟩
  | recordDivergence => exact Or.inl ⟨by simp [hlabel], by simp⟩
  | resumeFinality => exact Or.inl ⟨by simp [hlabel], by simp⟩

omit [Crypto] in
/-- The rotations made in two runs in a row are those of the first and then
those of the second. -/
theorem madeRotations_append (es fs : List (Transition BftState Call)) :
    madeRotations b (es ++ fs) = madeRotations b es ++ madeRotations b fs :=
  List.filterMap_append

omit [Crypto] in
/-- The height that goes with a rotation is one the node had before a call. -/
theorem height_of_madeRotations {es : List (Transition BftState Call)}
    {rotation : ValidatorSet × UInt64} (h : rotation ∈ madeRotations b es) :
    ∃ e ∈ es, rotation.2 = e.before.finalisedHeight := by
  obtain ⟨e, he, hview⟩ := List.mem_filterMap.mp h
  refine ⟨e, he, ?_⟩
  cases hlabel : e.label with
  | advanceEpoch newSet header =>
      rw [hlabel] at hview
      dsimp only at hview
      split at hview
      · obtain rfl := Option.some.inj hview
        rfl
      · cases hview
  | applyCertificate cert =>
      rw [hlabel] at hview
      cases hview
  | recordDivergence =>
      rw [hlabel] at hview
      cases hview
  | resumeFinality =>
      rw [hlabel] at hview
      cases hview

/-- **The committee in force** is the one of the last rotation made, or the
first committee where none was made. -/
theorem committee_of_run {s t : BftState} {es : List (Transition BftState Call)}
    (run : Trace (Step b) s es t) :
    t.validatorSet = ((madeRotations b es).map Prod.fst).getLastD s.validatorSet := by
  induction run with
  | nil => rfl
  | @snoc t u call es init last ih =>
      have hafter : u = t.perform b call := last
      rw [madeRotations_append, List.map_append]
      rcases madeRotations_single (b := b) (e := ⟨t, call, u⟩) with
        ⟨hnone, hidle⟩ | ⟨newSet, header, hlabel, hok, hone⟩
      · rw [hnone, List.map_nil, List.append_nil, ← ih]
        exact (epoch_kept (e := ⟨t, call, u⟩) last hidle).2
      · have hcall : call = .advanceEpoch newSet header := hlabel
        rw [hone, hafter, hcall, perform, advanceEpoch_installs hok]
        simp

/-- The finalised height never decreases along a run, since lower certificates
are ignored and rotations leave it alone. -/
theorem height_le_of_run {s t : BftState} {es : List (Transition BftState Call)}
    (run : Trace (Step b) s es t) : s.finalisedHeight ≤ t.finalisedHeight := by
  induction run with
  | nil => exact UInt64.le_refl _
  | @snoc t u call es init last ih =>
      rcases block_cases (e := ⟨t, call, u⟩) last with
        ⟨hheight, _⟩ | ⟨cert, _, _, _, habove, hheight, _⟩
      · rw [hheight]
        exact ih
      · rw [hheight]
        exact UInt64.le_trans ih (UInt64.le_of_lt habove)

/-- A run in which some certificate raised the height to where it is now:
before it the node was below that height, after it the height stood. -/
structure Finalised (b : Build) (es : List (Transition BftState Call)) (t : BftState)
    (pre : List (Transition BftState Call)) (s : BftState) (cert : BftCertificate)
    (post : List (Transition BftState Call)) : Prop where
  raised : 0 < t.finalisedHeight
  given : cert ∈ givenCertificates es
  verified : cert.verify b s.validatorSet = .ok ()
  height : cert.payload.height = t.finalisedHeight
  hash : cert.payload.blockHash = t.blockHash
  rotations : madeRotations b es = madeRotations b pre ++ madeRotations b post
  below : ∀ rotation ∈ madeRotations b pre, rotation.2 < t.finalisedHeight
  standing : ∀ rotation ∈ madeRotations b post, rotation.2 = t.finalisedHeight

/-- A call after which the block still stands comes after the certificate. -/
theorem Finalised.snoc {es pre post : List (Transition BftState Call)} {s t u : BftState}
    {cert : BftCertificate} (h : Finalised b es t pre s cert post) (call : Call)
    (hheight : u.finalisedHeight = t.finalisedHeight) (hhash : u.blockHash = t.blockHash) :
    Finalised b (es ++ [⟨t, call, u⟩]) u pre s cert (post ++ [⟨t, call, u⟩]) := by
  refine
    { raised := by rw [hheight]; exact h.raised
      given := ?_
      verified := h.verified
      height := h.height.trans hheight.symm
      hash := h.hash.trans hhash.symm
      rotations := ?_
      below := by rw [hheight]; exact h.below
      standing := ?_ }
  · rw [givenCertificates, List.filterMap_append]
    exact List.mem_append_left _ h.given
  · rw [madeRotations_append, madeRotations_append, h.rotations, List.append_assoc]
  · intro rotation hrotation
    rw [hheight]
    rw [madeRotations_append] at hrotation
    rcases List.mem_append.mp hrotation with hold | hnew
    · exact h.standing rotation hold
    · obtain ⟨e, he, hbefore⟩ := height_of_madeRotations hnew
      rw [List.mem_singleton.mp he] at hbefore
      exact hbefore

/-- The rotations of a run are made at heights up to the one it ends at. -/
theorem rotation_height_le {s t : BftState} {es : List (Transition BftState Call)}
    (run : Trace (Step b) s es t) {rotation : ValidatorSet × UInt64}
    (hrotation : rotation ∈ madeRotations b es) : rotation.2 ≤ t.finalisedHeight := by
  obtain ⟨e, he, hbefore⟩ := height_of_madeRotations hrotation
  obtain ⟨_, _, _, _, hstep, hrest⟩ := run.split he
  rw [hbefore]
  exact UInt64.le_trans (height_le_of_run (Trace.single hstep)) (height_le_of_run hrest)

/-- A certificate that raises the height finalises its block. -/
theorem Finalised.of_certificate {s t u : BftState} {es : List (Transition BftState Call)}
    {cert : BftCertificate} (run : Trace (Step b) s es t)
    (hverify : cert.verify b t.validatorSet = .ok ())
    (habove : t.finalisedHeight < cert.payload.height)
    (hheight : u.finalisedHeight = cert.payload.height)
    (hhash : u.blockHash = cert.payload.blockHash) :
    Finalised b (es ++ [⟨t, .applyCertificate cert, u⟩]) u es t cert [] := by
  refine
    { raised := ?_
      given := ?_
      verified := hverify
      height := hheight.symm
      hash := hhash.symm
      rotations := ?_
      below := ?_
      standing := ?_ }
  · rw [hheight]
    exact UInt64.lt_of_le_of_lt UInt64.zero_le habove
  · rw [givenCertificates, List.filterMap_append]
    exact List.mem_append_right _ (by simp)
  · rw [madeRotations_append]
    rfl
  · intro rotation hrotation
    rw [hheight]
    exact UInt64.lt_of_le_of_lt (rotation_height_le run hrotation) habove
  · intro rotation hrotation
    cases hrotation

/-- **Where a block was finalised.**  The finalised block is the genesis block,
or some certificate of the run made it so. -/
theorem finalised_of_run {vs : ValidatorSet} {genesisHash : Bytes 32} {t : BftState}
    {es : List (Transition BftState Call)}
    (run : Trace (Step b) (genesis vs genesisHash) es t) :
    (t.finalisedHeight = 0 ∧ t.blockHash = genesisHash) ∨
      ∃ pre s cert post, Trace (Step b) (genesis vs genesisHash) pre s ∧
        Finalised b es t pre s cert post := by
  induction run with
  | nil => exact Or.inl ⟨rfl, rfl⟩
  | @snoc t u call es init last ih =>
      rcases block_cases (e := ⟨t, call, u⟩) last with
        ⟨hheight, hhash⟩ | ⟨cert, hlabel, _, hverify, habove, hheight, hhash⟩
      · -- the block stands: the last call comes after the certificate
        rcases ih with ⟨hzero, hgenesis⟩ | ⟨pre, s, cert, post, hpre, hfinal⟩
        · exact Or.inl ⟨hheight.trans hzero, hhash.trans hgenesis⟩
        · exact Or.inr ⟨pre, s, cert, _, hpre, hfinal.snoc call hheight hhash⟩
      · -- the last call finalises the block
        have hcall : call = .applyCertificate cert := hlabel
        subst hcall
        exact Or.inr
          ⟨es, t, cert, [], init, Finalised.of_certificate init hverify habove hheight hhash⟩

omit [Crypto] in
/-- When one node had made fewer rotations at the time it finalised a height,
the next one of them lies across the height. -/
theorem straddled_of_lt {made made' pre pre' post' : List (ValidatorSet × UInt64)}
    {post : List (ValidatorSet × UInt64)} {height : UInt64}
    (hmade : made = pre ++ post) (hmade' : made' = pre' ++ post')
    (hbelow : ∀ rotation ∈ pre, rotation.2 < height)
    (hstanding : ∀ rotation ∈ post', rotation.2 = height) (hlt : pre'.length < pre.length) :
    Straddled made made' height := by
  refine ⟨pre'.length, pre[pre'.length], ?_, hbelow _ (List.getElem_mem hlt), ?_⟩
  · rw [hmade, List.getElem?_append_left hlt, List.getElem?_eq_getElem hlt]
  · intro rotation' hrotation'
    rw [hmade', List.getElem?_append_right (Nat.le_refl _)] at hrotation'
    rw [hstanding rotation' (List.mem_of_getElem? hrotation')]
    exact UInt64.le_refl _

/-- Nodes that had made equally many of the same rotations were under the same
committee, which is one of the list. -/
theorem same_committee {vs : ValidatorSet} {genesisHash : Bytes 32} {s₁ s₂ : BftState}
    {pre₁ pre₂ : List (Transition BftState Call)} {rotations : List ValidatorSet}
    (run₁ : Trace (Step b) (genesis vs genesisHash) pre₁ s₁)
    (run₂ : Trace (Step b) (genesis vs genesisHash) pre₂ s₂)
    (hsame₁ : (madeRotations b pre₁).map Prod.fst <+: rotations)
    (hsame₂ : (madeRotations b pre₂).map Prod.fst <+: rotations)
    (hlength : (madeRotations b pre₁).length = (madeRotations b pre₂).length) :
    s₁.validatorSet = s₂.validatorSet ∧ s₁.validatorSet ∈ vs :: rotations := by
  have hequal : (madeRotations b pre₁).map Prod.fst = (madeRotations b pre₂).map Prod.fst := by
    rw [List.prefix_iff_eq_take.mp hsame₁, List.prefix_iff_eq_take.mp hsame₂, List.length_map,
      List.length_map, hlength]
  rw [committee_of_run run₁, committee_of_run run₂, hequal]
  refine ⟨rfl, ?_⟩
  cases hlast : ((madeRotations b pre₂).map Prod.fst).getLast? with
  | none =>
      rw [List.getLastD_eq_getLast?, hlast]
      exact List.mem_cons_self
  | some committee =>
      rw [List.getLastD_eq_getLast?, hlast]
      exact List.mem_cons_of_mem _ (hsame₂.subset (List.mem_of_getLast? hlast))

/-- **Agreement.**  Two nodes go from one genesis through the same rotations.
Where they finalise different blocks at one height, some committee of the list
equivocated at that height, or the height lies across a rotation. -/
theorem finalised_agreement (b : Build) (vs : ValidatorSet) (genesisHash : Bytes 32)
    (rotations : List ValidatorSet) (es₁ es₂ : List (Transition BftState Call))
    (t₁ t₂ : BftState)
    (run₁ : Trace (Step b) (genesis vs genesisHash) es₁ t₁)
    (run₂ : Trace (Step b) (genesis vs genesisHash) es₂ t₂)
    (hsame₁ : (madeRotations b es₁).map Prod.fst <+: rotations)
    (hsame₂ : (madeRotations b es₂).map Prod.fst <+: rotations)
    (hexact : ∀ committee ∈ vs :: rotations, committee.CountsExactly b)
    (hheight : t₁.finalisedHeight = t₂.finalisedHeight) (hhash : t₁.blockHash ≠ t₂.blockHash) :
    (∃ committee ∈ vs :: rotations,
      Equivocation b committee (givenCertificates es₁ ++ givenCertificates es₂)
        t₁.finalisedHeight) ∨
      Straddled (madeRotations b es₁) (madeRotations b es₂) t₁.finalisedHeight ∨
      Straddled (madeRotations b es₂) (madeRotations b es₁) t₁.finalisedHeight := by
  rcases finalised_of_run run₁ with ⟨hzero, hgenesis⟩ | ⟨pre₁, s₁, cert₁, post₁, hpre₁, hfinal₁⟩
  · -- at height zero both nodes still hold the genesis block
    rcases finalised_of_run run₂ with ⟨_, hgenesis'⟩ | ⟨_, _, _, _, _, hfinal₂⟩
    · exact (hhash (hgenesis.trans hgenesis'.symm)).elim
    · have hraised := hfinal₂.raised
      rw [← hheight, hzero] at hraised
      exact (UInt64.lt_irrefl _ hraised).elim
  · rcases finalised_of_run run₂ with ⟨hzero, _⟩ | ⟨pre₂, s₂, cert₂, post₂, hpre₂, hfinal₂⟩
    · have hraised := hfinal₁.raised
      rw [hheight, hzero] at hraised
      exact (UInt64.lt_irrefl _ hraised).elim
    · have hstanding₂ := hfinal₂.standing
      have hbelow₂ := hfinal₂.below
      rw [← hheight] at hstanding₂ hbelow₂
      rcases Nat.lt_trichotomy (madeRotations b pre₁).length (madeRotations b pre₂).length with
        hless | hequal | hmore
      · exact Or.inr (Or.inr (straddled_of_lt hfinal₂.rotations hfinal₁.rotations hbelow₂
          hfinal₁.standing hless))
      · left
        have hprefix₁ : (madeRotations b pre₁).map Prod.fst <+: rotations := by
          rw [hfinal₁.rotations, List.map_append] at hsame₁
          exact (List.prefix_append _ _).trans hsame₁
        have hprefix₂ : (madeRotations b pre₂).map Prod.fst <+: rotations := by
          rw [hfinal₂.rotations, List.map_append] at hsame₂
          exact (List.prefix_append _ _).trans hsame₂
        obtain ⟨hcommittee, hmem⟩ := same_committee hpre₁ hpre₂ hprefix₁ hprefix₂ hequal
        have hverified₂ : cert₂.verify b s₁.validatorSet = .ok () := by
          rw [hcommittee]
          exact hfinal₂.verified
        have hheight₂ : cert₂.payload.height = t₁.finalisedHeight :=
          hfinal₂.height.trans hheight.symm
        have hdiffer : cert₁.payload.blockHash ≠ cert₂.payload.blockHash := by
          rw [hfinal₁.hash, hfinal₂.hash]
          exact hhash
        exact ⟨s₁.validatorSet, hmem, equivocation_of_verified (hexact _ hmem) hfinal₁.given
          hfinal₂.given hfinal₁.verified hverified₂ hfinal₁.height hheight₂ hdiffer⟩
      · exact Or.inr (Or.inl (straddled_of_lt hfinal₁.rotations hfinal₂.rotations hfinal₁.below
          hstanding₂ hmore))

end BftState

/-- Two nodes go from one genesis through the same rotations and finalise
different blocks at one height, though nobody is so much as listed twice. -/
structure HonestDivergence [Crypto] (b : Build) (vs : ValidatorSet) (genesisHash : Bytes 32)
    (rotations : List ValidatorSet) (es₁ es₂ : List (Transition BftState BftState.Call))
    (t₁ t₂ : BftState) : Prop where
  run₁ : Trace (BftState.Step b) (BftState.genesis vs genesisHash) es₁ t₁
  run₂ : Trace (BftState.Step b) (BftState.genesis vs genesisHash) es₂ t₂
  same₁ : (BftState.madeRotations b es₁).map Prod.fst = rotations
  same₂ : (BftState.madeRotations b es₂).map Prod.fst = rotations
  above : 0 < t₁.finalisedHeight
  height : t₁.finalisedHeight = t₂.finalisedHeight
  hash : t₁.blockHash ≠ t₂.blockHash
  honest : ∀ committee ∈ vs :: rotations,
    ¬ BftState.ListedTwice committee
      (BftState.givenCertificates es₁ ++ BftState.givenCertificates es₂) t₁.finalisedHeight

/-- The node given the calls, from the genesis of a committee. -/
def nodeAfter (b : Build) (vs : ValidatorSet) (calls : List BftState.Call) : BftState :=
  calls.foldl (@BftState.perform checksumCrypto b) (BftState.genesis vs (Bytes.replicate 32 0))

def nodeRun (b : Build) (vs : ValidatorSet) (calls : List BftState.Call) :
    List (Transition BftState BftState.Call) :=
  Trace.record (@BftState.perform checksumCrypto b)
    (BftState.genesis vs (Bytes.replicate 32 0)) calls

/-- The calls on a node from genesis make a run, with whatever they return. -/
theorem nodeRun_trace (b : Build) (vs : ValidatorSet) (calls : List BftState.Call) :
    Trace (@BftState.Step checksumCrypto b) (BftState.genesis vs (Bytes.replicate 32 0))
      (nodeRun b vs calls) (nodeAfter b vs calls) :=
  @Trace.of_record _ _ (@BftState.Step checksumCrypto b) (@BftState.perform checksumCrypto b)
    (fun _ _ => rfl) calls _

/-- Apply the certificate of the block at height 9 with the given hash byte. -/
def applyBlock (epoch : UInt64) (hash : UInt8) (ks : List UInt8) : BftState.Call :=
  .applyCertificate (sampleCert ⟨epoch, 9, Bytes.replicate 32 hash⟩ ks)

/-- Rotate to the committee of epoch 1, with the header of epoch 0. -/
def rotateOnce : BftState.Call :=
  .advanceEpoch (sampleSet 1 [5]) currentHeader

/-- A node that finalises height 9 and then rotates, and one that rotates first. -/
def behindCalls : List BftState.Call := [applyBlock 0 0xAB [1], rotateOnce]

def aheadCalls : List BftState.Call := [rotateOnce, applyBlock 1 0xCD [5]]

/-- A committee whose total weight does not fit in a `u64`. -/
def heavySet : ValidatorSet :=
  @ValidatorSet.new checksumCrypto 0
    [sampleEntry 1 0x8000000000000000, sampleEntry 2 0x8000000000000000, sampleEntry 3 1]

/-- Both nodes rotate once and finalise height 9, with different blocks, and
nobody signs two blocks. -/
theorem behind_and_ahead :
    ((BftState.madeRotations .debug
          (nodeRun .debug (sampleSet 0 [1]) behindCalls)).map Prod.fst = [sampleSet 1 [5]] ∧
        (BftState.madeRotations .debug
          (nodeRun .debug (sampleSet 0 [1]) aheadCalls)).map Prod.fst = [sampleSet 1 [5]]) ∧
      (0 < (nodeAfter .debug (sampleSet 0 [1]) behindCalls).finalisedHeight ∧
        (nodeAfter .debug (sampleSet 0 [1]) behindCalls).finalisedHeight =
          (nodeAfter .debug (sampleSet 0 [1]) aheadCalls).finalisedHeight) ∧
      (nodeAfter .debug (sampleSet 0 [1]) behindCalls).blockHash ≠
        (nodeAfter .debug (sampleSet 0 [1]) aheadCalls).blockHash ∧
      ∀ committee ∈ [sampleSet 0 [1], sampleSet 1 [5]],
        ¬ BftState.ListedTwice committee
          (BftState.givenCertificates (nodeRun .debug (sampleSet 0 [1]) behindCalls) ++
            BftState.givenCertificates (nodeRun .debug (sampleSet 0 [1]) aheadCalls))
          (nodeAfter .debug (sampleSet 0 [1]) behindCalls).finalisedHeight := by
  decide +kernel

/-- In a release build two nodes of the heavy committee finalise different
blocks at height 9, and nobody signs two. -/
theorem heavy_nodes :
    ((BftState.madeRotations .release
          (nodeRun .release heavySet [applyBlock 0 0xAB [1]])).map Prod.fst = [] ∧
        (BftState.madeRotations .release
          (nodeRun .release heavySet [applyBlock 0 0xCD [2]])).map Prod.fst = []) ∧
      (0 < (nodeAfter .release heavySet [applyBlock 0 0xAB [1]]).finalisedHeight ∧
        (nodeAfter .release heavySet [applyBlock 0 0xAB [1]]).finalisedHeight =
          (nodeAfter .release heavySet [applyBlock 0 0xCD [2]]).finalisedHeight) ∧
      (nodeAfter .release heavySet [applyBlock 0 0xAB [1]]).blockHash ≠
        (nodeAfter .release heavySet [applyBlock 0 0xCD [2]]).blockHash ∧
      ∀ committee ∈ [heavySet],
        ¬ BftState.ListedTwice committee
          (BftState.givenCertificates (nodeRun .release heavySet [applyBlock 0 0xAB [1]]) ++
            BftState.givenCertificates (nodeRun .release heavySet [applyBlock 0 0xCD [2]]))
          (nodeAfter .release heavySet [applyBlock 0 0xAB [1]]).finalisedHeight := by
  decide +kernel

/-- The node that is behind and the node that is ahead agree on nothing but the
height: the statement about them names the rotation between them. -/
theorem agreement_across_rotation :
    (∃ committee ∈ [sampleSet 0 [1], sampleSet 1 [5]],
      @BftState.Equivocation checksumCrypto .debug committee
        (BftState.givenCertificates (nodeRun .debug (sampleSet 0 [1]) behindCalls) ++
          BftState.givenCertificates (nodeRun .debug (sampleSet 0 [1]) aheadCalls))
        (nodeAfter .debug (sampleSet 0 [1]) behindCalls).finalisedHeight) ∨
      BftState.Straddled
        (BftState.madeRotations .debug (nodeRun .debug (sampleSet 0 [1]) behindCalls))
        (BftState.madeRotations .debug (nodeRun .debug (sampleSet 0 [1]) aheadCalls))
        (nodeAfter .debug (sampleSet 0 [1]) behindCalls).finalisedHeight ∨
      BftState.Straddled
        (BftState.madeRotations .debug (nodeRun .debug (sampleSet 0 [1]) aheadCalls))
        (BftState.madeRotations .debug (nodeRun .debug (sampleSet 0 [1]) behindCalls))
        (nodeAfter .debug (sampleSet 0 [1]) behindCalls).finalisedHeight := by
  obtain ⟨⟨hbehind, hahead⟩, ⟨_, hheight⟩, hhash, _⟩ := behind_and_ahead
  exact @BftState.finalised_agreement checksumCrypto .debug (sampleSet 0 [1])
    (Bytes.replicate 32 0) [sampleSet 1 [5]] _ _ _ _
    (nodeRun_trace .debug (sampleSet 0 [1]) behindCalls)
    (nodeRun_trace .debug (sampleSet 0 [1]) aheadCalls)
    (by rw [hbehind]) (by rw [hahead])
    (fun _ _ => Or.inl rfl) hheight hhash

/-- Nobody signs two blocks, and the nodes disagree: in a debug build, because
one of them rotated before height 9 and the other after it; in a release build
also within one epoch, where the total weight wraps around. -/
theorem honest_divergence :
    @HonestDivergence checksumCrypto .debug (sampleSet 0 [1]) (Bytes.replicate 32 0)
        [sampleSet 1 [5]] (nodeRun .debug (sampleSet 0 [1]) behindCalls)
        (nodeRun .debug (sampleSet 0 [1]) aheadCalls)
        (nodeAfter .debug (sampleSet 0 [1]) behindCalls)
        (nodeAfter .debug (sampleSet 0 [1]) aheadCalls) ∧
      @HonestDivergence checksumCrypto .release heavySet (Bytes.replicate 32 0) []
        (nodeRun .release heavySet [applyBlock 0 0xAB [1]])
        (nodeRun .release heavySet [applyBlock 0 0xCD [2]])
        (nodeAfter .release heavySet [applyBlock 0 0xAB [1]])
        (nodeAfter .release heavySet [applyBlock 0 0xCD [2]]) := by
  obtain ⟨⟨hbehind, hahead⟩, ⟨habove, hheight⟩, hhash, hhonest⟩ := behind_and_ahead
  obtain ⟨⟨hfirst, hsecond⟩, ⟨hpositive, hequal⟩, hdiffer, hfaithful⟩ := heavy_nodes
  exact ⟨@HonestDivergence.mk checksumCrypto _ _ _ _ _ _ _ _ (nodeRun_trace _ _ _)
      (nodeRun_trace _ _ _) hbehind hahead habove hheight hhash hhonest,
    @HonestDivergence.mk checksumCrypto _ _ _ _ _ _ _ _ (nodeRun_trace _ _ _)
      (nodeRun_trace _ _ _) hfirst hsecond hpositive hequal hdiffer hfaithful⟩

end Zona
