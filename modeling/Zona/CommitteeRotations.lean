import Zona.EpochHeaders
import Zona.LabelledRuns

/-!
# Histories of committees

What a consensus node and a light client have in common is a committee that
is replaced, rotation by rotation, each driven by a header.  `Rotates` is that
system on its own: a state is the committee in force, a label is the header
presented, and the only checks are those of `checkRotation`.

The trust argument of the protocol is about such histories: the headers that
drove the rotations should form a chain from the committee the history began
with to the one in force.  `chain_iff_described` says that they do exactly
when every header was the one of the committee it replaced, and
`rotations_run` brings a component with more state down to its history.
-/

namespace Zona

/-- A header drives the committee in force to the next one. -/
def Rotates (b : Build) (vs : ValidatorSet) (header : EpochHeader) (newSet : ValidatorSet) : Prop :=
  checkRotation b vs.epoch newSet header = .ok ()

/-- The headers of a history, oldest first, with one more for the committee
in force at its end. -/
def headerChain (rotations : List (Transition ValidatorSet EpochHeader)) (last : EpochHeader) :
    List EpochHeader :=
  rotations.map Transition.label ++ [last]

/-- Every rotation was driven by the header of the committee it replaced. -/
def AllDescribed (rotations : List (Transition ValidatorSet EpochHeader)) : Prop :=
  ∀ e ∈ rotations, e.label.Describes e.before

/-- A history with one more rotation is described if it was so before and the
header of the last one describes the committee it replaced. -/
theorem allDescribed_snoc {rotations : List (Transition ValidatorSet EpochHeader)}
    {e : Transition ValidatorSet EpochHeader} :
    AllDescribed (rotations ++ [e]) ↔ AllDescribed rotations ∧ e.label.Describes e.before := by
  simp only [AllDescribed, List.mem_append, List.mem_singleton]
  constructor
  · intro h
    exact ⟨fun e' he' => h e' (Or.inl he'), h e (Or.inr rfl)⟩
  · intro ⟨hinit, hlast⟩ e' he'
    rcases he' with hin | heq
    · exact hinit e' hin
    · rw [heq]
      exact hlast

/-- A header that describes the set in force, together with an accepted
rotation, links the two sets: a header of the new set follows it. -/
theorem EpochHeader.Describes.follows {b : Build} {old newSet : ValidatorSet}
    {header next : EpochHeader} (hold : header.Describes old)
    (hrotate : Rotates b old header newSet) (hnext : next.Describes newSet) :
    header.Follows b next := by
  obtain ⟨hcommit, hepoch⟩ := checkRotation_ok.mp hrotate
  constructor
  · rw [hold.1, hepoch, hnext.1]
  · rw [hcommit, hnext.2]

/-- The header presented to the committee in force at the end of a chain that
is accepted up to it carries the hash of that committee: the rotation before
it committed to both. -/
theorem hash_of_chain {b : Build} {first vs : ValidatorSet}
    {rotations : List (Transition ValidatorSet EpochHeader)} {header : EpochHeader}
    (run : Trace (Rotates b) first rotations vs)
    (hchain : verifyEpochChain b first.setHash (headerChain rotations header) = .ok ()) :
    header.validatorSetHash = vs.setHash := by
  cases run with
  | nil => exact verifyEpochChain_singleton.mp hchain
  | @snoc mid _ driver rotations init last =>
      have hlinked : driver.Follows b header := by
        apply (verifyEpochChain_snoc.mp _).2
        · exact first.setHash
        · exact rotations.map Transition.label
        · simpa [headerChain] using hchain
      have hcommit : driver.nextValidatorCommitment = some vs.setHash :=
        (checkRotation_ok.mp last).1
      have hboth : some header.validatorSetHash = some vs.setHash := by
        rw [← hlinked.2, hcommit]
      exact Option.some.inj hboth

/-- **The chain of trust.**  The headers that drove a history form an accepted
chain from its first committee to the one in force exactly when every header
was the one of the committee it replaced. -/
theorem chain_iff_described {b : Build} {first vs : ValidatorSet}
    {rotations : List (Transition ValidatorSet EpochHeader)} {last : EpochHeader}
    (run : Trace (Rotates b) first rotations vs) (hlast : last.Describes vs) :
    verifyEpochChain b first.setHash (headerChain rotations last) = .ok () ↔
      AllDescribed rotations := by
  induction run generalizing last with
  | nil =>
      have hstart : last.validatorSetHash = first.setHash := hlast.2
      simp [headerChain, verifyEpochChain_singleton, hstart, AllDescribed]
  | @snoc mid vs header rotations init hrotate ih =>
      have hsplit : headerChain (rotations ++ [⟨mid, header, vs⟩]) last =
          rotations.map Transition.label ++ [header] ++ [last] := by
        simp [headerChain]
      rw [hsplit, verifyEpochChain_snoc, allDescribed_snoc]
      constructor
      · intro ⟨hchain, hlinked⟩
        have hhash : header.validatorSetHash = mid.setHash := hash_of_chain init hchain
        have hepochs : header.epoch + 1 = mid.epoch + 1 := by
          have hnew : vs.epoch = mid.epoch + 1 :=
            addU64_eq_ok (checkRotation_ok.mp hrotate).2
          rw [← hlinked.epoch_eq, hlast.1, hnew]
        have hheader : header.Describes mid := ⟨u64_add_one_inj hepochs, hhash⟩
        exact ⟨(ih hheader).mp hchain, hheader⟩
      · intro ⟨hall, hheader⟩
        exact ⟨(ih hheader).mpr hall, hheader.follows hrotate hlast⟩

/-- A history that began with the trusted hash is anchored to it at both ends
exactly when its headers were those of the committees they replaced. -/
theorem anchored_iff {b : Build} {anchor : Bytes 32} {first vs : ValidatorSet}
    {rotations : List (Transition ValidatorSet EpochHeader)} {start last : EpochHeader}
    (run : Trace (Rotates b) first rotations vs)
    (hstart : start.Describes first) (hlast : last.Describes vs) :
    (verifyEpochChain b anchor [start] = .ok () ∧
      verifyEpochChain b anchor (headerChain rotations last) = .ok ()) ↔
      anchor = first.setHash ∧ AllDescribed rotations := by
  rw [verifyEpochChain_singleton, hstart.2]
  constructor
  · intro ⟨hanchor, hchain⟩
    subst hanchor
    exact ⟨rfl, (chain_iff_described run hlast).mp hchain⟩
  · intro ⟨hanchor, hall⟩
    subst hanchor
    exact ⟨rfl, (chain_iff_described run hlast).mpr hall⟩

section Components

variable {σ ι : Type} (b : Build) (committee : σ → ValidatorSet)
  (request : ι → Option (ValidatorSet × EpochHeader))

/-- What a call does to the committee that a component keeps in its state: it
replaces it when it asks for a rotation that passes the checks, and leaves it
alone otherwise.  Where all calls do so, the runs of the component refine
histories of committees. -/
def Obeys (e : Transition σ ι) : Prop :=
  match request e.label with
  | none => committee e.after = committee e.before
  | some (newSet, header) =>
      committee e.after =
        if checkRotation b (committee e.before).epoch newSet header = .ok () then newSet
        else committee e.before

/-- The header of a rotation that passes the checks. -/
def drivingHeader (e : Transition σ ι) : Option EpochHeader :=
  match request e.label with
  | none => none
  | some (newSet, header) =>
      if checkRotation b (committee e.before).epoch newSet header = .ok () then some header
      else none

/-- The rotations of a run. -/
def rotations (es : List (Transition σ ι)) : List (Transition ValidatorSet EpochHeader) :=
  Trace.project committee (drivingHeader b committee request) es

variable {b committee request}

/-- A call that asks for no rotation obeys exactly if it leaves the committee
alone. -/
theorem obeys_of_silent {e : Transition σ ι} (hrequest : request e.label = none) :
    Obeys b committee request e ↔ committee e.after = committee e.before := by
  rw [Obeys, hrequest]

/-- A call that asks for a rotation obeys exactly if it makes it when the
checks pass, and only then. -/
theorem obeys_of_request {e : Transition σ ι} {newSet : ValidatorSet} {header : EpochHeader}
    (hrequest : request e.label = some (newSet, header)) :
    Obeys b committee request e ↔ committee e.after =
      if checkRotation b (committee e.before).epoch newSet header = .ok () then newSet
      else committee e.before := by
  rw [Obeys, hrequest]

/-- The header that drove a rotation is the one that was presented with it, and
the checks passed. -/
theorem drivingHeader_eq_some {e : Transition σ ι} {header : EpochHeader} :
    drivingHeader b committee request e = some header ↔
      ∃ newSet, request e.label = some (newSet, header) ∧
        checkRotation b (committee e.before).epoch newSet header = .ok () := by
  unfold drivingHeader
  cases hrequest : request e.label with
  | none => simp
  | some pair =>
      obtain ⟨newSet, header'⟩ := pair
      by_cases hcheck : checkRotation b (committee e.before).epoch newSet header' = .ok ()
      · simp only [hcheck, if_true, Option.some.injEq, Prod.mk.injEq]
        constructor
        · intro h
          subst h
          exact ⟨newSet, ⟨rfl, rfl⟩, hcheck⟩
        · intro ⟨_, hpair, _⟩
          exact hpair.2
      · simp only [hcheck, if_false, Option.some.injEq, Prod.mk.injEq]
        constructor
        · intro h
          cases h
        · intro ⟨_, ⟨hset, hheader⟩, hcheck'⟩
          subst hset hheader
          exact (hcheck hcheck').elim

/-- **Refinement.**  The committees of a run form a history of rotations: each
call that passes the checks is a rotation, and the others leave the committee
alone. -/
theorem rotations_run {step : σ → ι → σ → Prop} {s t : σ} {es : List (Transition σ ι)}
    (run : Trace step s es t) (hobeys : ∀ e ∈ es, Obeys b committee request e) :
    Trace (Rotates b) (committee s) (rotations b committee request es) (committee t) := by
  refine run.simulate committee (drivingHeader b committee request) ?_ ?_
  · intro e he hsilent
    have hobeyed := hobeys e he
    cases hrequest : request e.label with
    | none => exact (obeys_of_silent hrequest).mp hobeyed
    | some pair =>
        obtain ⟨newSet, header⟩ := pair
        have hrefused : ¬ checkRotation b (committee e.before).epoch newSet header = .ok () := by
          intro hcheck
          have hview := drivingHeader_eq_some.mpr ⟨newSet, hrequest, hcheck⟩
          rw [hsilent] at hview
          cases hview
        rw [(obeys_of_request hrequest).mp hobeyed, if_neg hrefused]
  · intro e he header hview
    obtain ⟨newSet, hrequest, hcheck⟩ := drivingHeader_eq_some.mp hview
    rw [(obeys_of_request hrequest).mp (hobeys e he), if_pos hcheck]
    exact hcheck

/-- A request does not bring a foreign header past the checks: if the header
commits to the new set, and the epoch of that set is the next one, then the
header is of the epoch in force and passes `verifyCurrentSet` on the committee
in force. -/
def DrivenByCurrent (b : Build) (vs newSet : ValidatorSet) (header : EpochHeader) : Prop :=
  header.verifyNextSet newSet = .ok () →
    addU64 (E := BftError) b vs.epoch 1 = .ok newSet.epoch →
      header.epoch = vs.epoch ∧ header.verifyCurrentSet vs = .ok ()

/-- A presented header breaks the chain only if the checks let it pass although
it is not that of the committee in force. -/
theorem drivenByCurrent_iff {vs newSet : ValidatorSet} {header : EpochHeader} :
    DrivenByCurrent b vs newSet header ↔
      (checkRotation b vs.epoch newSet header = .ok () → header.Describes vs) := by
  rw [checkRotation_ok, ← EpochHeader.verifyNextSet_ok, DrivenByCurrent,
    EpochHeader.verifyCurrentSet_ok]
  constructor
  · intro h hcheck
    exact h hcheck.1 hcheck.2
  · intro h hcommit hepoch
    exact h ⟨hcommit, hepoch⟩

/-- The rotations of a run were all driven by the headers of the committees
they replaced exactly when no request brought a foreign header past the
checks. -/
theorem allDescribed_rotations_iff {es : List (Transition σ ι)} :
    AllDescribed (rotations b committee request es) ↔
      ∀ e ∈ es, ∀ newSet header, request e.label = some (newSet, header) →
        DrivenByCurrent b (committee e.before) newSet header := by
  constructor
  · intro hall e he newSet header hrequest
    rw [drivenByCurrent_iff]
    intro hcheck
    have hview : drivingHeader b committee request e = some header :=
      drivingHeader_eq_some.mpr ⟨newSet, hrequest, hcheck⟩
    have hmem : (⟨committee e.before, header, committee e.after⟩ :
        Transition ValidatorSet EpochHeader) ∈ rotations b committee request es :=
      List.mem_filterMap.mpr ⟨e, he, by rw [hview]; rfl⟩
    exact hall _ hmem
  · intro hall r hr
    obtain ⟨e, he, hview⟩ := List.mem_filterMap.mp hr
    obtain ⟨header, hheader, hrotation⟩ := Option.map_eq_some_iff.mp hview
    obtain ⟨newSet, hrequest, hcheck⟩ := drivingHeader_eq_some.mp hheader
    have hdescribes : header.Describes (committee e.before) :=
      drivenByCurrent_iff.mp (hall e he newSet header hrequest) hcheck
    subst hrotation
    exact hdescribes

end Components

end Zona
