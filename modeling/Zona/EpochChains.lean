import Zona.EpochHeaders

/-!
# Epochs along a chain

An accepted chain of headers should only move forward, and a client that has
verified a chain should be able to go on from its last header.  Both rest on
the epoch after a header's, which is computed on `u64`: past the last epoch a
debug build panics and a release build starts again from zero.

`Wraps` is how a list of headers brings this about, and `epochs_forward_iff` says that
nothing else does: any other list is verified without a panic, its epochs
increase when it is accepted, and it can be verified piece by piece.
-/

namespace Zona

namespace EpochHeader

/-- The child has the parent's epoch plus one, on `u64`, and the committee that
the parent commits to. -/
def Links (parent child : EpochHeader) : Prop :=
  child.epoch = parent.epoch + 1 ∧
    parent.nextValidatorCommitment = some child.validatorSetHash

/-- The header carries the last epoch there is. -/
def AtTop (header : EpochHeader) : Prop :=
  header.epoch.toNat + 1 = 2 ^ 64

/-- The child's epoch follows the parent's. -/
def Succeeds (parent child : EpochHeader) : Prop :=
  child.epoch.toNat = parent.epoch.toNat + 1

/-- A header with the next epoch and the committed hash follows its parent in
both build profiles. -/
theorem follows_of_succeeds {parent child : EpochHeader} (h : parent.Succeeds child)
    (hhash : parent.nextValidatorCommitment = some child.validatorSetHash) (b : Build) :
    parent.Follows b child := by
  unfold Succeeds at h
  have hlt := child.epoch.toNat_lt
  have hfit : parent.epoch.toNat + (1 : UInt64).toNat < 2 ^ 64 := by
    rw [UInt64.toNat_one, ← h]
    exact hlt
  have hchild : parent.epoch + 1 = child.epoch := by
    rw [← UInt64.toNat_inj, toNat_add_of_lt hfit, UInt64.toNat_one, h]
  exact ⟨by rw [addU64_of_lt hfit, hchild], hhash⟩

/-- A link to a header that is not the last one possible goes up by one epoch,
as nothing wraps around there. -/
theorem Links.succeeds {parent child : EpochHeader} (h : parent.Links child)
    (htop : ¬ parent.AtTop) : parent.Succeeds child := by
  unfold AtTop at htop
  have hlt := parent.epoch.toNat_lt
  unfold Succeeds
  rw [h.1, toNat_add_of_lt]
  · rfl
  · rw [UInt64.toNat_one]
    omega

/-- What a window of the source checks is a link between the two headers. -/
theorem Follows.links {b : Build} {parent child : EpochHeader} (h : parent.Follows b child) :
    parent.Links child :=
  ⟨h.epoch_eq, h.2⟩

/-- Nothing follows the last epoch in a debug build. -/
theorem AtTop.addU64_debug {parent : EpochHeader} (h : parent.AtTop) :
    addU64 (E := BftError) .debug parent.epoch 1 = .panic := by
  unfold AtTop at h
  have hover : ¬ parent.epoch.toNat + (1 : UInt64).toNat < 2 ^ 64 := by
    rw [UInt64.toNat_one, h]
    exact lt_irrefl _
  rw [addU64, if_neg hover]

end EpochHeader

/-- Unbroken links lead to a header with the last epoch, and the list goes on
behind it. -/
def PassesTop : List EpochHeader → Prop
  | parent :: child :: rest =>
      parent.AtTop ∨ parent.Links child ∧ PassesTop (child :: rest)
  | _ => False

/-- The list starts at the anchor and passes the last epoch; in a release build
its links are unbroken to the end. -/
def Wraps (b : Build) (anchor : Bytes 32) (chain : List EpochHeader) : Prop :=
  (∀ first ∈ chain.head?, first.validatorSetHash = anchor) ∧ PassesTop chain ∧
    (b = .release → chain.IsChain EpochHeader.Links)

/-- In a debug build the windows panic exactly on chains that go on after the
last epoch. -/
theorem verifyWindows_debug_panic {chain : List EpochHeader} :
    verifyWindows .debug chain = .panic ↔ PassesTop chain := by
  induction chain with
  | nil => simp [verifyWindows, PassesTop]
  | cons parent rest ih =>
      cases rest with
      | nil => simp [verifyWindows, PassesTop]
      | cons child rest =>
          rw [PassesTop, ← ih, verifyWindows]
          by_cases htop : parent.AtTop
          · simp [htop.addU64_debug, htop]
          · have hlt := parent.epoch.toNat_lt
            have hfit : parent.epoch.toNat + (1 : UInt64).toNat < 2 ^ 64 := by
              unfold EpochHeader.AtTop at htop
              rw [UInt64.toNat_one]
              omega
            rw [addU64_of_lt hfit, Outcome.ok_bind, or_iff_right htop]
            unfold EpochHeader.Links
            by_cases hepoch : child.epoch = parent.epoch + 1
            · cases hnext : parent.nextValidatorCommitment with
              | none => simp [hepoch]
              | some committed =>
                  by_cases hhash : child.validatorSetHash = committed
                  · simp [hepoch, hhash]
                  · simp [hepoch, hhash, Ne.symm hhash]
            · simp [hepoch]

/-- In a release build the epoch wraps around instead, so the windows never
panic. -/
theorem verifyWindows_release_panic (chain : List EpochHeader) :
    verifyWindows .release chain ≠ .panic := by
  induction chain with
  | nil => exact fun h => by cases h
  | cons parent rest ih =>
      cases rest with
      | nil => exact fun h => by cases h
      | cons child rest =>
          rw [verifyWindows, addU64_release, Outcome.ok_bind]
          split
          · exact fun h => by cases h
          · split
            · exact fun h => by cases h
            · split
              · exact fun h => by cases h
              · exact ih

/-- The whole check panics exactly if it gets past the anchor and then one of
its windows panics. -/
theorem verifyEpochChain_panic {b : Build} {anchor : Bytes 32} {chain : List EpochHeader} :
    verifyEpochChain b anchor chain = .panic ↔
      (∀ first ∈ chain.head?, first.validatorSetHash = anchor) ∧
        verifyWindows b chain = .panic := by
  cases chain with
  | nil => simp [verifyEpochChain, verifyWindows]
  | cons first rest =>
      by_cases h : first.validatorSetHash = anchor
      · simp [verifyEpochChain, h]
      · simp [verifyEpochChain, h]

/-- A linked chain that does not pass the last epoch has consecutive epochs. -/
theorem isChain_succeeds {chain : List EpochHeader} (h : chain.IsChain EpochHeader.Links)
    (htop : ¬ PassesTop chain) : chain.IsChain EpochHeader.Succeeds := by
  induction chain with
  | nil => exact List.IsChain.nil
  | cons parent rest ih =>
      cases rest with
      | nil => exact List.IsChain.singleton parent
      | cons child rest =>
          rw [List.isChain_cons_cons] at h ⊢
          rw [PassesTop, not_or] at htop
          exact ⟨h.1.succeeds htop.1, ih h.2 fun hrest => htop.2 ⟨h.1, hrest⟩⟩

/-- Epochs that follow one another increase, also between headers that are
further apart. -/
theorem pairwise_epoch_lt {chain : List EpochHeader} (h : chain.IsChain EpochHeader.Succeeds) :
    chain.Pairwise fun parent child => parent.epoch < child.epoch := by
  have hlt : chain.IsChain fun parent child : EpochHeader => parent.epoch < child.epoch := by
    refine h.imp ?_
    intro parent child hsucceeds
    rw [UInt64.lt_iff_toNat_lt, hsucceeds]
    exact Nat.lt_succ_self _
  have htrans : IsTrans EpochHeader fun parent child => parent.epoch < child.epoch :=
    ⟨fun _ _ _ => UInt64.lt_trans⟩
  exact List.isChain_iff_pairwise.mp hlt

/-- Nothing is above the last epoch, so a chain that goes on after it cannot be
increasing. -/
theorem not_increasing_of_passesTop {chain : List EpochHeader} (h : PassesTop chain) :
    ¬ chain.Pairwise fun parent child => parent.epoch < child.epoch := by
  induction chain with
  | nil => exact h.elim
  | cons parent rest ih =>
      cases rest with
      | nil => exact h.elim
      | cons child rest =>
          intro hpairwise
          rw [List.pairwise_cons] at hpairwise
          rcases h with htop | ⟨_, hrest⟩
          · have hlt := UInt64.lt_iff_toNat_lt.mp (hpairwise.1 child List.mem_cons_self)
            have hchild := child.epoch.toNat_lt
            unfold EpochHeader.AtTop at htop
            omega
          · exact ih hrest hpairwise.2

/-- The list is accepted from what a header commits to: nothing may follow a
header without commitment. -/
def AcceptedFrom (b : Build) (commitment : Option (Bytes 32)) (chain : List EpochHeader) : Prop :=
  match commitment with
  | none => chain = []
  | some committed => verifyEpochChain b committed chain = .ok ()

/-- A chain is accepted from a commitment exactly if its first header is the
committed one and each header follows the one before. -/
theorem acceptedFrom_iff {b : Build} {commitment : Option (Bytes 32)} {chain : List EpochHeader} :
    AcceptedFrom b commitment chain ↔
      (∀ first ∈ chain.head?, commitment = some first.validatorSetHash) ∧
        chain.IsChain (EpochHeader.Follows b) := by
  cases commitment with
  | none =>
      cases chain with
      | nil => simp [AcceptedFrom]
      | cons first rest => simp [AcceptedFrom]
  | some committed =>
      rw [AcceptedFrom, verifyEpochChain_ok]
      simp only [Option.some.injEq, eq_comm]

/-- **Two pieces.**  A list is accepted when its first piece is, the header
behind that piece follows its last one, and the second piece is a chain. -/
theorem verifyEpochChain_append {b : Build} {anchor : Bytes 32} {chain rest : List EpochHeader}
    {last : EpochHeader} :
    verifyEpochChain b anchor (chain ++ [last] ++ rest) = .ok () ↔
      verifyEpochChain b anchor (chain ++ [last]) = .ok () ∧
        (∀ first ∈ rest.head?, last.Follows b first) ∧
          rest.IsChain (EpochHeader.Follows b) := by
  have hhead : (chain ++ [last] ++ rest).head? = (chain ++ [last]).head? := by
    cases chain <;> rfl
  rw [verifyEpochChain_ok, verifyEpochChain_ok, hhead, List.isChain_append]
  simp only [List.getLast?_concat, Option.mem_def, Option.some.injEq, forall_eq']
  constructor
  · rintro ⟨hfirst, hchain, hrest, hlink⟩
    exact ⟨⟨hfirst, hchain⟩, hlink, hrest⟩
  · rintro ⟨⟨hfirst, hchain⟩, hlink, hrest⟩
    exact ⟨hfirst, hchain, hrest, hlink⟩

/-- A linked chain that reaches the last epoch and has another header passes
it. -/
theorem passesTop_append {pre post : List EpochHeader} {parent child : EpochHeader}
    (h : (pre ++ [parent]).IsChain EpochHeader.Links) (htop : parent.AtTop) :
    PassesTop (pre ++ [parent] ++ child :: post) := by
  induction pre with
  | nil => exact Or.inl htop
  | cons first pre ih =>
      cases pre with
      | nil => exact Or.inr ⟨(List.isChain_cons_cons.mp h).1, ih (List.IsChain.singleton parent)⟩
      | cons second pre =>
          obtain ⟨hlinks, hrest⟩ := List.isChain_cons_cons.mp h
          exact Or.inr ⟨hlinks, ih hrest⟩

/-- What is expected of the verification of a list: no panic, increasing epochs
when it is accepted, and the same verdict piece by piece. -/
structure ForwardOnly (b : Build) (anchor : Bytes 32) (chain : List EpochHeader) : Prop where
  no_panic : verifyEpochChain b anchor chain ≠ .panic
  increasing : verifyEpochChain b anchor chain = .ok () →
    chain.Pairwise fun parent child => parent.epoch < child.epoch
  piecewise : ∀ pre last post, chain = pre ++ [last] ++ post →
    (verifyEpochChain b anchor chain = .ok () ↔
      verifyEpochChain b anchor (pre ++ [last]) = .ok () ∧
        (∀ first ∈ post.head?, last.Succeeds first) ∧
          AcceptedFrom b last.nextValidatorCommitment post)

/-- A list that does not wrap is verified piece by piece. -/
theorem piecewise_of_not_wraps {b : Build} {anchor : Bytes 32} {pre post : List EpochHeader}
    {last : EpochHeader} (h : ¬ Wraps b anchor (pre ++ [last] ++ post)) :
    verifyEpochChain b anchor (pre ++ [last] ++ post) = .ok () ↔
      verifyEpochChain b anchor (pre ++ [last]) = .ok () ∧
        (∀ first ∈ post.head?, last.Succeeds first) ∧
          AcceptedFrom b last.nextValidatorCommitment post := by
  constructor
  · intro hok
    obtain ⟨hpre, hlink, hpost⟩ := verifyEpochChain_append.mp hok
    refine ⟨hpre, ?_, acceptedFrom_iff.mpr ⟨fun first hfirst => (hlink first hfirst).2, hpost⟩⟩
    intro first hfirst
    refine (hlink first hfirst).links.succeeds ?_
    intro htop
    obtain ⟨hanchor, hchain⟩ := verifyEpochChain_ok.mp hok
    have hpreLinks := (verifyEpochChain_ok.mp hpre).2.imp fun _ _ => EpochHeader.Follows.links
    obtain ⟨rest, rfl⟩ : ∃ rest, post = first :: rest := by
      cases post with
      | nil => cases hfirst
      | cons _ rest => exact ⟨rest, by rw [Option.some.inj hfirst]⟩
    exact h ⟨hanchor, passesTop_append hpreLinks htop,
      fun _ => hchain.imp fun _ _ => EpochHeader.Follows.links⟩
  · rintro ⟨hpre, hsucceeds, hpost⟩
    obtain ⟨hcommitted, hchain⟩ := acceptedFrom_iff.mp hpost
    refine verifyEpochChain_append.mpr ⟨hpre, ?_, hchain⟩
    intro first hfirst
    exact EpochHeader.follows_of_succeeds (hsucceeds first hfirst) (hcommitted first hfirst) b

/-- **Epochs only move forward** exactly in the lists that do not wrap, for
both build profiles and all lists of headers. -/
theorem epochs_forward_iff (b : Build) (anchor : Bytes 32) (chain : List EpochHeader) :
    ForwardOnly b anchor chain ↔ ¬ Wraps b anchor chain := by
  constructor
  · rintro hforward ⟨hanchor, htop, hlinks⟩
    cases b with
    | debug =>
        exact hforward.no_panic (verifyEpochChain_panic.mpr
          ⟨hanchor, verifyWindows_debug_panic.mpr htop⟩)
    | release =>
        have hfollows : chain.IsChain (EpochHeader.Follows .release) :=
          (hlinks rfl).imp fun _ child hlink => ⟨by rw [addU64_release, hlink.1], hlink.2⟩
        exact not_increasing_of_passesTop htop
          (hforward.increasing (verifyEpochChain_ok.mpr ⟨hanchor, hfollows⟩))
  · intro hwraps
    refine ⟨?_, ?_, ?_⟩
    · intro hpanic
      obtain ⟨hanchor, hwindows⟩ := verifyEpochChain_panic.mp hpanic
      cases b with
      | debug =>
          exact hwraps ⟨hanchor, verifyWindows_debug_panic.mp hwindows, fun h => by cases h⟩
      | release => exact verifyWindows_release_panic chain hwindows
    · intro hok
      obtain ⟨hanchor, hchain⟩ := verifyEpochChain_ok.mp hok
      have hlinks := hchain.imp fun _ _ => EpochHeader.Follows.links
      exact pairwise_epoch_lt
        (isChain_succeeds hlinks fun htop => hwraps ⟨hanchor, htop, fun _ => hlinks⟩)
    · rintro pre last post rfl
      exact piecewise_of_not_wraps hwraps

/-- Headers of the last epoch and of epoch zero, linked. -/
def wrappingChain : List EpochHeader :=
  [⟨18446744073709551615, Bytes.replicate 32 1, some (Bytes.replicate 32 2), 0⟩,
    ⟨0, Bytes.replicate 32 2, none, 1⟩]

/-- **Back to the start.**  A release build accepts two headers of which the
second has epoch 0, as the last epoch plus one wraps around. -/
theorem epochs_wrap_around : ¬ ∀ b anchor chain, ForwardOnly b anchor chain := by
  intro h
  have hincreasing := (h .release (Bytes.replicate 32 1) wrappingChain).increasing (by decide)
  revert hincreasing
  decide

end Zona
