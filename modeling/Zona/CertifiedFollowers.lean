import Zona.LabelledRuns
import Mathlib.Data.List.Basic

/-!
# Followers of certified blocks

A follower holds a committee and the best block it knows.  It adopts a higher
block on a certificate that its committee accepts, and it installs another
committee; nothing says when.

`Followed` is what a run leaves behind: the block is the one that the follower
started with, or a certificate made it so, accepted by the committee in force
then.  `agreement` compares two runs that install committees from one list:
where the followers hold different blocks at one height, some committee of the
list accepted both, or the height lies across a rotation.
-/

/-- When a certificate is accepted, and what it is about. -/
structure CertifiedBlocks (κ γ η β : Type) where
  accepts : κ → γ → Prop
  heightOf : γ → η
  blockOf : γ → β

/-- A committee in force and the best block known. -/
structure Follower (κ η β : Type) where
  committee : κ
  height : η
  block : β

namespace Follower

variable {κ γ η β : Type}

/-- What changes a follower. -/
inductive Event (κ γ : Type)
  | adopt (cert : γ)
  | install (committee : κ)

section Steps

variable [LT η] {rules : CertifiedBlocks κ γ η β}

/-- One change. -/
inductive Step (rules : CertifiedBlocks κ γ η β) :
    Follower κ η β → Event κ γ → Follower κ η β → Prop
  | adopt {f : Follower κ η β} {cert : γ} (haccepts : rules.accepts f.committee cert)
      (habove : f.height < rules.heightOf cert) :
      Step rules f (.adopt cert)
        { f with height := rules.heightOf cert, block := rules.blockOf cert }
  | install {f : Follower κ η β} {committee : κ} :
      Step rules f (.install committee) { f with committee := committee }

end Steps

/-- The certificates a follower adopted, oldest first. -/
def adopted (es : List (Transition (Follower κ η β) (Event κ γ))) : List γ :=
  es.filterMap fun e =>
    match e.label with
    | .adopt cert => some cert
    | .install _ => none

/-- The committees a follower installed, oldest first, each with the height
that it knew then. -/
def installed (es : List (Transition (Follower κ η β) (Event κ γ))) : List (κ × η) :=
  es.filterMap fun e =>
    match e.label with
    | .adopt _ => none
    | .install committee => some (committee, e.before.height)

/-- The certificates adopted in two runs in a row are those of the first and
then those of the second. -/
@[simp]
theorem adopted_append (es fs : List (Transition (Follower κ η β) (Event κ γ))) :
    adopted (es ++ fs) = adopted es ++ adopted fs :=
  List.filterMap_append

/-- The rotations made in two runs in a row are those of the first and then
those of the second. -/
@[simp]
theorem installed_append (es fs : List (Transition (Follower κ η β) (Event κ γ))) :
    installed (es ++ fs) = installed es ++ installed fs :=
  List.filterMap_append

section Views

variable {σ ι : Type} {abs : σ → Follower κ η β}
  {view : Transition σ ι → Option (Event κ γ)}

/-- The rotations of a system that is a follower, read off its own records. -/
theorem installed_project {made : Transition σ ι → Option (κ × η)}
    (hmade : ∀ e, made e =
      match view e with
      | some (.install committee) => some (committee, (abs e.before).height)
      | _ => none) (es : List (Transition σ ι)) :
    installed (Trace.project abs view es) = es.filterMap made := by
  unfold installed Trace.project
  rw [List.filterMap_filterMap]
  apply List.filterMap_congr
  intro e he
  rw [hmade e]
  cases view e with
  | none => rfl
  | some event => cases event <;> rfl

theorem adopted_project {given : Transition σ ι → Option γ}
    (hgiven : ∀ e cert, view e = some (.adopt cert) → given e = some cert)
    (es : List (Transition σ ι)) :
    adopted (Trace.project abs view es) ⊆ es.filterMap given := by
  intro cert hcert
  obtain ⟨e', he', hadopt⟩ := List.mem_filterMap.mp hcert
  obtain ⟨e, he, hview⟩ := List.mem_filterMap.mp he'
  obtain ⟨event, hevent, rfl⟩ := Option.map_eq_some_iff.mp hview
  refine List.mem_filterMap.mpr ⟨e, he, hgiven e cert ?_⟩
  cases event with
  | adopt cert' =>
      obtain rfl := Option.some.inj hadopt
      exact hevent
  | install committee => cases hadopt

end Views

/-- The committee in force after rotations. -/
def inForce (start : κ) (rotations : List (κ × η)) : κ :=
  (rotations.map Prod.fst).getLastD start

/-- After a last rotation its committee is the one in force, whatever came
before. -/
theorem inForce_snoc (start : κ) (rotations : List (κ × η)) (last : κ × η) :
    inForce start (rotations ++ [last]) = last.1 := by
  simp [inForce]

/-- The committee in force after a beginning of a list is one of it. -/
theorem inForce_mem {genesis : κ} {made : List (κ × η)} {rotations : List κ}
    (hsame : made.map Prod.fst <+: rotations) : inForce genesis made ∈ genesis :: rotations := by
  unfold inForce
  rw [List.getLastD_eq_getLast?]
  cases hlast : (made.map Prod.fst).getLast? with
  | none => exact List.mem_cons_self
  | some committee =>
      exact List.mem_cons_of_mem _ (hsame.subset (List.mem_of_getLast? hlast))

/-- Beginnings of one list of the same length put the same committee in force. -/
theorem inForce_eq {genesis : κ} {made made' : List (κ × η)} {rotations : List κ}
    (hsame : made.map Prod.fst <+: rotations) (hsame' : made'.map Prod.fst <+: rotations)
    (hlength : made.length = made'.length) : inForce genesis made = inForce genesis made' := by
  unfold inForce
  rw [List.prefix_iff_eq_take.mp hsame, List.prefix_iff_eq_take.mp hsame', List.length_map,
    List.length_map, hlength]

/-- Rotations that were made earlier count as made at the height a follower
starts from. -/
def earlierAt (earlier : List κ) (height : η) : List (κ × η) :=
  earlier.map fun committee => (committee, height)

/-- Rotations that were made before the run began may be listed as made at its
first height: the committee in force is the same. -/
theorem inForce_earlierAt (genesis : κ) (earlier : List κ) (height : η)
    (rotations : List (κ × η)) :
    inForce genesis (earlierAt earlier height ++ rotations) =
      inForce (earlier.getLastD genesis) rotations := by
  unfold inForce earlierAt
  rw [List.map_append, List.map_map]
  have hearlier : earlier.map (Prod.fst ∘ fun committee => (committee, height)) = earlier := by
    simp [Function.comp_def]
  rw [hearlier, List.getLastD_eq_getLast?, List.getLastD_eq_getLast?,
    List.getLastD_eq_getLast?, List.getLast?_append]
  cases (rotations.map Prod.fst).getLast? <;> rfl

/-- A rotation lies across a height: one list has it below the height, the
other not below it or not at all. -/
def Across [LT η] [LE η] (made made' : List (κ × η)) (height : η) : Prop :=
  ∃ (k : Nat) (rotation : κ × η), made[k]? = some rotation ∧ rotation.2 < height ∧
    ∀ rotation', made'[k]? = some rotation' → height ≤ rotation'.2

section Certificates

variable [LT η] {rules : CertifiedBlocks κ γ η β}

/-- Some certificate of a list made the block what it is, in the midst of the
rotations: those before it lie below the height, those after it at the height. -/
inductive Certified (rules : CertifiedBlocks κ γ η β) (start : κ) (certs : List γ)
    (made : List (κ × η)) (height : η) (block : β) : Prop
  | intro (cert : γ) (pre post : List (κ × η)) (given : cert ∈ certs)
      (accepted : rules.accepts (inForce start pre) cert)
      (height_eq : rules.heightOf cert = height) (block_eq : rules.blockOf cert = block)
      (rotations : made = pre ++ post) (below : ∀ rotation ∈ pre, rotation.2 < height)
      (standing : ∀ rotation ∈ post, rotation.2 = height)

/-- A certified block stays certified when more certificates are looked at. -/
theorem Certified.mono {start : κ} {certs certs' : List γ} {made : List (κ × η)} {height : η}
    {block : β} (h : Certified rules start certs made height block) (hsub : certs ⊆ certs') :
    Certified rules start certs' made height block := by
  obtain ⟨cert, pre, post, hgiven, haccepts, hheight, hblock, hmade, hbelow, hstanding⟩ := h
  exact ⟨cert, pre, post, hsub hgiven, haccepts, hheight, hblock, hmade, hbelow, hstanding⟩

/-- A rotation at the height of the block comes after its certificate. -/
theorem Certified.snoc {start : κ} {certs : List γ} {made : List (κ × η)} {height : η}
    {block : β} (h : Certified rules start certs made height block) (committee : κ) :
    Certified rules start certs (made ++ [(committee, height)]) height block := by
  obtain ⟨cert, pre, post, hgiven, haccepts, hheight, hblock, hmade, hbelow, hstanding⟩ := h
  refine ⟨cert, pre, post ++ [(committee, height)], hgiven, haccepts, hheight, hblock, ?_,
    hbelow, ?_⟩
  · rw [hmade, List.append_assoc]
  · intro rotation hrotation
    rcases List.mem_append.mp hrotation with hold | hnew
    · exact hstanding rotation hold
    · rw [List.mem_singleton.mp hnew]

/-- A certified block above the start is certified among all rotations. -/
theorem Certified.since {genesis start : κ} {certs : List γ} {made : List (κ × η)}
    {height below : η} {block : β} (h : Certified rules start certs made height block)
    {earlier : List κ} (hstart : start = earlier.getLastD genesis) (habove : below < height) :
    Certified rules genesis certs (earlierAt earlier below ++ made) height block := by
  obtain ⟨cert, pre, post, hgiven, haccepts, hheight, hblock, hmade, hbelow, hstanding⟩ := h
  refine ⟨cert, earlierAt earlier below ++ pre, post, hgiven, ?_, hheight, hblock, ?_, ?_,
    hstanding⟩
  · rw [inForce_earlierAt, ← hstart]
    exact haccepts
  · rw [hmade, List.append_assoc]
  · intro rotation hrotation
    rcases List.mem_append.mp hrotation with hbefore | hlater
    · obtain ⟨_, _, rfl⟩ := List.mem_map.mp hbefore
      exact habove
    · exact hbelow rotation hlater

end Certificates

section Runs

variable [LT η] [LE η] {rules : CertifiedBlocks κ γ η β}

/-- What holds of a follower after a run. -/
structure Followed (rules : CertifiedBlocks κ γ η β) (start : Follower κ η β)
    (es : List (Transition (Follower κ η β) (Event κ γ))) (f : Follower κ η β) : Prop where
  committee_eq : f.committee = inForce start.committee (installed es)
  rose : start.height ≤ f.height
  made : ∀ rotation ∈ installed es, rotation.2 ≤ f.height
  cause : (f.height = start.height ∧ f.block = start.block) ∨
    (start.height < f.height ∧
      Certified rules start.committee (adopted es) (installed es) f.height f.block)

variable [Std.IsLinearOrder η]

/-- A follower that has done nothing holds the block it began with and has made
no rotation. -/
theorem Followed.refl (start : Follower κ η β) : Followed rules start [] start where
  committee_eq := rfl
  rose := Std.le_refl _
  made := by
    intro rotation h
    cases h
  cause := Or.inl ⟨rfl, rfl⟩

/-- **Installing a committee** leaves the cause of the block in place: the
rotation is made at the height of the block, and so after its certificate. -/
theorem Followed.install {start f : Follower κ η β}
    {es : List (Transition (Follower κ η β) (Event κ γ))} (h : Followed rules start es f)
    (committee : κ) :
    Followed rules start (es ++ [⟨f, .install committee, { f with committee := committee }⟩])
      { f with committee := committee } := by
  have hmore : installed (es ++
      [⟨f, Event.install (γ := γ) committee, { f with committee := committee }⟩]) =
      installed es ++ [(committee, f.height)] := by
    rw [installed_append]
    rfl
  have hnone : adopted (es ++
      [⟨f, Event.install (γ := γ) committee, { f with committee := committee }⟩]) =
      adopted es := by
    rw [adopted_append]
    exact List.append_nil _
  refine
    { committee_eq := ?_
      rose := h.rose
      made := ?_
      cause := ?_ }
  · rw [hmore, inForce_snoc]
  · intro rotation hrotation
    rw [hmore] at hrotation
    rcases List.mem_append.mp hrotation with hold | hnew
    · exact h.made rotation hold
    · rw [List.mem_singleton.mp hnew]
      exact Std.le_refl _
  · rw [hmore, hnone]
    exact h.cause.imp_right fun ⟨habove, hcertified⟩ => ⟨habove, hcertified.snoc committee⟩

variable [Std.LawfulOrderLT η]

/-- **Adopting a block** makes its certificate the cause, which the committee
in force accepts and which is above all earlier rotations. -/
theorem Followed.adopt {start f : Follower κ η β}
    {es : List (Transition (Follower κ η β) (Event κ γ))} (h : Followed rules start es f)
    {cert : γ} (haccepts : rules.accepts f.committee cert)
    (habove : f.height < rules.heightOf cert) :
    Followed rules start
      (es ++ [⟨f, .adopt cert,
        { f with height := rules.heightOf cert, block := rules.blockOf cert }⟩])
      { f with height := rules.heightOf cert, block := rules.blockOf cert } := by
  have hsame : installed (es ++ [⟨f, .adopt cert,
      { f with height := rules.heightOf cert, block := rules.blockOf cert }⟩]) =
      installed es := by
    rw [installed_append]
    exact List.append_nil _
  have hbelow : ∀ rotation ∈ installed es, rotation.2 < rules.heightOf cert :=
    fun rotation hrotation => Std.lt_of_le_of_lt (h.made rotation hrotation) habove
  refine
    { committee_eq := ?_
      rose := Std.le_trans h.rose (Std.le_of_lt habove)
      made := ?_
      cause := Or.inr ⟨Std.lt_of_le_of_lt h.rose habove, ?_⟩ }
  · rw [hsame]
    exact h.committee_eq
  · intro rotation hrotation
    rw [hsame] at hrotation
    exact Std.le_of_lt (hbelow rotation hrotation)
  · refine ⟨cert, installed es, [], ?_, ?_, rfl, rfl, ?_, hbelow, ?_⟩
    · rw [adopted_append]
      exact List.mem_append_right _ (by simp [adopted])
    · rw [← h.committee_eq]
      exact haccepts
    · rw [hsame, List.append_nil]
    · intro rotation hrotation
      cases hrotation

/-- **The run**, by induction: at every moment the follower holds the block it
began with or one that a committee in force certified at that height. -/
theorem followed_of_run {start f : Follower κ η β}
    {es : List (Transition (Follower κ η β) (Event κ γ))} (run : Trace (Step rules) start es f) :
    Followed rules start es f := by
  induction run with
  | nil => exact Followed.refl start
  | @snoc t u event es init last ih =>
      cases last with
      | adopt haccepts habove => exact ih.adopt haccepts habove
      | install => exact ih.install _

end Runs

section Agreement

variable [LT η] [LE η] {rules : CertifiedBlocks κ γ η β}

variable [Std.IsLinearOrder η]

/-- A follower that had installed more committees when its block was certified
has a rotation below the height that the other has not. -/
theorem across_of_lt {made made' pre post pre' post' : List (κ × η)} {height : η}
    (hmade : made = pre ++ post) (hmade' : made' = pre' ++ post')
    (hbelow : ∀ rotation ∈ pre, rotation.2 < height)
    (hstanding : ∀ rotation ∈ post', rotation.2 = height) (hlt : pre'.length < pre.length) :
    Across made made' height := by
  refine ⟨pre'.length, pre[pre'.length], ?_, hbelow _ (List.getElem_mem hlt), ?_⟩
  · rw [hmade, List.getElem?_append_left hlt, List.getElem?_eq_getElem hlt]
  · intro rotation' hrotation'
    rw [hmade', List.getElem?_append_right (Nat.le_refl _)] at hrotation'
    exact Std.le_of_eq (hstanding rotation' (List.mem_of_getElem? hrotation')).symm

/-- **Agreement.**  Two followers install committees from one list.  Where
different blocks are certified to them at one height, some committee of the
list accepts certificates of both, or a rotation lies across the height. -/
theorem agreement {genesis : κ} {rotations : List κ} {certs certs' : List γ}
    {made made' : List (κ × η)} {height : η} {block block' : β}
    (h : Certified rules genesis certs made height block)
    (h' : Certified rules genesis certs' made' height block')
    (hsame : made.map Prod.fst <+: rotations) (hsame' : made'.map Prod.fst <+: rotations)
    (hblock : block ≠ block') :
    (∃ committee ∈ genesis :: rotations, ∃ cert ∈ certs, ∃ cert' ∈ certs',
      rules.accepts committee cert ∧ rules.accepts committee cert' ∧
        rules.heightOf cert = height ∧ rules.heightOf cert' = height ∧
        rules.blockOf cert ≠ rules.blockOf cert') ∨
      Across made made' height ∨ Across made' made height := by
  obtain ⟨cert, pre, post, hgiven, haccepts, hat, hof, hmade, hbelow, hstanding⟩ := h
  obtain ⟨cert', pre', post', hgiven', haccepts', hat', hof', hmade', hbelow', hstanding'⟩ := h'
  rcases Nat.lt_trichotomy pre.length pre'.length with hless | hequal | hmore
  · exact Or.inr (Or.inr (across_of_lt hmade' hmade hbelow' hstanding hless))
  · left
    rw [hmade, List.map_append] at hsame
    rw [hmade', List.map_append] at hsame'
    have hprefix := (List.prefix_append _ _).trans hsame
    have hforce : inForce genesis pre = inForce genesis pre' :=
      inForce_eq hprefix ((List.prefix_append _ _).trans hsame') hequal
    rw [← hforce] at haccepts'
    refine ⟨inForce genesis pre, inForce_mem hprefix, cert, hgiven, cert', hgiven', haccepts,
      haccepts', hat, hat', ?_⟩
    rw [hof, hof']
    exact hblock
  · exact Or.inr (Or.inl (across_of_lt hmade hmade' hbelow hstanding' hmore))

end Agreement

end Follower
