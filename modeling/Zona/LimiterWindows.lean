import Zona.RollingLimits

/-!
# One window of a bucket

What a limiter admits of one kind for one peer while one window of the bucket
runs, whatever else it is asked meanwhile.  A window opens with a call that
finds no bucket, or a bucket whose window is over.

* `bucketOf_in_window` — the bucket counts the calls up to its limit;
* `check_in_window`, `admittedCalls_in_window` — the first calls of the window
  are admitted, as many as the configuration of the bucket says, and the rest
  are refused.

A bucket keeps the configuration of the call that made it.  For lookups, which
come authenticated and unauthenticated, `limits_apart_iff` says when each of
the two nevertheless gets what its own configuration promises.
-/

namespace Zona

/-- How long the windows of a kind of operation are. -/
def LimitKind.window : LimitKind → Nat
  | .find => seconds 60
  | .ping => seconds 60
  | .invite => seconds 86400

/-- An operation has the window of its kind of limit: two operations may share
a window but not a maximum. -/
theorem LimitOp.window_config (op : LimitOp) : op.config.window = op.kind.window := by
  cases op with
  | find authenticated =>
      cases authenticated with
      | _ => rfl
  | _ => rfl

namespace RateLimiter

variable {kind : LimitKind} {peer : NodeId}

/-- What the limiter is asked next may only add to the calls for a bucket. -/
theorem concerning_initial (pre post : List LimitCall) :
    concerning kind peer pre <+: concerning kind peer (pre ++ post) :=
  ⟨concerning kind peer post, (concerning_append pre post).symm⟩

theorem admittedCalls_sublist (limiter : RateLimiter) (calls : List LimitCall) :
    (limiter.admittedCalls calls).Sublist calls := by
  induction calls generalizing limiter with
  | nil => exact List.Sublist.refl []
  | cons first rest ih =>
      rw [admittedCalls]
      have hrest := ih (limiter.check first).2
      split
      · exact hrest.cons_cons first
      · exact hrest.cons first

/-- A bucket has the configuration that some call for it brought along. -/
theorem config_of_bucketOf {calls : List LimitCall} {bucket : Bucket}
    (h : (new.after calls).bucketOf kind peer = some bucket) :
    ∃ call ∈ calls, call.Concerns kind peer ∧ bucket.config = call.op.config := by
  induction calls using List.reverseRecOn generalizing bucket with
  | nil =>
      cases kind with
      | _ => cases h
  | append_singleton calls call ih =>
      rw [after_concat] at h
      by_cases hconcerns : call.Concerns kind peer
      · rw [bucketOf_check_of_concerns hconcerns, Option.some.injEq] at h
        rw [← h, Bucket.tryConsume_config, currentBucket, hconcerns.1, hconcerns.2]
        cases hold : (new.after calls).bucketOf kind peer with
        | none => exact ⟨call, by simp, hconcerns, rfl⟩
        | some old =>
            obtain ⟨earlier, hearlier, hconfig⟩ := ih hold
            exact ⟨earlier, List.mem_append_left _ hearlier, hconfig⟩
      · rw [bucketOf_check_of_other hconcerns] at h
        obtain ⟨earlier, hearlier, hconfig⟩ := ih h
        exact ⟨earlier, List.mem_append_left _ hearlier, hconfig⟩

/-- The calls for the bucket are those of one window: at `start` the bucket is
not there or its window is over, the first of them comes then, and the others
before the window that it opens is over. -/
structure OneWindow (limiter : RateLimiter) (kind : LimitKind) (peer : NodeId)
    (calls : List LimitCall) (start : Nat) : Prop where
  ended : ∀ bucket, limiter.bucketOf kind peer = some bucket →
    kind.window ≤ start - bucket.windowStart
  first : ∀ call, (concerning kind peer calls).head? = some call → call.now = start
  running : ∀ call ∈ concerning kind peer calls, call.now - start < kind.window

/-- The configuration in force during the window: that of the bucket, which the
first call makes when it is not there. -/
def windowConfig (limiter : RateLimiter) (kind : LimitKind) (peer : NodeId)
    (calls : List LimitCall) : Option LimitConfig :=
  ((limiter.bucketOf kind peer).map Bucket.config).or
    ((concerning kind peer calls).head?.map fun call => call.op.config)

variable {limiter : RateLimiter} {before calls pre post : List LimitCall} {call : LimitCall}
  {config : LimitConfig} {start : Nat}

/-- What comes first of the calls of a window are calls of a window. -/
theorem OneWindow.of_append (h : OneWindow limiter kind peer (pre ++ post) start) :
    OneWindow limiter kind peer pre start where
  ended := h.ended
  first call hcall := by
    refine h.first call ?_
    obtain ⟨rest, hrest⟩ := @concerning_initial kind peer pre post
    rw [← hrest, List.head?_append, hcall]
    rfl
  running call hcall := h.running call ((concerning_initial pre post).mem hcall)

/-- The configuration in force is there from the first call on. -/
theorem windowConfig_of_ne_nil (hne : concerning kind peer pre ≠ [])
    (hconfig : limiter.windowConfig kind peer (pre ++ post) = some config) :
    limiter.windowConfig kind peer pre = some config := by
  have hhead : (concerning kind peer (pre ++ post)).head? = (concerning kind peer pre).head? := by
    obtain ⟨rest, hrest⟩ := @concerning_initial kind peer pre post
    obtain ⟨call, others, hown⟩ := List.exists_cons_of_ne_nil hne
    rw [← hrest, hown]
    rfl
  rw [windowConfig, hhead] at hconfig
  exact hconfig

/-- Calls that do not concern a bucket leave it alone. -/
theorem bucketOf_after_of_others (h : concerning kind peer calls = []) :
    (limiter.after calls).bucketOf kind peer = limiter.bucketOf kind peer := by
  induction calls using List.reverseRecOn with
  | nil => rfl
  | append_singleton calls call ih =>
      have hother : ¬ call.Concerns kind peer := by
        intro hconcerns
        rw [concerning_concat_of_concerns hconcerns] at h
        exact List.append_ne_nil_of_right_ne_nil _ (List.cons_ne_nil call []) h
      rw [concerning_concat_of_other hother] at h
      rw [after_concat, bucketOf_check_of_other hother]
      exact ih h

/-- The bucket that a call of the window finds, once refreshed: it counts the
calls of the window that came before, up to the limit. -/
theorem refresh_in_window (h : OneWindow limiter kind peer (pre ++ [call]) start)
    (hconcerns : call.Concerns kind peer)
    (hconfig : limiter.windowConfig kind peer (pre ++ [call]) = some config)
    (hwindow : config.window = kind.window)
    (hbefore : concerning kind peer pre ≠ [] → (limiter.after pre).bucketOf kind peer =
      some ⟨min (concerning kind peer pre).length config.maxPerWindow, start, config⟩) :
    ((limiter.after pre).currentBucket call).refresh call.now =
      ⟨min (concerning kind peer pre).length config.maxPerWindow, start, config⟩ := by
  have hown := concerning_concat_of_concerns hconcerns pre
  unfold currentBucket
  rw [hconcerns.1, hconcerns.2]
  by_cases hnone : concerning kind peer pre = []
  · -- the first call of the window: it makes the bucket, or starts it again
    have hnow : call.now = start := h.first call (by rw [hown, hnone]; rfl)
    rw [bucketOf_after_of_others hnone, hnone, hnow, List.length_nil, Nat.zero_min]
    unfold windowConfig at hconfig
    rw [hown, hnone] at hconfig
    cases hbucket : limiter.bucketOf kind peer with
    | none =>
        rw [hbucket] at hconfig
        have hmade : call.op.config = config := Option.some.inj hconfig
        rw [hmade, Option.getD_none]
        unfold Bucket.refresh Bucket.new
        split <;> rfl
    | some bucket =>
        rw [hbucket] at hconfig
        have hkept : bucket.config = config := Option.some.inj hconfig
        have hover := h.ended bucket hbucket
        rw [← hwindow, ← hkept] at hover
        rw [Option.getD_some, Bucket.refresh, if_pos hover, hkept]
  · have hrunning := h.running call (by rw [hown]; exact List.mem_append_right _ (by simp))
    rw [← hwindow] at hrunning
    rw [hbefore hnone, Option.getD_some]
    exact if_neg (Nat.not_le.mpr hrunning)

/-- **The bucket during a window** counts the calls of the window up to its
limit. -/
theorem bucketOf_in_window (h : OneWindow limiter kind peer calls start)
    (hconfig : limiter.windowConfig kind peer calls = some config)
    (hwindow : config.window = kind.window) (hsome : concerning kind peer calls ≠ []) :
    (limiter.after calls).bucketOf kind peer =
      some ⟨min (concerning kind peer calls).length config.maxPerWindow, start, config⟩ := by
  induction calls using List.reverseRecOn with
  | nil => exact absurd rfl hsome
  | append_singleton pre call ih =>
      rw [after_concat]
      by_cases hconcerns : call.Concerns kind peer
      · have hbefore := fun hne => ih h.of_append (windowConfig_of_ne_nil hne hconfig) hne
        rw [bucketOf_check_of_concerns hconcerns,
          concerning_concat_of_concerns hconcerns, List.length_append, List.length_singleton]
        unfold Bucket.tryConsume
        rw [refresh_in_window h hconcerns hconfig hwindow hbefore]
        dsimp only
        split
        · simp only [Option.some.injEq, Bucket.mk.injEq, and_true]
          omega
        · simp only [Option.some.injEq, Bucket.mk.injEq, and_true]
          omega
      · have hsame := concerning_concat_of_other hconcerns pre
        rw [hsame] at hsome ⊢
        rw [bucketOf_check_of_other hconcerns]
        exact ih h.of_append (windowConfig_of_ne_nil hsome hconfig) hsome

/-- **A call of a window** passes as long as fewer calls of the window came
before it than the limit. -/
theorem check_in_window (h : OneWindow limiter kind peer (pre ++ call :: post) start)
    (hconcerns : call.Concerns kind peer)
    (hconfig : limiter.windowConfig kind peer (pre ++ call :: post) = some config)
    (hwindow : config.window = kind.window) :
    ((limiter.after pre).check call).1.isOk =
      decide ((concerning kind peer pre).length < config.maxPerWindow) := by
  have hbefore := fun hne =>
    bucketOf_in_window h.of_append (windowConfig_of_ne_nil hne hconfig) hwindow hne
  have hsome : concerning kind peer (pre ++ [call]) ≠ [] := by
    rw [concerning_concat_of_concerns hconcerns]
    exact List.append_ne_nil_of_right_ne_nil _ (List.cons_ne_nil call [])
  rw [List.append_cons] at h hconfig
  rw [check_isOk, Bucket.tryConsume, refresh_in_window h.of_append hconcerns
    (windowConfig_of_ne_nil hsome hconfig) hwindow hbefore]
  dsimp only
  by_cases hroom : (concerning kind peer pre).length < config.maxPerWindow
  · have hcount : min (concerning kind peer pre).length config.maxPerWindow <
        config.maxPerWindow := by omega
    rw [if_pos hcount, decide_eq_true hroom]
  · have hfull : ¬ min (concerning kind peer pre).length config.maxPerWindow <
        config.maxPerWindow := by omega
    rw [if_neg hfull, decide_eq_false hroom]

/-- **What a window admits**, at any moment: the first calls, as many as the
limit says. -/
theorem admittedCalls_in_window (h : OneWindow limiter kind peer (pre ++ post) start)
    (hconfig : limiter.windowConfig kind peer (pre ++ post) = some config)
    (hwindow : config.window = kind.window) :
    concerning kind peer (limiter.admittedCalls pre) =
      (concerning kind peer pre).take config.maxPerWindow := by
  induction pre using List.reverseRecOn generalizing post with
  | nil => exact List.take_nil.symm
  | append_singleton pre call ih =>
      rw [← List.append_cons] at h hconfig
      rw [concerning_admittedCalls_concat, ih h hconfig]
      by_cases hconcerns : call.Concerns kind peer
      · rw [concerning_concat_of_concerns hconcerns,
          check_in_window h hconcerns hconfig hwindow, List.take_append]
        by_cases hroom : (concerning kind peer pre).length < config.maxPerWindow
        · have hone : [call].length ≤ config.maxPerWindow - (concerning kind peer pre).length := by
            rw [List.length_singleton]
            omega
          rw [if_pos ⟨hconcerns, decide_eq_true hroom⟩, List.take_of_length_le hone]
        · have hzero : config.maxPerWindow - (concerning kind peer pre).length = 0 := by omega
          rw [if_neg fun hok => hroom (of_decide_eq_true hok.2), hzero, List.take_zero]
      · rw [concerning_concat_of_other hconcerns, if_neg fun hok => hconcerns hok.1,
          List.append_nil]

/-- A configuration in force is one that some call for the bucket brought
along. -/
theorem config_of_windowConfig
    (h : (new.after before).windowConfig kind peer calls = some config) :
    ∃ call ∈ before ++ calls, call.Concerns kind peer ∧ config = call.op.config := by
  unfold windowConfig at h
  cases hbucket : (new.after before).bucketOf kind peer with
  | some bucket =>
      rw [hbucket] at h
      obtain ⟨call, hcall, hconcerns, hconfig⟩ := config_of_bucketOf hbucket
      exact ⟨call, List.mem_append_left _ hcall, hconcerns,
        (Option.some.inj h).symm.trans hconfig⟩
  | none =>
      rw [hbucket] at h
      obtain ⟨call, hfirst, hconfig⟩ := Option.map_eq_some_iff.mp h
      obtain ⟨hcall, hconcerns⟩ := List.mem_filter.mp (List.mem_of_mem_head? hfirst)
      exact ⟨call, List.mem_append_right _ hcall, of_decide_eq_true hconcerns, hconfig.symm⟩

/-- Without a configuration there was no call, as the first call in a window
fixes it. -/
theorem concerning_of_windowConfig_none (h : limiter.windowConfig kind peer calls = none) :
    concerning kind peer calls = [] := by
  unfold windowConfig at h
  have hfirst := (Option.or_eq_none_iff.mp h).2
  exact List.head?_eq_none_iff.mp (Option.map_eq_none_iff.mp hfirst)

/-- Nothing is admitted for a bucket that no call is for. -/
theorem concerning_admittedCalls_of_nil (h : concerning kind peer calls = []) :
    concerning kind peer (limiter.admittedCalls calls) = [] :=
  List.eq_nil_of_sublist_nil (h ▸ (admittedCalls_sublist limiter calls).filter _)

/-- The calls in an interval of the length of a window are those of one window,
when no window is running at its beginning. -/
theorem oneWindow_of_interval
    (hover : ∀ bucket, limiter.bucketOf kind peer = some bucket →
      kind.window ≤ start - bucket.windowStart)
    (hinside : ∀ call ∈ concerning kind peer calls,
      start ≤ call.now ∧ call.now < start + kind.window) :
    ∃ first, OneWindow limiter kind peer calls first := by
  cases hhead : (concerning kind peer calls).head? with
  | none =>
      have hnone := List.head?_eq_none_iff.mp hhead
      refine ⟨start, hover, by simp [hnone], ?_⟩
      intro call hcall
      rw [hnone] at hcall
      cases hcall
  | some opening =>
      obtain ⟨hfrom, huntil⟩ := hinside opening (List.mem_of_mem_head? hhead)
      refine ⟨opening.now, ?_, ?_, ?_⟩
      · intro bucket hbucket
        have hlong := hover bucket hbucket
        omega
      · intro call hcall
        rw [hhead] at hcall
        rw [Option.some.inj hcall]
      · intro call hcall
        have hlate := (hinside call hcall).2
        omega

/-- **What a window admits of one operation**: as many calls as its maximum
allows, or all of them if there are fewer. -/
theorem length_admittedCalls_in_window {op : LimitOp}
    (h : OneWindow (new.after before) op.kind peer calls start)
    (hsame : ∀ call ∈ before ++ calls, call.Concerns op.kind peer → call.op = op) :
    (concerning op.kind peer ((new.after before).admittedCalls calls)).length =
      min op.config.maxPerWindow (concerning op.kind peer calls).length := by
  cases hconfig : (new.after before).windowConfig op.kind peer calls with
  | none =>
      have hnone := concerning_of_windowConfig_none hconfig
      rw [concerning_admittedCalls_of_nil hnone, hnone, List.length_nil, Nat.min_zero]
  | some config =>
      obtain ⟨call, hcall, hconcerns, hmade⟩ := config_of_windowConfig hconfig
      rw [hsame call hcall hconcerns] at hmade
      rw [hmade, ← List.append_nil calls] at hconfig
      rw [← List.append_nil calls] at h
      rw [admittedCalls_in_window h hconfig op.window_config, List.length_take]

/-- The peer's lookups get what the configuration of their own kind promises:
no more than ten unauthenticated ones are admitted, and an authenticated one is
admitted whenever fewer than sixty were before it. -/
def LimitsApart (limiter : RateLimiter) (peer : NodeId) (calls : List LimitCall) : Prop :=
  (concerning .find peer (limiter.admittedCalls calls)).countP
      (fun call => call.op = .find false) ≤ 10 ∧
    ∀ pre call post, calls = pre ++ call :: post → call.op = .find true → call.peer = peer →
      (concerning .find peer (limiter.admittedCalls pre)).length < 60 →
        ((limiter.after pre).check call).1.isOk

/-- In the bucket of an authenticated lookup only the unauthenticated ones may
get too much. -/
theorem limitsApart_of_findNode (h : OneWindow limiter .find peer calls start)
    (hconfig : limiter.windowConfig .find peer calls = some LimitConfig.findNode) :
    LimitsApart limiter peer calls ↔
      ((concerning .find peer calls).take 60).countP (fun call => call.op = .find false) ≤ 10 := by
  rw [← List.append_nil calls] at h hconfig
  unfold LimitsApart
  rw [admittedCalls_in_window h hconfig rfl]
  refine ⟨fun hapart => hapart.1, fun hfew => ⟨hfew, ?_⟩⟩
  intro pre call post hsplit hop hpeer hless
  have hconcerns : call.Concerns .find peer := ⟨by rw [hop]; rfl, hpeer⟩
  rw [List.append_nil, hsplit] at h hconfig
  rw [admittedCalls_in_window h hconfig rfl, List.length_take] at hless
  rw [check_in_window h hconcerns hconfig rfl]
  exact decide_eq_true (by change _ < 60; change min 60 _ < 60 at hless; omega)

/-- In the bucket of an unauthenticated lookup only the authenticated ones may
get too little. -/
theorem limitsApart_of_findUnauth (h : OneWindow limiter .find peer calls start)
    (hconfig : limiter.windowConfig .find peer calls = some LimitConfig.findUnauth) :
    LimitsApart limiter peer calls ↔
      ∀ call ∈ (concerning .find peer calls).drop 10, call.op = .find false := by
  have hadmitted : ∀ pre post, calls = pre ++ post →
      (concerning .find peer (limiter.admittedCalls pre)).length ≤ 10 := by
    intro pre post hsplit
    rw [hsplit] at h hconfig
    rw [admittedCalls_in_window h hconfig rfl]
    exact List.length_take_le 10 _
  constructor
  · rintro ⟨_, hroom⟩ call hcall
    obtain ⟨skipped, rest, hdrop⟩ := List.append_of_mem hcall
    have hown : concerning .find peer calls =
        ((concerning .find peer calls).take 10 ++ skipped) ++ call :: rest := by
      rw [List.append_assoc, ← hdrop, List.take_append_drop]
    obtain ⟨pre, post, hsplit, hpre, hconcerns⟩ := concerning_split hown
    -- eleven calls of the window are too many for this bucket
    have hten : 10 ≤ (concerning .find peer pre).length := by
      have hlong : 10 < (concerning .find peer calls).length := by
        have hlength := congrArg List.length hdrop
        rw [List.length_drop, List.length_append, List.length_cons] at hlength
        omega
      rw [hpre, List.length_append, List.length_take]
      omega
    cases hop : call.op with
    | ping => exact absurd hconcerns.1 (by rw [hop]; exact LimitKind.noConfusion)
    | invite => exact absurd hconcerns.1 (by rw [hop]; exact LimitKind.noConfusion)
    | find authenticated =>
        cases authenticated with
        | false => rfl
        | true =>
            have hpassed := hroom pre call post hsplit hop hconcerns.2
              (Nat.lt_of_le_of_lt (hadmitted pre _ hsplit) (by decide))
            rw [hsplit] at h hconfig
            rw [check_in_window h hconcerns hconfig rfl] at hpassed
            exact absurd (of_decide_eq_true hpassed) (Nat.not_lt.mpr hten)
  · intro hrest
    refine ⟨Nat.le_trans List.countP_le_length
      (hadmitted calls [] (List.append_nil calls).symm), ?_⟩
    intro pre call post hsplit hop hpeer _
    have hconcerns : call.Concerns .find peer := ⟨by rw [hop]; rfl, hpeer⟩
    have hown : concerning .find peer calls =
        concerning .find peer pre ++ call :: concerning .find peer post := by
      rw [hsplit, concerning_append_cons hconcerns]
    rw [hsplit] at h hconfig
    rw [check_in_window h hconcerns hconfig rfl]
    apply decide_eq_true
    apply Nat.lt_of_not_le
    intro (hten : 10 ≤ (concerning .find peer pre).length)
    have hlate : call ∈ (concerning .find peer calls).drop 10 := by
      rw [hown, List.drop_append_of_le_length hten]
      exact List.mem_append_right _ List.mem_cons_self
    rw [hrest call hlate] at hop
    cases hop

/-- **The limits stay apart** when an authenticated lookup made the bucket and
no more than ten of the first sixty lookups of the window are unauthenticated,
or an unauthenticated lookup made it and every lookup after the first ten is
unauthenticated too. -/
theorem limits_apart_iff {start : Nat}
    (h : OneWindow (new.after before) .find peer calls start) :
    LimitsApart (new.after before) peer calls ↔
      if (new.after before).windowConfig .find peer calls = some LimitConfig.findNode then
        ((concerning .find peer calls).take 60).countP (fun call => call.op = .find false) ≤ 10
      else ∀ call ∈ (concerning .find peer calls).drop 10, call.op = .find false := by
  cases hconfig : (new.after before).windowConfig .find peer calls with
  | none =>
      have hnone := concerning_of_windowConfig_none hconfig
      have hadmitted : concerning .find peer ((new.after before).admittedCalls calls) = [] :=
        concerning_admittedCalls_of_nil hnone
      rw [hnone, if_neg (by simp)]
      constructor
      · intro _ call hcall
        cases hcall
      · intro _
        refine ⟨by rw [hadmitted]; exact Nat.zero_le 10, ?_⟩
        intro pre call post hsplit hop hpeer _
        have hmem : call ∈ concerning .find peer calls :=
          List.mem_filter.mpr ⟨by simp [hsplit], decide_eq_true ⟨by rw [hop]; rfl, hpeer⟩⟩
        rw [hnone] at hmem
        cases hmem
  | some config =>
      obtain ⟨⟨op, issuer, now⟩, _, ⟨hkind, _⟩, hop⟩ := config_of_windowConfig hconfig
      cases op with
      | ping => cases hkind
      | invite => cases hkind
      | find authenticated =>
          cases authenticated with
          | true =>
              have hmade : config = LimitConfig.findNode := hop
              rw [hmade] at hconfig
              rw [hmade, if_pos rfl]
              exact limitsApart_of_findNode h hconfig
          | false =>
              have hmade : config = LimitConfig.findUnauth := hop
              rw [hmade] at hconfig
              rw [hmade, if_neg (by decide)]
              exact limitsApart_of_findUnauth h hconfig

/-- A lookup of a sample peer. -/
def sampleLookup (authenticated : Bool) : LimitCall :=
  ⟨.find authenticated, ⟨Bytes.replicate 32 1⟩, 0⟩

/-- Lookups at one instant fall into one window, whatever their flags are. -/
theorem oneWindow_of_sampleLookups {flags : List Bool} :
    OneWindow new .find ⟨Bytes.replicate 32 1⟩ (flags.map sampleLookup) 0 := by
  have hsample : ∀ call ∈ concerning .find ⟨Bytes.replicate 32 1⟩ (flags.map sampleLookup),
      call.now = 0 := by
    intro call hcall
    obtain ⟨flag, _, rfl⟩ := List.mem_map.mp (List.mem_of_mem_filter hcall)
    rfl
  refine ⟨fun bucket hbucket => (nomatch hbucket), ?_, ?_⟩
  · intro call hcall
    exact hsample call (List.mem_of_mem_head? hcall)
  · intro call hcall
    rw [hsample call hcall]
    decide

/-- Two authenticated lookups and ten unauthenticated ones keep the limits
apart. -/
theorem twelve_lookups_apart :
    LimitsApart (new.after []) ⟨Bytes.replicate 32 1⟩
      (([true, true] ++ List.replicate 10 false).map sampleLookup) :=
  (@limits_apart_iff _ [] _ 0 oneWindow_of_sampleLookups).mpr (by decide +kernel)

/-- After one unauthenticated lookup the tenth authenticated one is refused,
and after one authenticated lookup eleven unauthenticated ones are admitted. -/
theorem mixed_lookups_share_a_bucket :
    (OneWindow new .find ⟨Bytes.replicate 32 1⟩
        ((false :: List.replicate 10 true).map sampleLookup) 0 ∧
      ¬ LimitsApart new ⟨Bytes.replicate 32 1⟩
        ((false :: List.replicate 10 true).map sampleLookup)) ∧
    (OneWindow new .find ⟨Bytes.replicate 32 1⟩
        ((true :: List.replicate 11 false).map sampleLookup) 0 ∧
      ¬ LimitsApart new ⟨Bytes.replicate 32 1⟩
        ((true :: List.replicate 11 false).map sampleLookup)) := by
  refine ⟨⟨oneWindow_of_sampleLookups, ?_⟩, oneWindow_of_sampleLookups, ?_⟩
  · intro hapart
    have hpassed := hapart.2 ((false :: List.replicate 9 true).map sampleLookup)
      (sampleLookup true) [] rfl rfl rfl (by decide +kernel)
    revert hpassed
    decide +kernel
  · intro hapart
    have hfew := hapart.1
    revert hfew
    decide +kernel

end RateLimiter

end Zona
