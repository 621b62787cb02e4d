import Zona.FixedWindows
import Zona.RateLimits

/-!
# Rate limits over rolling windows

A limiter may be asked about several peers and several kinds of operation in
any order.  Each call touches one bucket, that of its peer and its kind
(`bucketOf_check_of_concerns`, `bucketOf_check_of_other`), and a bucket is a
counter over a fixed window, so what a limiter admits of one kind for one peer
is the log of such a counter (`admittedTimes_eq`).

`rolling_limit_iff` carries over to the limiter what is known of counters: the
limit holds over every interval of the length of a window as long as no call
makes the bucket forget, and after a call that does, a burst breaks it.
-/

namespace Zona

/-- The kinds of operation that have buckets of their own. -/
inductive LimitKind
  | find
  | ping
  | invite
  deriving DecidableEq

/-- What a limiter is asked about. -/
inductive LimitOp
  | find (authenticated : Bool)
  | ping
  | invite
  deriving DecidableEq

namespace LimitOp

def kind : LimitOp → LimitKind
  | .find _ => .find
  | .ping => .ping
  | .invite => .invite

/-- The configuration that a call brings along. -/
def config : LimitOp → LimitConfig
  | .find authenticated =>
      if authenticated then LimitConfig.findNode else LimitConfig.findUnauth
  | .ping => LimitConfig.ping
  | .invite => LimitConfig.invite

theorem window_pos (op : LimitOp) : 0 < op.config.window := by
  cases op with
  | find authenticated =>
      cases authenticated with
      | _ => decide
  | _ => decide

end LimitOp

/-- One call: the operation, whose it is, and the reading of the clock. -/
structure LimitCall where
  op : LimitOp
  peer : NodeId
  now : Nat
  deriving DecidableEq

/-- The call touches the peer's bucket for the kind. -/
def LimitCall.Concerns (kind : LimitKind) (peer : NodeId) (call : LimitCall) : Prop :=
  call.op.kind = kind ∧ call.peer = peer

instance (kind : LimitKind) (peer : NodeId) (call : LimitCall) :
    Decidable (call.Concerns kind peer) :=
  inferInstanceAs (Decidable (_ ∧ _))

def LimitConfig.rule (config : LimitConfig) : FixedWindow.Rule :=
  ⟨config.maxPerWindow, config.window⟩

/-- The bucket of a counter. -/
def Bucket.ofCounter (config : LimitConfig) (c : FixedWindow.Counter) : Bucket :=
  ⟨c.count, c.start, config⟩

/-- A bucket refreshes as the counter of a fixed window does, so it is one. -/
theorem Bucket.refresh_ofCounter (config : LimitConfig) (c : FixedWindow.Counter) (now : Nat) :
    (ofCounter config c).refresh now = ofCounter config (c.refresh config.rule now) := by
  by_cases hover : config.window ≤ now - c.start
  · rw [@FixedWindow.Counter.refresh_of_over config.rule c now hover]
    exact if_pos hover
  · rw [@FixedWindow.Counter.refresh_of_running config.rule c now (Nat.not_le.mp hover)]
    exact if_neg hover

/-- **A bucket is a counter** over the fixed window of its configuration: it
admits the same calls and goes on in the same way. -/
theorem Bucket.tryConsume_ofCounter (config : LimitConfig) (c : FixedWindow.Counter)
    (now : Nat) :
    (ofCounter config c).tryConsume now =
      (c.admits config.rule now, ofCounter config (c.next config.rule now)) := by
  unfold tryConsume FixedWindow.Counter.next FixedWindow.Counter.admits
  rw [refresh_ofCounter]
  by_cases hroom : (c.refresh config.rule now).count < config.rule.max
  · simp only [decide_eq_true hroom, if_true]
    exact if_pos hroom
  · simp only [decide_eq_false hroom, if_false, Bool.false_eq_true]
    exact if_neg hroom

namespace RateLimiter

def buckets (limiter : RateLimiter) : LimitKind → HashMap NodeId Bucket
  | .find => limiter.find
  | .ping => limiter.ping
  | .invite => limiter.invite

/-- The peer's bucket for a kind of operation. -/
def bucketOf (limiter : RateLimiter) (kind : LimitKind) (peer : NodeId) : Option Bucket :=
  (limiter.buckets kind).lookup peer

/-- Any of the three checks. -/
def check (limiter : RateLimiter) (call : LimitCall) : Except ProtocolError Unit × RateLimiter :=
  match call.op with
  | .find authenticated => limiter.checkFind call.peer authenticated call.now
  | .ping => limiter.checkPing call.peer call.now
  | .invite => limiter.checkInvite call.peer call.now

/-- **A check** consumes from the buckets of its kind, and passes when there
was something left. -/
theorem check_eq (limiter : RateLimiter) (call : LimitCall) :
    ((limiter.check call).1.isOk =
      (consume (limiter.buckets call.op.kind) call.op.config call.peer call.now).1) ∧
    ∀ kind, (limiter.check call).2.buckets kind =
      if kind = call.op.kind then
        (consume (limiter.buckets call.op.kind) call.op.config call.peer call.now).2
      else limiter.buckets kind := by
  unfold check
  cases hop : call.op with
  | find authenticated =>
      dsimp only [checkFind, LimitOp.kind, LimitOp.config, buckets]
      rcases consume limiter.find (if authenticated = true then LimitConfig.findNode
        else LimitConfig.findUnauth) call.peer call.now with ⟨allowed, find⟩
      cases allowed with
      | _ => exact ⟨rfl, fun kind => by cases kind <;> rfl⟩
  | ping =>
      dsimp only [checkPing, LimitOp.kind, LimitOp.config, buckets]
      rcases consume limiter.ping LimitConfig.ping call.peer call.now with ⟨allowed, ping⟩
      cases allowed with
      | _ => exact ⟨rfl, fun kind => by cases kind <;> rfl⟩
  | invite =>
      dsimp only [checkInvite, LimitOp.kind, LimitOp.config, buckets]
      rcases consume limiter.invite LimitConfig.invite call.peer call.now with ⟨allowed, invite⟩
      cases allowed with
      | _ => exact ⟨rfl, fun kind => by cases kind <;> rfl⟩

/-- The bucket that a call finds: the first one makes it. -/
def currentBucket (limiter : RateLimiter) (call : LimitCall) : Bucket :=
  (limiter.bucketOf call.op.kind call.peer).getD (Bucket.new call.op.config call.now)

/-- A call is admitted exactly if the bucket of its peer has room at that time. -/
theorem check_isOk (limiter : RateLimiter) (call : LimitCall) :
    (limiter.check call).1.isOk = ((limiter.currentBucket call).tryConsume call.now).1 :=
  (check_eq limiter call).1

/-- A call changes the bucket that it concerns as one attempt to consume does. -/
theorem bucketOf_check_of_concerns {kind : LimitKind} {peer : NodeId} {call : LimitCall}
    (h : call.Concerns kind peer) (limiter : RateLimiter) :
    (limiter.check call).2.bucketOf kind peer =
      some ((limiter.currentBucket call).tryConsume call.now).2 := by
  obtain ⟨rfl, rfl⟩ := h
  rw [bucketOf, (check_eq limiter call).2, if_pos rfl]
  exact HashMap.lookup_put_self

theorem bucketOf_check_of_other {kind : LimitKind} {peer : NodeId} {call : LimitCall}
    (h : ¬ call.Concerns kind peer) (limiter : RateLimiter) :
    (limiter.check call).2.bucketOf kind peer = limiter.bucketOf kind peer := by
  rw [bucketOf, (check_eq limiter call).2, bucketOf]
  by_cases hkind : kind = call.op.kind
  · have hpeer : peer ≠ call.peer := fun heq => h ⟨hkind.symm, heq.symm⟩
    rw [if_pos hkind, hkind]
    exact HashMap.lookup_put_of_ne hpeer
  · rw [if_neg hkind]

/-- The limiter after some calls. -/
def after (limiter : RateLimiter) (calls : List LimitCall) : RateLimiter :=
  calls.foldl (fun l call => (l.check call).2) limiter

/-- The calls that are admitted, in order. -/
def admittedCalls (limiter : RateLimiter) : List LimitCall → List LimitCall
  | [] => []
  | call :: rest =>
      (if (limiter.check call).1.isOk then [call] else []) ++
        admittedCalls (limiter.check call).2 rest

/-- Two lists of calls in a row leave the limiter that the second leaves after
the first. -/
theorem after_append (limiter : RateLimiter) (calls calls' : List LimitCall) :
    limiter.after (calls ++ calls') = (limiter.after calls).after calls' :=
  List.foldl_append

/-- The last of a list of calls is checked last. -/
theorem after_concat (limiter : RateLimiter) (calls : List LimitCall) (call : LimitCall) :
    limiter.after (calls ++ [call]) = ((limiter.after calls).check call).2 :=
  after_append limiter calls [call]

/-- The calls admitted of two lists in a row: those of the first, and those of
the second after it. -/
theorem admittedCalls_append (limiter : RateLimiter) (calls calls' : List LimitCall) :
    limiter.admittedCalls (calls ++ calls') =
      limiter.admittedCalls calls ++ (limiter.after calls).admittedCalls calls' := by
  induction calls generalizing limiter with
  | nil => rfl
  | cons first rest ih =>
      have hrest := ih (limiter.check first).2
      rw [List.cons_append, admittedCalls, admittedCalls, hrest, List.append_assoc]
      rfl

/-- The calls admitted of a list with one more call: those before, and this one
if it passes. -/
theorem admittedCalls_concat (limiter : RateLimiter) (calls : List LimitCall)
    (call : LimitCall) :
    limiter.admittedCalls (calls ++ [call]) =
      limiter.admittedCalls calls ++
        if ((limiter.after calls).check call).1.isOk then [call] else [] := by
  rw [admittedCalls_append, admittedCalls, admittedCalls, List.append_nil]

/-- The calls for the bucket of a peer and a kind. -/
def concerning (kind : LimitKind) (peer : NodeId) (calls : List LimitCall) : List LimitCall :=
  calls.filter fun call => call.Concerns kind peer

section

variable {kind : LimitKind} {peer : NodeId}

/-- The calls of two lists in a row that concern a bucket are those of the
first and those of the second. -/
theorem concerning_append (calls calls' : List LimitCall) :
    concerning kind peer (calls ++ calls') =
      concerning kind peer calls ++ concerning kind peer calls' :=
  List.filter_append calls calls'

/-- A call that concerns a bucket stands between the ones before and after it
that do. -/
theorem concerning_append_cons {call : LimitCall} (h : call.Concerns kind peer)
    (pre post : List LimitCall) :
    concerning kind peer (pre ++ call :: post) =
      concerning kind peer pre ++ call :: concerning kind peer post := by
  have hcons : concerning kind peer (call :: post) = call :: concerning kind peer post :=
    List.filter_cons_of_pos (decide_eq_true h)
  rw [concerning_append, hcons]

/-- A last call that concerns a bucket is listed last. -/
theorem concerning_concat_of_concerns {call : LimitCall} (h : call.Concerns kind peer)
    (calls : List LimitCall) :
    concerning kind peer (calls ++ [call]) = concerning kind peer calls ++ [call] :=
  concerning_append_cons h calls []

/-- A last call that does not concern a bucket is not listed. -/
theorem concerning_concat_of_other {call : LimitCall} (h : ¬ call.Concerns kind peer)
    (calls : List LimitCall) :
    concerning kind peer (calls ++ [call]) = concerning kind peer calls := by
  have hnone : concerning kind peer [call] = [] :=
    List.filter_cons_of_neg fun hc => h (of_decide_eq_true hc)
  rw [concerning_append, hnone, List.append_nil]

/-- A call for a bucket, in its place among all the calls. -/
theorem concerning_split {calls front back : List LimitCall} {call : LimitCall}
    (h : concerning kind peer calls = front ++ call :: back) :
    ∃ pre post, calls = pre ++ call :: post ∧ concerning kind peer pre = front ∧
      call.Concerns kind peer := by
  obtain ⟨before, tail, rfl, hbefore, htail⟩ := List.filter_eq_append_iff.mp h
  obtain ⟨skipped, post, rfl, hskipped, hconcerns, _⟩ := List.filter_eq_cons_iff.mp htail
  refine ⟨before ++ skipped, post, (List.append_assoc before skipped _).symm, ?_,
    of_decide_eq_true hconcerns⟩
  rw [← hbefore, concerning, List.filter_append,
    List.filter_eq_nil_iff.mpr fun c hc => hskipped c hc, List.append_nil]

/-- The calls admitted for a bucket, with the last call. -/
theorem concerning_admittedCalls_concat (limiter : RateLimiter) (calls : List LimitCall)
    (call : LimitCall) :
    concerning kind peer (limiter.admittedCalls (calls ++ [call])) =
      concerning kind peer (limiter.admittedCalls calls) ++
        if call.Concerns kind peer ∧ ((limiter.after calls).check call).1.isOk then [call]
        else [] := by
  rw [admittedCalls_concat]
  cases hok : ((limiter.after calls).check call).1.isOk with
  | false => simp
  | true =>
      by_cases hconcerns : call.Concerns kind peer
      · simp [concerning_concat_of_concerns, hconcerns]
      · simp [concerning_concat_of_other, hconcerns]

/-- One call counts once if it concerns the bucket and is admitted, and not at
all otherwise. -/
theorem length_concerning_admittedCalls_singleton (limiter : RateLimiter) (call : LimitCall) :
    (concerning kind peer (limiter.admittedCalls [call])).length =
      if call.Concerns kind peer ∧ (limiter.check call).1.isOk then 1 else 0 := by
  have hcall := @concerning_admittedCalls_concat kind peer limiter [] call
  rw [List.nil_append] at hcall
  rw [hcall, List.length_append, apply_ite List.length]
  exact Nat.zero_add _

end

/-- When calls for a bucket were admitted. -/
def admittedTimes (limiter : RateLimiter) (kind : LimitKind) (peer : NodeId)
    (calls : List LimitCall) : List Nat :=
  (concerning kind peer (limiter.admittedCalls calls)).map LimitCall.now

/-- **What a limiter admits** of one operation for one peer, whatever else it
is asked, is what a counter admits. -/
theorem admittedTimes_eq (op : LimitOp) (peer : NodeId) {calls : List LimitCall}
    (hsame : ∀ call ∈ calls, call.Concerns op.kind peer → call.op = op) :
    new.admittedTimes op.kind peer calls =
        (FixedWindow.History.run op.config.rule
          ((concerning op.kind peer calls).map LimitCall.now)).log ∧
      (new.after calls).bucketOf op.kind peer =
        (FixedWindow.History.run op.config.rule
          ((concerning op.kind peer calls).map LimitCall.now)).counter.map
            (Bucket.ofCounter op.config) := by
  induction calls using List.reverseRecOn with
  | nil =>
      refine ⟨rfl, ?_⟩
      cases op with
      | _ => rfl
  | append_singleton calls call ih =>
      obtain ⟨htimes, hbucket⟩ := ih fun c hc => hsame c (List.mem_append_left _ hc)
      unfold admittedTimes at htimes ⊢
      rw [concerning_admittedCalls_concat, after_concat, List.map_append, htimes]
      by_cases hconcerns : call.Concerns op.kind peer
      · have hop : call.op = op := hsame call (by simp) hconcerns
        rw [concerning_concat_of_concerns hconcerns, List.map_append, List.map_singleton,
          FixedWindow.History.run_concat]
        generalize FixedWindow.History.run op.config.rule
          ((concerning op.kind peer calls).map LimitCall.now) = h at htimes hbucket ⊢
        have hcurrent : (new.after calls).currentBucket call =
            Bucket.ofCounter op.config (h.current call.now) := by
          unfold currentBucket FixedWindow.History.current
          rw [hconcerns.2, hop, hbucket]
          cases h.counter with
          | none => rfl
          | some c => rfl
        rw [check_isOk, bucketOf_check_of_concerns hconcerns, hcurrent,
          Bucket.tryConsume_ofCounter]
        refine ⟨?_, rfl⟩
        unfold FixedWindow.History.call
        cases (h.current call.now).admits op.config.rule call.now with
        | true => simp [hconcerns]
        | false => simp
      · rw [concerning_concat_of_other hconcerns, if_neg fun hok => hconcerns hok.1,
          bucketOf_check_of_other hconcerns]
        exact ⟨List.append_nil _, hbucket⟩

/-- How many calls for a bucket were admitted in the interval of some length
that begins at `a`. -/
def admittedWithin (limiter : RateLimiter) (kind : LimitKind) (peer : NodeId)
    (calls : List LimitCall) (a length : Nat) : Nat :=
  (limiter.admittedCalls calls).countP fun call =>
    call.Concerns kind peer ∧ a ≤ call.now ∧ call.now < a + length

/-- After some calls, the next one starts a new window of its bucket, less than
a window after an admitted call for it. -/
def ForgetsAt (calls : List LimitCall) (call : LimitCall) : Prop :=
  ∃ bucket, (new.after calls).bucketOf call.op.kind call.peer = some bucket ∧
    call.op.config.window ≤ call.now - bucket.windowStart ∧
      ∃ earlier ∈ new.admittedCalls calls, earlier.Concerns call.op.kind call.peer ∧
        call.now < earlier.now + call.op.config.window

/-- Counting admitted calls in an interval is counting their times in it, as
the general results on windows do. -/
theorem admittedWithin_eq (limiter : RateLimiter) (kind : LimitKind) (peer : NodeId)
    (calls : List LimitCall) (a length : Nat) :
    limiter.admittedWithin kind peer calls a length =
      FixedWindow.within a length (limiter.admittedTimes kind peer calls) := by
  unfold admittedWithin FixedWindow.within admittedTimes concerning
  rw [List.countP_map, List.countP_filter]
  refine List.countP_congr fun call _ => ?_
  simp [and_comm]

variable {op : LimitOp} {peer : NodeId} {calls : List LimitCall}

/-- A call makes its bucket forget exactly when it makes the counter forget. -/
theorem forgets_iff (hsame : ∀ call ∈ calls, call.Concerns op.kind peer → call.op = op)
    {call : LimitCall} (hop : call.op = op) (hpeer : call.peer = peer) :
    ForgetsAt calls call ↔
      FixedWindow.Forgets op.config.rule
        (FixedWindow.History.run op.config.rule
          ((concerning op.kind peer calls).map LimitCall.now)) call.now := by
  obtain ⟨htimes, hbucket⟩ := admittedTimes_eq op peer hsame
  unfold ForgetsAt FixedWindow.Forgets
  rw [hop, hpeer, hbucket, ← htimes]
  have hlog : ∀ t, (∃ earlier ∈ new.admittedCalls calls, earlier.Concerns op.kind peer ∧
      t < earlier.now + op.config.window) ↔
        ∃ x ∈ new.admittedTimes op.kind peer calls, t < x + op.config.rule.window := by
    intro t
    unfold admittedTimes concerning
    constructor
    · rintro ⟨earlier, hmem, hconcerns, hyoung⟩
      exact ⟨earlier.now, List.mem_map_of_mem
        (List.mem_filter.mpr ⟨hmem, decide_eq_true hconcerns⟩), hyoung⟩
    · rintro ⟨x, hx, hyoung⟩
      obtain ⟨earlier, hearlier, rfl⟩ := List.mem_map.mp hx
      obtain ⟨hmem, hconcerns⟩ := List.mem_filter.mp hearlier
      exact ⟨earlier, hmem, of_decide_eq_true hconcerns, hyoung⟩
  rw [hlog]
  constructor
  · rintro ⟨bucket, hfound, hover, hyoung⟩
    obtain ⟨c, hc, rfl⟩ := Option.map_eq_some_iff.mp hfound
    exact ⟨c, hc, hover, hyoung⟩
  · rintro ⟨c, hc, hover, hyoung⟩
    exact ⟨Bucket.ofCounter op.config c, by rw [hc]; rfl, hover, hyoung⟩

/-- When no call for the bucket makes it forget, the counter never forgets. -/
theorem neverForgets_of_calls (hsame : ∀ call ∈ calls, call.Concerns op.kind peer → call.op = op)
    (hkeeps : ∀ pre call post, calls = pre ++ call :: post → call.Concerns op.kind peer →
      ¬ ForgetsAt pre call) :
    FixedWindow.NeverForgets op.config.rule
      ((concerning op.kind peer calls).map LimitCall.now) := by
  -- the counter's call at a time is one of the calls for the bucket
  intro pre now post hsplit hforgets
  obtain ⟨front, back, hcalls, hfront, hback⟩ := List.map_eq_append_iff.mp hsplit
  obtain ⟨call, rest, rfl, rfl, _⟩ := List.map_eq_cons_iff.mp hback
  obtain ⟨before, post', rfl, rfl, hcall⟩ := concerning_split hcalls
  have hop : call.op = op := hsame call (by simp) hcall
  have hsame' : ∀ c ∈ before, c.Concerns op.kind peer → c.op = op :=
    fun c hc => hsame c (List.mem_append_left _ hc)
  refine hkeeps before call post' rfl hcall ?_
  rw [forgets_iff hsame' hop hcall.2, hfront]
  exact hforgets

theorem concerning_burst {call : LimitCall} (h : call.Concerns op.kind peer) (k : Nat) :
    (concerning op.kind peer (calls ++ List.replicate k call)).map LimitCall.now =
      (concerning op.kind peer calls).map LimitCall.now ++ List.replicate k call.now := by
  have hall : (List.replicate k call).filter (fun c => c.Concerns op.kind peer) =
      List.replicate k call := by
    refine List.filter_eq_self.mpr fun c hc => ?_
    rw [List.eq_of_mem_replicate hc]
    exact decide_eq_true h
  rw [concerning, List.filter_append, hall, List.map_append, List.map_replicate]
  rfl

/-- **Limits over rolling windows.**  Calls come at non-decreasing times, those
for one bucket all of one operation.  As long as none of these makes the bucket
forget, every interval of the length of a window admits as many calls as a
window at most; and after a call that does, a burst at the same instant exceeds
this in some interval. -/
theorem rolling_limit_iff (op : LimitOp) (peer : NodeId) (calls : List LimitCall)
    (hsorted : (calls.map LimitCall.now).Pairwise (· ≤ ·))
    (hsame : ∀ call ∈ calls, call.Concerns op.kind peer → call.op = op) :
    ((∀ pre call post, calls = pre ++ call :: post → call.Concerns op.kind peer →
        ¬ ForgetsAt pre call) →
      ∀ a, new.admittedWithin op.kind peer calls a op.config.window ≤ op.config.maxPerWindow) ∧
    ∀ call, call.op = op → call.peer = peer → (∀ earlier ∈ calls, earlier.now ≤ call.now) →
      ForgetsAt calls call →
        ∃ a, op.config.maxPerWindow < new.admittedWithin op.kind peer
          (calls ++ List.replicate op.config.maxPerWindow call) a op.config.window := by
  refine ⟨?_, ?_⟩
  · intro hkeeps a
    have htimes : ((concerning op.kind peer calls).map LimitCall.now).Pairwise (· ≤ ·) :=
      hsorted.sublist (List.filter_sublist.map _)
    rw [admittedWithin_eq, (admittedTimes_eq op peer hsame).1]
    exact @FixedWindow.bounded_of_run op.config.rule _ op.window_pos htimes
      (neverForgets_of_calls hsame hkeeps) a
  · intro call hop hpeer hlast hforgets
    have hburst : ∀ c ∈ calls ++ List.replicate op.config.maxPerWindow call,
        c.Concerns op.kind peer → c.op = op := by
      intro c hc hconcerns
      rcases List.mem_append.mp hc with hin | hin
      · exact hsame c hin hconcerns
      · rw [List.eq_of_mem_replicate hin]
        exact hop
    have hpast : ∀ x ∈ (FixedWindow.History.run op.config.rule
        ((concerning op.kind peer calls).map LimitCall.now)).log, x ≤ call.now := by
      intro x hx
      obtain ⟨c, hc, rfl⟩ := List.mem_map.mp (FixedWindow.History.mem_of_mem_log _ hx)
      exact hlast c (List.mem_of_mem_filter hc)
    have hexceeded := FixedWindow.exceeded_of_forgets hpast
      ((forgets_iff hsame hop hpeer).mp hforgets)
    unfold FixedWindow.Bounded at hexceeded
    push Not at hexceeded
    obtain ⟨a, ha⟩ := hexceeded
    refine ⟨a, ?_⟩
    rw [admittedWithin_eq, (admittedTimes_eq op peer hburst).1,
      concerning_burst ⟨congrArg LimitOp.kind hop, hpeer⟩, FixedWindow.History.run,
      List.foldl_append]
    exact ha

/-- An invite of the sample issuer. -/
def sampleInvite (now : Nat) : LimitCall :=
  ⟨.invite, ⟨Bytes.replicate 32 1⟩, now⟩

/-- Of nine invites at one instant eight are admitted at most. -/
theorem ninth_invite_refused :
    new.admittedWithin .invite ⟨Bytes.replicate 32 1⟩ (List.replicate 9 (sampleInvite 0)) 0
      (seconds 86400) ≤ 8 := by
  refine (rolling_limit_iff .invite ⟨Bytes.replicate 32 1⟩ (List.replicate 9 (sampleInvite 0))
    (by decide) ?_).1 ?_ 0
  · intro call hcall _
    rw [List.eq_of_mem_replicate hcall]
    rfl
  · rintro pre call post hsplit _ ⟨bucket, _, hover, _⟩
    have hcall : call ∈ List.replicate 9 (sampleInvite 0) := by simp [hsplit]
    rw [List.eq_of_mem_replicate hcall, sampleInvite, Nat.zero_sub] at hover
    exact absurd (LimitOp.window_pos .invite) (Nat.not_lt.mpr hover)

/-- One invite, seven more in the last nanosecond of its window, and eight at
the end of it: fifteen are admitted in less than a day. -/
theorem fifteen_invites_in_a_day :
    new.admittedWithin .invite ⟨Bytes.replicate 32 1⟩
      (sampleInvite 0 :: List.replicate 7 (sampleInvite (seconds 86400 - 1)) ++
        List.replicate 8 (sampleInvite (seconds 86400)))
      (seconds 86400 - 1) (seconds 86400) = 15 := by
  decide +kernel

end RateLimiter

end Zona
