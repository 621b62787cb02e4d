import Mathlib.Algebra.GroupWithZero.Nat
import Mathlib.Data.List.Induction
import Mathlib.Order.Basic

/-!
# Counters over fixed windows

A counter admits so many calls in a window, and starts again with the first
call after the window.  It bounds what is admitted in its own windows; an
interval that straddles two of them may see more.

`bounded_of_run` says that every interval of the length of a window keeps to
the bound as long as no call makes the counter forget: starts a window while
some call that was admitted before is less than a window old.
`exceeded_of_forgets` says that this is needed: after such a call the bound is
broken by a burst at the same instant.
-/

namespace FixedWindow

/-- How many calls a window admits, and how long it is. -/
structure Rule where
  max : Nat
  window : Nat

/-- What was counted since the window began. -/
structure Counter where
  count : Nat
  start : Nat

variable (rule : Rule)

namespace Counter

/-- Start a new window when the old one is over. -/
def refresh (c : Counter) (now : Nat) : Counter :=
  if rule.window ≤ now - c.start then ⟨0, now⟩ else c

def admits (c : Counter) (now : Nat) : Bool :=
  decide ((c.refresh rule now).count < rule.max)

/-- The counter after a call. -/
def next (c : Counter) (now : Nat) : Counter :=
  if c.admits rule now then
    { c.refresh rule now with count := (c.refresh rule now).count + 1 }
  else c.refresh rule now

variable {rule} {c : Counter} {now : Nat}

/-- A window that is over is replaced by a new one that begins now, with
nothing counted. -/
theorem refresh_of_over (h : rule.window ≤ now - c.start) : c.refresh rule now = ⟨0, now⟩ :=
  if_pos h

/-- A window that still runs is kept with its count. -/
theorem refresh_of_running (h : now - c.start < rule.window) : c.refresh rule now = c :=
  if_neg (Nat.not_le.mpr h)

end Counter

/-- What has been admitted so far, and the counter, once there is one. -/
structure History where
  log : List Nat
  counter : Option Counter

namespace History

/-- The counter that a call finds: the first one makes it. -/
def current (h : History) (now : Nat) : Counter :=
  h.counter.getD ⟨0, now⟩

/-- One call. -/
def call (h : History) (now : Nat) : History where
  log := if (h.current now).admits rule now then h.log ++ [now] else h.log
  counter := some ((h.current now).next rule now)

/-- Calls at some times, from the beginning. -/
def run (times : List Nat) : History :=
  times.foldl (call rule) ⟨[], none⟩

/-- The last of a list of calls is made last, on the history that the others
left. -/
theorem run_concat (times : List Nat) (now : Nat) :
    run rule (times ++ [now]) = (run rule times).call rule now := by
  rw [run, List.foldl_append]
  rfl

/-- Only times of calls are logged, so bounds on the log are bounds on admitted
calls. -/
theorem mem_of_mem_log {times : List Nat} {x : Nat} (h : x ∈ (run rule times).log) :
    x ∈ times := by
  induction times using List.reverseRecOn with
  | nil => cases h
  | append_singleton times now ih =>
      rw [run_concat, call] at h
      dsimp only at h
      split at h
      · rcases List.mem_append.mp h with hold | hnew
        · exact List.mem_append_left _ (ih hold)
        · exact List.mem_append_right _ hnew
      · exact List.mem_append_left _ (ih h)

end History

/-- How many of the logged calls were in the interval of some length. -/
def within (a length : Nat) (log : List Nat) : Nat :=
  log.countP fun x => a ≤ x ∧ x < a + length

/-- No interval of the length of a window saw more than a window admits. -/
def Bounded (log : List Nat) : Prop :=
  ∀ a, within a rule.window log ≤ rule.max

/-- A call at this time starts a new window, while an admitted call is less
than a window old. -/
def Forgets (h : History) (now : Nat) : Prop :=
  ∃ c, h.counter = some c ∧ rule.window ≤ now - c.start ∧ ∃ x ∈ h.log, now < x + rule.window

variable {rule}

/-- The counter accounts for the log: it counts what was admitted since its
window began, and all the rest is a window older than that. -/
structure Covers (rule : Rule) (log : List Nat) (c : Counter) (now : Nat) : Prop where
  started : c.start ≤ now
  counted : (log.countP fun x => c.start ≤ x) ≤ c.count
  limited : c.count ≤ rule.max
  apart : ∀ x ∈ log, x < c.start → x + rule.window ≤ c.start

/-- Nothing is logged from later than now, the log is bounded, and the counter,
if there is one, accounts for it. -/
structure Remembers (rule : Rule) (h : History) (now : Nat) : Prop where
  past : ∀ x ∈ h.log, x ≤ now
  bounded : Bounded rule h.log
  counter : match h.counter with
    | none => h.log = []
    | some c => Covers rule h.log c now

/-- What the counter covers it covers later as well. -/
theorem Covers.mono {log : List Nat} {c : Counter} {now later : Nat} (h : Covers rule log c now)
    (hle : now ≤ later) : Covers rule log c later :=
  ⟨Nat.le_trans h.started hle, h.counted, h.limited, h.apart⟩

/-- A counter that has forgotten nothing needed still has forgotten nothing
needed later. -/
theorem Remembers.mono {h : History} {now later : Nat} (hr : Remembers rule h now)
    (hle : now ≤ later) : Remembers rule h later := by
  refine ⟨fun x hx => Nat.le_trans (hr.past x hx) hle, hr.bounded, ?_⟩
  have hcounter := hr.counter
  cases hc : h.counter with
  | none =>
      rw [hc] at hcounter
      exact hcounter
  | some c =>
      rw [hc] at hcounter
      exact hcounter.mono hle

theorem bounded_nil : Bounded rule [] :=
  fun _ => Nat.zero_le _

theorem remembers_nil (now : Nat) : Remembers rule ⟨[], none⟩ now :=
  ⟨fun _ hx => (nomatch hx), bounded_nil, rfl⟩

/-- A counter that starts a window accounts for the log, when all of it is a
window old. -/
theorem covers_fresh {log : List Nat} {now : Nat} (hwindow : 0 < rule.window)
    (hold : ∀ x ∈ log, x + rule.window ≤ now) : Covers rule log ⟨0, now⟩ now := by
  refine ⟨Nat.le_refl now, ?_, Nat.zero_le _, fun x hx _ => hold x hx⟩
  refine Nat.le_of_eq (List.countP_eq_zero.mpr ?_)
  intro x hx hlate
  have hearly := hold x hx
  have hstart : now ≤ x := of_decide_eq_true hlate
  omega

/-- **What a call finds** accounts for the log, unless the call forgets: then a
window is restarted while some of its calls are still recent. -/
theorem Remembers.covers {h : History} {t now : Nat} (hr : Remembers rule h t) (hle : t ≤ now)
    (hwindow : 0 < rule.window) (hkeeps : ¬ Forgets rule h now) :
    Covers rule h.log ((h.current now).refresh rule now) now := by
  have hcounter := hr.counter
  unfold History.current
  cases hc : h.counter with
  | none =>
      rw [hc] at hcounter
      dsimp only at hcounter
      have hrunning : now - now < rule.window := by omega
      rw [Option.getD_none, Counter.refresh_of_running (c := ⟨0, now⟩) hrunning]
      refine covers_fresh hwindow ?_
      intro x hx
      rw [hcounter] at hx
      cases hx
  | some c =>
      rw [hc] at hcounter
      rw [Option.getD_some]
      by_cases hover : rule.window ≤ now - c.start
      · rw [Counter.refresh_of_over hover]
        refine covers_fresh hwindow ?_
        intro x hx
        apply Nat.le_of_not_lt
        intro hyoung
        exact hkeeps ⟨c, hc, hover, x, hx, hyoung⟩
      · rw [Counter.refresh_of_running (Nat.not_le.mp hover)]
        exact hcounter.mono hle

/-- An admitted call is accounted for: it is logged and counted, so the counter
still covers the log. -/
theorem Covers.admitted {log : List Nat} {c : Counter} {now : Nat} (h : Covers rule log c now)
    (hroom : c.count < rule.max) :
    Covers rule (log ++ [now]) { c with count := c.count + 1 } now := by
  refine ⟨h.started, ?_, hroom, ?_⟩
  · have hone : [now].countP (fun x => c.start ≤ x) ≤ 1 := List.countP_le_length
    have hlog := h.counted
    rw [List.countP_append]
    dsimp only
    omega
  · intro x hx hbefore
    rcases List.mem_append.mp hx with hold | hnew
    · exact h.apart x hold hbefore
    · rw [List.mem_singleton.mp hnew] at hbefore
      exact absurd h.started (Nat.not_le.mpr hbefore)

/-- **An admitted call keeps the bound**: an interval around it reaches back to
the beginning of the window at most. -/
theorem Covers.bounded {log : List Nat} {c : Counter} {now : Nat} (h : Covers rule log c now)
    (hroom : c.count < rule.max) (hlog : Bounded rule log) : Bounded rule (log ++ [now]) := by
  intro a
  by_cases hin : a ≤ now ∧ now < a + rule.window
  · have hwindow : within a rule.window (log ++ [now]) ≤
        (log ++ [now]).countP fun x => c.start ≤ x := by
      unfold within
      refine List.countP_mono_left ?_
      intro x hx hinside
      obtain ⟨hfrom, _⟩ := of_decide_eq_true hinside
      apply decide_eq_true
      apply Nat.le_of_not_lt
      intro hbefore
      have hapart : x + rule.window ≤ c.start := (h.admitted hroom).apart x hx hbefore
      have hstarted := h.started
      omega
    exact Nat.le_trans hwindow (Nat.le_trans (h.admitted hroom).counted (h.admitted hroom).limited)
  · have hout : within a rule.window [now] = 0 :=
      List.countP_eq_zero.mpr fun x hx hinside => by
        rw [List.mem_singleton.mp hx] at hinside
        exact hin (of_decide_eq_true hinside)
    have hold := hlog a
    unfold within at hold hout ⊢
    rw [List.countP_append, hout]
    exact hold

/-- **One call** keeps the invariant, unless it forgets.  An admitted call is
logged and counted, and a refused one changes nothing. -/
theorem remembers_call {h : History} {t now : Nat} (hr : Remembers rule h t) (hle : t ≤ now)
    (hwindow : 0 < rule.window) (hkeeps : ¬ Forgets rule h now) :
    Remembers rule (h.call rule now) now := by
  have hcovers := hr.covers hle hwindow hkeeps
  unfold History.call Counter.next Counter.admits
  by_cases hroom : ((h.current now).refresh rule now).count < rule.max
  · rw [decide_eq_true hroom, if_pos rfl, if_pos rfl]
    refine ⟨?_, hcovers.bounded hroom hr.bounded, hcovers.admitted hroom⟩
    intro x hx
    rcases List.mem_append.mp hx with hold | hnew
    · exact Nat.le_trans (hr.past x hold) hle
    · exact Nat.le_of_eq (List.mem_singleton.mp hnew)
  · rw [decide_eq_false hroom, if_neg Bool.false_ne_true, if_neg Bool.false_ne_true]
    exact ⟨fun x hx => Nat.le_trans (hr.past x hx) hle, hr.bounded, hcovers⟩

/-- No call of the run forgets. -/
def NeverForgets (rule : Rule) (times : List Nat) : Prop :=
  ∀ pre now post, times = pre ++ now :: post → ¬ Forgets rule (History.run rule pre) now

/-- A history in which no window was restarted too early is remembered
throughout, by induction on the calls. -/
theorem remembers_run {times : List Nat} (hwindow : 0 < rule.window)
    (hsorted : times.Pairwise (· ≤ ·)) (hkeeps : NeverForgets rule times) {t : Nat}
    (hpast : ∀ x ∈ times, x ≤ t) : Remembers rule (History.run rule times) t := by
  induction times using List.reverseRecOn generalizing t with
  | nil => exact remembers_nil t
  | append_singleton times now ih =>
      obtain ⟨hinit, _, hlast⟩ := List.pairwise_append.mp hsorted
      have hbefore : Remembers rule (History.run rule times) now := by
        refine ih hinit ?_ fun x hx => hlast x hx now List.mem_cons_self
        intro pre earlier post hsplit
        refine hkeeps pre earlier (post ++ [now]) ?_
        rw [hsplit, List.append_assoc, List.cons_append]
      rw [History.run_concat]
      have hcall := remembers_call hbefore (Nat.le_refl now) hwindow (hkeeps times now [] rfl)
      exact hcall.mono (hpast now (by simp))

/-- **The bound over every interval**, for a run that never forgets: no
interval of the length of a window has more admitted calls than the maximum. -/
theorem bounded_of_run {times : List Nat} (hwindow : 0 < rule.window)
    (hsorted : times.Pairwise (· ≤ ·)) (hkeeps : NeverForgets rule times) :
    Bounded rule (History.run rule times).log := by
  cases times using List.reverseRecOn with
  | nil => exact bounded_nil
  | append_singleton times now =>
      have hlast := (List.pairwise_append.mp hsorted).2.2
      refine (@remembers_run rule _ hwindow hsorted hkeeps now fun x hx => ?_).bounded
      rcases List.mem_append.mp hx with hold | hnew
      · exact hlast x hold now List.mem_cons_self
      · exact Nat.le_of_eq (List.mem_singleton.mp hnew)

/-- A burst at the instant at which a window begins is admitted in full. -/
theorem burst_log {h : History} {now : Nat} (hwindow : 0 < rule.window)
    (hfresh : (h.current now).refresh rule now = ⟨0, now⟩) {k : Nat} (hk : k ≤ rule.max) :
    (((List.replicate k now).foldl (History.call rule) h).current now).refresh rule now =
        ⟨k, now⟩ ∧
      ((List.replicate k now).foldl (History.call rule) h).log = h.log ++ List.replicate k now := by
  induction k with
  | zero => exact ⟨hfresh, by simp⟩
  | succ k ih =>
      obtain ⟨hcurrent, hlog⟩ := ih (Nat.le_of_succ_le hk)
      have hroom : k < rule.max := hk
      have hrunning : now - now < rule.window := by omega
      have hadmits : (((List.replicate k now).foldl (History.call rule) h).current now).admits
          rule now = true := by
        rw [Counter.admits, hcurrent]
        exact decide_eq_true hroom
      rw [List.replicate_succ', List.foldl_append, List.foldl_cons, List.foldl_nil]
      generalize (List.replicate k now).foldl (History.call rule) h = g at hcurrent hlog hadmits ⊢
      have hnext : (g.call rule now).current now = ⟨k + 1, now⟩ := by
        show (g.current now).next rule now = ⟨k + 1, now⟩
        rw [Counter.next, hadmits, if_pos rfl, hcurrent]
      rw [hnext]
      refine ⟨Counter.refresh_of_running (c := ⟨k + 1, now⟩) hrunning, ?_⟩
      rw [History.call, hadmits, if_pos rfl, hlog, List.append_assoc]

/-- **A call that forgets** lets a burst at the same instant break the bound,
as the restarted window has room for a maximum of new calls. -/
theorem exceeded_of_forgets {h : History} {now : Nat} (hpast : ∀ x ∈ h.log, x ≤ now)
    (hforgets : Forgets rule h now) :
    ¬ Bounded rule ((List.replicate rule.max now).foldl (History.call rule) h).log := by
  obtain ⟨c, hc, hover, x, hx, hyoung⟩ := hforgets
  have hbefore := hpast x hx
  have hwindow : 0 < rule.window := by omega
  have hfresh : (h.current now).refresh rule now = ⟨0, now⟩ := by
    rw [History.current, hc, Option.getD_some, Counter.refresh_of_over hover]
  intro hbounded
  have hlimit := hbounded x
  have hearlier : 0 < within x rule.window h.log :=
    List.countP_pos_iff.mpr ⟨x, hx, decide_eq_true ⟨Nat.le_refl x, by omega⟩⟩
  have hburst : within x rule.window (List.replicate rule.max now) = rule.max := by
    rw [within, List.countP_replicate, if_pos (decide_eq_true ⟨hbefore, hyoung⟩)]
  rw [(burst_log hwindow hfresh (Nat.le_refl _)).2] at hlimit
  unfold within at hlimit hearlier hburst
  rw [List.countP_append, hburst] at hlimit
  omega

end FixedWindow
