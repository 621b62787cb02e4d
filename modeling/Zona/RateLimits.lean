import Zona.HashMaps
import Zona.WireMessages

/-!
# Rate limits

Every peer has one bucket per kind of operation: a counter over a fixed window
that starts again when the window is over.  A bucket keeps the configuration
it was made with.

Time is the reading of the monotonic clock in nanoseconds, handed to every
call; a call reads the clock once.
-/

namespace Zona

/-- Nanoseconds in a number of seconds. -/
def seconds (n : Nat) : Nat := n * 1000000000

/-- How many operations a window admits, and how long it is. -/
structure LimitConfig where
  maxPerWindow : Nat
  window : Nat
  deriving DecidableEq

namespace LimitConfig

def findNode : LimitConfig := ⟨60, seconds 60⟩

def ping : LimitConfig := ⟨120, seconds 60⟩

def invite : LimitConfig := ⟨8, seconds 86400⟩

/-- The profile without authentication. -/
def findUnauth : LimitConfig := ⟨10, seconds 60⟩

end LimitConfig

/-- A counter over the window that began at `windowStart`. -/
structure Bucket where
  count : Nat
  windowStart : Nat
  config : LimitConfig
  deriving DecidableEq

namespace Bucket

def new (config : LimitConfig) (now : Nat) : Bucket where
  count := 0
  windowStart := now
  config := config

/-- Start a new window when the old one is over. -/
def refresh (bucket : Bucket) (now : Nat) : Bucket :=
  if bucket.config.window ≤ now - bucket.windowStart then
    { bucket with count := 0, windowStart := now }
  else bucket

/-- Whether the operation is allowed, and the bucket with it recorded. -/
def tryConsume (bucket : Bucket) (now : Nat) : Bool × Bucket :=
  let current := bucket.refresh now
  if current.count < current.config.maxPerWindow then
    (true, { current with count := current.count + 1 })
  else (false, current)

/-- The window is running and nothing is left in it. -/
def Exhausted (bucket : Bucket) (now : Nat) : Prop :=
  now - bucket.windowStart < bucket.config.window ∧ bucket.config.maxPerWindow ≤ bucket.count

/-- An exhausted bucket refuses and stays as it is. -/
theorem tryConsume_of_exhausted {bucket : Bucket} {now : Nat} (h : bucket.Exhausted now) :
    bucket.tryConsume now = (false, bucket) := by
  have hrunning : ¬ bucket.config.window ≤ now - bucket.windowStart := Nat.not_le.mpr h.1
  have hfull : ¬ bucket.count < bucket.config.maxPerWindow := Nat.not_lt.mpr h.2
  simp only [tryConsume, refresh, if_neg hrunning, if_neg hfull]

/-- A bucket that is not exhausted records something, as long as its
configuration admits anything at all. -/
theorem tryConsume_ne_of_not_exhausted {bucket : Bucket} {now : Nat}
    (hpos : 0 < bucket.config.maxPerWindow) (hwindow : 0 < bucket.config.window)
    (h : ¬ bucket.Exhausted now) : (bucket.tryConsume now).2 ≠ bucket := by
  intro hsame
  by_cases hover : bucket.config.window ≤ now - bucket.windowStart
  · have hstart := congrArg Bucket.windowStart hsame
    simp only [tryConsume, refresh, if_pos hover, if_pos hpos] at hstart
    omega
  · have hroom : bucket.count < bucket.config.maxPerWindow := by
      unfold Exhausted at h
      omega
    have hcount := congrArg Bucket.count hsame
    simp only [tryConsume, refresh, if_neg hover, if_pos hroom] at hcount
    omega

/-- A bucket keeps its configuration, whether the call is admitted or not. -/
theorem tryConsume_config (bucket : Bucket) (now : Nat) :
    (bucket.tryConsume now).2.config = bucket.config := by
  have hrefresh : (bucket.refresh now).config = bucket.config := by
    unfold refresh
    split <;> rfl
  unfold tryConsume
  dsimp only
  split <;> exact hrefresh

end Bucket

/-- The buckets of every peer, per operation. -/
structure RateLimiter where
  find : HashMap NodeId Bucket
  ping : HashMap NodeId Bucket
  invite : HashMap NodeId Bucket

/-- Take one operation out of a peer's bucket, making the bucket first when
there is none. -/
def consume (buckets : HashMap NodeId Bucket) (config : LimitConfig) (peer : NodeId) (now : Nat) :
    Bool × HashMap NodeId Bucket :=
  let bucket := (buckets.lookup peer).getD (Bucket.new config now)
  ((bucket.tryConsume now).1, buckets.put peer (bucket.tryConsume now).2)

namespace RateLimiter

def new : RateLimiter where
  find := ∅
  ping := ∅
  invite := ∅

def checkFind (limiter : RateLimiter) (peer : NodeId) (authenticated : Bool) (now : Nat) :
    Except ProtocolError Unit × RateLimiter :=
  let config := if authenticated then LimitConfig.findNode else LimitConfig.findUnauth
  match consume limiter.find config peer now with
  | (true, find) => (.ok (), { limiter with find := find })
  | (false, find) => (.error (.rateLimitExceeded "find_node"), { limiter with find := find })

def checkPing (limiter : RateLimiter) (peer : NodeId) (now : Nat) :
    Except ProtocolError Unit × RateLimiter :=
  match consume limiter.ping LimitConfig.ping peer now with
  | (true, ping) => (.ok (), { limiter with ping := ping })
  | (false, ping) => (.error (.rateLimitExceeded "ping"), { limiter with ping := ping })

def checkInvite (limiter : RateLimiter) (issuer : NodeId) (now : Nat) :
    Except ProtocolError Unit × RateLimiter :=
  match consume limiter.invite LimitConfig.invite issuer now with
  | (true, invite) => (.ok (), { limiter with invite := invite })
  | (false, invite) => (.error .inviteQuotaExceeded, { limiter with invite := invite })

theorem checkFind_snd (limiter : RateLimiter) (peer : NodeId) (authenticated : Bool)
    (now : Nat) :
    ∃ find, (limiter.checkFind peer authenticated now).2 = { limiter with find := find } := by
  unfold checkFind
  dsimp only
  generalize (if authenticated then LimitConfig.findNode else LimitConfig.findUnauth) = config
  rcases consume limiter.find config peer now with ⟨allowed, find⟩
  refine ⟨find, ?_⟩
  cases allowed <;> rfl

/-- A checked invite consumes from the invite buckets only. -/
theorem checkInvite_snd (limiter : RateLimiter) (issuer : NodeId) (now : Nat) :
    (limiter.checkInvite issuer now).2 =
      { limiter with invite := (consume limiter.invite LimitConfig.invite issuer now).2 } := by
  unfold checkInvite
  rcases consume limiter.invite LimitConfig.invite issuer now with ⟨allowed, buckets⟩
  cases allowed <;> rfl

end RateLimiter

/-- Every bucket of the map admits something and has a window. -/
def Usable (buckets : HashMap NodeId Bucket) : Prop :=
  ∀ peer bucket, buckets.lookup peer = some bucket →
    0 < bucket.config.maxPerWindow ∧ 0 < bucket.config.window

/-- The peer has a bucket in which nothing is left. -/
def PeerExhausted (buckets : HashMap NodeId Bucket) (peer : NodeId) (now : Nat) : Prop :=
  ∃ bucket, buckets.lookup peer = some bucket ∧ bucket.Exhausted now

/-- Buckets stay usable when a call is made: a new one has a positive maximum
and a positive window. -/
theorem usable_consume {buckets : HashMap NodeId Bucket} {config : LimitConfig} {peer : NodeId}
    {now : Nat} (h : Usable buckets) (hmax : 0 < config.maxPerWindow)
    (hwindow : 0 < config.window) : Usable (consume buckets config peer now).2 := by
  refine HashMap.forall_put h ?_
  rw [Bucket.tryConsume_config]
  cases hold : buckets.lookup peer with
  | none => exact ⟨hmax, hwindow⟩
  | some old => exact h peer old hold

/-- **A consumption shows** in the map exactly when the peer's bucket is not
exhausted: it is counted, or a new window begins. -/
theorem consume_eq_self_iff {buckets : HashMap NodeId Bucket} {config : LimitConfig}
    {peer : NodeId} {now : Nat} (h : Usable buckets) :
    (consume buckets config peer now).2 = buckets ↔ PeerExhausted buckets peer now := by
  constructor
  · intro hsame
    have hlookup : (consume buckets config peer now).2.lookup peer =
        some (((buckets.lookup peer).getD (Bucket.new config now)).tryConsume now).2 :=
      HashMap.lookup_put_self
    rw [hsame] at hlookup
    cases hold : buckets.lookup peer with
    | none =>
        rw [hold] at hlookup
        cases hlookup
    | some old =>
        rw [hold, Option.getD_some, Option.some.injEq] at hlookup
        obtain ⟨hmax, hwindow⟩ := h peer old hold
        refine ⟨old, hold, ?_⟩
        apply Classical.byContradiction
        intro hexhausted
        exact Bucket.tryConsume_ne_of_not_exhausted hmax hwindow hexhausted hlookup.symm
  · intro ⟨bucket, hlookup, hexhausted⟩
    rw [consume, hlookup, Option.getD_some, Bucket.tryConsume_of_exhausted hexhausted]
    exact HashMap.put_self hlookup

end Zona
