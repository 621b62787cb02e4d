import Mathlib.Algebra.Order.BigOperators.Group.List
import Mathlib.Algebra.Order.Group.Nat
import Mathlib.Algebra.Ring.Nat
import Mathlib.Logic.Function.Basic

/-!
# Statistics of request and response bodies

The statistics of a body are taken from a histogram of its first bytes and from
their one bits.  For a response they are counted as the body is written, chunk
by chunk; for a request the body is read from the start, in pieces of whatever
size a read returns, and rewound.

`addChunk_append` is what makes pieces of no consequence.  `StatsStream.Holds`
says what a stream has counted after some writes, `readLoop_eq` what a loop of
reads counts, and `stats_chunking_invariant` that the two agree with the first
bytes of the body.
-/

namespace Zona

/-- `BitOperations.PopCount` of a byte. -/
def popCount (b : UInt8) : Nat :=
  (List.range 8).countP fun i => b.toNat.testBit i

/-- The histogram of 256 counters and the count of one bits. -/
structure BodyCounters where
  hist256 : UInt8 → Nat
  oneBits : Nat

namespace BodyCounters

def zero : BodyCounters where
  hist256 _ := 0
  oneBits := 0

/-- One byte of a chunk. -/
def addByte (c : BodyCounters) (b : UInt8) : BodyCounters where
  hist256 := Function.update c.hist256 b (c.hist256 b + 1)
  oneBits := c.oneBits + popCount b

def addChunk (chunk : List UInt8) (c : BodyCounters) : BodyCounters :=
  chunk.foldl addByte c

/-- An empty chunk counts nothing, so zero-length writes leave the statistics
alone. -/
@[simp]
theorem addChunk_nil (c : BodyCounters) : addChunk [] c = c :=
  rfl

/-- Two chunks count as one.  The statistics therefore do not depend on how a
body was cut into writes or reads. -/
theorem addChunk_append (chunk more : List UInt8) (c : BodyCounters) :
    addChunk (chunk ++ more) c = addChunk more (addChunk chunk c) :=
  List.foldl_append

/-- What a chunk adds to the count of a byte is the number of times that the
byte stands in the chunk. -/
theorem hist256_addChunk (chunk : List UInt8) (c : BodyCounters) (b : UInt8) :
    (addChunk chunk c).hist256 b = c.hist256 b + chunk.count b := by
  induction chunk generalizing c with
  | nil => simp
  | cons a chunk ih =>
      have hstep : addChunk (a :: chunk) c = addChunk chunk (c.addByte a) := rfl
      rw [hstep, ih, List.count_cons]
      by_cases hb : a = b
      · subst hb
        simp [addByte]
        omega
      · simp [addByte, Function.update_of_ne (Ne.symm hb), hb]

/-- What a chunk adds to the count of one bits is the sum of those in its
bytes. -/
theorem oneBits_addChunk (chunk : List UInt8) (c : BodyCounters) :
    (addChunk chunk c).oneBits = c.oneBits + (chunk.map popCount).sum := by
  induction chunk generalizing c with
  | nil => simp
  | cons a chunk ih =>
      have hstep : addChunk (a :: chunk) c = addChunk chunk (c.addByte a) := rfl
      rw [hstep, ih, List.map_cons, List.sum_cons]
      exact Nat.add_assoc _ _ _

/-- A byte has eight one bits at most, which bounds the ratio that is computed
from their sum. -/
theorem popCount_le (b : UInt8) : popCount b ≤ 8 :=
  List.countP_le_length

end BodyCounters

open BodyCounters

/-- The stream that a response is written to.  The inner stream stands for the
bytes it received. -/
structure StatsStream (Stats : Type) where
  inner : List UInt8
  maxStatsBytes : Nat
  sampled : Nat
  totalBytesWritten : Int64
  counters : BodyCounters
  computed : Bool
  stats : Option Stats

namespace StatsStream

variable {Stats : Type}

def new (maxStatsBytes : Int) : StatsStream Stats where
  inner := []
  maxStatsBytes := (max 0 maxStatsBytes).toNat
  sampled := 0
  totalBytesWritten := 0
  counters := zero
  computed := false
  stats := none

/-- The statistics are computed on the first call and kept. -/
def getCapturedStats (fromHistogram : (UInt8 → Nat) → Nat → Nat → Option Stats)
    (s : StatsStream Stats) : Option Stats × StatsStream Stats :=
  if s.computed then (s.stats, s)
  else
    let stats := fromHistogram s.counters.hist256 s.sampled s.counters.oneBits
    (stats, { s with stats := stats, computed := true })

/-- The inner stream takes the bytes, or throws. -/
def innerWrite (s : StatsStream Stats) (buffer : List UInt8) (accepts : Bool) :
    Bool × StatsStream Stats :=
  if accepts then (true, { s with inner := s.inner ++ buffer }) else (false, s)

/-- `Write(ReadOnlySpan<byte>)`; whether it returned, and the stream. -/
def write (s : StatsStream Stats) (buffer : List UInt8) (accepts : Bool) :
    Bool × StatsStream Stats :=
  let s := { s with totalBytesWritten := s.totalBytesWritten + Int64.ofNat buffer.length }
  let s :=
    if s.sampled < s.maxStatsBytes ∧ 0 < buffer.length then
      let take := min buffer.length (s.maxStatsBytes - s.sampled)
      if 0 < take then
        { s with
          counters := addChunk (buffer.take take) s.counters
          sampled := s.sampled + take }
      else s
    else s
  s.innerWrite buffer accepts

/-- `WriteAsync(ReadOnlyMemory<byte>)`. -/
def writeAsync (s : StatsStream Stats) (buffer : List UInt8) (accepts : Bool) :
    Bool × StatsStream Stats :=
  let s := { s with totalBytesWritten := s.totalBytesWritten + Int64.ofNat buffer.length }
  let s :=
    if s.sampled < s.maxStatsBytes ∧ 0 < buffer.length then
      let take := min buffer.length (s.maxStatsBytes - s.sampled)
      if 0 < take then
        { s with
          counters := addChunk (buffer.take take) s.counters
          sampled := s.sampled + take }
      else s
    else s
  s.innerWrite buffer accepts

/-- `buffer.AsSpan(offset, count)`, which throws outside of the buffer. -/
def segment? (buffer : List UInt8) (offset count : Int) : Option (List UInt8) :=
  if 0 ≤ offset ∧ 0 ≤ count ∧ offset + count ≤ buffer.length then
    some ((buffer.drop offset.toNat).take count.toNat)
  else none

/-- A call of one of the four overloads, with what the inner stream does. -/
inductive WriteCall
  | write (buffer : List UInt8) (accepts : Bool)
  | writeArray (buffer : List UInt8) (offset count : Int) (accepts : Bool)
  | writeAsync (buffer : List UInt8) (accepts : Bool)
  | writeArrayAsync (buffer : List UInt8) (offset count : Int) (accepts : Bool)

/-- The bytes that a call is to write. -/
def WriteCall.bytes : WriteCall → List UInt8
  | .write buffer _ => buffer
  | .writeArray buffer offset count _ => (segment? buffer offset count).getD []
  | .writeAsync buffer _ => buffer
  | .writeArrayAsync buffer offset count _ => (segment? buffer offset count).getD []

def perform (s : StatsStream Stats) : WriteCall → Bool × StatsStream Stats
  | .write buffer accepts => s.write buffer accepts
  | .writeArray buffer offset count accepts =>
      match segment? buffer offset count with
      | none => (false, s)
      | some span => s.write span accepts
  | .writeAsync buffer accepts => s.writeAsync buffer accepts
  | .writeArrayAsync buffer offset count accepts =>
      match segment? buffer offset count with
      | none => (false, s)
      | some memory => s.writeAsync memory accepts

/-- Calls up to the first that throws; whether none did. -/
def performAll (s : StatsStream Stats) : List WriteCall → Bool × StatsStream Stats
  | [] => (true, s)
  | call :: calls =>
      match s.perform call with
      | (false, s') => (false, s')
      | (true, s') => s'.performAll calls

/-- What a stream holds after some bytes were written to it. -/
structure Holds (s : StatsStream Stats) (limit : Nat) (written : List UInt8) : Prop where
  bound : s.maxStatsBytes = limit
  inner : s.inner = written
  total : s.totalBytesWritten = Int64.ofNat written.length
  sampled : s.sampled = min written.length limit
  counters : s.counters = addChunk (written.take limit) zero
  fresh : s.computed = false

/-- A new stream holds the statistics of no bytes.  A limit below zero is the
limit zero. -/
theorem new_holds (maxStatsBytes : Int) :
    (new maxStatsBytes : StatsStream Stats).Holds maxStatsBytes.toNat [] where
  bound := by
    simp only [new]
    omega
  inner := rfl
  total := rfl
  sampled := by simp [new]
  counters := by simp [new]
  fresh := rfl

/-- **One write** that returns: the stream then holds the statistics of what
was written so far, cut off at the limit, this buffer included. -/
theorem Holds.write {s s' : StatsStream Stats} {limit : Nat} {written buffer : List UInt8}
    {accepts : Bool} (h : s.Holds limit written) (hwrite : s.write buffer accepts = (true, s')) :
    s'.Holds limit (written ++ buffer) := by
  obtain ⟨hlimit, hinner, htotal, hsampled, hcounters, hfresh⟩ := h
  cases accepts with
  | false => simp [StatsStream.write, innerWrite] at hwrite
  | true =>
      simp only [StatsStream.write, innerWrite, if_true, Prod.mk.injEq, true_and] at hwrite
      subst hwrite
      have hprefix : (written ++ buffer).take limit =
          written.take limit ++ buffer.take (limit - written.length) := List.take_append
      by_cases hroom : s.sampled < s.maxStatsBytes ∧ 0 < buffer.length
      · obtain ⟨hbelow, hsome⟩ := hroom
        have hshort : written.length < limit := by omega
        have htake : 0 < min buffer.length (s.maxStatsBytes - s.sampled) := by omega
        have hchunk : buffer.take (min buffer.length (s.maxStatsBytes - s.sampled)) =
            buffer.take (limit - written.length) := by
          rw [List.take_eq_take_iff]
          omega
        rw [if_pos ⟨hbelow, hsome⟩, if_pos htake]
        refine ⟨hlimit, ?_, ?_, ?_, ?_, hfresh⟩
        · exact congrArg (· ++ buffer) hinner
        · dsimp only
          rw [htotal, List.length_append, Int64.ofNat_add]
        · dsimp only
          rw [List.length_append]
          omega
        · dsimp only
          rw [hchunk, hcounters, hprefix, addChunk_append]
      · have hnothing : buffer.take (limit - written.length) = [] := by
          rw [List.take_eq_nil_iff, ← List.length_eq_zero_iff]
          omega
        rw [if_neg hroom]
        refine ⟨hlimit, ?_, ?_, ?_, ?_, hfresh⟩
        · exact congrArg (· ++ buffer) hinner
        · dsimp only
          rw [htotal, List.length_append, Int64.ofNat_add]
        · dsimp only
          rw [List.length_append]
          omega
        · dsimp only
          rw [hcounters, hprefix, hnothing, List.append_nil]

/-- The two copies of the code do the same. -/
theorem writeAsync_eq_write (s : StatsStream Stats) (buffer : List UInt8) (accepts : Bool) :
    s.writeAsync buffer accepts = s.write buffer accepts :=
  rfl

/-- One call of any of the write methods that returns, synchronous or not, is a
write of the bytes that it was given. -/
theorem Holds.perform {s s' : StatsStream Stats} {limit : Nat} {written : List UInt8}
    {call : WriteCall} (h : s.Holds limit written) (hcall : s.perform call = (true, s')) :
    s'.Holds limit (written ++ call.bytes) := by
  cases call with
  | write buffer accepts => exact h.write hcall
  | writeAsync buffer accepts => exact h.write hcall
  | writeArray buffer offset count accepts =>
      cases hsegment : segment? buffer offset count with
      | none => simp [StatsStream.perform, hsegment] at hcall
      | some span =>
          simp only [StatsStream.perform, hsegment] at hcall
          simpa [WriteCall.bytes, hsegment] using h.write hcall
  | writeArrayAsync buffer offset count accepts =>
      cases hsegment : segment? buffer offset count with
      | none => simp [StatsStream.perform, hsegment] at hcall
      | some memory =>
          simp only [StatsStream.perform, hsegment, writeAsync_eq_write] at hcall
          simpa [WriteCall.bytes, hsegment] using h.write hcall

/-- **Writes** that all return: by induction the stream holds the statistics of
all their bytes together, cut off at the limit. -/
theorem Holds.performAll {s s' : StatsStream Stats} {limit : Nat} {written : List UInt8}
    {calls : List WriteCall} (h : s.Holds limit written)
    (hcalls : s.performAll calls = (true, s')) :
    s'.Holds limit (written ++ calls.flatMap WriteCall.bytes) := by
  induction calls generalizing s written with
  | nil =>
      cases hcalls
      simpa using h
  | cons call calls ih =>
      cases hcall : s.perform call with
      | mk returned next =>
          cases returned with
          | false => simp [StatsStream.performAll, hcall] at hcalls
          | true =>
              simp only [StatsStream.performAll, hcall] at hcalls
              rw [List.flatMap_cons, ← List.append_assoc]
              exact ih (h.perform hcall) hcalls

/-- No counter exceeds what its type can count: the limit is a 32-bit integer,
and a byte has eight bits. -/
theorem Holds.counters_fit {s : StatsStream Stats} {limit : Nat} {written : List UInt8}
    (h : s.Holds limit written) :
    s.sampled ≤ limit ∧ (∀ b, s.counters.hist256 b ≤ limit) ∧
      s.counters.oneBits ≤ 8 * limit := by
  have hlength : (written.take limit).length ≤ limit := List.length_take_le _ _
  refine ⟨?_, ?_, ?_⟩
  · rw [h.sampled]
    omega
  · intro b
    have hcount : (written.take limit).count b ≤ (written.take limit).length :=
      List.count_le_length
    rw [h.counters, hist256_addChunk]
    simp only [zero]
    omega
  · have hbits : ((written.take limit).map popCount).sum ≤ (written.take limit).length * 8 := by
      rw [← List.length_map popCount]
      apply List.sum_le_card_nsmul
      intro n hn
      obtain ⟨b, -, rfl⟩ := List.mem_map.mp hn
      exact popCount_le b
    rw [h.counters, oneBits_addChunk]
    simp only [zero]
    omega

end StatsStream

/-- A request body as a stream.  `reads` says of each read how many bytes it
returns beyond the first, if there are so many; a length is a 64-bit integer. -/
structure RequestBody where
  canSeek : Bool
  content : List UInt8
  position : Nat
  reads : Nat → Nat
  readsDone : Nat
  length_lt : content.length < 2 ^ 63

/-- Buffers of at least the length asked for. -/
structure ArrayPool where
  rent : Nat → Nat
  le_rent : ∀ n, n ≤ rent n

namespace RequestBody

/-- Read at least one byte and at most as many as wanted, if there is any
left. -/
def readAsync (body : RequestBody) (want : Nat) : List UInt8 × RequestBody :=
  let left := body.content.drop body.position
  let chunk := left.take (min want (body.reads body.readsDone + 1))
  (chunk, { body with
    position := body.position + chunk.length
    readsDone := body.readsDone + 1 })

/-- The loop of `FromRequestBodyAsync`. -/
def readLoop (bufLength maxBytes sampled : Nat) (c : BodyCounters) (body : RequestBody) :
    Nat × BodyCounters × RequestBody :=
  if _ : sampled < maxBytes then
    let want := min bufLength (maxBytes - sampled)
    let got := body.readAsync want
    if _ : got.1.length = 0 then (sampled, c, got.2)
    else readLoop bufLength maxBytes (sampled + got.1.length) (addChunk got.1 c) got.2
  else (sampled, c, body)
termination_by maxBytes - sampled
decreasing_by
  rename_i hmore hend
  exact Nat.sub_lt_sub_left hmore (Nat.lt_add_of_pos_right (Nat.pos_of_ne_zero hend))

/-- `FromRequestBodyAsync`: the statistics, and the stream rewound. -/
def fromRequestBodyAsync {Stats : Type}
    (fromHistogram : (UInt8 → Nat) → Nat → Nat → Option Stats) (pool : ArrayPool)
    (body : RequestBody) (maxBytes : Int) : Option Stats × RequestBody :=
  if body.canSeek = false ∨ maxBytes ≤ 0 then (none, body)
  else
    let bufLength := pool.rent (min 65536 maxBytes.toNat)
    let result := readLoop bufLength maxBytes.toNat 0 zero { body with position := 0 }
    (fromHistogram result.2.1.hist256 result.1 result.2.1.oneBits,
      { result.2.2 with position := 0 })

/-- **The loop** counts the first bytes, however many a read returns.  The
invariant is that what was counted is the beginning of the body up to the
position. -/
theorem readLoop_eq {bufLength : Nat} (hbuf : 0 < bufLength) (maxBytes sampled : Nat)
    (c : BodyCounters) (body : RequestBody) (hle : sampled ≤ maxBytes)
    (hposition : body.position = sampled) (hin : sampled ≤ body.content.length)
    (hc : c = addChunk (body.content.take sampled) zero) :
    (readLoop bufLength maxBytes sampled c body).1 = min body.content.length maxBytes ∧
      (readLoop bufLength maxBytes sampled c body).2.1 =
        addChunk (body.content.take maxBytes) zero := by
  fun_induction readLoop bufLength maxBytes sampled c body with
  | case1 sampled c body hmore want got hend =>
      have hlength : got.1.length =
          min (min want (body.reads body.readsDone + 1)) (body.content.length - sampled) := by
        simp only [got, readAsync, List.length_take, List.length_drop, hposition]
      have hwant : 0 < want := by
        simp only [want]
        omega
      have hall : body.content.length = sampled := by omega
      refine ⟨by omega, ?_⟩
      rw [hc, List.take_of_length_le (by omega), List.take_of_length_le (by omega)]
  | case2 sampled c body hmore want got hsome ih =>
      have hlength : got.1.length =
          min (min want (body.reads body.readsDone + 1)) (body.content.length - sampled) := by
        simp only [got, readAsync, List.length_take, List.length_drop, hposition]
      have hchunk : body.content.take (sampled + got.1.length) =
          body.content.take sampled ++ got.1 := by
        rw [List.take_add, hlength]
        congr 1
        simp only [got, readAsync, hposition]
        rw [List.take_eq_take_iff, List.length_drop]
        omega
      have hwant : want ≤ maxBytes - sampled := Nat.min_le_right _ _
      apply ih
      · omega
      · simp only [got, readAsync, hposition]
      · change sampled + got.1.length ≤ body.content.length
        omega
      · change _ = addChunk (body.content.take (sampled + got.1.length)) zero
        rw [hchunk, addChunk_append, hc]
  | case3 sampled c body hdone =>
      have heq : sampled = maxBytes := by omega
      subst heq
      exact ⟨(Nat.min_eq_right hin).symm, hc⟩

end RequestBody

/-- **The statistics of the two directions agree** and do not depend on how the
bytes are split.  For every seekable body and every positive limit, and every
sequence of writes that return and together write the same bytes: the counters
are those of the first bytes, the total is the length, the inner stream received
the bytes; and whatever is made of the counters, reading the body makes of the
same ones, and leaves it at its start. -/
theorem stats_chunking_invariant {Stats : Type}
    (fromHistogram : (UInt8 → Nat) → Nat → Nat → Option Stats) (pool : ArrayPool)
    {limit : Int} (hlimit : 0 < limit) {body : RequestBody} (hseek : body.canSeek = true)
    {calls : List StatsStream.WriteCall} {s : StatsStream Stats}
    (hcalls : (StatsStream.new limit).performAll calls = (true, s))
    (hsplit : calls.flatMap StatsStream.WriteCall.bytes = body.content) :
    (∀ b, s.counters.hist256 b = (body.content.take limit.toNat).count b) ∧
      s.counters.oneBits = ((body.content.take limit.toNat).map popCount).sum ∧
      s.sampled = min body.content.length limit.toNat ∧
      s.totalBytesWritten.toInt = body.content.length ∧
      s.inner = body.content ∧
      (s.getCapturedStats fromHistogram).1 =
        fromHistogram s.counters.hist256 s.sampled s.counters.oneBits ∧
      (body.fromRequestBodyAsync fromHistogram pool limit).1 =
        fromHistogram s.counters.hist256 s.sampled s.counters.oneBits ∧
      (body.fromRequestBodyAsync fromHistogram pool limit).2.position = 0 := by
  have hholds := (StatsStream.new_holds limit).performAll hcalls
  rw [List.nil_append, hsplit] at hholds
  have hrent : 0 < pool.rent (min 65536 limit.toNat) := by
    have hle := pool.le_rent (min 65536 limit.toNat)
    omega
  obtain ⟨hsampled, hcounters⟩ := RequestBody.readLoop_eq hrent limit.toNat 0 zero
    { body with position := 0 } (Nat.zero_le _) rfl (Nat.zero_le _) rfl
  have hguard : ¬ (body.canSeek = false ∨ limit ≤ 0) := by
    rw [hseek]
    simp [hlimit]
  refine ⟨?_, ?_, hholds.sampled, ?_, hholds.inner, ?_, ?_, ?_⟩
  · intro b
    rw [hholds.counters, hist256_addChunk]
    exact Nat.zero_add _
  · rw [hholds.counters, oneBits_addChunk]
    exact Nat.zero_add _
  · rw [hholds.total]
    exact Int64.toInt_ofNat_of_lt body.length_lt
  · rw [StatsStream.getCapturedStats, hholds.fresh]
    rfl
  · rw [RequestBody.fromRequestBodyAsync, if_neg hguard]
    dsimp only at hsampled hcounters ⊢
    rw [hsampled, hcounters, hholds.sampled, hholds.counters]
  · rw [RequestBody.fromRequestBodyAsync, if_neg hguard]

/-- Four bytes that are read one at a time. -/
def fourBytes : RequestBody where
  canSeek := true
  content := [1, 2, 3, 4]
  position := 2
  reads _ := 0
  readsDone := 0
  length_lt := by decide

/-- The same bytes in four writes, one of them empty. -/
def fourWrites : List StatsStream.WriteCall :=
  [.write [1] true, .writeArray [9, 2, 3, 9] 1 2 true, .writeAsync [] true,
    .writeArrayAsync [4] 0 1 true]

/-- Of four bytes the first three are counted, either way. -/
theorem fourWrites_agree :
    ∃ s : StatsStream Nat, (StatsStream.new 3).performAll fourWrites = (true, s) ∧
      s.sampled = 3 ∧ s.totalBytesWritten.toInt = 4 ∧
        (fourBytes.fromRequestBodyAsync (fun _ sampled _ => some sampled) ⟨id, fun _ => le_rfl⟩
          3).1 = some 3 := by
  have hcalls : (StatsStream.new 3 : StatsStream Nat).performAll fourWrites =
      (true, ((StatsStream.new 3).performAll fourWrites).2) := rfl
  obtain ⟨-, -, hsampled, htotal, -, -, hread, -⟩ :=
    @stats_chunking_invariant Nat (fun _ sampled _ => some sampled) ⟨id, fun _ => le_rfl⟩ 3
      (by decide) fourBytes rfl fourWrites _ hcalls (by decide)
  refine ⟨_, hcalls, hsampled, htotal, ?_⟩
  rw [hread, hsampled]
  rfl

end Zona
