import Mathlib.Data.List.Basic
import Mathlib.Tactic.Common

/-!
# Reading frames from a stream

A decoder looks at a buffer and takes one frame from its front, waits for more
bytes, or fails.  What makes it fit for streams are three laws: a frame takes
something from the buffer, waiting takes nothing, and a frame or an error stays
the same when more bytes come in.

`drain` takes frames until the decoder waits, and `feed` does so after each
chunk of a stream.  `feed_eq_drain` says that the chunks do not matter, and
`feed_frames` that a stream of frames is read back frame by frame.
-/

/-- What is read from a stream: the items, the error that stopped it, if any,
and the bytes that are left. -/
structure Reading (β α ε : Type) where
  items : List α
  error : Option ε
  rest : List β
  deriving DecidableEq

/-- A decoder of frames, as a step on the buffer. -/
structure FrameDecoder (β α ε : Type) where
  decode : List β → Except ε (Option α) × List β
  /-- A frame takes something from the buffer. -/
  consumes : ∀ {buf a rest}, decode buf = (.ok (some a), rest) → rest.length < buf.length
  /-- Waiting takes nothing. -/
  waits : ∀ {buf rest}, decode buf = (.ok none, rest) → rest = buf
  /-- What follows does not matter to a decoder that does not wait for it. -/
  stable : ∀ {buf result rest}, decode buf = (result, rest) → result ≠ .ok none → ∀ more,
    decode (buf ++ more) = (result, rest ++ more)

namespace FrameDecoder

variable {β α ε : Type} (d : FrameDecoder β α ε)

/-- Take frames until the decoder waits or fails. -/
def drain (buf : List β) : Reading β α ε :=
  match h : d.decode buf with
  | (.ok none, rest) => ⟨[], none, rest⟩
  | (.error e, rest) => ⟨[], some e, rest⟩
  | (.ok (some a), rest) =>
      have : rest.length < buf.length := d.consumes h
      let later := drain rest
      ⟨a :: later.items, later.error, later.rest⟩
termination_by buf.length

/-- Drain the buffer after each chunk, up to an error. -/
def feed (buf : List β) : List (List β) → Reading β α ε
  | [] => ⟨[], none, buf⟩
  | chunk :: chunks =>
      match d.drain (buf ++ chunk) with
      | ⟨items, some e, rest⟩ => ⟨items, some e, rest⟩
      | ⟨items, none, rest⟩ =>
          let later := feed rest chunks
          ⟨items ++ later.items, later.error, later.rest⟩

/-- The decoder waits for more. -/
def Idle (buf : List β) : Prop :=
  d.decode buf = (.ok none, buf)

variable {d}

/-- A buffer without a complete frame is left as it is. -/
theorem drain_of_idle {buf : List β} (h : d.Idle buf) : d.drain buf = ⟨[], none, buf⟩ := by
  rw [drain]
  split
  · rename_i rest hdecode
    rw [d.waits hdecode]
  · rename_i e rest hdecode
    cases h.symm.trans hdecode
  · rename_i a rest hdecode
    cases h.symm.trans hdecode

/-- A buffer whose first frame is malformed gives that error and no item. -/
theorem drain_of_error {buf rest : List β} {e : ε} (h : d.decode buf = (.error e, rest)) :
    d.drain buf = ⟨[], some e, rest⟩ := by
  rw [drain]
  split
  · rename_i rest' hdecode
    cases h.symm.trans hdecode
  · rename_i e' rest' hdecode
    cases h.symm.trans hdecode
    rfl
  · rename_i a rest' hdecode
    cases h.symm.trans hdecode

/-- A buffer with a complete frame gives its item first, and then what is in
the rest. -/
theorem drain_of_frame {buf rest : List β} {a : α} (h : d.decode buf = (.ok (some a), rest)) :
    d.drain buf = ⟨a :: (d.drain rest).items, (d.drain rest).error, (d.drain rest).rest⟩ := by
  rw [drain]
  split
  · rename_i rest' hdecode
    cases h.symm.trans hdecode
  · rename_i e rest' hdecode
    cases h.symm.trans hdecode
  · rename_i a' rest' hdecode
    cases h.symm.trans hdecode
    rfl

/-- A buffer that was drained without an error waits for more. -/
theorem idle_of_drain {buf : List β} (h : (d.drain buf).error = none) :
    d.Idle (d.drain buf).rest := by
  fun_induction drain d buf with
  | case1 buf rest hdecode =>
      obtain rfl := d.waits hdecode
      exact hdecode
  | case2 => cases h
  | case3 buf a rest hdecode _ later ih => exact ih h

/-- **More bytes.**  What was drained stays drained, and draining goes on with
the rest.  So it does not matter when the decoder is asked. -/
theorem drain_append {buf : List β} (h : (d.drain buf).error = none) (more : List β) :
    d.drain (buf ++ more) =
      ⟨(d.drain buf).items ++ (d.drain ((d.drain buf).rest ++ more)).items,
        (d.drain ((d.drain buf).rest ++ more)).error,
        (d.drain ((d.drain buf).rest ++ more)).rest⟩ := by
  fun_induction drain d buf with
  | case1 buf rest hdecode =>
      obtain rfl := d.waits hdecode
      rfl
  | case2 => cases h
  | case3 buf a rest hdecode _ later ih =>
      rw [drain_of_frame (d.stable hdecode (fun heq => nomatch heq) more), ih h]
      rfl

theorem drain_append_of_error {buf : List β} {e : ε} (h : (d.drain buf).error = some e)
    (more : List β) :
    d.drain (buf ++ more) = ⟨(d.drain buf).items, some e, (d.drain buf).rest ++ more⟩ := by
  fun_induction drain d buf with
  | case1 => cases h
  | case2 buf e' rest hdecode =>
      cases h
      exact drain_of_error (d.stable hdecode (fun heq => nomatch heq) more)
  | case3 buf a rest hdecode _ later ih =>
      rw [drain_of_frame (d.stable hdecode (fun heq => nomatch heq) more), ih h]

/-- **Chunks do not matter.**  However a stream is cut, the same items are read
from it, up to the same error, and without one the same bytes are left. -/
theorem feed_eq_drain {buf : List β} (hidle : d.Idle buf) (chunks : List (List β)) :
    (d.feed buf chunks).items = (d.drain (buf ++ chunks.flatten)).items ∧
      (d.feed buf chunks).error = (d.drain (buf ++ chunks.flatten)).error ∧
        ((d.feed buf chunks).error = none →
          (d.feed buf chunks).rest = (d.drain (buf ++ chunks.flatten)).rest) := by
  induction chunks generalizing buf with
  | nil =>
      rw [List.flatten_nil, List.append_nil, drain_of_idle hidle]
      exact ⟨rfl, rfl, fun _ => rfl⟩
  | cons chunk chunks ih =>
      rw [List.flatten_cons, ← List.append_assoc, feed]
      cases herror : (d.drain (buf ++ chunk)).error with
      | none =>
          have hmore := drain_append herror chunks.flatten
          have hidle' := idle_of_drain herror
          obtain ⟨hitems, herrors, hrest⟩ := ih hidle'
          generalize d.drain (buf ++ chunk) = first at *
          obtain ⟨items, error, rest⟩ := first
          dsimp only at herror hmore hitems herrors hrest ⊢
          subst herror
          dsimp only
          rw [hmore, hitems, herrors]
          exact ⟨rfl, rfl, fun hnone => hrest (herrors.trans hnone)⟩
      | some e =>
          have hmore := drain_append_of_error herror chunks.flatten
          generalize d.drain (buf ++ chunk) = first at *
          obtain ⟨items, error, rest⟩ := first
          dsimp only at herror hmore ⊢
          subst herror
          rw [hmore]
          exact ⟨rfl, rfl, fun hnone => nomatch hnone⟩

/-- A stream of frames drains to the items, one by one. -/
theorem drain_frames {frame : α → List β} {items : List α}
    (hframe : ∀ a ∈ items, ∀ more, d.decode (frame a ++ more) = (.ok (some a), more))
    (hend : d.Idle []) : d.drain (items.flatMap frame) = ⟨items, none, []⟩ := by
  induction items with
  | nil => exact drain_of_idle hend
  | cons a items ih =>
      rw [List.flatMap_cons, drain_of_frame (hframe a List.mem_cons_self _),
        ih fun b hb => hframe b (List.mem_cons_of_mem a hb)]

/-- **A stream of frames**, in whatever chunks, is read back frame by frame,
and nothing is left over at its end. -/
theorem feed_frames {frame : α → List β} {items : List α}
    (hframe : ∀ a ∈ items, ∀ more, d.decode (frame a ++ more) = (.ok (some a), more))
    (hend : d.Idle []) {chunks : List (List β)} (hchunks : chunks.flatten = items.flatMap frame) :
    d.feed [] chunks = ⟨items, none, []⟩ := by
  obtain ⟨hitems, herror, hrest⟩ := feed_eq_drain hend chunks
  rw [List.nil_append, hchunks, drain_frames hframe hend] at hitems herror hrest
  generalize d.feed [] chunks = reading at *
  obtain ⟨items', error', rest'⟩ := reading
  dsimp only at hitems herror hrest
  rw [hitems, herror, hrest herror]

end FrameDecoder
