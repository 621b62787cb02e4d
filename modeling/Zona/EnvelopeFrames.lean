import Zona.FrameStreams
import Zona.WireDecoding

/-!
# Frames of envelopes

The codec of the transport puts the length of a serialised envelope before it,
as a big-endian `u32`, and reads frames back from a buffer.  Serialisation is
left to a library (`Serde`), of which only the round trip is used.

`frameDecoder` is the decoder as one of streams, so what is sent over a
connection arrives however the connection cuts it
(`frame_stream_round_trip`).
-/

namespace Zona

/-- `bincode::serialize` and `bincode::deserialize` for envelopes, with the
texts of their errors. -/
class Serde where
  serialize : Envelope → Except String (List UInt8)
  deserialize : List UInt8 → Except String Envelope

/-- Plain envelopes are deserialised as they were serialised. -/
def Serde.RoundTrips (s : Serde) : Prop :=
  ∀ env : Envelope, env.Plain → ∀ data, s.serialize env = .ok data → s.deserialize data = .ok env

namespace EnvelopeCodec

/-- Maximum frame size: 4 MiB. -/
def maxFrame : Nat := 4 * 1024 * 1024

/-- `u32::to_be_bytes`, which `put_u32` appends. -/
def beBytes (n : Nat) : List UInt8 :=
  (Bincode.littleEndian 4 n).reverse

/-- `u32::from_be_bytes`. -/
def fromBeBytes (bs : List UInt8) : Nat :=
  Bincode.Decoder.value bs.reverse

variable [Serde]

/-- Take one frame from the front of a buffer: the envelope, or nothing as long
as bytes are missing. -/
def decode (src : List UInt8) : Except String (Option Envelope) × List UInt8 :=
  if src.length < 4 then (.ok none, src)
  else
    let len := fromBeBytes (src.take 4)
    if maxFrame < len then (.error s!"frame too large: {len}", src)
    else if src.length < 4 + len then (.ok none, src)
    else
      let data := (src.drop 4).take len
      let rest := (src.drop 4).drop len
      match Serde.deserialize data with
      | .error e => (.error e, rest)
      | .ok envelope => (.ok (some envelope), rest)

/-- Append one frame to a buffer. -/
def encode (item : Envelope) (dst : List UInt8) : Except String Unit × List UInt8 :=
  match Serde.serialize item with
  | .error e => (.error e, dst)
  | .ok data =>
      if maxFrame < data.length then (.error "serialised envelope exceeds MAX_FRAME", dst)
      else (.ok (), dst ++ beBytes data.length ++ data)

/-- The length that a buffer announces. -/
def announced (src : List UInt8) : Nat :=
  fromBeBytes (src.take 4)

/-- The announcement is there, and is of more than a frame. -/
def Oversized (src : List UInt8) : Prop :=
  4 ≤ src.length ∧ maxFrame < announced src

/-- A whole frame is there. -/
structure Complete (src : List UInt8) : Prop where
  length : 4 ≤ src.length
  bound : announced src ≤ maxFrame
  body : 4 + announced src ≤ src.length

/-- A frame that announces more than the limit is refused, whatever else is in
the buffer, and the error names the announced length. -/
theorem decode_of_oversized {src : List UInt8} (h : Oversized src) :
    decode src = (.error s!"frame too large: {announced src}", src) := by
  rw [decode, if_neg (Nat.not_lt.mpr h.1)]
  exact if_pos h.2

/-- A complete frame is taken off the buffer, and its body is handed to the
decoder of envelopes. -/
theorem decode_of_complete {src : List UInt8} (h : Complete src) :
    decode src = ((Serde.deserialize ((src.drop 4).take (announced src))).map some,
      (src.drop 4).drop (announced src)) := by
  have hbound : ¬ maxFrame < fromBeBytes (src.take 4) := Nat.not_lt.mpr h.bound
  have hbody : ¬ src.length < 4 + fromBeBytes (src.take 4) := Nat.not_lt.mpr h.body
  rw [decode, if_neg (Nat.not_lt.mpr h.length)]
  dsimp only
  rw [if_neg hbound, if_neg hbody, announced]
  cases Serde.deserialize ((src.drop 4).take (fromBeBytes (src.take 4))) with
  | error e => rfl
  | ok envelope => rfl

/-- **What decoding does.**  It waits, refuses a length, or takes a frame, that
may be malformed. -/
theorem decode_cases (src : List UInt8) :
    decode src = (.ok none, src) ∨ Oversized src ∨ Complete src := by
  by_cases hshort : src.length < 4
  · rw [decode, if_pos hshort]
    exact Or.inl rfl
  · by_cases hlarge : maxFrame < announced src
    · exact Or.inr (Or.inl ⟨Nat.le_of_not_lt hshort, hlarge⟩)
    · by_cases hmissing : src.length < 4 + announced src
      · have hbound : ¬ maxFrame < fromBeBytes (src.take 4) := hlarge
        have hbody : src.length < 4 + fromBeBytes (src.take 4) := hmissing
        rw [decode, if_neg hshort]
        dsimp only
        rw [if_neg hbound, if_pos hbody]
        exact Or.inl rfl
      · exact Or.inr (Or.inr ⟨Nat.le_of_not_lt hshort, Nat.le_of_not_lt hlarge,
          Nat.le_of_not_lt hmissing⟩)

omit [Serde] in
/-- The announced length stands in the first four bytes, so bytes that arrive
later do not change it. -/
theorem announced_append {src : List UInt8} (h : 4 ≤ src.length) (more : List UInt8) :
    announced (src ++ more) = announced src := by
  rw [announced, announced, List.take_append_of_le_length h]

/-- Decoding goes on as it began when more bytes come in. -/
theorem decode_append {src rest : List UInt8} {result : Except String (Option Envelope)}
    (h : decode src = (result, rest)) (hdone : result ≠ .ok none) (more : List UInt8) :
    decode (src ++ more) = (result, rest ++ more) := by
  rcases decode_cases src with hwaits | hlarge | hcomplete
  · rw [hwaits] at h
    exact (hdone (Prod.mk.inj h).1.symm).elim
  · rw [decode_of_oversized hlarge] at h
    obtain ⟨rfl, rfl⟩ := Prod.mk.inj h
    have hannounced := announced_append hlarge.1 more
    rw [← hannounced]
    refine decode_of_oversized ⟨?_, ?_⟩
    · rw [List.length_append]
      exact Nat.le_add_right_of_le hlarge.1
    · rw [hannounced]
      exact hlarge.2
  · rw [decode_of_complete hcomplete] at h
    obtain ⟨rfl, rfl⟩ := Prod.mk.inj h
    have hannounced := announced_append hcomplete.length more
    have hdrop : (src ++ more).drop 4 = src.drop 4 ++ more :=
      List.drop_append_of_le_length hcomplete.length
    have hbody : announced src ≤ (src.drop 4).length := by
      have hle := hcomplete.body
      rw [List.length_drop]
      omega
    rw [decode_of_complete ⟨?_, ?_, ?_⟩, hannounced, hdrop, List.take_append_of_le_length hbody,
      List.drop_append_of_le_length hbody]
    · rw [List.length_append]
      exact Nat.le_add_right_of_le hcomplete.length
    · rw [hannounced]
      exact hcomplete.bound
    · rw [hannounced, List.length_append]
      exact Nat.le_add_right_of_le hcomplete.body

/-- **The codec as a decoder of streams.** -/
def frameDecoder : FrameDecoder UInt8 Envelope String where
  decode := decode
  consumes := by
    intro src envelope rest h
    rcases decode_cases src with hwaits | hlarge | hcomplete
    · rw [hwaits] at h
      cases h
    · rw [decode_of_oversized hlarge] at h
      cases h
    · rw [decode_of_complete hcomplete] at h
      obtain ⟨_, rfl⟩ := Prod.mk.inj h
      have hlength := hcomplete.length
      rw [List.length_drop, List.length_drop]
      omega
  waits := by
    intro src rest h
    rcases decode_cases src with hwaits | hlarge | hcomplete
    · rw [hwaits] at h
      exact (Prod.mk.inj h).2.symm
    · rw [decode_of_oversized hlarge] at h
      cases h
    · rw [decode_of_complete hcomplete] at h
      obtain ⟨hnone, _⟩ := Prod.mk.inj h
      cases hresult : Serde.deserialize ((src.drop 4).take (announced src)) with
      | error e =>
          rw [hresult] at hnone
          cases hnone
      | ok envelope =>
          rw [hresult] at hnone
          cases hnone
  stable := fun h hdone more => decode_append h hdone more

/-- An envelope that fits a frame. -/
structure Fits (env : Envelope) : Prop where
  plain : env.Plain
  size : ∃ data, Serde.serialize env = .ok data ∧ data.length ≤ maxFrame

/-- The frame of an envelope: what encoding appends. -/
def frame (env : Envelope) : List UInt8 :=
  (encode env []).2

/-- Encode some envelopes into a buffer, one after the other. -/
def encodeAll (envs : List Envelope) (dst : List UInt8) : List UInt8 :=
  envs.foldl (fun dst env => (encode env dst).2) dst

/-- A failed encoding leaves the buffer unchanged, as the length is checked
before anything is written. -/
theorem encode_of_error {env : Envelope} {dst dst' : List UInt8} {e : String}
    (h : encode env dst = (.error e, dst')) : dst' = dst := by
  unfold encode at h
  split at h
  · exact (Prod.mk.inj h).2.symm
  · split at h
    · exact (Prod.mk.inj h).2.symm
    · cases h

/-- An envelope that fits is encoded, as a frame behind what is there. -/
theorem encode_of_fits {env : Envelope} (h : Fits env) (dst : List UInt8) :
    encode env dst = (.ok (), dst ++ frame env) := by
  obtain ⟨data, hdata, hsize⟩ := h.size
  have hfits : ¬ maxFrame < data.length := Nat.not_lt.mpr hsize
  have hencode : ∀ dst, encode env dst = (.ok (), dst ++ beBytes data.length ++ data) := by
    intro dst
    rw [encode, hdata]
    exact if_neg hfits
  rw [frame, hencode, hencode, List.nil_append, List.append_assoc]

/-- Envelopes that fit are written frame after frame, so what is in the buffer
is the concatenation of their frames. -/
theorem encodeAll_eq {envs : List Envelope} (h : ∀ env ∈ envs, Fits env) (dst : List UInt8) :
    encodeAll envs dst = dst ++ envs.flatMap frame := by
  induction envs generalizing dst with
  | nil => simp [encodeAll]
  | cons env envs ih =>
      have hrest := ih (fun e he => h e (List.mem_cons_of_mem env he)) (dst ++ frame env)
      rw [encodeAll] at hrest
      rw [encodeAll, List.foldl_cons, encode_of_fits (h env List.mem_cons_self), hrest,
        List.flatMap_cons, List.append_assoc]

omit [Serde] in
theorem length_beBytes (n : Nat) : (beBytes n).length = 4 := by
  rw [beBytes, List.length_reverse, Bincode.littleEndian_length]

omit [Serde] in
/-- A length that fits into four bytes is read back from them, highest byte
first. -/
theorem fromBeBytes_beBytes {n : Nat} (h : n < 256 ^ 4) : fromBeBytes (beBytes n) = n := by
  rw [fromBeBytes, beBytes, List.reverse_reverse, Bincode.value_littleEndian, Nat.mod_eq_of_lt h]

theorem decode_frame (hround : Serde.RoundTrips ‹Serde›) {env : Envelope} (h : Fits env)
    (more : List UInt8) : decode (frame env ++ more) = (.ok (some env), more) := by
  obtain ⟨data, hdata, hsize⟩ := h.size
  have hframe : frame env = beBytes data.length ++ data := by
    rw [frame, encode, hdata]
    dsimp only
    rw [if_neg (Nat.not_lt.mpr hsize), List.nil_append]
  have hsrc : frame env ++ more = beBytes data.length ++ (data ++ more) := by
    rw [hframe, List.append_assoc]
  have hannounced : announced (frame env ++ more) = data.length := by
    rw [announced, hsrc, List.take_left' (length_beBytes _), fromBeBytes_beBytes]
    unfold maxFrame at hsize
    omega
  have hbody : (frame env ++ more).drop 4 = data ++ more := by
    rw [hsrc, List.drop_left' (length_beBytes _)]
  have hlength : (frame env ++ more).length = 4 + (data.length + more.length) := by
    rw [hsrc, List.length_append, length_beBytes, List.length_append]
  rw [decode_of_complete ⟨by omega, by omega, by omega⟩, hannounced, hbody, List.take_left,
    List.drop_left, hround env h.plain data hdata]
  rfl

/-- With nothing in the buffer there is nothing to decode yet. -/
theorem idle_nil : frameDecoder.Idle ([] : List UInt8) :=
  rfl

/-- **The round trip of a stream.**  Envelopes that fit are all encoded; however
the stream is cut into chunks, the same envelopes come out of it in order, with
no error and nothing left.  Besides, decoding takes nothing while it waits, and
an encoding that fails appends nothing. -/
theorem frame_stream_round_trip (hround : Serde.RoundTrips ‹Serde›) :
    (∀ envs : List Envelope, (∀ env ∈ envs, Fits env) →
      (∀ env ∈ envs, ∀ dst, (encode env dst).1 = .ok ()) ∧
        ∀ chunks : List (List UInt8), chunks.flatten = encodeAll envs [] →
          frameDecoder.feed [] chunks = ⟨envs, none, []⟩) ∧
    (∀ src rest, decode src = (.ok none, rest) → rest = src) ∧
    (∀ env dst dst' e, encode env dst = (.error e, dst') → dst' = dst) := by
  refine ⟨?_, fun _ _ h => frameDecoder.waits h, fun _ _ _ _ h => encode_of_error h⟩
  intro envs hfits
  constructor
  · intro env henv dst
    rw [encode_of_fits (hfits env henv)]
  · intro chunks hchunks
    rw [encodeAll_eq hfits, List.nil_append] at hchunks
    exact FrameDecoder.feed_frames
      (fun env henv more => decode_frame hround (hfits env henv) more) idle_nil hchunks

/-- Serialisation in the bincode layout; bytes behind an envelope are ignored. -/
@[reducible]
def wireSerde : Serde where
  serialize env := .ok env.encode
  deserialize data :=
    match Envelope.decode.run data with
    | some (env, _) => .ok env
    | none => .error "malformed envelope"

omit [Serde] in
/-- The layout of the wire can be used with the codec: an envelope is read back
from what was written. -/
theorem wireSerde_roundTrips : wireSerde.RoundTrips := by
  intro env hplain data hdata
  obtain rfl : env.encode = data := Except.ok.inj hdata
  have hread := Envelope.reads env hplain []
  rw [List.append_nil] at hread
  show (match Envelope.decode.run env.encode with
    | some (env, _) => Except.ok env
    | none => Except.error "malformed envelope") = Except.ok env
  rw [hread]

omit [Serde] in
/-- Two envelopes that arrive byte by byte come out whole and in order, with
nothing left in the buffer. -/
theorem byte_by_byte :
    (@frameDecoder wireSerde).feed []
        ((@encodeAll wireSerde [reachableHello, reachableHello] []).map fun b => [b]) =
      ⟨[reachableHello, reachableHello], none, []⟩ :=
  ((@frame_stream_round_trip wireSerde wireSerde_roundTrips).1 [reachableHello, reachableHello]
    (by
      intro env henv
      have hhello : env = reachableHello := by simpa using henv
      rw [hhello]
      exact @Fits.mk wireSerde _ reachableHello_plain ⟨_, rfl, by decide +kernel⟩)).2 _
    (by rw [← List.flatMap_def, List.flatMap_singleton'])

end EnvelopeCodec

end Zona
