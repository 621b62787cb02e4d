import Zona.TrimmedText
import Zona.Utf8Text

/-!
# Form-urlencoded text

A `FormCodec` reads pairs of texts from bytes and appends pairs to a text.  It
is `Lawful` if what was appended is read back and contains neither white space
nor a question mark.

`formUrlencoded` is the codec `application/x-www-form-urlencoded`: pairs are
separated by `&`, a name ends at the first `=`, `+` is a space and `%XX` a byte.
`formUrlencoded_lawful` says that it is lawful.
-/

/-- A parser and a serializer of lists of pairs. -/
structure FormCodec where
  parse : List UInt8 → List (String × String)
  /-- The text with one pair more. -/
  appendPair : String → String × String → String

namespace FormCodec

/-- Append the pairs to an empty text. -/
def serialize (codec : FormCodec) (pairs : List (String × String)) : String :=
  pairs.foldl codec.appendPair ""

/-- The parser undoes the serializer, which emits neither white space nor a
question mark. -/
structure Lawful (codec : FormCodec) : Prop where
  parse_serialize : ∀ pairs, codec.parse (Utf8.encode (codec.serialize pairs)) = pairs
  not_whitespace : ∀ pairs, ∀ c ∈ (codec.serialize pairs).toList, Text.isWhitespace c = false
  not_question_mark : ∀ pairs, '?' ∉ (codec.serialize pairs).toList

/-- No bytes, no pairs.  This follows from the law on serialized pairs for the
empty list. -/
theorem Lawful.parse_nil {codec : FormCodec} (h : codec.Lawful) : codec.parse [] = [] :=
  h.parse_serialize []

end FormCodec

namespace FormUrlencoded

/-- The bytes that stand for themselves: letters, digits and `*-._`. -/
def isUnchanged (b : UInt8) : Bool :=
  b = 0x2A || b = 0x2D || b = 0x2E || (0x30 ≤ b && b ≤ 0x39) || (0x41 ≤ b && b ≤ 0x5A) ||
    b = 0x5F || (0x61 ≤ b && b ≤ 0x7A)

/-- The upper-case digit of a value below sixteen. -/
def hexDigit (n : Nat) : UInt8 :=
  UInt8.ofNat (if n < 10 then 48 + n else 55 + n)

/-- The value of a digit of either case. -/
def hexValue? (b : UInt8) : Option Nat :=
  if 0x30 ≤ b ∧ b ≤ 0x39 then some (b.toNat - 48)
  else if 0x41 ≤ b ∧ b ≤ 0x46 then some (b.toNat - 55)
  else if 0x61 ≤ b ∧ b ≤ 0x66 then some (b.toNat - 87)
  else none

def serializeByte (b : UInt8) : List UInt8 :=
  if isUnchanged b then [b]
  else if b = 0x20 then [0x2B]
  else [0x25, hexDigit (b.toNat / 16), hexDigit (b.toNat % 16)]

def plusToSpace (b : UInt8) : UInt8 :=
  if b = 0x2B then 0x20 else b

/-- A percent sign that no two digits follow stands for itself. -/
def percentDecode : List UInt8 → List UInt8
  | [] => []
  | [b] => [b]
  | [b, c] => [b, c]
  | b :: hi :: lo :: rest =>
      if b = 0x25 then
        match hexValue? hi, hexValue? lo with
        | some h, some l => UInt8.ofNat (16 * h + l) :: percentDecode rest
        | _, _ => b :: percentDecode (hi :: lo :: rest)
      else b :: percentDecode (hi :: lo :: rest)

def decodeBytes (bs : List UInt8) : List UInt8 :=
  percentDecode (bs.map plusToSpace)

/-- A byte other than the percent sign stands for itself. -/
theorem percentDecode_cons_of_ne {b : UInt8} (h : b ≠ 0x25) (rest : List UInt8) :
    percentDecode (b :: rest) = b :: percentDecode rest := by
  match rest with
  | [] => rfl
  | [_] => rfl
  | _ :: _ :: _ => rw [percentDecode, if_neg h]

/-- A percent sign with two hexadecimal digits stands for the byte that they
name. -/
theorem percentDecode_escape {hi lo : UInt8} {h l : Nat} (hhi : hexValue? hi = some h)
    (hlo : hexValue? lo = some l) (rest : List UInt8) :
    percentDecode (0x25 :: hi :: lo :: rest) = UInt8.ofNat (16 * h + l) :: percentDecode rest := by
  rw [percentDecode, if_pos rfl, hhi, hlo]

/-- Digits are read back, and are not plus signs. -/
theorem hexDigit_read : ∀ n < 16, hexValue? (hexDigit n) = some n ∧
    plusToSpace (hexDigit n) = hexDigit n := by
  decide

/-- What a fact about all values below 256 says of a byte. -/
theorem forall_byte {P : UInt8 → Prop} (h : ∀ n < 256, P (UInt8.ofNat n)) (b : UInt8) : P b := by
  simpa using h b.toNat b.toNat_lt

/-- A byte that is written as it is does not mean anything else to the reader:
it is neither a percent sign nor a plus. -/
theorem unchanged_read : ∀ b : UInt8, isUnchanged b = true → b ≠ 0x25 ∧ plusToSpace b = b := by
  have hall : ∀ n < 256, isUnchanged (UInt8.ofNat n) = true →
      UInt8.ofNat n ≠ 0x25 ∧ plusToSpace (UInt8.ofNat n) = UInt8.ofNat n := by
    decide +kernel
  exact forall_byte hall

/-- **One byte** is read back, whether it was written as it is, as a plus for a
blank, or as an escape. -/
theorem decodeBytes_serializeByte (b : UInt8) (rest : List UInt8) :
    decodeBytes (serializeByte b ++ rest) = b :: decodeBytes rest := by
  unfold decodeBytes serializeByte
  by_cases hsame : isUnchanged b = true
  · obtain ⟨hne, hplus⟩ := unchanged_read b hsame
    rw [if_pos hsame, List.singleton_append, List.map_cons, hplus, percentDecode_cons_of_ne hne]
  · rw [if_neg hsame]
    by_cases hspace : b = 0x20
    · rw [if_pos hspace, List.singleton_append, List.map_cons, hspace]
      exact percentDecode_cons_of_ne (by decide) _
    · have hlt := b.toNat_lt
      obtain ⟨hhi, hhiPlus⟩ := hexDigit_read (b.toNat / 16) (by omega)
      obtain ⟨hlo, hloPlus⟩ := hexDigit_read (b.toNat % 16) (by omega)
      have hpercent : plusToSpace 0x25 = 0x25 := by decide
      have hbyte : UInt8.ofNat (16 * (b.toNat / 16) + b.toNat % 16) = b := by
        rw [Nat.div_add_mod]
        exact UInt8.ofNat_toNat
      rw [if_neg hspace]
      simp only [List.cons_append, List.nil_append, List.map_cons, hpercent, hhiPlus, hloPlus]
      rw [percentDecode_escape hhi hlo, hbyte]

/-- Bytes are read back one after the other, as no encoded byte can run on into
the next. -/
theorem decodeBytes_serialize (bs : List UInt8) :
    decodeBytes (bs.flatMap serializeByte) = bs := by
  induction bs with
  | nil => rfl
  | cons b bs ih => rw [List.flatMap_cons, decodeBytes_serializeByte, ih]

/-- What is emitted is ASCII, and neither a separator nor white space nor a
question mark. -/
theorem serializeByte_plain : ∀ b : UInt8, ∀ x ∈ serializeByte b,
    x < 0x80 ∧ x ≠ 0x26 ∧ x ≠ 0x3D ∧ Text.isWhitespace (Char.ofNat x.toNat) = false ∧
      Char.ofNat x.toNat ≠ '?' := by
  have hall : ∀ n < 256, (serializeByte (UInt8.ofNat n)).all (fun x =>
      x < 0x80 ∧ x ≠ 0x26 ∧ x ≠ 0x3D ∧ Text.isWhitespace (Char.ofNat x.toNat) = false ∧
        Char.ofNat x.toNat ≠ '?') = true := by
    decide +kernel
  intro b x hx
  have hbyte := forall_byte (P := fun b => (serializeByte b).all _ = true) hall b
  rw [List.all_eq_true] at hbyte
  exact of_decide_eq_true (hbyte x hx)

/-- ASCII bytes as text. -/
def asciiText (bs : List UInt8) : String :=
  String.ofList (bs.map fun b => Char.ofNat b.toNat)

/-- The bytes of two texts in a row are those of the first and then those of
the second. -/
theorem encode_append (s t : String) :
    Utf8.encode (s ++ t) = Utf8.encode s ++ Utf8.encode t := by
  simp [Utf8.encode, Utf8.encodeChars]

/-- Bytes below 128 are their own encoding, so text that was made of them is
read byte by byte. -/
theorem encode_asciiText {bs : List UInt8} (h : ∀ x ∈ bs, x < 0x80) :
    Utf8.encode (asciiText bs) = bs := by
  have hchar : ∀ n < 256, UInt8.ofNat n < 0x80 →
      String.utf8EncodeChar (Char.ofNat (UInt8.ofNat n).toNat) = [UInt8.ofNat n] := by
    decide +kernel
  have hbyte : ∀ b : UInt8, b < 0x80 → String.utf8EncodeChar (Char.ofNat b.toNat) = [b] :=
    forall_byte hchar
  rw [asciiText, Utf8.encode, String.toList_ofList, Utf8.encodeChars]
  induction bs with
  | nil => rfl
  | cons b bs ih =>
      obtain ⟨hb, hbs⟩ := List.forall_mem_cons.mp h
      rw [List.map_cons, List.flatMap_cons, hbyte b hb, ih hbs]
      rfl

/-- One side of a pair. -/
def byteSerialize (s : String) : List UInt8 :=
  (Utf8.encode s).flatMap serializeByte

/-- Encoded bytes contain no separator, no blank and no question mark, so a
reader cannot split or trim inside a name or a value. -/
theorem byteSerialize_plain {s : String} {x : UInt8} (h : x ∈ byteSerialize s) :
    x < 0x80 ∧ x ≠ 0x26 ∧ x ≠ 0x3D ∧ Text.isWhitespace (Char.ofNat x.toNat) = false ∧
      Char.ofNat x.toNat ≠ '?' := by
  obtain ⟨b, -, hx⟩ := List.mem_flatMap.mp h
  exact serializeByte_plain b x hx

def decode (bs : List UInt8) : String :=
  Utf8.ofBytesLossy (decodeBytes bs)

/-- A name or a value is read back from its encoded bytes, as the bytes decode
to the UTF-8 of the same text. -/
theorem decode_byteSerialize (s : String) : decode (byteSerialize s) = s := by
  rw [decode, byteSerialize, decodeBytes_serialize, Utf8.ofBytesLossy_encode]

/-- A name, and what follows the first `=`. -/
def parsePair (bs : List UInt8) : String × String :=
  (decode (bs.takeWhile (· ≠ 0x3D)), decode (bs.dropWhile (· ≠ 0x3D)).tail)

/-- Empty sequences are skipped. -/
def parse (bs : List UInt8) : List (String × String) :=
  ((bs.splitOn 0x26).filter fun part => part ≠ []).map parsePair

/-- The bytes of a pair. -/
def pairBytes (pair : String × String) : List UInt8 :=
  byteSerialize pair.1 ++ 0x3D :: byteSerialize pair.2

/-- A separator is appended unless the text is empty. -/
def appendPair (target : String) (pair : String × String) : String :=
  let target := if target = "" then target else target ++ "&"
  target ++ asciiText (byteSerialize pair.1) ++ "=" ++ asciiText (byteSerialize pair.2)

/-- An ampersand between two byte strings separates their pairs. -/
theorem parse_append (bs more : List UInt8) :
    parse (bs ++ 0x26 :: more) = parse bs ++ parse more := by
  rw [parse, List.splitOn_append_cons_of_beq bs more (by decide), List.filter_append,
    List.map_append]
  rfl

/-- One pair is read back, since its equals sign is the first one in its bytes. -/
theorem parsePair_pairBytes (pair : String × String) : parsePair (pairBytes pair) = pair := by
  have hname : ∀ x ∈ byteSerialize pair.1, decide (x ≠ 0x3D) = true := by
    intro x hx
    exact decide_eq_true (byteSerialize_plain hx).2.2.1
  rw [parsePair, pairBytes, List.takeWhile_append_of_pos hname, List.dropWhile_append_of_pos hname,
    List.takeWhile_cons_of_neg (by simp), List.dropWhile_cons_of_neg (by simp), List.append_nil,
    List.tail_cons, decode_byteSerialize, decode_byteSerialize]

/-- The bytes of one pair parse into that pair alone. -/
theorem parse_pairBytes (pair : String × String) : parse (pairBytes pair) = [pair] := by
  have hwhole : 0x26 ∉ pairBytes pair := by
    intro hmem
    rcases List.mem_append.mp hmem with hname | hvalue
    · exact (byteSerialize_plain hname).2.1 rfl
    · rcases List.mem_cons.mp hvalue with hequals | hvalue
      · exact absurd hequals (by decide)
      · exact (byteSerialize_plain hvalue).2.1 rfl
  have hsome : pairBytes pair ≠ [] := by
    simp [pairBytes]
  rw [parse, List.splitOn_eq_singleton hwhole, List.filter_cons_of_pos (by simp [hsome]),
    List.filter_nil, List.map_singleton, parsePair_pairBytes]

/-- **One appended pair** is read after what was there, whether the target was
empty or had to be followed by an ampersand. -/
theorem parse_appendPair (target : String) (pair : String × String) :
    parse (Utf8.encode (appendPair target pair)) = parse (Utf8.encode target) ++ [pair] := by
  have hascii : ∀ s, Utf8.encode (asciiText (byteSerialize s)) = byteSerialize s :=
    fun s => encode_asciiText fun x hx => (byteSerialize_plain hx).1
  have hpair : ∀ front : String,
      Utf8.encode (front ++ asciiText (byteSerialize pair.1) ++ "=" ++
        asciiText (byteSerialize pair.2)) = Utf8.encode front ++ pairBytes pair := by
    intro front
    have hequals : Utf8.encode "=" = [0x3D] := by decide +kernel
    simp only [encode_append, hascii, hequals, pairBytes, List.append_assoc,
      List.singleton_append]
  unfold appendPair
  dsimp only
  rw [hpair]
  by_cases hempty : target = ""
  · rw [if_pos hempty, hempty]
    exact parse_pairBytes pair
  · have hampersand : Utf8.encode "&" = [0x26] := by decide +kernel
    rw [if_neg hempty, encode_append, hampersand, List.append_assoc, List.singleton_append,
      parse_append, parse_pairBytes]

end FormUrlencoded

/-- The codec `application/x-www-form-urlencoded`. -/
def formUrlencoded : FormCodec where
  parse := FormUrlencoded.parse
  appendPair := FormUrlencoded.appendPair

namespace FormUrlencoded

/-- Pairs that are appended to a target are parsed after those of the target,
in the order in which they were appended. -/
theorem parse_foldl_appendPair (pairs : List (String × String)) (target : String) :
    parse (Utf8.encode (pairs.foldl appendPair target)) = parse (Utf8.encode target) ++ pairs := by
  induction pairs generalizing target with
  | nil => simp
  | cons pair pairs ih =>
      rw [List.foldl_cons, ih, parse_appendPair, List.append_assoc, List.singleton_append]

/-- The characters of a serialization, if all characters of the text before it
have the property. -/
theorem forall_foldl_appendPair {P : Char → Prop} (hseparators : P '&' ∧ P '=')
    (hplain : ∀ s, ∀ x ∈ byteSerialize s, P (Char.ofNat x.toNat)) (pairs : List (String × String))
    (target : String) (h : ∀ c ∈ target.toList, P c) :
    ∀ c ∈ (pairs.foldl appendPair target).toList, P c := by
  induction pairs generalizing target with
  | nil => exact h
  | cons pair pairs ih =>
      have hside : ∀ s, ∀ c ∈ (asciiText (byteSerialize s)).toList, P c := by
        intro s c hc
        rw [asciiText, String.toList_ofList] at hc
        obtain ⟨x, hx, rfl⟩ := List.mem_map.mp hc
        exact hplain s x hx
      have hfront : ∀ c ∈ (if target = "" then target else target ++ "&").toList, P c := by
        intro c hc
        by_cases hempty : target = ""
        · rw [if_pos hempty] at hc
          exact h c hc
        · rw [if_neg hempty, String.toList_append, List.mem_append] at hc
          rcases hc with hc | hc
          · exact h c hc
          · rw [List.mem_singleton.mp hc]
            exact hseparators.1
      rw [List.foldl_cons]
      apply ih
      intro c hc
      unfold appendPair at hc
      simp only [String.toList_append, List.mem_append] at hc
      rcases hc with ((hc | hc) | hc) | hc
      · exact hfront c hc
      · exact hside pair.1 c hc
      · rw [List.mem_singleton.mp hc]
        exact hseparators.2
      · exact hside pair.2 c hc

end FormUrlencoded

/-- The codec of the standard meets the law that the canonical form relies on:
what was serialized is parsed back. -/
theorem formUrlencoded_lawful : formUrlencoded.Lawful where
  parse_serialize pairs := FormUrlencoded.parse_foldl_appendPair pairs ""
  not_whitespace pairs :=
    FormUrlencoded.forall_foldl_appendPair (P := fun c => Text.isWhitespace c = false)
      (by decide) (fun _ _ hx => (FormUrlencoded.byteSerialize_plain hx).2.2.2.1) pairs "" (by simp)
  not_question_mark pairs hmem :=
    FormUrlencoded.forall_foldl_appendPair (P := fun c => c ≠ '?') (by decide)
      (fun _ _ hx => (FormUrlencoded.byteSerialize_plain hx).2.2.2.2) pairs "" (by simp) '?' hmem rfl
