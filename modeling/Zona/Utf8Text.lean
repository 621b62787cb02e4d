import Mathlib.Data.List.Basic

/-!
# Bytes and UTF-8 text

`encode` gives the bytes of a text; `ofBytesLossy` turns any bytes into text
and puts the replacement character where no character can be read.  One
replacement stands for the longest start that could still begin a character,
or for a single byte.

`ofBytesLossy_encode`: text survives.  `encode_ofBytesLossy_iff`: nothing else
does.
-/

namespace Utf8

/-- The bytes of a list of characters. -/
def encodeChars (cs : List Char) : List UInt8 :=
  cs.flatMap String.utf8EncodeChar

/-- `text.as_bytes()`. -/
def encode (text : String) : List UInt8 :=
  encodeChars text.toList

/-- The character that the bytes begin with. -/
def decodeChar? (bs : List UInt8) : Option Char :=
  bs.toByteArray.utf8DecodeChar? 0

/-- A continuation byte. -/
def isContinuation (b : UInt8) : Bool :=
  0x80 ≤ b && b ≤ 0xBF

/-- The second byte may follow the first one in a character of three or four
bytes. -/
def mayFollow (lead second : UInt8) : Bool :=
  if lead = 0xE0 then 0xA0 ≤ second && second ≤ 0xBF
  else if lead = 0xED then 0x80 ≤ second && second ≤ 0x9F
  else if lead = 0xF0 then 0x90 ≤ second && second ≤ 0xBF
  else if lead = 0xF4 then 0x80 ≤ second && second ≤ 0x8F
  else 0xE1 ≤ lead && lead ≤ 0xF3 && isContinuation second

/-- How many bytes one replacement stands for, where no character begins. -/
def brokenLength : List UInt8 → Nat
  | lead :: second :: third :: _ =>
      if mayFollow lead second then
        if 0xF0 ≤ lead && isContinuation third then 3 else 2
      else 1
  | [lead, second] => if mayFollow lead second then 2 else 1
  | _ => 1

/-- Read characters until the bytes or the steps are used up. -/
def lossyChars : Nat → List UInt8 → List Char
  | 0, _ => []
  | _ + 1, [] => []
  | steps + 1, b :: rest =>
      match decodeChar? (b :: rest) with
      | some c => c :: lossyChars steps ((b :: rest).drop c.utf8Size)
      | none => '\uFFFD' :: lossyChars steps ((b :: rest).drop (brokenLength (b :: rest)))

/-- `String::from_utf8_lossy`. -/
def ofBytesLossy (bs : List UInt8) : String :=
  String.ofList (lossyChars bs.length bs)

/-- The bytes are the bytes of some text. -/
def IsText (bs : List UInt8) : Prop :=
  ∃ text, encode text = bs

/-- A broken sequence takes at least one byte, so the conversion always moves
on. -/
theorem brokenLength_pos (bs : List UInt8) : 0 < brokenLength bs := by
  unfold brokenLength
  split
  · split
    · split
      · omega
      · omega
    · omega
  · split
    · omega
    · omega
  · omega

/-- As many steps as bytes are enough: every step reads at least one byte. -/
theorem lossyChars_of_le {steps : Nat} {bs : List UInt8} (h : bs.length ≤ steps) :
    lossyChars steps bs = lossyChars bs.length bs := by
  have hall : ∀ n, ∀ bs : List UInt8, bs.length ≤ n → ∀ m, bs.length ≤ m →
      lossyChars n bs = lossyChars m bs := by
    intro n
    induction n with
    | zero =>
        intro bs hn m _
        have hnil : bs = [] := List.length_eq_zero_iff.mp (by omega)
        subst hnil
        cases m with
        | zero => rfl
        | succ m => rfl
    | succ n ih =>
        intro bs hn m hm
        cases bs with
        | nil =>
            cases m with
            | zero => rfl
            | succ m => rfl
        | cons b rest =>
            cases m with
            | zero =>
                simp at hm
            | succ m =>
                have hshort : ∀ k, 0 < k → ((b :: rest).drop k).length ≤ n ∧
                    ((b :: rest).drop k).length ≤ m := by
                  intro k hk
                  rw [List.length_drop, List.length_cons] at *
                  omega
                unfold lossyChars
                cases decodeChar? (b :: rest) with
                | some c =>
                    obtain ⟨hleft, hright⟩ := hshort c.utf8Size c.utf8Size_pos
                    dsimp only
                    rw [ih _ hleft m hright]
                | none =>
                    obtain ⟨hleft, hright⟩ := hshort _ (brokenLength_pos (b :: rest))
                    dsimp only
                    rw [ih _ hleft m hright]
  exact hall steps bs h bs.length (Nat.le_refl _)

theorem decodeChar?_encode (c : Char) (rest : List UInt8) :
    decodeChar? (String.utf8EncodeChar c ++ rest) = some c := by
  rw [decodeChar?, List.toByteArray_append]
  exact ByteArray.utf8DecodeChar?_utf8EncodeChar_append

/-- Characters that were encoded are read back one by one, and no replacement
character is put in. -/
theorem lossyChars_encodeChars (cs : List Char) :
    lossyChars (encodeChars cs).length (encodeChars cs) = cs := by
  induction cs with
  | nil => rfl
  | cons c cs ih =>
      have hsplit : encodeChars (c :: cs) = String.utf8EncodeChar c ++ encodeChars cs := rfl
      have hsize : (String.utf8EncodeChar c).length = c.utf8Size := String.length_utf8EncodeChar c
      have hpos := c.utf8Size_pos
      have hread := decodeChar?_encode c (encodeChars cs)
      have hrest : (String.utf8EncodeChar c ++ encodeChars cs).drop c.utf8Size =
          encodeChars cs := by
        rw [← hsize]
        exact List.drop_left
      cases hbytes : String.utf8EncodeChar c ++ encodeChars cs with
      | nil =>
          have hlen := congrArg List.length hbytes
          rw [List.length_append, hsize, List.length_nil] at hlen
          omega
      | cons b rest =>
          rw [hbytes] at hread hrest
          have hlen := congrArg List.length hbytes
          rw [List.length_append, hsize, List.length_cons] at hlen
          rw [hsplit, hbytes, List.length_cons, lossyChars, hread]
          dsimp only
          rw [hrest, lossyChars_of_le (by omega), ih]

/-- **Text survives** the way to bytes and back, as its bytes are valid UTF-8
and nothing is replaced. -/
@[simp]
theorem ofBytesLossy_encode (text : String) : ofBytesLossy (encode text) = text := by
  rw [ofBytesLossy, encode, lossyChars_encodeChars, String.ofList_toList]

/-- **Only text survives** the way to text and back: any other bytes come back
with a replacement character in them. -/
theorem encode_ofBytesLossy_iff {bs : List UInt8} : encode (ofBytesLossy bs) = bs ↔ IsText bs := by
  constructor
  · intro h
    exact ⟨ofBytesLossy bs, h⟩
  · intro ⟨text, h⟩
    rw [← h, ofBytesLossy_encode]

instance (bs : List UInt8) : Decidable (IsText bs) :=
  decidable_of_iff _ encode_ofBytesLossy_iff

/-- A byte that begins no character, alone and cut off. -/
example : (ofBytesLossy [0x41, 0xFF, 0xF0, 0x9F, 0x92, 0x41]).toList =
    ['A', '\uFFFD', '\uFFFD', 'A'] := by
  decide +kernel

end Utf8
