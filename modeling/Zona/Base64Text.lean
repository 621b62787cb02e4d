import Mathlib.Data.List.Basic

/-!
# Base64 text

Bytes as text in the standard alphabet, three bytes to four characters, the
last group padded.  The decoder wants the padding, and no bits that stand for
nothing, so it reads each byte string from one text only: decoding undoes
encoding (`decode_encode`) and encoding undoes decoding (`encode_of_decode`).
-/

namespace Base64

/-- The character of a value below sixty-four. -/
def digit (n : Nat) : Char :=
  if n < 26 then Char.ofNat (65 + n)
  else if n < 52 then Char.ofNat (71 + n)
  else if n < 62 then Char.ofNat (n - 4)
  else if n = 62 then '+'
  else '/'

/-- The value of a character of the alphabet. -/
def value? (c : Char) : Option Nat :=
  if 'A' ≤ c ∧ c ≤ 'Z' then some (c.toNat - 65)
  else if 'a' ≤ c ∧ c ≤ 'z' then some (c.toNat - 71)
  else if '0' ≤ c ∧ c ≤ '9' then some (c.toNat + 4)
  else if c = '+' then some 62
  else if c = '/' then some 63
  else none

def encodeChars : List UInt8 → List Char
  | [] => []
  | [a] => [digit (a.toNat / 4), digit (a.toNat % 4 * 16), '=', '=']
  | [a, b] =>
      [digit (a.toNat / 4), digit (a.toNat % 4 * 16 + b.toNat / 16), digit (b.toNat % 16 * 4), '=']
  | a :: b :: c :: rest =>
      digit (a.toNat / 4) :: digit (a.toNat % 4 * 16 + b.toNat / 16) ::
        digit (b.toNat % 16 * 4 + c.toNat / 64) :: digit (c.toNat % 64) :: encodeChars rest

/-- `B64.encode`. -/
def encode (bs : List UInt8) : String :=
  String.ofList (encodeChars bs)

/-- A byte from its upper and its lower bits. -/
def byte (upper lower : Nat) : UInt8 :=
  UInt8.ofNat (upper + lower)

/-- The bytes of a padded group. -/
def decodeLast (c₁ c₂ c₃ : Char) : Option (List UInt8) := do
  let v₁ ← value? c₁
  let v₂ ← value? c₂
  if c₃ = '=' then
    if v₂ % 16 = 0 then pure [byte (v₁ * 4) (v₂ / 16)] else none
  else
    let v₃ ← value? c₃
    if v₃ % 4 = 0 then pure [byte (v₁ * 4) (v₂ / 16), byte (v₂ % 16 * 16) (v₃ / 4)] else none

def decodeChars : List Char → Option (List UInt8)
  | [] => some []
  | c₁ :: c₂ :: c₃ :: c₄ :: rest =>
      if c₄ = '=' then
        if rest.isEmpty then decodeLast c₁ c₂ c₃ else none
      else do
        let v₁ ← value? c₁
        let v₂ ← value? c₂
        let v₃ ← value? c₃
        let v₄ ← value? c₄
        let bs ← decodeChars rest
        pure (byte (v₁ * 4) (v₂ / 16) :: byte (v₂ % 16 * 16) (v₃ / 4) ::
          byte (v₃ % 4 * 64) v₄ :: bs)
  | _ => none

/-- `B64.decode`, with its errors forgotten. -/
def decode (s : String) : Option (List UInt8) :=
  decodeChars s.toList

/-- Each of the 64 digits has its own value, which is its place in the
alphabet. -/
theorem value?_digit : ∀ n < 64, value? (digit n) = some n := by
  decide

/-- The padding character is none of the digits, so a decoder can tell a full
group from the last one. -/
theorem digit_ne_pad : ∀ n < 64, digit n ≠ '=' := by
  decide

/-- A character of the alphabet is the one of its value. -/
theorem digit_of_value? {c : Char} {n : Nat} (h : value? c = some n) : n < 64 ∧ digit n = c := by
  have hbounds : ∀ lo hi : Char, lo ≤ c ∧ c ≤ hi → lo.toNat ≤ c.toNat ∧ c.toNat ≤ hi.toNat := by
    intro lo hi hc
    exact ⟨hc.1, hc.2⟩
  unfold value? at h
  split at h
  · next hupper =>
      have hc := hbounds 'A' 'Z' hupper
      have hn : c.toNat - 65 = n := Option.some.inj h
      have hlo : 'A'.toNat = 65 := rfl
      have hhi : 'Z'.toNat = 90 := rfl
      refine ⟨by omega, ?_⟩
      rw [digit, if_pos (by omega), show 65 + n = c.toNat by omega, Char.ofNat_toNat]
  · split at h
    · next hlower =>
        have hc := hbounds 'a' 'z' hlower
        have hn : c.toNat - 71 = n := Option.some.inj h
        have hlo : 'a'.toNat = 97 := rfl
        have hhi : 'z'.toNat = 122 := rfl
        refine ⟨by omega, ?_⟩
        rw [digit, if_neg (by omega), if_pos (by omega), show 71 + n = c.toNat by omega,
          Char.ofNat_toNat]
    · split at h
      · next hdecimal =>
          have hc := hbounds '0' '9' hdecimal
          have hn : c.toNat + 4 = n := Option.some.inj h
          have hlo : '0'.toNat = 48 := rfl
          have hhi : '9'.toNat = 57 := rfl
          refine ⟨by omega, ?_⟩
          rw [digit, if_neg (by omega), if_neg (by omega), if_pos (by omega),
            show n - 4 = c.toNat by omega, Char.ofNat_toNat]
      · split at h
        · next hplus =>
            cases h
            exact ⟨by decide, hplus.symm⟩
        · split at h
          · next hslash =>
              cases h
              exact ⟨by decide, hslash.symm⟩
          · cases h

/-- A byte is its upper and its lower bits. -/
theorem byte_split (a : UInt8) {upper lower : Nat} (h : upper + lower = a.toNat) :
    byte upper lower = a := by
  rw [byte, h]
  exact UInt8.ofNat_toNat

/-- A byte put together from two parts of its bits has the sum of the parts as
its value. -/
theorem toNat_byte {upper lower : Nat} (h : upper + lower < 256) :
    (byte upper lower).toNat = upper + lower := by
  rw [byte, UInt8.toNat_ofNat']
  exact Nat.mod_eq_of_lt h

/-- Groups of three bytes are read back from groups of four characters, and the
last, shorter group from its padded form. -/
theorem decodeChars_encodeChars : ∀ bs : List UInt8, decodeChars (encodeChars bs) = some bs
  | [] => rfl
  | [a] => by
      have ha := a.toNat_lt
      have h₁ := value?_digit (a.toNat / 4) (by omega)
      have h₂ := value?_digit (a.toNat % 4 * 16) (by omega)
      have hbyte : byte (a.toNat / 4 * 4) (a.toNat % 4 * 16 / 16) = a := byte_split a (by omega)
      have hclear : a.toNat % 4 * 16 % 16 = 0 := by omega
      simp only [encodeChars, decodeChars, decodeLast, h₁, h₂, hbyte, hclear, List.isEmpty_nil,
        if_true, Option.bind_eq_bind, Option.bind_some, Option.pure_def]
  | [a, b] => by
      have ha := a.toNat_lt
      have hb := b.toNat_lt
      have h₁ := value?_digit (a.toNat / 4) (by omega)
      have h₂ := value?_digit (a.toNat % 4 * 16 + b.toNat / 16) (by omega)
      have h₃ := value?_digit (b.toNat % 16 * 4) (by omega)
      have hpad := digit_ne_pad (b.toNat % 16 * 4) (by omega)
      have hfirst : byte (a.toNat / 4 * 4) ((a.toNat % 4 * 16 + b.toNat / 16) / 16) = a :=
        byte_split a (by omega)
      have hsecond : byte ((a.toNat % 4 * 16 + b.toNat / 16) % 16 * 16)
          (b.toNat % 16 * 4 / 4) = b :=
        byte_split b (by omega)
      have hclear : b.toNat % 16 * 4 % 4 = 0 := by omega
      simp only [encodeChars, decodeChars, decodeLast, h₁, h₂, h₃, if_neg hpad, hfirst, hsecond,
        hclear, List.isEmpty_nil, if_true, Option.bind_eq_bind, Option.bind_some, Option.pure_def]
  | a :: b :: c :: rest => by
      have ih := decodeChars_encodeChars rest
      have ha := a.toNat_lt
      have hb := b.toNat_lt
      have hc := c.toNat_lt
      have h₁ := value?_digit (a.toNat / 4) (by omega)
      have h₂ := value?_digit (a.toNat % 4 * 16 + b.toNat / 16) (by omega)
      have h₃ := value?_digit (b.toNat % 16 * 4 + c.toNat / 64) (by omega)
      have h₄ := value?_digit (c.toNat % 64) (by omega)
      have hpad := digit_ne_pad (c.toNat % 64) (by omega)
      have hfirst : byte (a.toNat / 4 * 4) ((a.toNat % 4 * 16 + b.toNat / 16) / 16) = a :=
        byte_split a (by omega)
      have hsecond : byte ((a.toNat % 4 * 16 + b.toNat / 16) % 16 * 16)
          ((b.toNat % 16 * 4 + c.toNat / 64) / 4) = b :=
        byte_split b (by omega)
      have hthird : byte ((b.toNat % 16 * 4 + c.toNat / 64) % 4 * 64) (c.toNat % 64) = c :=
        byte_split c (by omega)
      simp only [encodeChars, decodeChars, if_neg hpad, h₁, h₂, h₃, h₄, ih, hfirst, hsecond,
        hthird, Option.bind_eq_bind, Option.bind_some, Option.pure_def]

/-- **Bytes survive** the way to text and back: each group of three is four
characters, and the last group is padded to that length. -/
@[simp]
theorem decode_encode (bs : List UInt8) : decode (encode bs) = some bs := by
  simp [decode, encode, decodeChars_encodeChars]

/-- A padded group is only accepted in the form in which it is written: its
unused bits must be zero. -/
theorem encodeChars_decodeLast {c₁ c₂ c₃ : Char} {bs : List UInt8}
    (h : decodeLast c₁ c₂ c₃ = some bs) : encodeChars bs = [c₁, c₂, c₃, '='] := by
  unfold decodeLast at h
  obtain ⟨v₁, h₁, h⟩ := Option.bind_eq_some_iff.mp h
  obtain ⟨v₂, h₂, h⟩ := Option.bind_eq_some_iff.mp h
  obtain ⟨hlt₁, hd₁⟩ := digit_of_value? h₁
  obtain ⟨hlt₂, hd₂⟩ := digit_of_value? h₂
  have hfirst : (byte (v₁ * 4) (v₂ / 16)).toNat = v₁ * 4 + v₂ / 16 := toNat_byte (by omega)
  split at h
  · next hpad =>
      split at h
      · next hclear =>
          cases h
          rw [encodeChars, hfirst, show (v₁ * 4 + v₂ / 16) / 4 = v₁ by omega,
            show (v₁ * 4 + v₂ / 16) % 4 * 16 = v₂ by omega, hd₁, hd₂, hpad]
      · cases h
  · obtain ⟨v₃, h₃, h⟩ := Option.bind_eq_some_iff.mp h
    obtain ⟨hlt₃, hd₃⟩ := digit_of_value? h₃
    split at h
    · next hclear =>
        cases h
        have hsecond : (byte (v₂ % 16 * 16) (v₃ / 4)).toNat = v₂ % 16 * 16 + v₃ / 4 :=
          toNat_byte (by omega)
        rw [encodeChars, hfirst, hsecond, show (v₁ * 4 + v₂ / 16) / 4 = v₁ by omega,
          show (v₁ * 4 + v₂ / 16) % 4 * 16 + (v₂ % 16 * 16 + v₃ / 4) / 16 = v₂ by omega,
          show (v₂ % 16 * 16 + v₃ / 4) % 16 * 4 = v₃ by omega, hd₁, hd₂, hd₃]
    · cases h

/-- The characters that were decoded are those of the result, group by group,
so no two texts decode alike. -/
theorem encodeChars_of_decodeChars : ∀ {cs : List Char} {bs : List UInt8},
    decodeChars cs = some bs → encodeChars bs = cs
  | [], bs, h => by
      cases h
      rfl
  | [_], bs, h => by cases h
  | [_, _], bs, h => by cases h
  | [_, _, _], bs, h => by cases h
  | c₁ :: c₂ :: c₃ :: c₄ :: rest, bs, h => by
      rw [decodeChars] at h
      split at h
      · next hpad =>
          split at h
          · next hend =>
              rw [List.isEmpty_iff.mp hend, hpad]
              exact encodeChars_decodeLast h
          · cases h
      · obtain ⟨v₁, h₁, h⟩ := Option.bind_eq_some_iff.mp h
        obtain ⟨v₂, h₂, h⟩ := Option.bind_eq_some_iff.mp h
        obtain ⟨v₃, h₃, h⟩ := Option.bind_eq_some_iff.mp h
        obtain ⟨v₄, h₄, h⟩ := Option.bind_eq_some_iff.mp h
        obtain ⟨tail, hrest, h⟩ := Option.bind_eq_some_iff.mp h
        have ih := encodeChars_of_decodeChars hrest
        obtain ⟨hlt₁, hd₁⟩ := digit_of_value? h₁
        obtain ⟨hlt₂, hd₂⟩ := digit_of_value? h₂
        obtain ⟨hlt₃, hd₃⟩ := digit_of_value? h₃
        obtain ⟨hlt₄, hd₄⟩ := digit_of_value? h₄
        have hfirst : (byte (v₁ * 4) (v₂ / 16)).toNat = v₁ * 4 + v₂ / 16 := toNat_byte (by omega)
        have hsecond : (byte (v₂ % 16 * 16) (v₃ / 4)).toNat = v₂ % 16 * 16 + v₃ / 4 :=
          toNat_byte (by omega)
        have hthird : (byte (v₃ % 4 * 64) v₄).toNat = v₃ % 4 * 64 + v₄ := toNat_byte (by omega)
        cases h
        rw [encodeChars, ih, hfirst, hsecond, hthird, show (v₁ * 4 + v₂ / 16) / 4 = v₁ by omega,
          show (v₁ * 4 + v₂ / 16) % 4 * 16 + (v₂ % 16 * 16 + v₃ / 4) / 16 = v₂ by omega,
          show (v₂ % 16 * 16 + v₃ / 4) % 16 * 4 + (v₃ % 4 * 64 + v₄) / 64 = v₃ by omega,
          show (v₃ % 4 * 64 + v₄) % 64 = v₄ by omega, hd₁, hd₂, hd₃, hd₄]

/-- **Only encodings are decoded.**  A text that the decoder accepts is the
encoding of what it stands for. -/
theorem encode_of_decode {s : String} {bs : List UInt8} (h : decode s = some bs) :
    encode bs = s := by
  rw [encode, encodeChars_of_decodeChars h, String.ofList_toList]

/-- A text that leaves bits over. -/
example : encode [0x66, 0x6F] = "Zm8=" ∧ decode "Zm9=" = none ∧ decode "Zm8" = none := by
  decide

end Base64
