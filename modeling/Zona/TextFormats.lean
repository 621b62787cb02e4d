import Zona.HexText
import Mathlib.Data.List.Basic
import Mathlib.Tactic.Common

/-!
# Text formats

A `TextFormat` writes values as characters and reads one back from the front of
what follows, and carries the proof that reading undoes writing.  A format is
put together from smaller ones: names and punctuation around a value, one value
after the other, lists, values that may be missing.

The formats of texts, numbers, lists and missing values are those of JSON
without any white space.
-/

/-- The text is an object, from brace to brace. -/
def IsObject (text : String) : Prop :=
  ∃ inner, text.toList = '{' :: (inner ++ ['}'])

/-- What follows a value does not go on like a number. -/
def Separated (rest : List Char) : Prop :=
  ∀ c ∈ rest.head?, c.isDigit = false

/-- A text that goes on with something other than a digit does not prolong a
number that ends before it. -/
theorem separated_cons {c : Char} (h : c.isDigit = false) (rest : List Char) :
    Separated (c :: rest) := by
  intro d hd
  cases hd
  exact h

/-- A format for the values of a type. -/
structure TextFormat (α : Type) where
  write : α → List Char
  read : List Char → Option (α × List Char)
  read_write : ∀ a rest, Separated rest → read (write a ++ rest) = some (a, rest)

namespace TextFormat

variable {α β : Type}

/-- A fixed text at the front is found and taken off, and the rest is what
follows it. -/
theorem dropPrefix?_append (text rest : List Char) :
    (text ++ rest).dropPrefix? text = some rest :=
  List.dropPrefix?_eq_some_iff.mpr ⟨text, rfl, BEq.rfl⟩

/-- All of a text is one value. -/
def readAll (f : TextFormat α) (text : List Char) : Option α :=
  match f.read text with
  | some (a, []) => some a
  | _ => none

/-- What was written is read back, with nothing left over. -/
theorem readAll_write (f : TextFormat α) (a : α) : f.readAll (f.write a) = some a := by
  have hread := f.read_write a [] (by simp [Separated])
  rw [List.append_nil] at hread
  rw [readAll, hread]

/-- A value as a text. -/
def toText (f : TextFormat α) (a : α) : String :=
  String.ofList (f.write a)

/-- The value of a text. -/
def ofText (f : TextFormat α) (text : String) : Except String α :=
  match f.readAll text.toList with
  | some a => .ok a
  | none => .error "unexpected text"

/-- The same for strings: the text of a value is parsed into that value, and no
error is reported. -/
@[simp]
theorem ofText_toText (f : TextFormat α) (a : α) : f.ofText (f.toText a) = .ok a := by
  rw [ofText, toText, String.toList_ofList, readAll_write]

/-- The values of another type, told apart by those of this one. -/
def map (f : TextFormat α) (into : α → β) (back : β → α) (h : ∀ b, into (back b) = b) :
    TextFormat β where
  write b := f.write (back b)
  read text := (f.read text).map fun found => (into found.1, found.2)
  read_write b rest hrest := by
    rw [f.read_write (back b) rest hrest, Option.map_some, h]

/-- A text before the value. -/
def after (text : List Char) (f : TextFormat α) : TextFormat α where
  write a := text ++ f.write a
  read input := (input.dropPrefix? text).bind f.read
  read_write a rest hrest := by
    rw [List.append_assoc, dropPrefix?_append, Option.bind_some, f.read_write a rest hrest]

theorem isDigit_comma : ','.isDigit = false :=
  rfl

theorem isDigit_brace : '}'.isDigit = false :=
  rfl

/-- A character after the value. -/
def upTo (f : TextFormat α) (c : Char) (h : c.isDigit = false) : TextFormat α where
  write a := f.write a ++ [c]
  read input := do
    let (a, rest) ← f.read input
    let rest ← rest.dropPrefix? [c]
    pure (a, rest)
  read_write a rest _ := by
    have hread := f.read_write a (c :: rest) (separated_cons h rest)
    have hnext : (c :: rest).dropPrefix? [c] = some rest := dropPrefix?_append [c] rest
    simp only [List.append_assoc, List.singleton_append, hread, hnext, Option.bind_eq_bind,
      Option.bind_some, Option.pure_def]

/-- One value after the other, with a character between them. -/
def pair (f : TextFormat α) (c : Char) (h : c.isDigit = false) (g : TextFormat β) :
    TextFormat (α × β) where
  write ab := f.write ab.1 ++ c :: g.write ab.2
  read input := do
    let (a, rest) ← f.read input
    let rest ← rest.dropPrefix? [c]
    let (b, rest) ← g.read rest
    pure ((a, b), rest)
  read_write ab rest hrest := by
    have hread := f.read_write ab.1 (c :: (g.write ab.2 ++ rest)) (separated_cons h _)
    have hnext : (c :: (g.write ab.2 ++ rest)).dropPrefix? [c] = some (g.write ab.2 ++ rest) :=
      dropPrefix?_append [c] _
    simp only [List.append_assoc, List.cons_append, hread, hnext, g.read_write _ rest hrest,
      Option.bind_eq_bind, Option.bind_some, Option.pure_def]

/-- A value that may be missing. -/
def nullable (f : TextFormat α)
    (h : ∀ a rest, (f.write a ++ rest).dropPrefix? "null".toList = none) :
    TextFormat (Option α) where
  write
    | none => "null".toList
    | some a => f.write a
  read input :=
    match input.dropPrefix? "null".toList with
    | some rest => some (none, rest)
    | none => (f.read input).map fun found => (some found.1, found.2)
  read_write value rest hrest := by
    cases value with
    | none =>
        dsimp only
        rw [dropPrefix?_append]
    | some a =>
        dsimp only
        rw [h a rest]
        dsimp only
        rw [f.read_write a rest hrest, Option.map_some]

/-- Every value ends in this character. -/
def EndsIn (f : TextFormat α) (c : Char) : Prop :=
  ∀ a, ∃ inner, f.write a = inner ++ [c]

/-- A format that is closed by a character ends in it, so that a number inside
cannot run on into the next field. -/
theorem endsIn_upTo (f : TextFormat α) {c : Char} (h : c.isDigit = false) :
    (f.upTo c h).EndsIn c :=
  fun a => ⟨f.write a, rfl⟩

/-- A text in front changes nothing about the end of a format. -/
theorem EndsIn.after {f : TextFormat α} {c : Char} (h : f.EndsIn c) (text : List Char) :
    (after text f).EndsIn c := by
  intro a
  obtain ⟨inner, hinner⟩ := h a
  refine ⟨text ++ inner, ?_⟩
  dsimp only [TextFormat.after]
  rw [hinner, List.append_assoc]

/-- A pair ends as its second format does, so the fields of a record can be
chained. -/
theorem EndsIn.pair {g : TextFormat β} {c : Char} (h : g.EndsIn c) (f : TextFormat α) {d : Char}
    (hd : d.isDigit = false) : (f.pair d hd g).EndsIn c := by
  intro ab
  obtain ⟨inner, hinner⟩ := h ab.2
  refine ⟨f.write ab.1 ++ d :: inner, ?_⟩
  dsimp only [TextFormat.pair]
  rw [hinner, List.append_assoc, List.cons_append]

/-- What opens and closes with a brace is an object. -/
theorem isObject_after {f : TextFormat α} (h : f.EndsIn '}') (key : List Char) (a : α) :
    IsObject ((after ('{' :: key) f).toText a) := by
  obtain ⟨inner, hinner⟩ := h a
  refine ⟨key ++ inner, ?_⟩
  rw [toText, String.toList_ofList]
  dsimp only [TextFormat.after]
  rw [hinner, List.cons_append, List.append_assoc]

section Lists

variable (f : TextFormat α)

/-- The elements after the first one, and the end of the list. -/
def writeMore : List α → List Char
  | [] => [']']
  | a :: as => ',' :: (f.write a ++ writeMore as)

/-- Read elements until the list or the steps end. -/
def readMore : Nat → List Char → Option (List α × List Char)
  | 0, _ => none
  | steps + 1, input =>
      match input with
      | ']' :: rest => some ([], rest)
      | ',' :: rest => do
          let (a, rest) ← f.read rest
          let (as, rest) ← readMore steps rest
          pure (a :: as, rest)
      | _ => none

/-- The further items of a list begin with a comma or with the closing bracket,
and either ends a number before it. -/
theorem separated_writeMore (as : List α) (rest : List Char) :
    Separated (f.writeMore as ++ rest) := by
  cases as with
  | nil => exact separated_cons rfl _
  | cons a as => exact separated_cons rfl _

/-- The further items of a list are read back, given as many steps as there are
characters.  Every item takes at least its comma. -/
theorem readMore_writeMore (as : List α) (rest : List Char) {steps : Nat}
    (h : (f.writeMore as).length ≤ steps) :
    f.readMore steps (f.writeMore as ++ rest) = some (as, rest) := by
  induction as generalizing steps with
  | nil =>
      obtain ⟨n, rfl⟩ : ∃ n, steps = n + 1 := ⟨steps - 1, by simp [writeMore] at h; omega⟩
      rfl
  | cons a as ih =>
      rw [writeMore, List.length_cons, List.length_append] at h
      obtain ⟨n, rfl⟩ : ∃ n, steps = n + 1 := ⟨steps - 1, by omega⟩
      have hread := f.read_write a (f.writeMore as ++ rest) (f.separated_writeMore as rest)
      rw [writeMore, List.cons_append, List.append_assoc, readMore]
      dsimp only
      rw [hread, Option.bind_eq_bind, Option.bind_some]
      dsimp only
      rw [ih (by omega)]
      rfl

/-- A list of values, none of which begins like the end of a list. -/
def list (h : ∀ a rest, (f.write a ++ rest).dropPrefix? "]".toList = none) :
    TextFormat (List α) where
  write
    | [] => "[]".toList
    | a :: as => '[' :: (f.write a ++ f.writeMore as)
  read input := do
    let inner ← input.dropPrefix? "[".toList
    match inner.dropPrefix? "]".toList with
    | some rest => pure ([], rest)
    | none =>
        let (a, rest) ← f.read inner
        let (as, rest) ← f.readMore input.length rest
        pure (a :: as, rest)
  read_write as rest _ := by
    cases as with
    | nil =>
        have hopen : ("[]".toList ++ rest).dropPrefix? "[".toList = some ("]".toList ++ rest) :=
          dropPrefix?_append ['['] _
        simp only [hopen, dropPrefix?_append, Option.bind_eq_bind, Option.bind_some,
          Option.pure_def]
    | cons a as =>
        have hread := f.read_write a (f.writeMore as ++ rest) (f.separated_writeMore as rest)
        have hmore := @readMore_writeMore α f as rest
          ('[' :: (f.write a ++ f.writeMore as) ++ rest).length (by simp; omega)
        have hopen : ('[' :: (f.write a ++ f.writeMore as) ++ rest).dropPrefix? "[".toList =
            some (f.write a ++ (f.writeMore as ++ rest)) := by
          rw [List.cons_append, List.append_assoc]
          exact dropPrefix?_append ['['] _
        simp only [hopen, h a, hread, hmore, Option.bind_eq_bind, Option.bind_some,
          Option.pure_def]

end Lists

/-- Decimal numbers. -/
def nat : TextFormat Nat where
  write n := Nat.toDigits 10 n
  read input :=
    let digits := input.takeWhile Char.isDigit
    if digits.isEmpty then none
    else some (Nat.ofDigitChars 10 digits 0, input.dropWhile Char.isDigit)
  read_write n rest hrest := by
    have hdigits : ∀ c ∈ Nat.toDigits 10 n, c.isDigit = true := fun c hc =>
      Nat.isDigit_of_mem_toDigits (by omega) (by omega) hc
    have hstop : rest.takeWhile Char.isDigit = [] ∧ rest.dropWhile Char.isDigit = rest := by
      cases rest with
      | nil => exact ⟨rfl, rfl⟩
      | cons c rest => simp [hrest c rfl]
    have htake : (Nat.toDigits 10 n ++ rest).takeWhile Char.isDigit = Nat.toDigits 10 n := by
      rw [List.takeWhile_append_of_pos hdigits, hstop.1, List.append_nil]
    have hdrop : (Nat.toDigits 10 n ++ rest).dropWhile Char.isDigit = rest := by
      rw [List.dropWhile_append_of_pos hdigits, hstop.2]
    have hsome : (Nat.toDigits 10 n).isEmpty = false := by
      simp
    dsimp only
    rw [htake, hdrop, hsome, Nat.ofDigitChars_ten_toDigits]
    rfl

/-- The characters that have an escape of their own. -/
def shortEscapes : List (Char × Char) :=
  [('"', '"'), ('\\', '\\'), ('\x08', 'b'), ('\x0c', 'f'), ('\n', 'n'), ('\r', 'r'), ('\t', 't')]

/-- A character between quotes. -/
def escape (c : Char) : List Char :=
  match shortEscapes.find? fun e => e.1 = c with
  | some e => ['\\', e.2]
  | none =>
      if c.toNat < 32 then ['\\', 'u', '0', '0', Hex.digit (c.toNat / 16), Hex.digit (c.toNat % 16)]
      else [c]

/-- The character of a short escape. -/
def unescape (e : Char) : Option Char :=
  ((('/', '/') :: shortEscapes).find? fun s => s.2 = e).map Prod.fst

/-- The character of four hexadecimal digits. -/
def unicodeChar (a b c d : Char) : Option Char := do
  let n := 4096 * (← Hex.value? a) + 256 * (← Hex.value? b) + 16 * (← Hex.value? c) +
    (← Hex.value? d)
  if n.isValidChar then pure (Char.ofNat n) else none

/-- Read characters up to the closing quote. -/
def readText : List Char → Option (List Char × List Char)
  | [] => none
  | c :: rest =>
      if c = '"' then some ([], rest)
      else if c = '\\' then
        match rest with
        | 'u' :: h₁ :: h₂ :: h₃ :: h₄ :: rest => do
            let c ← unicodeChar h₁ h₂ h₃ h₄
            let (cs, rest) ← readText rest
            pure (c :: cs, rest)
        | e :: rest => do
            let c ← unescape e
            let (cs, rest) ← readText rest
            pure (c :: cs, rest)
        | [] => none
      else do
        let (cs, rest) ← readText rest
        pure (c :: cs, rest)

/-- A short escape is read as its character, and is no Unicode escape. -/
theorem unescape_short : ∀ s ∈ shortEscapes, unescape s.2 = some s.1 ∧ s.2 ≠ 'u' := by
  decide

theorem unicodeChar_digits : ∀ n < 32,
    unicodeChar '0' '0' (Hex.digit (n / 16)) (Hex.digit (n % 16)) = some (Char.ofNat n) := by
  decide

theorem readText_quote (rest : List Char) : readText ('"' :: rest) = some ([], rest) := by
  rw [readText.eq_def]
  exact if_pos rfl

/-- **One character** is read from its escape, whichever form it has: itself, a
short escape, or four hexadecimal digits. -/
theorem readText_escape (c : Char) (rest : List Char) :
    readText (escape c ++ rest) = (readText rest).map fun found => (c :: found.1, found.2) := by
  unfold escape
  cases hshort : shortEscapes.find? fun e => e.1 = c with
  | some e =>
      obtain ⟨hread, hne⟩ := unescape_short e (List.mem_of_find?_eq_some hshort)
      have hchar : e.1 = c := by simpa using List.find?_some hshort
      dsimp only [List.cons_append, List.nil_append]
      rw [readText.eq_def]
      dsimp only
      rw [if_neg (by decide), if_pos rfl]
      split
      · next heq =>
          exact (hne (List.cons.inj heq).1).elim
      · next heq =>
          obtain ⟨rfl, rfl⟩ := List.cons.inj heq
          rw [hread, hchar]
          cases readText rest with
          | none => rfl
          | some found => rfl
      · next heq => cases heq
  | none =>
      dsimp only
      split
      · next hcontrol =>
          dsimp only [List.cons_append, List.nil_append]
          rw [readText.eq_def]
          dsimp only
          rw [if_neg (by decide), if_pos rfl]
          split
          · next heq =>
              cases heq
              rw [unicodeChar_digits c.toNat hcontrol, Char.ofNat_toNat]
              cases readText rest with
              | none => rfl
              | some found => rfl
          · next hother heq =>
              cases heq
              exact (hother _ _ _ _ _ rfl rfl).elim
          · next heq => cases heq
      · have hplain := List.find?_eq_none.mp hshort
        have hquote : c ≠ '"' := by
          intro hc
          exact hplain ('"', '"') (by decide) (by simp [hc])
        have hbackslash : c ≠ '\\' := by
          intro hc
          exact hplain ('\\', '\\') (by decide) (by simp [hc])
        rw [List.singleton_append, readText.eq_def]
        dsimp only
        rw [if_neg hquote, if_neg hbackslash]
        cases readText rest with
        | none => rfl
        | some found => rfl

/-- A text is read back character by character up to the closing quote, which
no escape can be mistaken for. -/
theorem readText_write (cs rest : List Char) :
    readText (cs.flatMap escape ++ '"' :: rest) = some (cs, rest) := by
  induction cs with
  | nil => exact readText_quote rest
  | cons c cs ih =>
      rw [List.flatMap_cons, List.append_assoc, readText_escape, ih]
      rfl

/-- Texts. -/
def text : TextFormat String where
  write s := '"' :: (s.toList.flatMap escape ++ ['"'])
  read input := do
    let inner ← input.dropPrefix? ['"']
    let (cs, rest) ← readText inner
    pure (String.ofList cs, rest)
  read_write s rest _ := by
    have hopen : ('"' :: (s.toList.flatMap escape ++ '"' :: rest)).dropPrefix? ['"'] =
        some (s.toList.flatMap escape ++ '"' :: rest) :=
      dropPrefix?_append ['"'] _
    simp only [List.cons_append, List.append_assoc, List.nil_append, hopen,
      readText_write, String.ofList_toList, Option.bind_eq_bind, Option.bind_some,
      Option.pure_def]

end TextFormat
