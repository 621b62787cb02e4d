import Mathlib.Data.List.DropRight
import Mathlib.Tactic.Common

/-!
# Trimmed text

`trim` takes the white space off both ends of a text.  Trimming again changes
nothing (`trim_trim`), and neither does trimming a text without any white space
(`trim_eq_self`).  `toAsciiLowercase` and `toAsciiUppercase` change the case of
the English letters alone.
-/

namespace Text

/-- `char::is_whitespace`: the property White_Space. -/
def isWhitespace (c : Char) : Bool :=
  let n := c.toNat
  (9 ≤ n && n ≤ 13) || n = 0x20 || n = 0x85 || n = 0xA0 || n = 0x1680 ||
    (0x2000 ≤ n && n ≤ 0x200A) || n = 0x2028 || n = 0x2029 || n = 0x202F || n = 0x205F ||
      n = 0x3000

/-- A list without the matching elements at its two ends. -/
def trimList {α : Type} (p : α → Bool) (l : List α) : List α :=
  (l.dropWhile p).rdropWhile p

/-- `str::trim`. -/
def trim (s : String) : String :=
  String.ofList (trimList isWhitespace s.toList)

/-- `str::to_ascii_lowercase`. -/
def toAsciiLowercase (s : String) : String :=
  String.ofList (s.toList.map Char.toLower)

/-- `str::to_ascii_uppercase`. -/
def toAsciiUppercase (s : String) : String :=
  String.ofList (s.toList.map Char.toUpper)

/-- `s.strip_prefix(c).unwrap_or(s)`. -/
def stripChar (c : Char) (s : String) : String :=
  match s.toList with
  | d :: rest => if d = c then String.ofList rest else s
  | [] => s

/-- The text before the first occurrence of a character, or all of it. -/
def untilChar (c : Char) (s : String) : String :=
  String.ofList (s.toList.takeWhile (· ≠ c))

variable {α : Type} {p : α → Bool}

/-- What is left does not begin with a matching element. -/
theorem dropWhile_rdropWhile (l : List α) :
    ((l.dropWhile p).rdropWhile p).dropWhile p = (l.dropWhile p).rdropWhile p := by
  obtain ⟨suffix, hsuffix⟩ := List.rdropWhile_prefix p (l := l.dropWhile p)
  cases hleft : (l.dropWhile p).rdropWhile p with
  | nil => rfl
  | cons a rest =>
      rw [hleft] at hsuffix
      have hfirst : p a = false := by
        have hdropped := List.head?_dropWhile_not p l
        rw [← hsuffix] at hdropped
        simpa using hdropped
      rw [List.dropWhile_cons_of_neg (by simp [hfirst])]

/-- Trimming twice is trimming once, since neither end of a trimmed list can be
dropped. -/
theorem trimList_trimList (l : List α) : trimList p (trimList p l) = trimList p l := by
  unfold trimList
  rw [dropWhile_rdropWhile, List.rdropWhile_idempotent]

/-- Trimming leaves alone what does not match, at both ends and in the middle. -/
theorem trimList_eq_self {l : List α} (h : ∀ a ∈ l, p a = false) : trimList p l = l := by
  have hfront : l.dropWhile p = l := by
    cases l with
    | nil => rfl
    | cons a rest => rw [List.dropWhile_cons_of_neg (by simp [h a List.mem_cons_self])]
  rw [trimList, hfront, List.rdropWhile_eq_self_iff]
  intro hne
  simp [h _ (List.getLast_mem hne)]

/-- Trimming a text twice is trimming it once, which is what the source does to
a query without a question mark. -/
@[simp]
theorem trim_trim (s : String) : trim (trim s) = trim s := by
  simp only [trim, String.toList_ofList, trimList_trimList]

/-- A text without white space is not changed by trimming. -/
theorem trim_eq_self {s : String} (h : ∀ c ∈ s.toList, isWhitespace c = false) : trim s = s := by
  rw [trim, trimList_eq_self h, String.ofList_toList]

/-- A text that does not begin with the character is left as it is. -/
theorem stripChar_eq_self {c : Char} {s : String} (h : c ∉ s.toList) : stripChar c s = s := by
  unfold stripChar
  cases hs : s.toList with
  | nil => rfl
  | cons d rest =>
      rw [hs, List.mem_cons, not_or] at h
      exact if_neg fun heq => h.1 heq.symm

end Text
