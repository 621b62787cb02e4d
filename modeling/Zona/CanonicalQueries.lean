import Mathlib.Data.Multiset.Defs
import Mathlib.Data.Prod.Lex
import Mathlib.Data.String.Basic
import Zona.FormUrlencoding
import Zona.SortedLists

/-!
# Canonical queries

A query string comes as the host sent it.  It is cleaned of white space and of
a question mark, read as pairs, and written again with the pairs in order.

`canonicalQuery_eq` says what this makes of a query, `decodedPairs_canonical`
what is read from the result, and `canonical_normal_form` that the result is a
normal form.
-/

namespace Zona

/-- By name, and then by value. -/
def pairLe (p q : String × String) : Prop :=
  p.1 < q.1 ∨ p.1 = q.1 ∧ p.2 ≤ q.2

instance : DecidableRel pairLe :=
  fun _ _ => inferInstanceAs (Decidable (_ ∨ _))

/-- The comparison of the source, by name and then by value, is the
lexicographic order, which is linear. -/
theorem pairLe_iff (p q : String × String) : pairLe p q ↔ toLex p ≤ toLex q :=
  Prod.Lex.toLex_le_toLex.symm

instance : Std.Total pairLe where
  total p q := by
    rw [pairLe_iff, pairLe_iff]
    exact le_total (toLex p) (toLex q)

instance : IsTrans (String × String) pairLe where
  trans p q r := by
    rw [pairLe_iff, pairLe_iff, pairLe_iff]
    exact le_trans

instance : Std.Antisymm pairLe where
  antisymm p q hpq hqp := by
    rw [pairLe_iff] at hpq hqp
    exact toLex_inj.mp (le_antisymm hpq hqp)

/-- `pairs.sort_by`. -/
def sortPairs (pairs : List (String × String)) : List (String × String) :=
  pairs.insertionSort pairLe

theorem sortPairs_perm (pairs : List (String × String)) : (sortPairs pairs).Perm pairs :=
  List.perm_insertionSort pairLe pairs

/-- After sorting the pairs stand in the order of the source. -/
theorem sortPairs_sorted (pairs : List (String × String)) : (sortPairs pairs).Pairwise pairLe :=
  List.pairwise_insertionSort pairLe pairs

/-- Two lists of pairs are sorted alike exactly if one is a rearrangement of
the other, since equal pairs cannot be told apart. -/
theorem sortPairs_eq_iff {pairs pairs' : List (String × String)} :
    sortPairs pairs = sortPairs pairs' ↔ pairs.Perm pairs' :=
  insertionSort_eq_iff_perm

/-- Sorting gives the empty list only for the empty list, which is the case in
which the source returns nothing. -/
theorem sortPairs_eq_nil_iff {pairs : List (String × String)} :
    sortPairs pairs = [] ↔ pairs = [] := by
  have hlength := (sortPairs_perm pairs).length_eq
  rw [← List.length_eq_zero_iff, hlength, List.length_eq_zero_iff]

/-- `raw.trim()`, then `s.strip_prefix('?').unwrap_or(s).trim()`. -/
def cleanQuery (raw : String) : String :=
  Text.trim (Text.stripChar '?' (Text.trim raw))

variable (codec : FormCodec)

/-- A canonical query, if there are any pairs. -/
def canonicalQuery (raw : Option String) : Option String :=
  match raw with
  | none => none
  | some raw =>
      let s := cleanQuery raw
      if s = "" then none
      else
        let pairs := codec.parse (Utf8.encode s)
        if pairs = [] then none else some (codec.serialize (sortPairs pairs))

/-- What a query reads as, when it is trimmed, rid of one leading question mark
and trimmed again. -/
def decodedPairs (raw : Option String) : List (String × String) :=
  match raw with
  | none => []
  | some raw => codec.parse (Utf8.encode (cleanQuery raw))

variable {codec}

/-- The canonical query in one formula: nothing if no pair is decoded, and
otherwise the sorted pairs in their encoded form. -/
theorem canonicalQuery_eq (h : codec.Lawful) (raw : Option String) :
    canonicalQuery codec raw =
      if decodedPairs codec raw = [] then none
      else some (codec.serialize (sortPairs (decodedPairs codec raw))) := by
  cases raw with
  | none => rfl
  | some s =>
      have hbody : canonicalQuery codec (some s) =
          if cleanQuery s = "" then none
          else if decodedPairs codec (some s) = [] then none
          else some (codec.serialize (sortPairs (decodedPairs codec (some s)))) := rfl
      rw [hbody]
      by_cases hempty : cleanQuery s = ""
      · have hnone : decodedPairs codec (some s) = [] := by
          rw [decodedPairs, hempty]
          exact h.parse_nil
        rw [if_pos hempty, if_pos hnone]
      · rw [if_neg hempty]

/-- What is serialized needs no cleaning: it has no question mark in front and
no blanks around it, so decoding gives the pairs back. -/
theorem decodedPairs_serialize (h : codec.Lawful) (pairs : List (String × String)) :
    decodedPairs codec (some (codec.serialize pairs)) = pairs := by
  have htrim := Text.trim_eq_self (h.not_whitespace pairs)
  have hstrip := Text.stripChar_eq_self (h.not_question_mark pairs)
  rw [decodedPairs, cleanQuery, htrim, hstrip, htrim, h.parse_serialize]

/-- **What is read from the result** is what was read, sorted.  The canonical
form therefore loses nothing but the order, and applying it twice changes
nothing. -/
theorem decodedPairs_canonical (h : codec.Lawful) (raw : Option String) :
    decodedPairs codec (canonicalQuery codec raw) = sortPairs (decodedPairs codec raw) := by
  rw [canonicalQuery_eq h]
  by_cases hnone : decodedPairs codec raw = []
  · rw [if_pos hnone, hnone]
    rfl
  · rw [if_neg hnone, decodedPairs_serialize h]

/-- **The canonical query is a normal form**: two queries have the same one
exactly when they read as the same pairs, counted with repetitions; making it
again changes nothing; and it reads as those pairs in order. -/
theorem canonical_normal_form (h : codec.Lawful) :
    (∀ a b, canonicalQuery codec a = canonicalQuery codec b ↔
        (decodedPairs codec a : Multiset (String × String)) = decodedPairs codec b) ∧
      (∀ a, canonicalQuery codec (canonicalQuery codec a) = canonicalQuery codec a) ∧
      ∀ a, (decodedPairs codec (canonicalQuery codec a)).Pairwise pairLe ∧
        (decodedPairs codec (canonicalQuery codec a)).Perm (decodedPairs codec a) := by
  refine ⟨?_, ?_, ?_⟩
  · intro a b
    rw [Multiset.coe_eq_coe]
    constructor
    · intro heq
      have hsorted := congrArg (decodedPairs codec) heq
      rw [decodedPairs_canonical h, decodedPairs_canonical h] at hsorted
      exact sortPairs_eq_iff.mp hsorted
    · intro hperm
      have hnil : decodedPairs codec a = [] ↔ decodedPairs codec b = [] := by
        rw [← List.length_eq_zero_iff, hperm.length_eq, List.length_eq_zero_iff]
      rw [canonicalQuery_eq h, canonicalQuery_eq h, sortPairs_eq_iff.mpr hperm]
      simp only [hnil]
  · intro a
    have htwice : sortPairs (sortPairs (decodedPairs codec a)) = sortPairs (decodedPairs codec a) :=
      sortPairs_eq_iff.mpr (sortPairs_perm _)
    rw [canonicalQuery_eq h (canonicalQuery codec a), decodedPairs_canonical h, htwice,
      canonicalQuery_eq h a]
    simp only [sortPairs_eq_nil_iff]
  · intro a
    rw [decodedPairs_canonical h]
    exact ⟨sortPairs_sorted _, sortPairs_perm _⟩

/-- Two queries that differ in the order of their pairs. -/
theorem permuted_queries :
    canonicalQuery formUrlencoded (some "b=2&a=1") =
      canonicalQuery formUrlencoded (some "?a=1&b=2") := by
  have hperm : ((decodedPairs formUrlencoded (some "b=2&a=1") : Multiset (String × String)) =
      decodedPairs formUrlencoded (some "?a=1&b=2")) := by
    rw [Multiset.coe_eq_coe]
    decide +kernel
  exact ((canonical_normal_form formUrlencoded_lawful).1 _ _).mpr hperm

variable (codec)

/-- What a query reads as, when it is trimmed and rid of one leading question
mark, and no more. -/
def trimmedOncePairs (raw : Option String) : List (String × String) :=
  match raw with
  | none => []
  | some s => codec.parse (Utf8.encode (Text.stripChar '?' (Text.trim s)))

/-- White space behind the question mark is trimmed too. -/
theorem space_behind_question_mark :
    trimmedOncePairs formUrlencoded (some "? a=1") = [(" a", "1")] ∧
      trimmedOncePairs formUrlencoded (some "a=1") = [("a", "1")] ∧
      formUrlencoded.Lawful ∧
      ¬ ∀ a b, canonicalQuery formUrlencoded a = canonicalQuery formUrlencoded b ↔
        (trimmedOncePairs formUrlencoded a : Multiset (String × String)) =
          trimmedOncePairs formUrlencoded b := by
  have hpairs : trimmedOncePairs formUrlencoded (some "? a=1") = [(" a", "1")] ∧
      trimmedOncePairs formUrlencoded (some "a=1") = [("a", "1")] ∧
      canonicalQuery formUrlencoded (some "? a=1") =
        canonicalQuery formUrlencoded (some "a=1") := by
    decide +kernel
  obtain ⟨hspace, hplain, hsame⟩ := hpairs
  refine ⟨hspace, hplain, formUrlencoded_lawful, ?_⟩
  intro hall
  have hequal := (hall (some "? a=1") (some "a=1")).mp hsame
  rw [hspace, hplain] at hequal
  exact absurd (Multiset.coe_eq_coe.mp hequal) (by decide)

end Zona
