import Zona.HashMaps
import Zona.HexText
import Zona.TrimmedText

/-!
# Zone tables

A name server reads a map from domains to node identifiers.  It normalises the
domains, drops what is not an identifier, and moves the entries to a new map,
each under its normalised domain.

Entries whose domains normalise alike do not meet: the one that is moved last
replaces the others.  `lossless_iff` says which maps lose nothing by it, in
whatever order they are iterated.
-/

namespace Zona

namespace Dns

abbrev ZoneTable := HashMap String (List String)

def normalizeDomain (s : String) : String :=
  Text.toAsciiLowercase (Text.trim s)

/-- One listed identifier, where it is kept: 64 bytes of text that decode to 32
bytes. -/
def zoneId (h : String) : Option String :=
  let h := Text.trim h
  if h.utf8ByteSize ≠ 64 then none
  else if ((Hex.decode h).filter fun b => b.length = 32).isSome then
    some (Text.toAsciiLowercase h)
  else none

/-- The identifiers kept of one entry. -/
def zoneIds (v : List String) : List String :=
  v.filterMap zoneId

/-- `load_zones`, after the file is decoded. -/
def loadZones (loaded : HashMap String (List String)) : ZoneTable :=
  loaded.entries.foldl (fun out e => out.put (normalizeDomain e.1) (zoneIds e.2)) ∅

structure DnsLookupResponse where
  domain : String
  nodes : List String
  deriving DecidableEq

def lookup (zones : ZoneTable) (domain : String) : DnsLookupResponse :=
  let dom := normalizeDomain domain
  { domain := dom, nodes := (AList.lookup dom zones).getD [] }

/-- 64 hexadecimal digits. -/
def IsHexId (s : String) : Prop :=
  s.toList.length = 64 ∧ ∀ c ∈ s.toList, (Hex.value? c).isSome = true

instance (s : String) : Decidable (IsHexId s) :=
  have : Decidable (∀ c ∈ s.toList, (Hex.value? c).isSome = true) :=
    List.decidableBAll (fun c => (Hex.value? c).isSome = true) s.toList
  inferInstanceAs (Decidable (_ ∧ _))

/-- The identifier is the lower-case form of a listed one. -/
def Listed (v : List String) (id : String) : Prop :=
  ∃ h ∈ v, IsHexId (Text.trim h) ∧ id = Text.toAsciiLowercase (Text.trim h)

/-- A digit is one byte of text, so counting characters of an identifier is
counting bytes, as the source does. -/
theorem utf8Size_of_value? {c : Char} (h : (Hex.value? c).isSome = true) : c.utf8Size = 1 := by
  have hascii : c.toNat ≤ 127 := by
    by_contra hlarge
    have hdigit : ¬ c ≤ '9' ∧ ¬ c ≤ 'f' ∧ ¬ c ≤ 'F' := by
      simp only [Char.le_def, UInt32.le_iff_toNat_le]
      change ¬ c.toNat ≤ 57 ∧ ¬ c.toNat ≤ 102 ∧ ¬ c.toNat ≤ 70
      omega
    simp [Hex.value?, hdigit] at h
  rw [Char.utf8Size_eq_one_iff, UInt32.le_iff_toNat_le]
  exact hascii

/-- A text of hexadecimal digits has as many bytes as characters. -/
theorem utf8ByteSize_of_digits {s : String} (h : ∀ c ∈ s.toList, (Hex.value? c).isSome = true) :
    s.utf8ByteSize = s.toList.length := by
  have hsum : ∀ cs : List Char, (∀ c ∈ cs, (Hex.value? c).isSome = true) →
      (String.ofList cs).utf8ByteSize = cs.length := by
    intro cs
    induction cs with
    | nil => intro _; rfl
    | cons c cs ih =>
        intro hdigits
        obtain ⟨hc, hcs⟩ := List.forall_mem_cons.mp hdigits
        have hsplit : String.ofList (c :: cs) = String.singleton c ++ String.ofList cs := by
          rw [← String.toList_inj]
          simp
        rw [hsplit, String.utf8ByteSize_append, ih hcs, String.utf8ByteSize_singleton,
          utf8Size_of_value? hc, List.length_cons, Nat.add_comm]
  have hall := hsum s.toList h
  rwa [String.ofList_toList] at hall

theorem zoneId_eq_some {h id : String} :
    zoneId h = some id ↔ IsHexId (Text.trim h) ∧ id = Text.toAsciiLowercase (Text.trim h) := by
  unfold zoneId
  generalize Text.trim h = t
  dsimp only
  constructor
  · intro hkept
    by_cases hsize : t.utf8ByteSize ≠ 64
    · rw [if_pos hsize] at hkept
      cases hkept
    · rw [if_neg hsize] at hkept
      by_cases hdecodes : ((Hex.decode t).filter fun b => b.length = 32).isSome = true
      · rw [if_pos hdecodes] at hkept
        obtain ⟨bytes, hbytes⟩ := Option.isSome_iff_exists.mp hdecodes
        obtain ⟨hdecode, hlength⟩ := Option.filter_eq_some_iff.mp hbytes
        have hchars := Hex.length_of_decodeChars hdecode
        have hdigits := (Hex.decodeChars_isSome_iff.mp (Option.isSome_of_eq_some hdecode)).2
        have hbytesLength := of_decide_eq_true hlength
        cases hkept
        exact ⟨⟨by omega, hdigits⟩, rfl⟩
      · rw [if_neg hdecodes] at hkept
        cases hkept
  · intro hkept
    obtain ⟨⟨hlength, hdigits⟩, hid⟩ := hkept
    have hsize : t.utf8ByteSize = 64 := (utf8ByteSize_of_digits hdigits).trans hlength
    have hdecodes : (Hex.decodeChars t.toList).isSome = true :=
      Hex.decodeChars_isSome_iff.mpr ⟨by omega, hdigits⟩
    obtain ⟨bytes, hbytes⟩ := Option.isSome_iff_exists.mp hdecodes
    have hchars := Hex.length_of_decodeChars hbytes
    have hdecode : Hex.decode t = some bytes := hbytes
    have hbytesLength : bytes.length = 32 := by omega
    rw [if_neg (by simp [hsize]), hdecode, hid]
    simp [hbytesLength]

/-- What is kept of the list of a zone: its entries that are identifiers, after
trimming. -/
theorem mem_zoneIds {v : List String} {id : String} : id ∈ zoneIds v ↔ Listed v id := by
  rw [zoneIds, List.mem_filterMap]
  simp only [zoneId_eq_some]
  rfl

/-- A domain with no entry has no nodes, and one with entries has the
identifiers of one of them. -/
theorem nodes_lookup (loaded : HashMap String (List String)) (d : String) :
    ((∀ k v, AList.lookup k loaded = some v → normalizeDomain k ≠ normalizeDomain d) ∧
        (lookup (loadZones loaded) d).nodes = []) ∨
      ∃ k v, AList.lookup k loaded = some v ∧ normalizeDomain k = normalizeDomain d ∧
        (lookup (loadZones loaded) d).nodes = zoneIds v := by
  unfold lookup loadZones
  dsimp only
  rw [HashMap.lookup_foldl_put]
  cases hfind : loaded.entries.reverse.find? fun e =>
      normalizeDomain e.1 = normalizeDomain d with
  | none =>
      refine Or.inl ⟨?_, rfl⟩
      intro k v hentry heq
      have hnone := List.find?_eq_none.mp hfind ⟨k, v⟩
        (List.mem_reverse.mpr (HashMap.lookup_eq_some.mp hentry))
      exact hnone (decide_eq_true heq)
  | some e =>
      have hsame : normalizeDomain e.1 = normalizeDomain d := by
        simpa using List.find?_some hfind
      have hentry := List.mem_reverse.mp (List.mem_of_find?_eq_some hfind)
      exact Or.inr ⟨e.1, e.2, HashMap.lookup_eq_some.mpr hentry, hsame, rfl⟩

/-- Entries that come last in the iteration keep their place. -/
theorem nodes_lookup_of_last {loaded : HashMap String (List String)}
    {es : List (Sigma fun _ : String => List String)} {k : String} {v : List String}
    (h : loaded.entries = es ++ [⟨k, v⟩]) : (lookup (loadZones loaded) k).nodes = zoneIds v := by
  unfold lookup loadZones
  dsimp only
  rw [HashMap.lookup_foldl_put, h, List.reverse_append, List.reverse_singleton,
    List.singleton_append, List.find?_cons_of_pos (by simp)]
  rfl

/-- Nothing is lost and nothing is added, in any order of iteration: under every
domain stands what is listed under the keys that normalise to it. -/
def Lossless (loaded : HashMap String (List String)) : Prop :=
  ∀ order : HashMap String (List String), order.entries.Perm loaded.entries →
    ∀ d id, id ∈ (lookup (loadZones order) d).nodes ↔
      ∃ k v, AList.lookup k loaded = some v ∧ normalizeDomain k = normalizeDomain d ∧ Listed v id

/-- The entry can be iterated last, since a map may be iterated in any order.
Its list then overwrites those of colliding names. -/
theorem exists_order_last {loaded : HashMap String (List String)} {k : String} {v : List String}
    (h : AList.lookup k loaded = some v) :
    ∃ order : HashMap String (List String), order.entries.Perm loaded.entries ∧
      ∃ es, order.entries = es ++ [⟨k, v⟩] := by
  obtain ⟨front, back, hsplit⟩ := List.append_of_mem (HashMap.lookup_eq_some.mp h)
  have hperm : loaded.entries.Perm (front ++ back ++ [⟨k, v⟩]) := by
    rw [hsplit, List.append_assoc]
    exact List.Perm.append_left front (List.perm_append_singleton _ back).symm
  exact ⟨⟨front ++ back ++ [⟨k, v⟩], (List.perm_nodupKeys hperm).mp loaded.nodupKeys⟩, hperm.symm,
    front ++ back, rfl⟩

/-- **Zones load without loss**, whatever the order, exactly when all keys that
normalise to one domain list the same identifiers. -/
theorem lossless_iff (loaded : HashMap String (List String)) :
    Lossless loaded ↔
      ∀ k v k' v', AList.lookup k loaded = some v → AList.lookup k' loaded = some v' →
        normalizeDomain k = normalizeDomain k' → ∀ id, Listed v id ↔ Listed v' id := by
  constructor
  · intro hlossless
    have hincluded : ∀ k v k' v', AList.lookup k loaded = some v →
        AList.lookup k' loaded = some v' → normalizeDomain k = normalizeDomain k' →
          ∀ id, Listed v' id → Listed v id := by
      intro k v k' v' hk hk' hsame id hid
      obtain ⟨order, hperm, es, hlast⟩ := exists_order_last hk
      have hloaded := (hlossless order hperm k id).mpr ⟨k', v', hk', hsame.symm, hid⟩
      rw [nodes_lookup_of_last hlast] at hloaded
      exact mem_zoneIds.mp hloaded
    intro k v k' v' hk hk' hsame id
    exact ⟨hincluded k' v' k v hk' hk hsame.symm id, hincluded k v k' v' hk hk' hsame id⟩
  · intro hagree order hperm d id
    have hentries : ∀ k v, AList.lookup k order = some v ↔ AList.lookup k loaded = some v := by
      intro k v
      rw [HashMap.lookup_eq_some, HashMap.lookup_eq_some, hperm.mem_iff]
    rcases nodes_lookup order d with ⟨hnone, hnodes⟩ | ⟨k, v, hentry, hsame, hnodes⟩
    · rw [hnodes]
      constructor
      · intro hin
        cases hin
      · intro hgiven
        obtain ⟨k, v, hentry, hsame, -⟩ := hgiven
        exact absurd hsame (hnone k v ((hentries k v).mpr hentry))
    · have hloaded := (hentries k v).mp hentry
      rw [hnodes, mem_zoneIds]
      constructor
      · intro hid
        exact ⟨k, v, hloaded, hsame, hid⟩
      · intro hgiven
        obtain ⟨k', v', hentry', hsame', hid⟩ := hgiven
        exact (hagree k v k' v' hloaded hentry' (hsame.trans hsame'.symm) id).mpr hid

/-- An identifier of 64 equal digits. -/
def digitId (c : Char) : String :=
  String.ofList (List.replicate 64 c)

/-- Two spellings of one domain, each with an identifier of its own. -/
def twoSpellings : HashMap String (List String) where
  entries := [⟨"shop.zona", [digitId '1']⟩, ⟨"Shop.zona", [digitId '2']⟩]
  nodupKeys := by
    unfold List.NodupKeys
    decide

/-- The identifier of the first spelling is lost. -/
theorem spelling_lost :
    (lookup (loadZones twoSpellings) "shop.zona").nodes = [digitId '2'] ∧
      ¬ ∀ loaded, Lossless loaded := by
  have hnodes : (lookup (loadZones twoSpellings) "shop.zona").nodes = [digitId '2'] := by
    decide +kernel
  refine ⟨hnodes, ?_⟩
  intro hlossless
  have hlisted : Listed [digitId '1'] (digitId '1') :=
    ⟨digitId '1', List.mem_singleton_self _, by decide +kernel, by decide +kernel⟩
  have hlookup : AList.lookup "shop.zona" twoSpellings = some [digitId '1'] :=
    HashMap.lookup_eq_some.mpr List.mem_cons_self
  have hkept := (hlossless twoSpellings twoSpellings (List.Perm.refl _) "shop.zona"
    (digitId '1')).mpr ⟨"shop.zona", [digitId '1'], hlookup, rfl, hlisted⟩
  rw [hnodes, List.mem_singleton] at hkept
  exact absurd hkept (by decide)

end Dns

end Zona
