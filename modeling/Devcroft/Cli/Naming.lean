import Devcroft.Config.Naming
import Devcroft.Library.Hex
import Devcroft.Lifecycle.Artifacts
import Devcroft.Lifecycle.StatePaths

/-!
# The name that `init` generates

`init` names a sandbox after the directory of the project, and appends a part of a hash of the
project's path where a sandbox of that name was recorded for another project.
-/

namespace Devcroft.Cli

open Config Lifecycle Utf8

/-- `&s[..n]` for an index of bytes, which panics off the characters' boundaries. -/
def sliceTo (n : ℕ) (s : String) : Option String :=
  if n ≤ s.utf8ByteSize then decode ((encode s).take n) else none

/-- The loop that shortens a base: byte by byte, to at most so many. -/
def shorten (max : ℕ) : ℕ → String → Option String
  | 0, trimmed => some trimmed
  | fuel + 1, trimmed =>
    if max < trimmed.utf8ByteSize then
      (sliceTo (trimmed.utf8ByteSize - 1) trimmed).bind (shorten max fuel)
    else some trimmed

/-- `trim_end_matches` of a hyphen. -/
def trimHyphens (s : String) : String := String.ofList (dropHyphens s.toList)

/-- The suffix that is made of a hash. -/
def suffixOf (hash : UInt64) : String := String.ofList (Hex.pad 6 (hash &&& 0xffffff).toNat)

/-- `disambiguate_name`, or nothing where it panics, with `read_meta` and the hash of a path. -/
def disambiguateName (homeVar : Option String)
    (readMeta : String → Except IoError (Option Meta)) (hash : List UInt8 → UInt64)
    (base : String) (projectRoot : List UInt8) : Option String :=
  match StatePaths.new homeVar base with
  | .error _ => some base
  | .ok paths =>
    match readMeta paths.metaFile with
    | .ok (some recorded) =>
      if recorded.projectRoot = decodeLossy projectRoot then some base
      else
        let suffix := suffixOf (hash projectRoot)
        (shorten (32 - 1 - suffix.utf8ByteSize) base.utf8ByteSize base).map fun trimmed =>
          trimHyphens trimmed ++ "-" ++ suffix
    | _ => some base

/-- A slice of a text of one-byte characters is never off a boundary. -/
theorem sliceTo_of_ascii {s : String} (h : ∀ c ∈ s.toList, c.utf8Size = 1) {n : ℕ}
    (hn : n ≤ s.toList.length) : sliceTo n s = some (String.ofList (s.toList.take n)) := by
  rw [sliceTo, ← encode_length, encode_length_of_ascii h, if_pos hn, take_encode_of_ascii h]
  simp

/-- So the loop comes to its end, with the first characters. The induction is on its turns. -/
theorem shorten_of_ascii {s : String} (h : ∀ c ∈ s.toList, c.utf8Size = 1) {max fuel : ℕ}
    (hfuel : s.toList.length ≤ max + fuel) :
    shorten max fuel s = some (String.ofList (s.toList.take max)) := by
  have hbytes : s.utf8ByteSize = s.toList.length := by
    rw [← encode_length, encode_length_of_ascii h]
  have hdone : s.toList.length ≤ max → String.ofList (s.toList.take max) = s := by
    intro hle
    rw [List.take_of_length_le hle, String.ofList_toList]
  induction fuel generalizing s with
  | zero => rw [shorten, hdone hfuel]
  | succ fuel ih =>
    rw [shorten, hbytes]
    split
    · next hlonger =>
      rw [sliceTo_of_ascii h (by omega), Option.bind_some]
      have hshorter : ∀ c ∈ (String.ofList (s.toList.take (s.toList.length - 1))).toList,
          c.utf8Size = 1 := by
        intro c hc
        rw [String.toList_ofList] at hc
        exact h c (List.take_subset _ _ hc)
      rw [ih hshorter]
      · rw [String.toList_ofList, List.take_take, Nat.min_eq_left (by omega)]
      · rw [String.toList_ofList, List.length_take]
        omega
      · rw [← encode_length, encode_length_of_ascii hshorter]
      · intro hle
        rw [List.take_of_length_le hle, String.ofList_toList]
    · next hshort => rw [hdone (by omega)]

/-- A suffix is six digits of names. -/
theorem suffixOf_spec (hash : UInt64) :
    (suffixOf hash).toList.length = 6 ∧ ∀ c ∈ (suffixOf hash).toList, NameChar c := by
  have hsmall : (hash &&& 0xffffff).toNat < 16 ^ 6 := by
    rw [UInt64.toNat_and]
    exact Nat.lt_of_le_of_lt Nat.and_le_right (by decide)
  rw [suffixOf, String.toList_ofList]
  refine ⟨Hex.length_pad (by decide) hsmall, fun c hc => ?_⟩
  have hdigit : ∀ c ∈ "0123456789abcdef".toList, NameChar c := Text.forall_mem (by decide)
  exact hdigit c (Hex.mem_pad hc)

/-- Without its hyphens at the end a text still has its first character, if that is none. -/
theorem dropHyphens_cons {first : Char} (h : first ≠ '-') (rest : List Char) :
    ∃ rest', dropHyphens (first :: rest) = first :: rest' ∧ rest' <+: rest := by
  obtain ⟨⟨dropped, hdropped⟩, -⟩ := dropHyphens_spec (first :: rest)
  cases hkept : dropHyphens (first :: rest) with
  | nil =>
    have hall : ∀ c ∈ (first :: rest).reverse, c = '-' := by
      have hnone := List.reverse_eq_nil_iff.mp hkept
      simpa using List.dropWhile_eq_nil_iff.mp hnone
    exact absurd (hall first (by simp)) h
  | cons c rest' =>
    rw [hkept, List.cons_append] at hdropped
    obtain ⟨rfl, hrest⟩ := List.cons.inj hdropped
    exact ⟨rest', rfl, dropped, hrest⟩

/-- A shortened name with a suffix is a name. -/
theorem isName_suffixed {base : String} (h : IsName base) (hash : UInt64) :
    IsName (trimHyphens (String.ofList (base.toList.take 25)) ++ "-" ++ suffixOf hash) := by
  obtain ⟨first, rest, hbase, hfirst, -, hchars⟩ := h
  obtain ⟨hlength, hsuffix⟩ := suffixOf_spec hash
  have hne : first ≠ '-' := by
    rintro rfl
    exact absurd hfirst (by decide)
  obtain ⟨rest', hkept, hpiece⟩ := dropHyphens_cons hne (rest.take 24)
  have hle := hpiece.length_le
  rw [List.length_take] at hle
  refine ⟨first, rest' ++ ('-' :: (suffixOf hash).toList), ?_, hfirst, ?_, fun c hc => ?_⟩
  · rw [trimHyphens, hbase, String.toList_ofList, List.take_succ_cons, hkept]
    simp
  · rw [List.length_append, List.length_cons, hlength]
    omega
  · rcases List.mem_append.mp hc with hc | hc
    · exact hchars c (List.take_subset _ _ (hpiece.subset hc))
    · rcases List.mem_cons.mp hc with rfl | hc
      · exact Or.inr rfl
      · exact hsuffix c hc

/-- `disambiguate_name` makes a name of a name, and the same one unless a sandbox of that name was
recorded for another project. -/
theorem disambiguateName_spec {homeVar : Option String}
    {readMeta : String → Except IoError (Option Meta)} {hash : List UInt8 → UInt64} {base : String}
    {projectRoot : List UInt8} (h : IsName base) :
    ∃ name, disambiguateName homeVar readMeta hash base projectRoot = some name ∧ IsName name ∧
      (name ≠ base → ∃ paths recorded, StatePaths.new homeVar base = .ok paths ∧
        readMeta paths.metaFile = .ok (some recorded) ∧
        recorded.projectRoot ≠ decodeLossy projectRoot) := by
  unfold disambiguateName
  split
  · exact ⟨base, rfl, h, fun hne => absurd rfl hne⟩
  next paths hpaths =>
    split
    · next recorded hrecorded =>
      split
      · exact ⟨base, rfl, h, fun hne => absurd rfl hne⟩
      · next hother =>
        have hascii : ∀ c ∈ base.toList, c.utf8Size = 1 :=
          fun c hc => (h.chars c hc).utf8Size
        have hbytes : base.utf8ByteSize = base.toList.length := by
          rw [← encode_length, encode_length_of_ascii hascii]
        have hsuffix := suffixOf_spec (hash projectRoot)
        have hsize : (suffixOf (hash projectRoot)).utf8ByteSize = 6 := by
          rw [← encode_length,
            encode_length_of_ascii fun c hc => (hsuffix.2 c hc).utf8Size, hsuffix.1]
        simp only [hsize]
        rw [shorten_of_ascii hascii (by omega), Option.map_some]
        exact ⟨_, rfl, isName_suffixed h _, fun _ => ⟨paths, recorded, hpaths, hrecorded, hother⟩⟩
    · exact ⟨base, rfl, h, fun hne => absurd rfl hne⟩

/-- What `init` relies on: every text is made a valid name, a name that has no hyphen at its end or
two in a row is left as it is, and so is what was made; and where that is recorded for another
project, a valid name is made of it, without a panic. -/
structure NamesValid (homeVar : Option String)
    (readMeta : String → Except IoError (Option Meta)) (hash : List UInt8 → UInt64)
    (projectRoot : List UInt8) : Prop where
  valid : ∀ d, isValidName (slugify d) = true
  again : ∀ d, slugify (slugify d) = slugify d
  kept : ∀ name, isValidName name = true → Text.endsWith "-" name = false →
    ¬"--".toList <:+: name.toList → slugify name = name
  disambiguated : ∀ d, ∃ name,
    disambiguateName homeVar readMeta hash (slugify d) projectRoot = some name ∧
      isValidName name = true ∧
      (name ≠ slugify d → ∃ paths recorded, StatePaths.new homeVar (slugify d) = .ok paths ∧
        readMeta paths.metaFile = .ok (some recorded) ∧
        recorded.projectRoot ≠ decodeLossy projectRoot)

/-- Generated names are always valid, whatever is recorded and whatever the hash. -/
theorem generatedName_valid (homeVar : Option String)
    (readMeta : String → Except IoError (Option Meta)) (hash : List UInt8 → UInt64)
    (projectRoot : List UInt8) : NamesValid homeVar readMeta hash projectRoot := by
  constructor
  · intro d
    exact isValidName_iff.mpr (isSlug_slugify d).isName
  · intro d
    exact (isSlug_slugify d).slugify_eq
  · intro name hvalid hlast hdouble
    exact (isSlug_of_isName (isValidName_iff.mp hvalid) hlast hdouble).slugify_eq
  · intro d
    obtain ⟨name, hname, hvalid, hother⟩ := disambiguateName_spec (isSlug_slugify d).isName
    exact ⟨name, hname, isValidName_iff.mpr hvalid, hother⟩

end Devcroft.Cli
