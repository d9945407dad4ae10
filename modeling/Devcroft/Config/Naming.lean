import Devcroft.Config.Parse
import Devcroft.Library.Utf8
import Mathlib.Data.List.Chain
import Mathlib.Data.List.Infix

/-!
# Names of sandboxes

What `is_valid_name` accepts, and that `slugify` makes such a name of every text and changes none
that is one already.
-/

namespace Devcroft.Config

open Utf8

/-- A character within a name. -/
def NameChar (c : Char) : Prop := isNameChar c = true ∨ c = '-'

instance (c : Char) : Decidable (NameChar c) := by
  unfold NameChar
  infer_instance

/-- A name of the form `[a-z0-9][a-z0-9-]{0,31}`. -/
def IsName (name : String) : Prop :=
  ∃ first rest, name.toList = first :: rest ∧ isNameChar first = true ∧ rest.length ≤ 31 ∧
    ∀ c ∈ rest, NameChar c

theorem isNameChar_iff {c : Char} :
    isNameChar c = true ↔ 'a' ≤ c ∧ c ≤ 'z' ∨ '0' ≤ c ∧ c ≤ '9' := by
  simp [isNameChar]

/-- The characters of names are one byte long. -/
theorem NameChar.utf8Size {c : Char} (h : NameChar c) : c.utf8Size = 1 := by
  rw [Char.utf8Size_eq_one_iff]
  rcases h with h | rfl
  · rcases isNameChar_iff.mp h with h | h
    · exact UInt32.le_trans h.2 (by decide)
    · exact UInt32.le_trans h.2 (by decide)
  · decide

/-- The characters of a name are characters of names. -/
theorem IsName.chars {name : String} (h : IsName name) : ∀ c ∈ name.toList, NameChar c := by
  obtain ⟨first, rest, hname, hfirst, -, hchars⟩ := h
  rw [hname]
  exact List.forall_mem_cons.mpr ⟨Or.inl hfirst, hchars⟩

/-- `is_valid_name` accepts just the names. -/
theorem isValidName_iff {name : String} : isValidName name = true ↔ IsName name := by
  unfold isValidName IsName
  constructor
  · intro h
    split at h
    · cases h
    next hlength =>
      rw [not_or] at hlength
      split at h
      · cases h
      · next first rest hname =>
        rw [Bool.and_eq_true, List.all_eq_true] at h
        have hchars : ∀ c ∈ name.toList, NameChar c := by
          intro c hc
          simpa [NameChar] using h.2 c hc
        have hbytes := encode_length_of_ascii fun c hc => (hchars c hc).utf8Size
        rw [encode_length, hname, List.length_cons] at hbytes
        have hmax := hlength.2
        rw [MAX_LEN] at hmax
        refine ⟨first, rest, hname, h.1, by omega, fun c hc => ?_⟩
        exact hchars c (hname ▸ List.mem_cons_of_mem _ hc)
  · rintro ⟨first, rest, hname, hfirst, hrest, hchars⟩
    have hall : ∀ c ∈ name.toList, NameChar c :=
      IsName.chars ⟨first, rest, hname, hfirst, hrest, hchars⟩
    have hbytes := encode_length_of_ascii fun c hc => (hall c hc).utf8Size
    rw [encode_length, hname, List.length_cons] at hbytes
    have hne : name ≠ "" := by
      rintro rfl
      cases hname
    rw [if_neg (by rw [not_or, MAX_LEN]; exact ⟨hne, by omega⟩), hname]
    simp only [Bool.and_eq_true, List.all_eq_true]
    refine ⟨hfirst, fun c hc => ?_⟩
    have := hall c (hname ▸ hc)
    simpa [NameChar] using this

section Slugs

/-- What the loop of `slugify` builds: characters of names, the first no hyphen, and no two hyphens
in a row. -/
structure SlugLike (slug : List Char) : Prop where
  chars : ∀ c ∈ slug, NameChar c
  head : ∀ c ∈ slug.head?, isNameChar c = true
  single : slug.IsChain fun a b => a ≠ '-' ∨ b ≠ '-'

/-- The first characters of such a slug are one. -/
theorem SlugLike.take {slug piece : List Char} (h : SlugLike slug) (hpiece : piece <+: slug) :
    SlugLike piece := by
  obtain ⟨rest, rfl⟩ := hpiece
  refine ⟨fun c hc => h.chars c (List.mem_append_left _ hc), fun c hc => ?_,
    (List.isChain_append.mp h.single).1⟩
  cases piece with
  | nil => cases hc
  | cons first piece => exact h.head c hc

theorem SlugLike.push {slug : List Char} (h : SlugLike slug) {c : Char} (hc : isNameChar c = true) :
    SlugLike (slug ++ [c]) := by
  have hne : c ≠ '-' := by
    rintro rfl
    exact absurd hc (by decide)
  refine ⟨?_, ?_, ?_⟩
  · intro a ha
    rcases List.mem_append.mp ha with ha | ha
    · exact h.chars a ha
    · exact Or.inl (List.mem_singleton.mp ha ▸ hc)
  · intro a ha
    cases slug with
    | nil => exact Option.some.inj ha ▸ hc
    | cons first slug => exact h.head a ha
  · refine List.isChain_append.mpr ⟨h.single, by simp, ?_⟩
    intro a _ b hb
    exact Or.inr (Option.some.inj hb ▸ hne)

theorem SlugLike.pushHyphen {slug : List Char} (h : SlugLike slug)
    (hlast : slug.getLast? ≠ some '-') (hne : slug ≠ []) : SlugLike (slug ++ ['-']) := by
  refine ⟨?_, ?_, ?_⟩
  · intro a ha
    rcases List.mem_append.mp ha with ha | ha
    · exact h.chars a ha
    · exact Or.inr (List.mem_singleton.mp ha)
  · intro a ha
    cases slug with
    | nil => exact absurd rfl hne
    | cons first slug => exact h.head a ha
  · refine List.isChain_append.mpr ⟨h.single, by simp, ?_⟩
    intro a ha b _
    left
    rintro rfl
    exact hlast ha

/-- The loop keeps this. The induction is on the text, the slug so far being any. -/
theorem slugLike_slugLoop {slug : List Char} (h : SlugLike slug) (text : List Char) :
    SlugLike (slugLoop slug text) := by
  induction text generalizing slug with
  | nil => exact h
  | cons c text ih =>
    unfold slugLoop
    simp only
    generalize (if 'A' ≤ c ∧ c ≤ 'Z' then Char.ofNat (c.toNat + 32) else c) = lower
    split
    · next hlower => exact ih (h.push hlower)
    · split
      · next hhyphen => exact ih (h.pushHyphen hhyphen.1 hhyphen.2)
      · exact ih h

/-- What is left when hyphens are dropped at the end: a beginning without one there. -/
theorem dropHyphens_spec (slug : List Char) :
    dropHyphens slug <+: slug ∧ (dropHyphens slug).getLast? ≠ some '-' := by
  have hspan := List.takeWhile_append_dropWhile (p := fun c => decide (c = '-')) (l := slug.reverse)
  constructor
  · refine ⟨(slug.reverse.takeWhile fun c => decide (c = '-')).reverse, ?_⟩
    rw [dropHyphens, ← List.reverse_append, hspan, List.reverse_reverse]
  · rw [dropHyphens, List.getLast?_reverse]
    intro hlast
    have := List.head?_dropWhile_not (fun c => decide (c = '-')) slug.reverse
    rw [hlast] at this
    simp at this

/-- Nothing is dropped where there is no hyphen at the end. -/
theorem dropHyphens_of_getLast {slug : List Char} (h : slug.getLast? ≠ some '-') :
    dropHyphens slug = slug := by
  unfold dropHyphens
  cases hreverse : slug.reverse with
  | nil => simpa using hreverse.symm
  | cons c rest =>
    have hslug := List.reverse_eq_cons_iff.mp hreverse
    have hc : c ≠ '-' := by
      rintro rfl
      exact h (by simp [hslug])
    rw [List.dropWhile_cons_of_neg (by simpa using hc), hslug]
    simp

/-- On a slug, the loop only copies. The induction is on what is still to be copied. -/
theorem slugLoop_copies {slug text : List Char} (h : SlugLike (slug ++ text)) :
    slugLoop slug text = slug ++ text := by
  induction text generalizing slug with
  | nil => simp [slugLoop]
  | cons c text ih =>
    have hnext : SlugLike ((slug ++ [c]) ++ text) := by simpa using h
    have hlower : ¬('A' ≤ c ∧ c ≤ 'Z') := by
      rintro ⟨hA, hZ⟩
      rcases h.chars c (by simp) with hc | rfl
      · rcases isNameChar_iff.mp hc with hc | hc
        · exact absurd (UInt32.le_trans hc.1 hZ) (by decide)
        · exact absurd (UInt32.le_trans hA hc.2) (by decide)
      · exact absurd hA (by decide)
    unfold slugLoop
    simp only [if_neg hlower]
    rcases h.chars c (by simp) with hc | rfl
    · rw [if_pos hc, ih hnext]
      simp
    · have hne : slug ≠ [] := by
        rintro rfl
        exact absurd (h.head '-' rfl) (by decide)
      have hlast : slug.getLast? ≠ some '-' := by
        intro hlast
        have := (List.isChain_append.mp h.single).2.2 '-' hlast '-' rfl
        simp at this
      rw [if_neg (by decide), if_pos ⟨hlast, hne⟩, ih hnext]
      simp

/-- A name without a hyphen at its end or two hyphens in a row. -/
structure IsSlug (name : String) : Prop where
  isName : IsName name
  slugLike : SlugLike name.toList
  last : name.toList.getLast? ≠ some '-'

/-- A slug is not changed. -/
theorem IsSlug.slugify_eq {name : String} (h : IsSlug name) : slugify name = name := by
  obtain ⟨first, rest, hname, -, hlength, -⟩ := h.isName
  have hcopies : slugLoop [] name.toList = name.toList := slugLoop_copies h.slugLike
  have htake : name.toList.take MAX_LEN = name.toList := by
    apply List.take_of_length_le
    rw [hname, List.length_cons, MAX_LEN]
    omega
  have hne : name.toList ≠ [] := by simp [hname]
  unfold slugify
  simp only [hcopies, dropHyphens_of_getLast h.last, htake, if_neg hne, String.ofList_toList]

/-- What `slugify` makes is a slug. -/
theorem isSlug_slugify (text : String) : IsSlug (slugify text) := by
  have hsandbox : IsSlug "sandbox" := by
    refine ⟨isValidName_iff.mp (by decide), ⟨?_, ?_, ?_⟩, by decide⟩
    · exact Text.forall_mem (by decide)
    · intro c hc
      obtain rfl : 's' = c := Option.some.inj hc
      decide
    · decide
  unfold slugify
  simp only
  split
  · exact hsandbox
  · next hne =>
    generalize hslug : dropHyphens ((dropHyphens (slugLoop [] text.toList)).take MAX_LEN) = slug
      at hne ⊢
    have hloop : SlugLike (slugLoop [] text.toList) :=
      slugLike_slugLoop ⟨by simp, by simp, .nil⟩ text.toList
    obtain ⟨hpiece, hlast⟩ :=
      dropHyphens_spec ((dropHyphens (slugLoop [] text.toList)).take MAX_LEN)
    rw [hslug] at hpiece hlast
    have hlike : SlugLike slug := hloop.take
      ((hpiece.trans (List.take_prefix _ _)).trans (dropHyphens_spec _).1)
    have hlength := hpiece.length_le
    rw [List.length_take, MAX_LEN] at hlength
    refine ⟨?_, by rwa [String.toList_ofList], by rwa [String.toList_ofList]⟩
    cases slug with
    | nil => exact absurd rfl hne
    | cons first rest =>
      rw [List.length_cons] at hlength
      refine ⟨first, rest, String.toList_ofList, hlike.head first rfl, by omega, fun c hc => ?_⟩
      exact hlike.chars c (List.mem_cons_of_mem _ hc)

/-- A name is a slug unless it ends in a hyphen or has two in a row. -/
theorem isSlug_of_isName {name : String} (h : IsName name)
    (hlast : Text.endsWith "-" name = false) (hdouble : ¬"--".toList <:+: name.toList) :
    IsSlug name := by
  refine ⟨h, ?_, ?_⟩
  · obtain ⟨first, rest, hname, hfirst, -, hchars⟩ := h
    refine ⟨?_, ?_, ?_⟩
    · rw [hname]
      exact List.forall_mem_cons.mpr ⟨Or.inl hfirst, hchars⟩
    · rw [hname]
      intro c hc
      exact Option.some.inj hc ▸ hfirst
    · rw [List.isChain_iff_forall_rel_of_append_cons_cons]
      intro a b before after heq
      by_contra hboth
      rw [not_or, not_not, not_not] at hboth
      obtain ⟨rfl, rfl⟩ := hboth
      exact hdouble ⟨before, after, by simp [heq]⟩
  · intro hhyphen
    obtain ⟨init, hinit⟩ := List.getLast?_eq_some_iff.mp hhyphen
    rw [Text.endsWith, hinit, Bool.eq_false_iff] at hlast
    exact hlast (List.isSuffixOf_iff_suffix.mpr (List.suffix_append _ _))

end Slugs

end Devcroft.Config
