import Devcroft.Library.Posix
import Devcroft.Provider.Capture

/-!
# The stores that are granted

What `store_grants` should return for an activated environment, in terms of the
components of the entries of its `PATH`, and for which it does: the store is looked for
as a text, in the first entry that has it.
-/

namespace Devcroft.Provider

open Environ

/-- The entries of `PATH`. -/
def pathEntries (activated : Vars) : List String := Text.split ':' (activated.getD "PATH" "")

/-- An entry lies in a directory whose last components are `nix` and `store`, or is one. -/
def InStore (entry : String) : Prop := ["nix", "store"] <:+: Posix.names entry

instance (entry : String) : Decidable (InStore entry) :=
  inferInstanceAs (Decidable (["nix", "store"] <:+: Posix.names entry))

/-- A path is at or under a directory, component by component. -/
def Under (entry grant : String) : Prop :=
  Posix.isAbsolute entry = Posix.isAbsolute grant ∧ Posix.names grant <+: Posix.names entry

/-- The grants cover the stores that `PATH` has entries in, and nothing else. -/
structure GrantsStores (entries grants : List String) : Prop where
  covers : ∀ entry ∈ entries, InStore entry → ∃ grant ∈ grants, Under entry grant
  /-- Each of them is a store, and one that has an entry, not what a longer name begins with. -/
  stores : ∀ grant ∈ grants, ["nix", "store"] <:+ Posix.names grant ∧
    ((∃ entry ∈ entries, Under entry grant) ∨ ∀ entry ∈ entries, ¬InStore entry)
  default : (∀ entry ∈ entries, ¬InStore entry) → grants = [DEFAULT_STORE_ROOT]

/-- An entry has the text `/nix/store`. -/
def Spells (entry : String) : Prop := DEFAULT_STORE_ROOT.toList <:+: entry.toList

/-- What stands before the first `/nix/store` in the first entry that has one. -/
def StandsBefore (before : String) (entries : List String) : Prop :=
  ∃ front entry back, entries = front ++ entry :: back ∧ (∀ e ∈ front, ¬Spells e) ∧
    (before ++ DEFAULT_STORE_ROOT).toList <+: entry.toList ∧
    ∀ shorter : String, (shorter ++ DEFAULT_STORE_ROOT).toList <+: entry.toList →
      before.toList.length ≤ shorter.toList.length

/-- An entry lies in the store of a directory. -/
def InStoreOf (dir entry : String) : Prop :=
  Posix.isAbsolute entry = (decide (dir = "") || Posix.isAbsolute dir) ∧
    Posix.names dir ++ ["nix", "store"] <+: Posix.names entry

/-- The stores of `PATH` are one: every entry in a store is in the one that is spelled first, or in
`/nix/store` where none is; and no other is spelled where no entry is in a store. -/
def OneStore (entries : List String) : Prop :=
  (∀ dir, StandsBefore dir entries →
    (∀ entry ∈ entries, InStore entry → InStoreOf dir entry) ∧
    ((∀ entry ∈ entries, ¬InStore entry) → dir = "")) ∧
  ((∀ entry ∈ entries, ¬Spells entry) → ∀ entry ∈ entries, InStore entry → InStoreOf "" entry)

/-- The text up to the end of the first `/nix/store`. -/
theorem find_storeRoot_eq_some_iff {entry : String} {root : String} :
    ((Text.find DEFAULT_STORE_ROOT entry).map fun i =>
        Text.sliceTo (i + DEFAULT_STORE_ROOT.length) entry) = some root ↔
      ∃ dir, root = dir ++ DEFAULT_STORE_ROOT ∧
        (dir ++ DEFAULT_STORE_ROOT).toList <+: entry.toList ∧
        ∀ shorter : String, (shorter ++ DEFAULT_STORE_ROOT).toList <+: entry.toList →
          dir.toList.length ≤ shorter.toList.length := by
  have hslice : ∀ dir : String, (dir ++ DEFAULT_STORE_ROOT).toList <+: entry.toList →
      Text.sliceTo (dir.toList.length + DEFAULT_STORE_ROOT.length) entry =
        dir ++ DEFAULT_STORE_ROOT := by
    rintro dir ⟨after, hafter⟩
    have hlength : dir.toList.length + DEFAULT_STORE_ROOT.length =
        (dir ++ DEFAULT_STORE_ROOT).toList.length := by
      simp only [String.toList_append, List.length_append, String.length_toList]
    rw [Text.sliceTo, hlength, ← hafter, List.take_left, String.ofList_toList]
  rw [Option.map_eq_some_iff]
  constructor
  · rintro ⟨i, hfind, rfl⟩
    obtain ⟨dir, rfl, hdir, hfirst⟩ := Text.find_eq_some_iff.mp hfind
    exact ⟨dir, hslice dir hdir, hdir, hfirst⟩
  · rintro ⟨dir, rfl, hdir, hfirst⟩
    exact ⟨dir.toList.length, Text.find_eq_some_iff.mpr ⟨dir, rfl, hdir, hfirst⟩, hslice dir hdir⟩

/-- The entry that is found is the one that spells a store first. -/
theorem findSome?_storeRoot_eq_some_iff {entries : List String} {root : String} :
    (entries.findSome? fun entry => (Text.find DEFAULT_STORE_ROOT entry).map fun i =>
        Text.sliceTo (i + DEFAULT_STORE_ROOT.length) entry) = some root ↔
      ∃ dir, StandsBefore dir entries ∧ root = dir ++ DEFAULT_STORE_ROOT := by
  simp only [List.findSome?_eq_some_iff, find_storeRoot_eq_some_iff, Option.map_eq_none_iff,
    Text.find_eq_none_iff]
  constructor
  · rintro ⟨front, entry, back, hentries, ⟨dir, rfl, hdir, hfirst⟩, hfront⟩
    exact ⟨dir, ⟨front, entry, back, hentries, hfront, hdir, hfirst⟩, rfl⟩
  · rintro ⟨dir, ⟨front, entry, back, hentries, hfront, hdir, hfirst⟩, rfl⟩
    exact ⟨front, entry, back, hentries, ⟨dir, rfl, hdir, hfirst⟩, hfront⟩

/-- The store that is spelled first is granted. -/
theorem storeGrants_of_standsBefore {activated : Vars} {dir : String}
    (h : StandsBefore dir (pathEntries activated)) :
    storeGrants activated = [dir ++ DEFAULT_STORE_ROOT] := by
  have hfind := findSome?_storeRoot_eq_some_iff.mpr ⟨dir, h, rfl⟩
  rw [pathEntries] at hfind
  simp only [storeGrants, hfind]

/-- Where none is spelled, the default is granted. -/
theorem storeGrants_of_not_spells {activated : Vars}
    (h : ∀ entry ∈ pathEntries activated, ¬Spells entry) :
    storeGrants activated = [DEFAULT_STORE_ROOT] := by
  rw [pathEntries] at h
  have hfind : (Text.split ':' (activated.getD "PATH" "")).findSome? (fun entry =>
      (Text.find DEFAULT_STORE_ROOT entry).map fun i =>
        Text.sliceTo (i + DEFAULT_STORE_ROOT.length) entry) = none := by
    rw [List.findSome?_eq_none_iff]
    intro entry hentry
    rw [Option.map_eq_none_iff, Text.find_eq_none_iff]
    exact h entry hentry
  simp only [storeGrants, hfind]

/-- An entry spells a store first, or none does. -/
theorem standsBefore_or_not_spells (entries : List String) :
    (∃ dir, StandsBefore dir entries) ∨ ∀ entry ∈ entries, ¬Spells entry := by
  cases hfind : entries.findSome? fun entry => (Text.find DEFAULT_STORE_ROOT entry).map fun i =>
      Text.sliceTo (i + DEFAULT_STORE_ROOT.length) entry with
  | some root =>
    obtain ⟨dir, hdir, -⟩ := findSome?_storeRoot_eq_some_iff.mp hfind
    exact Or.inl ⟨dir, hdir⟩
  | none =>
    right
    intro entry hentry
    have hnone := List.findSome?_eq_none_iff.mp hfind entry hentry
    rwa [Option.map_eq_none_iff, Text.find_eq_none_iff] at hnone

/-- The names of a store are those of its directory, `nix` and `store`. -/
theorem names_store (dir : String) :
    Posix.names (dir ++ DEFAULT_STORE_ROOT) = Posix.names dir ++ ["nix", "store"] := by
  have hslash : dir ++ DEFAULT_STORE_ROOT = dir ++ "/" ++ "nix/store" := by
    rw [String.append_assoc]
    rfl
  rw [hslash, Posix.names_append_slash, show Posix.names "nix/store" = ["nix", "store"] by decide]

/-- To be under a store is to lie in the store of its directory. -/
theorem under_store_iff {dir entry : String} :
    Under entry (dir ++ DEFAULT_STORE_ROOT) ↔ InStoreOf dir entry := by
  have habsolute : Posix.isAbsolute (dir ++ DEFAULT_STORE_ROOT) =
      (decide (dir = "") || Posix.isAbsolute dir) := by
    by_cases hempty : dir = ""
    · subst hempty
      decide
    · rw [Posix.isAbsolute_append hempty, decide_eq_false hempty, Bool.false_or]
  rw [Under, InStoreOf, names_store, habsolute]

/-- The grants cover the stores of `PATH` and nothing else exactly when the stores of `PATH` are
one. -/
theorem grantsStores_iff (activated : Vars) :
    GrantsStores (pathEntries activated) (storeGrants activated) ↔
      OneStore (pathEntries activated) := by
  constructor
  · intro h
    refine ⟨fun dir hdir => ?_, fun hnone entry hentry hin => ?_⟩
    · have hgrants := storeGrants_of_standsBefore hdir
      constructor
      · intro entry hentry hin
        obtain ⟨grant, hgrant, hunder⟩ := h.covers entry hentry hin
        rw [hgrants, List.mem_singleton] at hgrant
        exact under_store_iff.mp (hgrant ▸ hunder)
      · intro hnone
        have hdefault := h.default hnone
        rw [hgrants, List.cons.injEq] at hdefault
        have hlength := congrArg (fun s : String => s.toList.length) hdefault.1
        simp only [String.toList_append, List.length_append] at hlength
        exact Text.ext (List.length_eq_zero_iff.mp (by omega))
    · obtain ⟨grant, hgrant, hunder⟩ := h.covers entry hentry hin
      rw [storeGrants_of_not_spells hnone, List.mem_singleton] at hgrant
      exact under_store_iff.mp (hgrant ▸ hunder)
  · rintro ⟨hspelled, hdefault⟩
    -- Either way one store is granted, and every entry in a store is in that one.
    have hone : ∃ dir, storeGrants activated = [dir ++ DEFAULT_STORE_ROOT] ∧
        (∀ entry ∈ pathEntries activated, InStore entry → InStoreOf dir entry) ∧
        ((∀ entry ∈ pathEntries activated, ¬InStore entry) → dir = "") := by
      rcases standsBefore_or_not_spells (pathEntries activated) with ⟨dir, hdir⟩ | hnone
      · obtain ⟨hin, hempty⟩ := hspelled dir hdir
        exact ⟨dir, storeGrants_of_standsBefore hdir, hin, hempty⟩
      · exact ⟨"", storeGrants_of_not_spells hnone, hdefault hnone, fun _ => rfl⟩
    obtain ⟨dir, hgrants, hin, hempty⟩ := hone
    rw [hgrants]
    constructor
    · intro entry hentry hstore
      exact ⟨_, List.mem_singleton_self _, under_store_iff.mpr (hin entry hentry hstore)⟩
    · intro grant hgrant
      obtain rfl := List.mem_singleton.mp hgrant
      refine ⟨by rw [names_store]; exact List.suffix_append _ _, ?_⟩
      by_cases hsome : ∃ entry ∈ pathEntries activated, InStore entry
      · obtain ⟨entry, hentry, hstore⟩ := hsome
        exact Or.inl ⟨entry, hentry, under_store_iff.mpr (hin entry hentry hstore)⟩
      · exact Or.inr fun entry hentry hstore => hsome ⟨entry, hentry, hstore⟩
    · intro hnone
      rw [hempty hnone]
      rfl

/-- An environment with a directory whose name begins with `store`. -/
def mirrorEnv : Vars := Std.TreeMap.ofList [("PATH", "/opt/nix/store-mirror/bin:/usr/bin")]

/-- What the name begins with is taken for a store. -/
theorem not_grantsStores_mirror :
    ¬GrantsStores (pathEntries mirrorEnv) (storeGrants mirrorEnv) := by
  intro h
  have hnone : ∀ entry ∈ pathEntries mirrorEnv, ¬InStore entry := by decide +kernel
  have hgrants : storeGrants mirrorEnv = ["/opt/nix/store"] := by decide +kernel
  have hdefault := h.default hnone
  rw [hgrants] at hdefault
  exact absurd hdefault (by decide)

end Devcroft.Provider
