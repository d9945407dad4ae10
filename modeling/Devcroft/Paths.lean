import Devcroft.Library.Posix

/-!
# Lexical path containment

The containment model that config validation, the policy compiler and `why` share: a
path string is a root marker with components, and one path is within another when
both have the same marker and the components of the second begin those of the first.
-/

namespace Devcroft.Paths

open Posix

/-- Credential directories: warned on when a manifest grants them, denied otherwise. -/
def SENSITIVE_PATHS : List String := ["~/.ssh", "~/.aws", "~/.config/gcloud", "~/.kube"]

/-- The namespace of a path string. -/
inductive Root where
  /-- Below the home directory. -/
  | home
  /-- Absolute. -/
  | absolute
  /-- Relative to the project root. -/
  | project
  deriving DecidableEq

/-- The root marker of a path string and the text after it. -/
def rootOf (path : String) : Root × String :=
  if path = "~" then (.home, "")
  else
    match Text.stripPrefix "~/" path with
    | some rest => (.home, rest)
    | none =>
      match Text.stripPrefix "/" path with
      | some rest => (.absolute, rest)
      | none => (.project, path)

/-- `components`: a root marker plus the path components without `.` and empty segments. -/
def components (path : String) : Root × List String :=
  let (root, rest) := rootOf path
  (root, (Text.split '/' rest).filter fun c => decide (c ≠ "" ∧ c ≠ "."))

/-- `has_traversal`: whether a path contains a `..` segment. -/
def hasTraversal (path : String) : Bool := (components path).2.contains ".."

/-- `is_within`: whether `candidate` lies in the region that `granted` covers. -/
def isWithin (candidate granted : String) : Bool :=
  let (candidateRoot, candidate) := components candidate
  let (grantedRoot, granted) := components granted
  candidateRoot = grantedRoot && decide (granted.length ≤ candidate.length) &&
    decide (candidate.take granted.length = granted)

/-- Containment is an initial segment of components under one root marker. -/
theorem isWithin_iff {candidate granted : String} :
    isWithin candidate granted = true ↔
      (components candidate).1 = (components granted).1 ∧
        (components granted).2 <+: (components candidate).2 := by
  simp only [isWithin, Bool.and_eq_true, decide_eq_true_eq, and_assoc]
  refine and_congr_right fun _ => ⟨fun h => ?_, fun h => ?_⟩
  · rw [← h.2]
    exact List.take_prefix _ _
  · exact ⟨h.length_le, List.prefix_iff_eq_take.mp h ▸ rfl⟩

/-- The components of a path are the names after its root marker. -/
theorem components_snd (path : String) : (components path).2 = names (rootOf path).2 := rfl

/-- A path that goes on behind its tilde is not the tilde. -/
theorem tilde_append_ne (rest : String) : "~/" ++ rest ≠ "~" := by
  intro heq
  have hlist := congrArg String.toList heq
  simp [String.toList_append] at hlist

/-- A path that begins with a slash does not begin with a tilde. -/
theorem slash_append_ne (rest : String) :
    "/" ++ rest ≠ "~" ∧ Text.stripPrefix "~/" ("/" ++ rest) = none := by
  constructor
  · intro heq
    have hlist := congrArg String.toList heq
    simp [String.toList_append] at hlist
  · rw [Text.stripPrefix_eq_none_iff]
    simp [Text.startsWith, String.toList_append, List.isPrefixOf]

@[simp] theorem rootOf_tilde_append (rest : String) : rootOf ("~/" ++ rest) = (.home, rest) := by
  rw [rootOf, if_neg (tilde_append_ne rest), Text.stripPrefix_eq_some_iff.mpr rfl]

@[simp] theorem rootOf_slash_append (rest : String) :
    rootOf ("/" ++ rest) = (.absolute, rest) := by
  obtain ⟨hne, htilde⟩ := slash_append_ne rest
  rw [rootOf, if_neg hne, htilde, Text.stripPrefix_eq_some_iff.mpr rfl]

/-- The root of an absolute path and its components, all of its names. -/
theorem components_of_isAbsolute {path : String} (h : isAbsolute path = true) :
    components path = (.absolute, names path) := by
  obtain ⟨rest, rfl⟩ := isAbsolute_iff.mp h
  rw [components, rootOf_slash_append, names_slash_append]
  rfl

/-- The forms of a path string. -/
theorem rootOf_cases (path : String) :
    path = "~" ∨ (∃ rest, path = "~/" ++ rest) ∨ isAbsolute path = true ∨
    (path ≠ "~" ∧ Text.stripPrefix "~/" path = none ∧ isAbsolute path = false ∧
      rootOf path = (.project, path)) := by
  by_cases htilde : path = "~"
  · exact Or.inl htilde
  · right
    cases hhome : Text.stripPrefix "~/" path with
    | some rest => exact Or.inl ⟨rest, Text.stripPrefix_eq_some_iff.mp hhome⟩
    | none =>
      right
      cases habs : isAbsolute path with
      | true => exact Or.inl rfl
      | false =>
        refine Or.inr ⟨htilde, rfl, rfl, ?_⟩
        rw [rootOf, if_neg htilde, hhome, Text.stripPrefix_eq_none_iff.mpr habs]

/-- Without a `..` segment, the components lead straight down. -/
theorem descend_components {path : String} (h : hasTraversal path = false) (l : Location) :
    descend l (components path).2 = l ++ (components path).2 := by
  refine descend_of_not_mem fun hmem => ?_
  simp [hasTraversal, hmem] at h

end Devcroft.Paths
