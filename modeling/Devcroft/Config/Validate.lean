import Devcroft.Config.Manifest
import Devcroft.Paths

/-!
# Checks of a parsed manifest

The schema check of a TOML table, the check of the `[filesystem]` lists and the
warnings, with the edit distance behind the suggestions for a misspelled key.
-/

namespace Devcroft.Config

open Paths

/-- Known sections with their field names. -/
def SECTIONS : List (String × List String) :=
  [("sandbox", ["name", "isolation"]),
    ("env", ["provider", "vars"]),
    ("filesystem", ["allow", "read", "deny"]),
    ("network", ["default", "allow", "ports"]),
    ("ssh", ["forward_agent"]),
    ("hooks", ["post_create", "post_start"])]

/-- One row of the dynamic program of `edit_distance`: the row for one more character `a` of the
first text, from the previous row. `left` is the entry just computed, `diagonal` the previous row's
entry above it. -/
def editRow (a : Char) (left diagonal : ℕ) : List Char → List ℕ → List ℕ
  | b :: bs, above :: prev =>
    let cost := if a = b then 0 else 1
    let entry := min (min (above + 1) (left + 1)) (diagonal + cost)
    entry :: editRow a entry above bs prev
  | _, _ => []

/-- The rows of `edit_distance` from row `i` on. -/
def editRows (b : List Char) : ℕ → List ℕ → List Char → List ℕ
  | _, prev, [] => prev
  | i, prev, c :: cs =>
    editRows b (i + 1) ((i + 1) :: editRow c (i + 1) (prev.headD 0) b prev.tail) cs

/-- `edit_distance`. -/
def editDistance (a b : String) : ℕ :=
  (editRows b.toList 0 (List.range (b.toList.length + 1)) a.toList).getLastD 0

/-- `max_distance`. -/
def maxDistance (len : ℕ) : ℕ := min (max (len / 2) 1) 3

/-- `closest`: the first of the nearest candidates that is near enough. -/
def closest (key : String) (candidates : List String) : Option String :=
  let near := (candidates.map fun c => (c, editDistance key c)).filter fun entry =>
    decide (entry.2 ≤ maxDistance key.utf8ByteSize)
  (near.foldl (fun best entry =>
    match best with
    | none => some entry
    | some (_, distance) => if entry.2 < distance then some entry else best) none).map Prod.fst

/-- The check of the keys inside one section. -/
def checkSectionKeys (key : String) (fields : List String) :
    List String → Except ConfigError Unit
  | [] => .ok ()
  | subKey :: rest =>
    if fields.contains subKey then checkSectionKeys key fields rest
    else .error (.unknownKey (key ++ "." ++ subKey) (closest subKey fields))

/-- `check_unknown_keys`. -/
def checkUnknownKeys : Table → Except ConfigError Unit
  | [] => .ok ()
  | (key, value) :: rest =>
    match SECTIONS.find? fun entry => entry.1 == key with
    | none => .error (.unknownKey key (closest key (SECTIONS.map Prod.fst)))
    | some (_, fields) =>
      if key = "env" then checkUnknownKeys rest
      else
        match value.asTable with
        | none => checkUnknownKeys rest
        | some sub =>
          match checkSectionKeys key fields (sub.map Prod.fst) with
          | .error e => .error e
          | .ok () => checkUnknownKeys rest

/-- Whether `check_filesystem` refuses a path by itself. -/
def invalidPath (value : String) : Bool :=
  value = "" || value.toList.contains '\x00' || hasTraversal value

/-- The first entry that is not a valid path, field by field. -/
def firstInvalidPath (fs : Filesystem) : Option (String × String) :=
  ((fs.allow.map ("allow", ·)) ++ (fs.read.map ("read", ·)) ++ (fs.deny.map ("deny", ·))).find?
    fun entry => invalidPath entry.2

/-- `check_filesystem`. -/
def checkFilesystem (fs : Filesystem) : Except ConfigError Unit :=
  match firstInvalidPath fs with
  | some (field, value) => .error (.invalidPath field value)
  | none =>
    match fs.deny.find? fun deny => !(fs.allow ++ fs.read).any fun g => isWithin deny g with
    | some deny => .error (.uselessDeny deny)
    | none => .ok ()

/-- `collect_warnings`. -/
def collectWarnings (env : Env) (fs : Filesystem) : List Warning :=
  (fs.allow.filter fun path => SENSITIVE_PATHS.any fun sensitive => isWithin sensitive path).map
      (.sensitivePath "allow" ·) ++
    if env.vars.any fun entry => entry.2.toList.contains '$' then [.noInterpolation] else []

/-- What an accepted `[filesystem]` section satisfies. -/
structure Filesystem.Accepted (fs : Filesystem) : Prop where
  /-- No entry has a `..` segment. -/
  no_traversal : ∀ path ∈ fs.allow ++ fs.read ++ fs.deny, hasTraversal path = false
  /-- Every denied path lies within a granted one. -/
  deny_within : ∀ deny ∈ fs.deny, ∃ g ∈ fs.allow ++ fs.read, isWithin deny g = true

/-- `check_filesystem` accepts only what it promises. -/
theorem checkFilesystem_ok {fs : Filesystem} (h : checkFilesystem fs = .ok ()) : fs.Accepted := by
  unfold checkFilesystem at h
  cases hinvalid : firstInvalidPath fs with
  | some entry => simp [hinvalid] at h
  | none =>
    simp only [hinvalid] at h
    split at h
    · cases h
    · next hdeny =>
      constructor
      · intro path hpath
        have hvalid : invalidPath path = false := by
          have hall := List.find?_eq_none.mp hinvalid
          simp only [List.mem_append, List.mem_map, Bool.not_eq_true] at hall hpath
          rcases hpath with (hpath | hpath) | hpath
          · exact hall ("allow", path) (Or.inl (Or.inl ⟨path, hpath, rfl⟩))
          · exact hall ("read", path) (Or.inl (Or.inr ⟨path, hpath, rfl⟩))
          · exact hall ("deny", path) (Or.inr ⟨path, hpath, rfl⟩)
        simp only [invalidPath, Bool.or_eq_false_iff] at hvalid
        exact hvalid.2
      · intro deny hmem
        have hgranted := List.find?_eq_none.mp hdeny deny hmem
        rw [Bool.not_eq_true, Bool.not_eq_false'] at hgranted
        exact List.any_eq_true.mp hgranted

end Devcroft.Config
