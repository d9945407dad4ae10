import Devcroft.Config.Parse
import Devcroft.Library.Ascent
import Devcroft.Library.Posix

/-!
# Finding the manifest

A manifest is looked for in a directory and its ancestors, up to the first one that is the root of a
git checkout.
-/

namespace Devcroft.Config

open Posix

def MANIFEST_FILE_NAME : String := "devcroft.toml"

/-- What the commands see of the files of the host. -/
structure HostFiles where
  /-- `Path::is_file`. -/
  isFile : Location → Bool
  /-- `Path::exists`. -/
  present : Location → Bool
  /-- `std::fs::read_to_string`, with the text of its error. -/
  readToString : Location → Except String String

/-- There is a manifest in this directory. -/
def HostFiles.hasManifest (files : HostFiles) (dir : Location) : Bool :=
  files.isFile (dir ++ [MANIFEST_FILE_NAME])

/-- This directory is the root of a git checkout. -/
def HostFiles.isGitBoundary (files : HostFiles) (dir : Location) : Bool :=
  files.present (dir ++ [".git"])

/-- `discover`, or nothing where it returns `NotFound`. -/
def discover (files : HostFiles) (start : Location) : Option Location :=
  (Ascent.search files.hasManifest files.isGitBoundary start).map (· ++ [MANIFEST_FILE_NAME])

/-- The project that a directory belongs to: the nearest directory above it, or itself, with a
manifest, where no git checkout begins in between. -/
abbrev ProjectOf (files : HostFiles) (start root : Location) : Prop :=
  Ascent.Nearest files.hasManifest files.isGitBoundary start root

/-- What is discovered is the manifest of that project. -/
theorem discover_eq_some_iff {files : HostFiles} {start found : Location} :
    discover files start = some found ↔
      ∃ root, ProjectOf files start root ∧ found = root ++ [MANIFEST_FILE_NAME] := by
  constructor
  · intro h
    obtain ⟨root, hroot, rfl⟩ := Option.map_eq_some_iff.mp h
    exact ⟨root, Ascent.search_eq_some_iff.mp hroot, rfl⟩
  · rintro ⟨root, hroot, rfl⟩
    exact Option.map_eq_some_iff.mpr ⟨root, Ascent.search_eq_some_iff.mpr hroot, rfl⟩

/-- In every directory between the root of a project and another of its directories the same
manifest is discovered. -/
theorem discover_within {files : HostFiles} {start root dir : Location}
    (h : ProjectOf files start root) (habove : root <+: dir) (hbelow : dir <+: start) :
    discover files dir = discover files start := by
  have hstart := discover_eq_some_iff.mpr ⟨root, h, rfl⟩
  rw [hstart]
  exact discover_eq_some_iff.mpr ⟨root, h.within habove hbelow, rfl⟩

end Devcroft.Config
