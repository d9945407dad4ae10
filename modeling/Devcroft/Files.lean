import Devcroft.Library.Links
import Devcroft.Library.Posix
import Devcroft.Library.Utf8

/-!
# The files of the host

The file system with its symbolic links, as `up` looks into it: file names are bytes, and a
path is asked for by its text. The store is the directory `/nix/store`.
-/

namespace Devcroft.Files

open Links

/-- What can be the name of an entry of a directory. -/
def IsName (bytes : List UInt8) : Prop :=
  bytes ≠ [] ∧ bytes ≠ [46] ∧ bytes ≠ [46, 46] ∧ 47 ∉ bytes

instance (bytes : List UInt8) : Decidable (IsName bytes) :=
  inferInstanceAs (Decidable (_ ∧ _ ∧ _ ∧ _))

/-- The name of an entry of a directory. -/
structure FileName where
  bytes : List UInt8
  isName : IsName bytes
  deriving DecidableEq

/-- A piece of the text of a path. -/
def piece (text : String) : Piece FileName :=
  if text = ".." then .up
  else if h : IsName (Utf8.encode text) then .down ⟨Utf8.encode text, h⟩
  else .here

/-- The path of a text. -/
def pathOf (text : String) : PathName FileName :=
  if text = "" then ⟨false, []⟩
  else ⟨Posix.isAbsolute text, (Text.split '/' text).map piece⟩

/-- The bytes of a piece. -/
def pieceBytes : Piece FileName → List UInt8
  | .here => [46]
  | .up => [46, 46]
  | .down name => name.bytes

/-- The bytes of a path. -/
def pathBytes (p : PathName FileName) : List UInt8 :=
  (if p.absolute then [47] else []) ++ [47].intercalate (p.pieces.map pieceBytes)

/-- `Path::to_string_lossy`. -/
def toStringLossy (p : PathName FileName) : String := Utf8.decodeLossy (pathBytes p)

/-- The file system for a process in some directory. -/
structure FileSystem where
  tree : FileTree FileName
  cwd : Location FileName
  cwd_dir : tree.node cwd = some .dir
  /-- How many links the resolution of a path may meet. -/
  maxLinks : ℕ

/-- `Path::canonicalize`: the location that a path leads to. -/
def FileSystem.canonicalize (fs : FileSystem) (p : PathName FileName) :
    Option (Location FileName) :=
  if p.absolute = false ∧ p.pieces = [] then none
  else fs.tree.walk fs.maxLinks (if p.absolute then [] else fs.cwd) p.pieces

/-- `fs::metadata`: what a path leads to. -/
def FileSystem.metadata (fs : FileSystem) (p : PathName FileName) : Option (Node FileName) :=
  (fs.canonicalize p).bind fs.tree.node

/-- `Path::is_file`. -/
def FileSystem.isFile (fs : FileSystem) (p : PathName FileName) : Bool :=
  match fs.metadata p with
  | some (.file _) => true
  | _ => false

/-- `is_executable_file`. -/
def FileSystem.isExecutableFile (fs : FileSystem) (p : PathName FileName) : Bool :=
  fs.metadata p = some (.file true)

/-- A location by the names on the way to it. -/
def locationOf (names : List String) : Location FileName :=
  names.filterMap fun name =>
    if h : IsName (Utf8.encode name) then some ⟨Utf8.encode name, h⟩ else none

/-- The directory `nix`. -/
def nix : FileName := ⟨Utf8.encode "nix", by decide⟩

/-- The directory `store`. -/
def store : FileName := ⟨Utf8.encode "store", by decide⟩

/-- `store_root`: the entry of the store that a path lies under. -/
def storeRoot (p : PathName FileName) : Option (PathName FileName) :=
  match p.absolute, p.pieces.filter (· ≠ .here) with
  | true, .down top :: .down second :: first :: _ =>
    if top = nix ∧ second = store then some ⟨true, [.down nix, .down store, first]⟩ else none
  | _, _ => none

/-- The directories of a `PATH`. -/
def pathDirs (env : List (String × String)) : List String :=
  match env.lookup "PATH" with
  | none => []
  | some path => (Text.split ':' path).filter (· ≠ "")

/-- What a path leads to is no link. -/
theorem FileSystem.real_canonicalize {fs : FileSystem} {p : PathName FileName}
    {l : Location FileName} (h : fs.canonicalize p = some l) : fs.tree.Real l := by
  unfold canonicalize at h
  split at h
  · cases h
  · apply FileTree.real_walk _ h
    split
    · exact FileTree.real_of_dir fs.tree.root_dir
    · exact FileTree.real_of_dir fs.cwd_dir

/-- The path to what a path leads to leads to the same place. -/
theorem FileSystem.canonicalize_ofLocation {fs : FileSystem} {p : PathName FileName}
    {l : Location FileName} (h : fs.canonicalize p = some l) :
    fs.canonicalize (PathName.ofLocation l) = some l := by
  have hwalk := fs.tree.walk_ofLocation fs.maxLinks (fs.real_canonicalize h)
  rw [canonicalize, if_neg (by simp [PathName.ofLocation])]
  exact hwalk

/-- A path to an executable file leads somewhere. -/
theorem FileSystem.isExecutableFile_iff {fs : FileSystem} {p : PathName FileName} :
    fs.isExecutableFile p = true ↔
      ∃ l, fs.canonicalize p = some l ∧ fs.tree.node l = some (.file true) := by
  rw [isExecutableFile, decide_eq_true_eq, metadata, Option.bind_eq_some_iff]

/-- The store entry of a location. -/
theorem storeRoot_ofLocation {l : Location FileName} {root : PathName FileName} :
    storeRoot (PathName.ofLocation l) = some root ↔
      ∃ entry rest, l = nix :: store :: entry :: rest ∧
        root = PathName.ofLocation [nix, store, entry] := by
  have hfilter : (l.map Piece.down).filter (· ≠ .here) = l.map .down := by
    rw [List.filter_eq_self]
    intro piece hpiece
    obtain ⟨name, -, rfl⟩ := List.mem_map.mp hpiece
    simp
  unfold storeRoot
  simp only [PathName.ofLocation, hfilter]
  match l with
  | [] => simp
  | [top] => simp
  | [top, second] => simp
  | top :: second :: first :: rest =>
    simp only [List.map_cons, List.cons.injEq]
    by_cases h : top = nix ∧ second = store
    · obtain ⟨rfl, rfl⟩ := h
      rw [if_pos ⟨rfl, rfl⟩]
      simp [eq_comm]
    · rw [if_neg h]
      simp only [reduceCtorEq, false_iff, not_exists, not_and]
      rintro entry after ⟨htop, hsecond, -⟩
      exact absurd ⟨htop, hsecond⟩ h

end Devcroft.Files
