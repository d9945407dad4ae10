import Devcroft.Library.Text

/-!
# Paths and the tree they name

Path strings with the operations of `std::path`, and file trees without symbolic
links. Such a tree gives every path one location, the list of names from the root;
a path is below another one exactly when its location extends the other's.
-/

namespace Posix

/-- A place in a file tree: the names on the way from the root. -/
abbrev Location := List String

/-- The components of a path without its root: empty ones and `.` are dropped. -/
def names (path : String) : List String :=
  (Text.split '/' path).filter fun c => decide (c ≠ "" ∧ c ≠ ".")

/-- `Path::is_absolute`. -/
def isAbsolute (path : String) : Bool := Text.startsWith "/" path

/-- `Path::join`: an absolute argument replaces the base. -/
def join (base path : String) : String :=
  if isAbsolute path then path
  else if base = "" ∨ base.toList.getLast? = some '/' then base ++ path
  else base ++ "/" ++ path

/-- One step of path resolution: `..` goes up, any other name goes down. -/
def enter (l : Location) (name : String) : Location :=
  if name = ".." then l.dropLast else l ++ [name]

/-- Where a list of names leads from a directory. -/
def descend (l : Location) (ns : List String) : Location := ns.foldl enter l

/-- Where a path leads for a process in the directory `cwd`, when nothing on the way is a symbolic
link. -/
def locate (cwd : Location) (path : String) : Location :=
  descend (if isAbsolute path then [] else cwd) (names path)

/-- What an entry of a file tree is. -/
inductive Kind where
  /-- A directory. -/
  | dir
  /-- Anything that is not a directory. -/
  | file
  deriving DecidableEq

/-- A file tree without symbolic links. -/
structure Tree where
  /-- What is at a location. -/
  kind : Location → Option Kind
  /-- The root is a directory. -/
  root_dir : kind [] = some .dir
  /-- Only directories have entries. -/
  parent_dir : ∀ l name, kind (l ++ [name]) ≠ none → kind l = some .dir

/-- Resolution of the pieces of a path between slashes, as the kernel does it: every piece, empty
and `.` included, needs a directory to be looked up in. -/
def Tree.walk (t : Tree) (l : Location) : List String → Option Location
  | [] => some l
  | name :: rest =>
    if t.kind l ≠ some .dir then none
    else if name = "" ∨ name = "." then t.walk l rest
    else if name = ".." then t.walk l.dropLast rest
    else if t.kind (l ++ [name]) = none then none
    else t.walk (l ++ [name]) rest

/-- `Path::canonicalize`: where an existing path leads; `none` when it does not exist. -/
def Tree.canonicalize (t : Tree) (cwd : Location) (path : String) : Option Location :=
  if path = "" then none
  else t.walk (if isAbsolute path then [] else cwd) (Text.split '/' path)

/-- `Path::exists`. -/
def Tree.exists (t : Tree) (cwd : Location) (path : String) : Bool :=
  (t.canonicalize cwd path).isSome

/-- `Path::is_dir`. -/
def Tree.isDir (t : Tree) (cwd : Location) (path : String) : Bool :=
  match t.canonicalize cwd path with
  | none => false
  | some l => t.kind l = some .dir

/-- Walking the pieces of a path ends where its names lead. -/
theorem Tree.walk_eq_descend {t : Tree} {l l' : Location} {pieces : List String}
    (h : t.walk l pieces = some l') :
    l' = descend l (pieces.filter fun c => decide (c ≠ "" ∧ c ≠ ".")) := by
  induction pieces generalizing l with
  | nil => exact (Option.some.inj h).symm
  | cons name rest ih =>
    unfold walk at h
    split at h
    · cases h
    · split at h
      · next hskip =>
        rw [ih h, List.filter_cons_of_neg (by simpa using fun hne => hskip.resolve_left hne)]
      · next hkeep =>
        rw [List.filter_cons_of_pos (by simpa using hkeep), descend, List.foldl_cons, enter]
        split at h
        · next hup => rw [if_pos hup, ih h, descend]
        · next hdown =>
          split at h
          · cases h
          · rw [if_neg hdown, ih h, descend]

/-- The canonical location of an existing path is the one its names lead to. -/
theorem Tree.canonicalize_eq_locate {t : Tree} {cwd l : Location} {path : String}
    (h : t.canonicalize cwd path = some l) : l = locate cwd path := by
  unfold canonicalize at h
  split at h
  · cases h
  · exact walk_eq_descend h

/-- Without `..` the names are appended to where they start. -/
theorem descend_of_not_mem {l : Location} {ns : List String} (h : ".." ∉ ns) :
    descend l ns = l ++ ns := by
  induction ns generalizing l with
  | nil => simp [descend]
  | cons name rest ih =>
    rw [List.mem_cons, not_or] at h
    obtain ⟨hname, hrest⟩ := h
    rw [descend, List.foldl_cons, enter, if_neg (Ne.symm hname), ← descend, ih hrest,
      List.append_assoc, List.singleton_append]

/-- Names lead on from where earlier names led. -/
theorem descend_append (l : Location) (ns ms : List String) :
    descend l (ns ++ ms) = descend (descend l ns) ms := by
  simp [descend]

@[simp] theorem names_empty : names "" = [] := by decide

/-- A slash between two texts separates their names. -/
theorem names_append_slash (a b : String) : names (a ++ "/" ++ b) = names a ++ names b := by
  have hsplit : Text.split '/' (a ++ "/" ++ b) = Text.split '/' a ++ Text.split '/' b :=
    Text.split_append_sep '/' a b
  rw [names, hsplit, List.filter_append, names, names]

/-- A leading slash adds no name. -/
theorem names_slash_append (a : String) : names ("/" ++ a) = names a := by
  simpa using names_append_slash "" a

/-- A slash at the end adds no name. -/
theorem names_append_slash_empty (a : String) : names (a ++ "/") = names a := by
  simpa using names_append_slash a ""

/-- An absolute path is a slash and a rest. -/
theorem isAbsolute_iff {path : String} : isAbsolute path = true ↔ ∃ rest, path = "/" ++ rest := by
  unfold isAbsolute
  constructor
  · intro h
    cases hstrip : Text.stripPrefix "/" path with
    | none => rw [Text.stripPrefix_eq_none_iff.mp hstrip] at h; cases h
    | some rest => exact ⟨rest, Text.stripPrefix_eq_some_iff.mp hstrip⟩
  · rintro ⟨rest, rfl⟩
    simp [Text.startsWith]

/-- Whether a nonempty text is absolute does not depend on what follows it. -/
theorem isAbsolute_append {base : String} (h : base ≠ "") (rest : String) :
    isAbsolute (base ++ rest) = isAbsolute base := Text.startsWith_append h '/' rest

/-- Joining a relative path leads on from where the base leads. -/
theorem locate_join (cwd : Location) (base : String) {path : String}
    (h : isAbsolute path = false) :
    locate cwd (join base path) = descend (locate cwd base) (names path) := by
  unfold join
  rw [if_neg (by simp [h])]
  split
  · next hbase =>
    by_cases hempty : base = ""
    · subst hempty
      have hrel : isAbsolute "" = false := by decide
      simp [locate, h, hrel, descend]
    · obtain ⟨start, hstart⟩ := List.getLast?_eq_some_iff.mp (hbase.resolve_left hempty)
      have htext : base = String.ofList start ++ "/" := Text.ext (by simp [hstart])
      rw [locate, isAbsolute_append hempty, locate, ← descend_append, htext, names_append_slash]
      rw [names_append_slash_empty]
  · next hbase =>
    have hempty : base ≠ "" := fun he => hbase (Or.inl he)
    rw [locate, String.append_assoc, isAbsolute_append hempty, ← String.append_assoc,
      names_append_slash, descend_append, locate]

/-- A path joined to a base has the names of both, the base's first. -/
theorem names_join (base : String) {path : String} (h : isAbsolute path = false) :
    names (join base path) = names base ++ names path := by
  unfold join
  rw [if_neg (by simp [h])]
  split
  · next hbase =>
    by_cases hempty : base = ""
    · simp [hempty]
    · obtain ⟨start, hstart⟩ := List.getLast?_eq_some_iff.mp (hbase.resolve_left hempty)
      have htext : base = String.ofList start ++ "/" := Text.ext (by simp [hstart])
      rw [htext, names_append_slash, names_append_slash_empty]
  · exact names_append_slash base path

/-- A path joined to an absolute base is absolute. -/
theorem isAbsolute_join {base : String} (h : isAbsolute base = true) (path : String) :
    isAbsolute (join base path) = true := by
  have hne : base ≠ "" := by
    rintro rfl
    exact absurd h (by decide)
  unfold join
  split
  · assumption
  · split
    · rw [isAbsolute_append hne, h]
    · rw [String.append_assoc, isAbsolute_append hne, h]

/-- The tree with the given directories and everything on the way to them, and the given files. -/
def Tree.ofEntries (dirs files : List Location) (h : ∀ f ∈ files, f.dropLast ∈ dirs ∧ f ≠ []) :
    Tree where
  kind l :=
    if l = [] ∨ ∃ d ∈ dirs, l <+: d then some .dir
    else if l ∈ files then some .file
    else none
  root_dir := by simp
  parent_dir := by
    intro l name hkind
    rw [if_pos]
    by_cases hdir : ∃ d ∈ dirs, l ++ [name] <+: d
    · obtain ⟨d, hd, hpre⟩ := hdir
      exact Or.inr ⟨d, hd, (List.prefix_append l [name]).trans hpre⟩
    · by_cases hfile : l ++ [name] ∈ files
      · have hparent := (h _ hfile).1
        rw [List.dropLast_concat] at hparent
        exact Or.inr ⟨l, hparent, List.prefix_rfl⟩
      · simp [hdir, hfile] at hkind

end Posix
