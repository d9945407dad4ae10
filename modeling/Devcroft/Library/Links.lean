import Mathlib.Data.List.Induction

/-!
# File trees with symbolic links

Paths and file trees over any type of names, and the resolution of a path as the kernel does
it: piece by piece from a directory, each symbolic link followed where it is met, up to a
limit on their number. What a path resolves to is never a link itself, and the path of the
names on the way to it resolves to it again.
-/

namespace Links

/-- A piece of a path between slashes. -/
inductive Piece (Name : Type) where
  /-- An empty piece or `.`. -/
  | here
  /-- The piece `..`. -/
  | up
  | down (name : Name)
  deriving DecidableEq

/-- A path. -/
structure PathName (Name : Type) where
  absolute : Bool
  pieces : List (Piece Name)
  deriving DecidableEq

/-- A place in a tree: the names on the way from the root. -/
abbrev Location (Name : Type) := List Name

/-- The path that leads to a location straight from the root. -/
def PathName.ofLocation {Name : Type} (l : Location Name) : PathName Name := ⟨true, l.map .down⟩

/-- What an entry of a tree is. -/
inductive Node (Name : Type) where
  | dir
  | file (executable : Bool)
  | link (target : PathName Name)
  /-- A socket or a device. -/
  | other
  deriving DecidableEq

/-- A file tree. -/
structure FileTree (Name : Type) where
  /-- What is at a location. -/
  node : Location Name → Option (Node Name)
  /-- The root is a directory. -/
  root_dir : node [] = some .dir
  /-- Only directories have entries. -/
  parent_dir : ∀ l name, node (l ++ [name]) ≠ none → node l = some .dir

variable {Name : Type}

/-- Resolution of the pieces of a path from a directory, with what is to be done at a link. -/
def FileTree.walkWith (t : FileTree Name)
    (follow : Location Name → List (Piece Name) → Option (Location Name)) (l : Location Name) :
    List (Piece Name) → Option (Location Name)
  | [] => some l
  | piece :: rest =>
    match t.node l with
    | some .dir =>
      match piece with
      | .here => t.walkWith follow l rest
      | .up => t.walkWith follow l.dropLast rest
      | .down name =>
        match t.node (l ++ [name]) with
        | none => none
        | some (.link target) => follow (if target.absolute then [] else l) (target.pieces ++ rest)
        | some _ => t.walkWith follow (l ++ [name]) rest
    | _ => none

/-- Resolution of the pieces of a path that may meet so many links. -/
def FileTree.walk (t : FileTree Name) :
    ℕ → Location Name → List (Piece Name) → Option (Location Name)
  | 0 => t.walkWith fun _ _ => none
  | k + 1 => t.walkWith (t.walk k)

/-- A location that exists and is no link. -/
def FileTree.Real (t : FileTree Name) (l : Location Name) : Prop :=
  ∃ node, t.node l = some node ∧ ∀ target, node ≠ .link target

theorem FileTree.real_of_dir {t : FileTree Name} {l : Location Name} (h : t.node l = some .dir) :
    t.Real l := ⟨.dir, h, fun _ heq => by cases heq⟩

/-- The parent of a location that exists is a directory. -/
theorem FileTree.dropLast_dir {t : FileTree Name} {l : Location Name} (h : t.node l ≠ none) :
    l = [] ∨ t.node l.dropLast = some .dir := by
  rcases List.eq_nil_or_concat l with hnil | ⟨parent, name, hl⟩
  · exact Or.inl hnil
  · right
    subst hl
    rw [List.concat_eq_append] at h ⊢
    rw [List.dropLast_concat]
    exact t.parent_dir parent name h

/-- The directory above a directory, the root above itself. -/
theorem FileTree.up_dir {t : FileTree Name} {l : Location Name} (h : t.node l = some .dir) :
    t.node l.dropLast = some .dir := by
  rcases t.dropLast_dir (by rw [h]; exact Option.some_ne_none _) with rfl | hparent
  · exact h
  · exact hparent

/-- Resolution ends at what is no link, if following links does. -/
theorem FileTree.real_walkWith {t : FileTree Name}
    {follow : Location Name → List (Piece Name) → Option (Location Name)}
    (hfollow : ∀ l pieces l', t.node l = some .dir → follow l pieces = some l' → t.Real l')
    {l l' : Location Name} (hl : t.Real l) {pieces : List (Piece Name)}
    (h : t.walkWith follow l pieces = some l') : t.Real l' := by
  induction pieces generalizing l with
  | nil =>
    obtain rfl := Option.some.inj h
    exact hl
  | cons piece rest ih =>
    unfold walkWith at h
    split at h
    · next hdir =>
      cases piece with
      | here => exact ih hl h
      | up => exact ih (real_of_dir (up_dir hdir)) h
      | down name =>
        simp only at h
        split at h
        · cases h
        · next target hlink =>
          apply hfollow _ _ _ _ h
          split
          · exact t.root_dir
          · exact hdir
        · next node hne hnode =>
          exact ih ⟨node, hnode, fun target heq => hne target heq⟩ h
    · cases h

/-- What a path resolves to is no link. -/
theorem FileTree.real_walk {t : FileTree Name} {k : ℕ} {l l' : Location Name} (hl : t.Real l)
    {pieces : List (Piece Name)} (h : t.walk k l pieces = some l') : t.Real l' := by
  induction k generalizing l l' pieces with
  | zero => exact real_walkWith (fun _ _ _ _ heq => by cases heq) hl h
  | succ k ih => exact real_walkWith (fun _ _ _ hdir heq => ih (real_of_dir hdir) heq) hl h

/-- What is above a location that exists is a directory. -/
theorem FileTree.dir_of_append {t : FileTree Name} {l rest : Location Name} (hrest : rest ≠ [])
    (h : t.node (l ++ rest) ≠ none) : t.node l = some .dir := by
  induction rest using List.reverseRecOn with
  | nil => exact absurd rfl hrest
  | append_singleton rest name ih =>
    rw [← List.append_assoc] at h
    have hparent := t.parent_dir (l ++ rest) name h
    by_cases hnil : rest = []
    · rw [hnil, List.append_nil] at hparent
      exact hparent
    · exact ih hnil (by rw [hparent]; exact Option.some_ne_none _)

/-- Names lead straight down to a location that is no link. -/
theorem FileTree.walkWith_down {t : FileTree Name}
    (follow : Location Name → List (Piece Name) → Option (Location Name)) {l rest : Location Name}
    (h : t.Real (l ++ rest)) : t.walkWith follow l (rest.map .down) = some (l ++ rest) := by
  induction rest generalizing l with
  | nil => rw [List.map_nil, walkWith, List.append_nil]
  | cons name rest ih =>
    have hsplit : l ++ name :: rest = l ++ [name] ++ rest := by simp
    have hexists : t.node (l ++ name :: rest) ≠ none := by
      obtain ⟨node, hnode, -⟩ := h
      rw [hnode]
      exact Option.some_ne_none _
    have hreal : t.Real (l ++ [name]) := by
      by_cases hnil : rest = []
      · rw [hnil] at h
        exact h
      · exact real_of_dir (dir_of_append hnil (hsplit ▸ hexists))
    obtain ⟨node, hnode, hlink⟩ := hreal
    rw [hsplit] at h ⊢
    rw [List.map_cons, walkWith, dir_of_append (List.cons_ne_nil name rest) hexists]
    simp only
    rw [hnode]
    cases node with
    | link target => exact absurd rfl (hlink target)
    | _ => exact ih h

/-- The path to a location that is no link resolves to this location. -/
theorem FileTree.walk_ofLocation {t : FileTree Name} (k : ℕ) {l : Location Name} (h : t.Real l) :
    t.walk k [] (PathName.ofLocation l).pieces = some l := by
  cases k with
  | zero => exact walkWith_down _ h
  | succ k => exact walkWith_down _ h

/-- The tree of a list of entries. -/
def FileTree.ofEntries [DecidableEq Name] (entries : List (Location Name × Node Name))
    (hroot : entries.lookup [] = some .dir)
    (hparent : ∀ e ∈ entries, e.1 ≠ [] → entries.lookup e.1.dropLast = some .dir) :
    FileTree Name where
  node l := entries.lookup l
  root_dir := hroot
  parent_dir l name h := by
    cases hlookup : entries.lookup (l ++ [name]) with
    | none => exact absurd hlookup h
    | some node =>
      obtain ⟨before, after, hentries, -⟩ := List.lookup_eq_some_iff.mp hlookup
      have hmem : (l ++ [name], node) ∈ entries := by
        rw [hentries]
        exact List.mem_append_right before List.mem_cons_self
      simpa using hparent _ hmem (by simp)

end Links
