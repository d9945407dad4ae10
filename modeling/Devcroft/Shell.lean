import Mathlib.Data.String.Basic
import Mathlib.Data.List.Destutter
import Devcroft.Files
import Devcroft.Lifecycle.Up

/-!
# The shell of a sandbox

`shell::resolve`: a shell that the project supplies on its `PATH`, or else one of the
closure that the environment was resolved from. The answer comes with the entry of the store
that is granted, so that the shell stays reachable.

The search of the closure takes the granted entry from the path of the shell as it is
written, not from what the path leads to.
-/

namespace Devcroft.Shell

open Links Files

/-- `SHELL_NAME`. -/
def SHELL_NAME : String := "sh"

/-- `ResolvedShell`. -/
structure ResolvedShell where
  path : PathName FileName
  /-- The entry of the store to grant. -/
  grant : Option String
  deriving DecidableEq

/-- What the host answers: its files, and the output of `nix-store --query --requisites` of an entry
of the store, where it succeeds. -/
structure Host where
  fs : FileSystem
  nixStore : PathName FileName → Option (List UInt8)

/-- `resolve_on_path`. -/
def resolveOnPath (fs : FileSystem) (env : List (String × String)) : Option ResolvedShell :=
  (pathDirs env).findSome? fun dir =>
    let candidate := pathOf (Posix.join dir SHELL_NAME)
    if fs.isExecutableFile candidate then
      let real := match fs.canonicalize candidate with
        | some l => PathName.ofLocation l
        | none => candidate
      (storeRoot real).map fun root => ⟨real, some (toStringLossy root)⟩
    else none

/-- The entry of the store that a path leads into. -/
def storeEntry (fs : FileSystem) (path : String) : Option (PathName FileName) :=
  (fs.canonicalize (pathOf path)).bind fun l => storeRoot (PathName.ofLocation l)

/-- One round of the loop of `closure_roots`. -/
def pushRoot (fs : FileSystem) (roots : List (PathName FileName)) (candidate : String) :
    List (PathName FileName) :=
  match storeEntry fs candidate with
  | some root => if root ∈ roots then roots else roots ++ [root]
  | none => roots

/-- `closure_roots`. -/
def closureRoots (fs : FileSystem) (env : List (String × String)) : List (PathName FileName) :=
  ((pathDirs env).flatMap fun dir => dir :: (Lifecycle.parent dir).toList).foldl (pushRoot fs) []

/-- `requisites`. -/
def Host.requisites (host : Host) (root : PathName FileName) : List String :=
  match host.nixStore root with
  | none => []
  | some out => ((Text.lines (Utf8.decodeLossy out)).map Text.trim).filter (· ≠ "")

/-- The order of paths: by their components. -/
def pathLe (a b : String) : Bool := decide (Posix.names a ≤ Posix.names b)

/-- All requisites of an environment. -/
def Host.allRequisites (host : Host) (env : List (String × String)) : List String :=
  (closureRoots host.fs env).flatMap host.requisites

/-- The requisites in the order in which they are tried. -/
def Host.candidates (host : Host) (env : List (String × String)) : List String :=
  ((host.allRequisites env).mergeSort pathLe).destutter fun a b => Posix.names a ≠ Posix.names b

/-- The path of the shell in a store path. -/
def shellIn (storePath : String) : PathName FileName :=
  pathOf (Posix.join (Posix.join storePath "bin") SHELL_NAME)

/-- `resolve_in_closure`. -/
def resolveInClosure (host : Host) (env : List (String × String)) : Option ResolvedShell :=
  (host.candidates env).findSome? fun storePath =>
    if host.fs.isExecutableFile (shellIn storePath) then
      some ⟨shellIn storePath, some storePath⟩
    else none

/-- `resolve`. -/
def resolve (host : Host) (env : List (String × String)) : Option ResolvedShell :=
  (resolveOnPath host.fs env).or (resolveInClosure host env)

/-- The path of an entry of the store. -/
def IsStorePath (path : String) (entry : FileName) : Prop :=
  Utf8.encode path = Utf8.encode "/nix/store/" ++ entry.bytes

/-- `nix-store` answers with the paths of entries of the store. -/
def Host.AnswersStorePaths (host : Host) : Prop :=
  ∀ root, ∀ path ∈ host.requisites root, ∃ entry, IsStorePath path entry

/-- The path of a shell leads to an executable file below the entry of the store that is granted. -/
def ResolvedShell.Covered (fs : FileSystem) (shell : ResolvedShell) : Prop :=
  ∃ g entry rest, shell.grant = some g ∧ IsStorePath g entry ∧
    fs.canonicalize shell.path = some (nix :: store :: entry :: rest) ∧
    fs.tree.node (nix :: store :: entry :: rest) = some (.file true)

/-- The shell of a directory is an executable file below an entry of the store. -/
def Supplies (fs : FileSystem) (dir : String) (entry : FileName) : Prop :=
  ∃ rest, fs.canonicalize (pathOf (Posix.join dir SHELL_NAME)) =
      some (nix :: store :: entry :: rest) ∧
    fs.tree.node (nix :: store :: entry :: rest) = some (.file true)

/-- The shell of a store path is an executable file below this same store path. -/
def Holds (fs : FileSystem) (storePath : String) : Prop :=
  ResolvedShell.Covered fs ⟨shellIn storePath, some storePath⟩

/-- The first directory that supplies a shell has it in an entry of the store with a name in
UTF-8. -/
def Readable (fs : FileSystem) (env : List (String × String)) : Prop :=
  ∀ before dir after entry, pathDirs env = before ++ dir :: after → Supplies fs dir entry →
    Utf8.decode entry.bytes = none →
    ∃ d ∈ before, ∃ e, Supplies fs d e

/-- A requisite whose shell lies elsewhere comes after one that holds its shell. -/
def SelfContained (host : Host) (env : List (String × String)) : Prop :=
  ∀ storePath ∈ host.allRequisites env,
    host.fs.isExecutableFile (shellIn storePath) = true → ¬Holds host.fs storePath →
    ∃ earlier ∈ host.allRequisites env, Holds host.fs earlier ∧
      Posix.names earlier < Posix.names storePath

/-- What the search of `PATH` does with one directory. -/
theorem onPath_eq_some_iff {fs : FileSystem} {dir : String} {shell : ResolvedShell} :
    (let candidate := pathOf (Posix.join dir SHELL_NAME)
      if fs.isExecutableFile candidate then
        let real := match fs.canonicalize candidate with
          | some l => PathName.ofLocation l
          | none => candidate
        (storeRoot real).map fun root => (⟨real, some (toStringLossy root)⟩ : ResolvedShell)
      else none) = some shell ↔
      ∃ entry rest, fs.canonicalize (pathOf (Posix.join dir SHELL_NAME)) =
          some (nix :: store :: entry :: rest) ∧
        fs.tree.node (nix :: store :: entry :: rest) = some (.file true) ∧
        shell = ⟨PathName.ofLocation (nix :: store :: entry :: rest),
          some (toStringLossy (PathName.ofLocation [nix, store, entry]))⟩ := by
  constructor
  · intro h
    simp only at h
    split at h
    · next hexecutable =>
      obtain ⟨l, hl, hnode⟩ := FileSystem.isExecutableFile_iff.mp hexecutable
      rw [hl] at h
      obtain ⟨root, hroot, rfl⟩ := Option.map_eq_some_iff.mp h
      obtain ⟨entry, rest, rfl, rfl⟩ := storeRoot_ofLocation.mp hroot
      exact ⟨entry, rest, hl, hnode, rfl⟩
    · cases h
  · rintro ⟨entry, rest, hl, hnode, rfl⟩
    simp only
    rw [if_pos (FileSystem.isExecutableFile_iff.mpr ⟨_, hl, hnode⟩), hl]
    simp only
    rw [storeRoot_ofLocation.mpr ⟨entry, rest, rfl, rfl⟩]
    rfl

/-- The granted path of an entry of the store is its own exactly if its name is in UTF-8. -/
theorem isStorePath_toStringLossy (entry : FileName) :
    IsStorePath (toStringLossy (PathName.ofLocation [nix, store, entry])) entry ↔
      Utf8.decode entry.bytes ≠ none := by
  have hstart : Utf8.encode "/nix/store/" =
      [47] ++ nix.bytes ++ [47] ++ store.bytes ++ [47] := by decide
  have hbytes : pathBytes (PathName.ofLocation [nix, store, entry]) =
      Utf8.encode "/nix/store/" ++ entry.bytes := by
    rw [hstart]
    simp [pathBytes, PathName.ofLocation, pieceBytes, List.intercalate]
  rw [toStringLossy, hbytes]
  constructor
  · intro h hnone
    obtain ⟨name, -, hname⟩ := Utf8.exists_append_of_encode h
    rw [← hname, Utf8.decode_encode] at hnone
    cases hnone
  · intro h
    obtain ⟨name, hname⟩ := Option.ne_none_iff_exists'.mp h
    rw [IsStorePath, ← Utf8.encode_of_decode hname, ← Utf8.encode_append, Utf8.decodeLossy_encode]

/-- The shell that a directory supplies is covered exactly if its entry of the store has a name in
UTF-8. -/
theorem covered_onPath_iff {fs : FileSystem} {dir : String} {entry : FileName}
    {rest : Location FileName}
    (h : fs.canonicalize (pathOf (Posix.join dir SHELL_NAME)) =
      some (nix :: store :: entry :: rest))
    (hnode : fs.tree.node (nix :: store :: entry :: rest) = some (.file true)) :
    ResolvedShell.Covered fs ⟨PathName.ofLocation (nix :: store :: entry :: rest),
        some (toStringLossy (PathName.ofLocation [nix, store, entry]))⟩ ↔
      Utf8.decode entry.bytes ≠ none := by
  have hlocation := FileSystem.canonicalize_ofLocation h
  rw [← isStorePath_toStringLossy]
  constructor
  · rintro ⟨g, entry', rest', hg, hpath, hcanonical, -⟩
    have heq := Option.some.inj (hlocation.symm.trans hcanonical)
    simp only [List.cons.injEq, true_and] at heq
    rw [← heq.1, ← Option.some.inj hg] at hpath
    exact hpath
  · intro hpath
    exact ⟨_, entry, rest, rfl, hpath, hlocation, hnode⟩

/-- A shell found on `PATH` is covered, whatever it is, exactly if the first directory with one is
readable. -/
theorem resolveOnPath_covered_iff (fs : FileSystem) (env : List (String × String)) :
    (∀ shell, resolveOnPath fs env = some shell → shell.Covered fs) ↔ Readable fs env := by
  constructor
  · intro h before dir after entry hdirs hsupplies hname
    by_contra hnone
    push Not at hnone
    obtain ⟨rest, hl, hnode⟩ := hsupplies
    refine (covered_onPath_iff hl hnode).mp (h _ ?_) hname
    rw [resolveOnPath, hdirs, List.findSome?_eq_some_iff]
    refine ⟨before, dir, after, rfl, onPath_eq_some_iff.mpr ⟨entry, rest, hl, hnode, rfl⟩, ?_⟩
    intro d hd
    by_contra hsome
    obtain ⟨shell, hshell⟩ := Option.ne_none_iff_exists'.mp hsome
    obtain ⟨e, rest', hl', hnode', -⟩ := onPath_eq_some_iff.mp hshell
    exact hnone d hd e ⟨rest', hl', hnode'⟩
  · intro h shell hshell
    rw [resolveOnPath, List.findSome?_eq_some_iff] at hshell
    obtain ⟨before, dir, after, hdirs, hfound, hbefore⟩ := hshell
    obtain ⟨entry, rest, hl, hnode, rfl⟩ := onPath_eq_some_iff.mp hfound
    rw [covered_onPath_iff hl hnode]
    intro hname
    obtain ⟨d, hd, e, rest', hl', hnode'⟩ := h before dir after entry hdirs ⟨rest, hl, hnode⟩ hname
    have hnone := hbefore d hd
    rw [onPath_eq_some_iff.mpr ⟨e, rest', hl', hnode', rfl⟩] at hnone
    cases hnone

/-- The names on a store path. -/
theorem IsStorePath.names {path : String} {entry : FileName} (h : IsStorePath path entry) :
    ∃ name, path = "/nix/store/" ++ name ∧ Utf8.encode name = entry.bytes ∧
      Posix.names path = ["nix", "store", name] := by
  obtain ⟨name, rfl, hname⟩ := Utf8.exists_append_of_encode h
  obtain ⟨hne, hdot, -, hslash⟩ := entry.isName
  rw [← hname] at hne hdot hslash
  have hnotMem : '/' ∉ name.toList := by
    intro hmem
    apply hslash
    rw [Utf8.encode_eq_flatMap, List.mem_flatMap]
    exact ⟨'/', hmem, by decide⟩
  have hsplit : Text.split '/' name = [name] := by
    rw [Text.split, List.splitOn_eq_singleton hnotMem]
    simp
  have hkeep : name ≠ "" ∧ name ≠ "." := by
    constructor
    · rintro rfl
      exact hne rfl
    · rintro rfl
      exact hdot (by decide)
  refine ⟨name, rfl, hname, ?_⟩
  have happend : "/nix/store/" ++ name = "/nix/store" ++ "/" ++ name := by
    rw [show ("/nix/store/" : String) = "/nix/store" ++ "/" by decide]
  rw [happend, Posix.names_append_slash, Posix.names, Posix.names, hsplit,
    List.filter_cons_of_pos (by simpa using hkeep)]
  rfl

/-- Store paths with the same names are the same. -/
theorem IsStorePath.eq_of_names {a b : String} {entry entry' : FileName} (h : IsStorePath a entry)
    (h' : IsStorePath b entry') (heq : Posix.names a = Posix.names b) : a = b := by
  obtain ⟨name, rfl, -, hnames⟩ := h.names
  obtain ⟨name', rfl, -, hnames'⟩ := h'.names
  rw [hnames, hnames'] at heq
  simp only [List.cons.injEq, true_and, and_true] at heq
  rw [heq]

/-- Removing neighbours that are equal in some respect keeps one of each. -/
theorem exists_mem_destutter {α β : Type} [DecidableEq β] (f : α → β) {l : List α} {a : α}
    (h : a ∈ l) : ∃ b ∈ l.destutter fun a b => f a ≠ f b, f b = f a := by
  have hcons : ∀ (l : List α) (first : α), ∀ a ∈ first :: l,
      ∃ b ∈ l.destutter' (fun a b => f a ≠ f b) first, f b = f a := by
    intro l
    induction l with
    | nil =>
      intro first a ha
      exact ⟨first, by simp, by rw [List.mem_singleton.mp ha]⟩
    | cons next l ih =>
      intro first a ha
      rw [List.destutter']
      split
      · rcases List.mem_cons.mp ha with rfl | ha
        · exact ⟨a, List.mem_cons_self, rfl⟩
        · obtain ⟨b, hb, heq⟩ := ih next a ha
          exact ⟨b, List.mem_cons_of_mem _ hb, heq⟩
      · next hsame =>
        rw [not_not] at hsame
        rcases List.mem_cons.mp ha with rfl | ha
        · exact ih a a List.mem_cons_self
        · rcases List.mem_cons.mp ha with rfl | ha
          · obtain ⟨b, hb, heq⟩ := ih first first List.mem_cons_self
            exact ⟨b, hb, heq.trans hsame⟩
          · exact ih first a (List.mem_cons_of_mem _ ha)
  cases l with
  | nil => cases h
  | cons first l => exact hcons l first a h

/-- The candidates are in the order of their names. -/
theorem candidates_sorted (host : Host) (env : List (String × String)) :
    (host.candidates env).Pairwise fun a b => Posix.names a ≤ Posix.names b := by
  have hsorted : ((host.allRequisites env).mergeSort pathLe).Pairwise
      fun a b => pathLe a b = true := by
    apply List.pairwise_mergeSort
    · intro a b c hab hbc
      simp only [pathLe, decide_eq_true_eq] at hab hbc ⊢
      exact le_trans hab hbc
    · intro a b
      simp only [pathLe, Bool.or_eq_true, decide_eq_true_eq]
      exact le_total _ _
  refine (hsorted.sublist (List.destutter_sublist _ _)).imp fun {a b} h => ?_
  simpa [pathLe] using h

section Closure

variable {host : Host} {env : List (String × String)}

theorem Host.AnswersStorePaths.isStorePath (hanswers : host.AnswersStorePaths) {path : String}
    (h : path ∈ host.allRequisites env) : ∃ entry, IsStorePath path entry := by
  obtain ⟨root, -, hpath⟩ := List.mem_flatMap.mp h
  exact hanswers root path hpath

/-- The candidates are the requisites. -/
theorem mem_candidates_iff (hanswers : host.AnswersStorePaths) {path : String} :
    path ∈ host.candidates env ↔ path ∈ host.allRequisites env := by
  have hsubset : ∀ {path}, path ∈ host.candidates env → path ∈ host.allRequisites env :=
    fun h => List.mem_mergeSort.mp ((List.destutter_sublist _ _).subset h)
  constructor
  · exact hsubset
  · intro h
    have hsorted : path ∈ (host.allRequisites env).mergeSort pathLe := List.mem_mergeSort.mpr h
    obtain ⟨other, hother, heq⟩ := exists_mem_destutter Posix.names hsorted
    obtain ⟨entry, hentry⟩ := hanswers.isStorePath h
    obtain ⟨entry', hentry'⟩ := hanswers.isStorePath (hsubset hother)
    rw [← hentry'.eq_of_names hentry heq]
    exact hother

/-- The search of the closure finds the first candidate with an executable shell. -/
theorem resolveInClosure_eq_some_iff {shell : ResolvedShell} :
    resolveInClosure host env = some shell ↔
      ∃ before storePath after, host.candidates env = before ++ storePath :: after ∧
        host.fs.isExecutableFile (shellIn storePath) = true ∧
        shell = ⟨shellIn storePath, some storePath⟩ ∧
        ∀ earlier ∈ before, host.fs.isExecutableFile (shellIn earlier) = false := by
  rw [resolveInClosure, List.findSome?_eq_some_iff]
  constructor
  · rintro ⟨before, storePath, after, hcandidates, hfound, hbefore⟩
    split at hfound
    · next hexecutable =>
      refine ⟨before, storePath, after, hcandidates, hexecutable, (Option.some.inj hfound).symm, ?_⟩
      intro earlier hearlier
      have hnone := hbefore earlier hearlier
      split at hnone
      · cases hnone
      · next hnot => exact Bool.not_eq_true _ ▸ hnot
    · cases hfound
  · rintro ⟨before, storePath, after, hcandidates, hexecutable, rfl, hbefore⟩
    refine ⟨before, storePath, after, hcandidates, if_pos hexecutable, ?_⟩
    intro earlier hearlier
    rw [if_neg (by rw [hbefore earlier hearlier]; decide)]

/-- A store path that holds its shell has an executable shell. -/
theorem Holds.isExecutableFile {fs : FileSystem} {storePath : String} (h : Holds fs storePath) :
    fs.isExecutableFile (shellIn storePath) = true := by
  obtain ⟨g, entry, rest, -, -, hl, hnode⟩ := h
  exact FileSystem.isExecutableFile_iff.mpr ⟨_, hl, hnode⟩

/-- A candidate is a requisite, and what is not before it among the candidates is not smaller. -/
theorem names_le_of_candidates_eq (hanswers : host.AnswersStorePaths) {before after : List String}
    {first : String} (hcandidates : host.candidates env = before ++ first :: after) :
    first ∈ host.allRequisites env ∧ ∀ other ∈ host.allRequisites env,
      other ∉ before → Posix.names first ≤ Posix.names other := by
  constructor
  · apply (mem_candidates_iff hanswers).mp
    rw [hcandidates]
    exact List.mem_append_right _ List.mem_cons_self
  · intro other hother hbefore
    have hsorted := candidates_sorted host env
    have hcandidate := (mem_candidates_iff hanswers).mpr hother
    rw [hcandidates, List.pairwise_append, List.pairwise_cons] at hsorted
    rw [hcandidates, List.mem_append, List.mem_cons] at hcandidate
    rcases hcandidate.resolve_left hbefore with rfl | hafter
    · exact le_refl _
    · exact hsorted.2.1.1 other hafter

/-- A shell found in the closure is covered exactly if requisites with a shell from elsewhere come
after one that holds its shell. -/
theorem resolveInClosure_covered_iff (hanswers : host.AnswersStorePaths) :
    (∀ shell, resolveInClosure host env = some shell → shell.Covered host.fs) ↔
      SelfContained host env := by
  constructor
  · intro h storePath hmem hexecutable hnot
    cases hresolve : resolveInClosure host env with
    | none =>
      rw [resolveInClosure, List.findSome?_eq_none_iff] at hresolve
      have hnone := hresolve storePath ((mem_candidates_iff hanswers).mpr hmem)
      rw [if_pos hexecutable] at hnone
      cases hnone
    | some shell =>
      have hcovered := h shell hresolve
      obtain ⟨before, first, after, hcandidates, -, rfl, hbefore⟩ :=
        resolveInClosure_eq_some_iff.mp hresolve
      obtain ⟨hfirst, hle⟩ := names_le_of_candidates_eq hanswers hcandidates
      refine ⟨first, hfirst, hcovered, ?_⟩
      have hnotBefore : storePath ∉ before := by
        intro hearlier
        rw [hbefore storePath hearlier] at hexecutable
        cases hexecutable
      apply lt_of_le_of_ne (hle storePath hmem hnotBefore)
      intro heq
      obtain ⟨entry, hentry⟩ := hanswers.isStorePath hfirst
      obtain ⟨entry', hentry'⟩ := hanswers.isStorePath hmem
      have hsame : first = storePath := hentry.eq_of_names hentry' heq
      rw [hsame] at hcovered
      exact hnot hcovered
  · intro h shell hresolve
    obtain ⟨before, first, after, hcandidates, hexecutable, rfl, hbefore⟩ :=
      resolveInClosure_eq_some_iff.mp hresolve
    obtain ⟨hfirst, hle⟩ := names_le_of_candidates_eq hanswers hcandidates
    by_contra hnot
    obtain ⟨earlier, hearlier, hholds, hlt⟩ := h first hfirst hexecutable hnot
    apply absurd hlt (not_lt_of_ge (hle earlier hearlier _))
    intro hmem
    have hfalse := hbefore earlier hmem
    rw [hholds.isExecutableFile] at hfalse
    cases hfalse

/-- `PATH` has no shell of the store. -/
theorem resolveOnPath_eq_none_iff {fs : FileSystem} {env : List (String × String)} :
    resolveOnPath fs env = none ↔ ∀ dir ∈ pathDirs env, ∀ entry, ¬Supplies fs dir entry := by
  rw [resolveOnPath, List.findSome?_eq_none_iff]
  constructor
  · rintro h dir hdir entry ⟨rest, hl, hnode⟩
    have hnone := h dir hdir
    rw [onPath_eq_some_iff.mpr ⟨entry, rest, hl, hnode, rfl⟩] at hnone
    cases hnone
  · intro h dir hdir
    by_contra hsome
    obtain ⟨shell, hshell⟩ := Option.ne_none_iff_exists'.mp hsome
    obtain ⟨entry, rest, hl, hnode, -⟩ := onPath_eq_some_iff.mp hshell
    exact h dir hdir entry ⟨rest, hl, hnode⟩

/-- The granted entry of the store covers the shell that is found exactly if the first shell on
`PATH` is in an entry with a name in UTF-8, and, where `PATH` has none, requisites with a shell from
elsewhere come after one that holds its shell. -/
theorem resolve_covered_iff (hanswers : host.AnswersStorePaths) :
    (∀ shell, resolve host env = some shell → shell.Covered host.fs) ↔
      Readable host.fs env ∧
        ((∀ dir ∈ pathDirs env, ∀ entry, ¬Supplies host.fs dir entry) →
          SelfContained host env) := by
  rw [← resolveOnPath_covered_iff, ← resolveOnPath_eq_none_iff,
    ← resolveInClosure_covered_iff hanswers]
  constructor
  · intro h
    constructor
    · intro shell hshell
      exact h shell (by rw [resolve, hshell, Option.some_or])
    · intro hnone shell hshell
      exact h shell (by rw [resolve, hnone, Option.none_or, hshell])
  · rintro ⟨hpath, hclosure⟩ shell hshell
    cases honPath : resolveOnPath host.fs env with
    | some found =>
      rw [resolve, honPath, Option.some_or] at hshell
      obtain rfl := Option.some.inj hshell
      exact hpath found honPath
    | none =>
      rw [resolve, honPath, Option.none_or] at hshell
      exact hclosure honPath shell hshell

end Closure

/-- A store with an interpreter that has no shell, a package whose shell is a link into another
package, and this other package. -/
def sampleEntries : List (Location FileName × Node FileName) :=
  [([], .dir), (locationOf ["nix"], .dir), (locationOf ["nix", "store"], .dir),
    (locationOf ["nix", "store", "p-python"], .dir),
    (locationOf ["nix", "store", "p-python", "bin"], .dir),
    (locationOf ["nix", "store", "a-tools"], .dir),
    (locationOf ["nix", "store", "a-tools", "bin"], .dir),
    (locationOf ["nix", "store", "a-tools", "bin", "sh"],
      .link (pathOf "/nix/store/b-bash/bin/sh")),
    (locationOf ["nix", "store", "b-bash"], .dir),
    (locationOf ["nix", "store", "b-bash", "bin"], .dir),
    (locationOf ["nix", "store", "b-bash", "bin", "sh"], .file true)]

/-- The file system of this store. -/
def sampleFiles : FileSystem where
  tree := FileTree.ofEntries sampleEntries (by decide +kernel) (by decide +kernel)
  cwd := []
  cwd_dir := by decide +kernel
  maxLinks := 40

/-- A host with these files, whose interpreter has these requisites. -/
def sampleHost (requisites : String) : Host where
  fs := sampleFiles
  nixStore root :=
    if root = PathName.ofLocation (locationOf ["nix", "store", "p-python"]) then
      some (Utf8.encode requisites)
    else none

/-- An environment of the interpreter alone. -/
def sampleEnv : List (String × String) := [("PATH", "/nix/store/p-python/bin:/usr/bin:/bin")]

/-- The first of two requisites is found if it has a shell. -/
theorem sampleHost_resolve {requisites first second : String}
    (hrequisites : (sampleHost requisites).allRequisites sampleEnv = [first, second])
    (hsorted : pathLe first second = true) (hne : Posix.names first ≠ Posix.names second)
    (hexecutable : sampleFiles.isExecutableFile (shellIn first) = true) :
    resolve (sampleHost requisites) sampleEnv = some ⟨shellIn first, some first⟩ := by
  have hcandidates : (sampleHost requisites).candidates sampleEnv = [first, second] := by
    rw [Host.candidates, hrequisites, List.mergeSort_of_pairwise (List.pairwise_pair.mpr hsorted),
      List.destutter_pair, if_pos hne]
  have honPath : resolveOnPath sampleFiles sampleEnv = none := by decide +kernel
  have hclosure : resolveInClosure (sampleHost requisites) sampleEnv =
      some ⟨shellIn first, some first⟩ := by
    apply resolveInClosure_eq_some_iff.mpr
    exact ⟨[], first, [second], hcandidates, hexecutable, rfl, fun _ h => by cases h⟩
  exact (congrArg₂ Option.or honPath hclosure).trans rfl

/-- A shell that is a link into another entry of the store is found with a grant of the entry that
holds the link, and its target lies outside of it. -/
theorem resolve_not_covered :
    resolve (sampleHost "/nix/store/a-tools\n/nix/store/b-bash\n") sampleEnv =
        some ⟨shellIn "/nix/store/a-tools", some "/nix/store/a-tools"⟩ ∧
      sampleFiles.canonicalize (shellIn "/nix/store/a-tools") =
        some (locationOf ["nix", "store", "b-bash", "bin", "sh"]) ∧
      ¬ResolvedShell.Covered sampleFiles
        ⟨shellIn "/nix/store/a-tools", some "/nix/store/a-tools"⟩ := by
  have hl : sampleFiles.canonicalize (shellIn "/nix/store/a-tools") =
      some (locationOf ["nix", "store", "b-bash", "bin", "sh"]) := by decide +kernel
  have hrequisites : (sampleHost "/nix/store/a-tools\n/nix/store/b-bash\n").allRequisites
      sampleEnv = ["/nix/store/a-tools", "/nix/store/b-bash"] := by decide +kernel
  refine ⟨?_, hl, ?_⟩
  · exact sampleHost_resolve hrequisites (by decide +kernel) (by decide +kernel)
      (by decide +kernel)
  · rintro ⟨g, entry, rest, hg, hpath, hl', -⟩
    obtain rfl := Option.some.inj hg
    have heq := Option.some.inj (hl.symm.trans hl')
    have htarget : entry.bytes = Utf8.encode "b-bash" := by
      have hthird := congrArg (fun l => (l[2]?).map FileName.bytes) heq
      exact Option.some.inj (hthird.symm.trans (by decide +kernel))
    rw [IsStorePath, htarget] at hpath
    exact absurd hpath (by decide +kernel)

/-- The theorem applied to a closure in which only one package has a shell, its own. -/
theorem resolve_covered_sample :
    ResolvedShell.Covered sampleFiles
      ⟨shellIn "/nix/store/b-bash", some "/nix/store/b-bash"⟩ := by
  have hstorePath : ∀ name, IsName (Utf8.encode name) →
      ∃ entry, IsStorePath ("/nix/store/" ++ name) entry :=
    fun name h => ⟨⟨Utf8.encode name, h⟩, Utf8.encode_append _ _⟩
  have hanswers : (sampleHost "/nix/store/b-bash\n/nix/store/p-python\n").AnswersStorePaths := by
    intro root path hpath
    by_cases hroot : root = PathName.ofLocation (locationOf ["nix", "store", "p-python"])
    · have hrequisites : (sampleHost "/nix/store/b-bash\n/nix/store/p-python\n").requisites
          (PathName.ofLocation (locationOf ["nix", "store", "p-python"])) =
          ["/nix/store/b-bash", "/nix/store/p-python"] := by decide +kernel
      rw [hroot, hrequisites] at hpath
      simp only [List.mem_cons, List.not_mem_nil, or_false] at hpath
      rcases hpath with rfl | rfl
      · exact hstorePath "b-bash" (by decide +kernel)
      · exact hstorePath "p-python" (by decide +kernel)
    · have hnone : (sampleHost "/nix/store/b-bash\n/nix/store/p-python\n").nixStore root = none :=
        if_neg hroot
      rw [Host.requisites, hnone] at hpath
      cases hpath
  have hrequisites : (sampleHost "/nix/store/b-bash\n/nix/store/p-python\n").allRequisites
      sampleEnv = ["/nix/store/b-bash", "/nix/store/p-python"] := by decide +kernel
  have hresolve := sampleHost_resolve hrequisites (by decide +kernel) (by decide +kernel)
    (by decide +kernel)
  refine (resolve_covered_iff hanswers).mpr ⟨?_, ?_⟩ _ hresolve
  · intro before dir after entry hdirs hsupplies
    have hnone : resolveOnPath sampleFiles sampleEnv = none := by decide +kernel
    have hdir : dir ∈ pathDirs sampleEnv := by simp [hdirs]
    exact absurd hsupplies (resolveOnPath_eq_none_iff.mp hnone dir hdir entry)
  · intro _ storePath hstore hexecutable hnot
    rw [hrequisites] at hstore
    simp only [List.mem_cons, List.not_mem_nil, or_false] at hstore
    rcases hstore with rfl | rfl
    · refine absurd ?_ hnot
      have hpath : Utf8.encode "/nix/store/b-bash" =
          Utf8.encode "/nix/store/" ++ Utf8.encode "b-bash" := by decide +kernel
      exact ⟨_, ⟨Utf8.encode "b-bash", by decide +kernel⟩, locationOf ["bin", "sh"], rfl,
        hpath, by decide +kernel, by decide +kernel⟩
    · exact absurd hexecutable (by decide +kernel)

end Devcroft.Shell
