import Devcroft.Config.Naming
import Devcroft.Lifecycle.Up

/-!
# The paths of a sandbox's state

Below the data directory, next to each other, there are the directories of the sandboxes, their
lifecycle locks and the key of the client. The names of sandboxes keep these apart.
-/

namespace Devcroft.Lifecycle

open Config Posix

/-- `StatePaths`. -/
structure StatePaths where
  root : String
  socket : String
  pidfile : String
  profile : String
  log : String
  metaFile : String
  sshSocket : String
  sshHostKey : String
  proxyPidfile : String
  proxyLog : String
  proxySocket : String
  lifecycleLock : String
  deriving DecidableEq

/-- `StatePaths::in_dir`. -/
def StatePaths.inDir (root : String) : StatePaths where
  root := root
  socket := join root "control.sock"
  pidfile := join root "keeper.pid"
  profile := join root "profile.json"
  log := join root "keeper.log"
  metaFile := join root "meta.json"
  sshSocket := join root "ssh.sock"
  sshHostKey := join root "ssh_host_ed25519_key"
  proxyPidfile := join root "proxy.pid"
  proxyLog := join root "proxy.log"
  proxySocket := join root "proxy.sock"
  lifecycleLock := join root "lifecycle.lock"

/-- `StatePaths::new`. -/
def StatePaths.new (homeVar : Option String) (sandboxName : String) : Except String StatePaths :=
  if isValidName sandboxName then
    match dataDir homeVar with
    | .error e => .error e
    | .ok dir =>
      .ok { StatePaths.inDir (join dir sandboxName) with
        lifecycleLock := join dir (sandboxName ++ ".lock") }
  else
    .error ("'" ++ sandboxName ++
      "' is not a valid sandbox name ([a-z0-9][a-z0-9-]\x7b0,31\x7d)")

/-- `client_key_paths`. -/
def clientKeyPaths (homeVar : Option String) : Except String (String × String) :=
  match dataDir homeVar with
  | .error e => .error e
  | .ok dir => .ok (join dir "id_ed25519", join dir "id_ed25519.pub")

/-- The paths in the root. -/
def StatePaths.inside (paths : StatePaths) : List String :=
  [paths.socket, paths.pidfile, paths.profile, paths.log, paths.metaFile, paths.sshSocket,
    paths.sshHostKey, paths.proxyPidfile, paths.proxyLog, paths.proxySocket]

/-- The names of the files in a root. -/
def stateFiles : List String :=
  ["control.sock", "keeper.pid", "profile.json", "keeper.log", "meta.json", "ssh.sock",
    "ssh_host_ed25519_key", "proxy.pid", "proxy.log", "proxy.sock"]

/-- The location of some path of a sandbox: its root, anything under it, or its lock. -/
def StatePaths.Owns (paths : StatePaths) (cwd l : Location) : Prop :=
  locate cwd paths.root <+: l ∨ l = locate cwd paths.lifecycleLock

/-- A text that is one component of a path, and leads down. -/
structure IsComponent (name : String) : Prop where
  slash : '/' ∉ name.toList
  nonempty : name ≠ ""
  dot : name ≠ "."
  dots : name ≠ ".."

/-- Joining such a text leads to an entry of the directory. -/
theorem IsComponent.locate_join {name : String} (h : IsComponent name) (cwd : Location)
    (dir : String) : locate cwd (join dir name) = locate cwd dir ++ [name] := by
  have hrelative : isAbsolute name = false := by
    rw [Bool.eq_false_iff]
    intro habsolute
    obtain ⟨rest, rfl⟩ := isAbsolute_iff.mp habsolute
    exact h.slash (by simp)
  have hnames : names name = [name] := by
    have hsplit : Text.split '/' name = [name] := by
      simp [Text.split, List.splitOn_eq_singleton h.slash]
    simp [names, hsplit, h.nonempty, h.dot]
  rw [Posix.locate_join cwd dir hrelative, hnames, descend, List.foldl_cons, List.foldl_nil, enter,
    if_neg h.dots]

theorem nameChar_ne {c : Char} (h : NameChar c) : c ≠ '/' ∧ c ≠ '.' ∧ c ≠ '_' := by
  refine ⟨?_, ?_, ?_⟩
  all_goals
    rintro rfl
    exact absurd h (by decide)

/-- A name is one component, and so is the name of its lock. -/
theorem isComponent_of_isName {name : String} (h : IsName name) :
    IsComponent name ∧ IsComponent (name ++ ".lock") := by
  have hchars := h.chars
  have hslash : '/' ∉ name.toList := fun hmem => (nameChar_ne (hchars _ hmem)).1 rfl
  have hdot : '.' ∉ name.toList := fun hmem => (nameChar_ne (hchars _ hmem)).2.1 rfl
  have hne : name ≠ "" := by
    obtain ⟨first, rest, hname, -⟩ := h
    rintro rfl
    cases hname
  refine ⟨⟨hslash, hne, ?_, ?_⟩, ⟨?_, ?_, ?_, ?_⟩⟩
  · rintro rfl
    exact hdot (by decide)
  · rintro rfl
    exact hdot (by decide)
  · rw [String.toList_append, List.mem_append, not_or]
    exact ⟨hslash, by decide⟩
  all_goals
    intro heq
    have hlength := congrArg (fun s => s.toList.length) heq
    simp at hlength

theorem new_eq_ok_iff {home sandboxName : String} {paths : StatePaths} :
    StatePaths.new (some home) sandboxName = .ok paths ↔
      IsName sandboxName ∧
        paths = { StatePaths.inDir (join (join home ".local/share/devcroft") sandboxName) with
          lifecycleLock :=
            join (join home ".local/share/devcroft") (sandboxName ++ ".lock") } := by
  rw [← isValidName_iff]
  unfold StatePaths.new dataDir
  split
  · next hvalid => simp [hvalid, eq_comm]
  · next hvalid => simp [hvalid]

/-- The root is the state directory that `up` works in. -/
theorem new_root (homeVar : Option String) (sandboxName : String) :
    (StatePaths.new homeVar sandboxName).map StatePaths.root =
      statePaths homeVar sandboxName := by
  unfold StatePaths.new statePaths
  split
  · cases dataDir homeVar <;> rfl
  · rfl

/-- The paths of a sandbox in a data directory. -/
structure Placed (dir : Location) (sandboxName : String) (cwd : Location) (paths : StatePaths) :
    Prop where
  root : locate cwd paths.root = dir ++ [sandboxName]
  lock : locate cwd paths.lifecycleLock = dir ++ [sandboxName ++ ".lock"]
  inside : ∀ path ∈ paths.inside, ∃ name, locate cwd path = dir ++ [sandboxName, name]

theorem placed_of_new {home sandboxName : String} {paths : StatePaths}
    (h : StatePaths.new (some home) sandboxName = .ok paths) (cwd : Location) :
    Placed (locate cwd (join home ".local/share/devcroft")) sandboxName cwd paths := by
  obtain ⟨hname, rfl⟩ := new_eq_ok_iff.mp h
  obtain ⟨hroot, hlock⟩ := isComponent_of_isName hname
  have hlocate := hroot.locate_join cwd (join home ".local/share/devcroft")
  refine ⟨hlocate, hlock.locate_join cwd _, ?_⟩
  have hfile : ∀ file ∈ stateFiles, '/' ∉ file.toList ∧ file ≠ "" ∧ file ≠ "." ∧ file ≠ ".." := by
    decide
  intro path hpath
  have hjoined : path ∈ stateFiles.map
      (join (join (join home ".local/share/devcroft") sandboxName)) := hpath
  obtain ⟨file, hmem, rfl⟩ := List.mem_map.mp hjoined
  obtain ⟨hslash, hne, hdot, hdots⟩ := hfile file hmem
  have hinside : IsComponent file := ⟨hslash, hne, hdot, hdots⟩
  refine ⟨file, ?_⟩
  rw [hinside.locate_join, hlocate, List.append_assoc, List.singleton_append]

/-- What a sandbox owns is under an entry of the data directory: under its root, or its lock. -/
theorem Placed.owns {dir cwd l : Location} {sandboxName : String} {paths : StatePaths}
    (h : Placed dir sandboxName cwd paths) (howns : paths.Owns cwd l) :
    ∃ entry rest, l = dir ++ entry :: rest ∧
      (entry = sandboxName ∨ entry = sandboxName ++ ".lock" ∧ rest = []) := by
  rcases howns with hroot | hlock
  · rw [h.root] at hroot
    obtain ⟨rest, rfl⟩ := hroot
    exact ⟨sandboxName, rest, by simp, Or.inl rfl⟩
  · rw [h.lock] at hlock
    exact ⟨sandboxName ++ ".lock", [], hlock, Or.inr ⟨rfl, rfl⟩⟩

/-- Names and locks are told apart by the dot. -/
theorem isName_ne_lock {a b : String} (h : IsName a) : a ≠ b ++ ".lock" := by
  intro heq
  have hdot : '.' ∈ a.toList := by
    rw [heq, String.toList_append]
    exact List.mem_append_right _ (by decide)
  exact (nameChar_ne (h.chars _ hdot)).2.1 rfl

/-- A name or lock is not a file of the client's key. -/
theorem ne_key {name entry key : String} (h : IsName name)
    (hentry : entry = name ∨ entry = name ++ ".lock")
    (hkey : key = "id_ed25519" ∨ key = "id_ed25519.pub") :
    entry ≠ key := by
  have hchars := h.chars
  have hunderscore : '_' ∉ name.toList := fun hmem => (nameChar_ne (hchars _ hmem)).2.2 rfl
  rintro rfl
  have hmem : '_' ∈ entry.toList := by rcases hkey with rfl | rfl <;> decide
  rcases hentry with rfl | rfl
  · exact hunderscore hmem
  · rw [String.toList_append, List.mem_append] at hmem
    exact hmem.elim hunderscore (by decide)

/-- How the state of sandboxes is kept apart: `StatePaths::new` accepts just the names, each root is
an entry of the data directory with the other files in it; of two sandboxes none owns a path that
equals or lies under one of the other, and none owns a file of the client's key. -/
structure KeptApart (home : String) (cwd : Location) : Prop where
  accepted : ∀ s, (∃ paths, StatePaths.new (some home) s = .ok paths) ↔ IsName s
  placed : ∀ s paths, StatePaths.new (some home) s = .ok paths →
    ∃ dir, dataDir (some home) = .ok dir ∧ Placed (locate cwd dir) s cwd paths
  apart : ∀ a b pathsA pathsB, a ≠ b → StatePaths.new (some home) a = .ok pathsA →
    StatePaths.new (some home) b = .ok pathsB →
    ∀ l m, pathsA.Owns cwd l → pathsB.Owns cwd m → ¬l <+: m
  keys : ∀ s paths key pub, StatePaths.new (some home) s = .ok paths →
    clientKeyPaths (some home) = .ok (key, pub) →
    ∀ l, paths.Owns cwd l → l ≠ locate cwd key ∧ l ≠ locate cwd pub

/-- State paths of different sandboxes never meet. -/
theorem statePaths_keptApart (home : String) (cwd : Location) : KeptApart home cwd := by
  constructor
  · intro s
    constructor
    · rintro ⟨paths, hnew⟩
      exact (new_eq_ok_iff.mp hnew).1
    · intro hname
      exact ⟨_, new_eq_ok_iff.mpr ⟨hname, rfl⟩⟩
  · intro s paths hnew
    exact ⟨_, rfl, placed_of_new hnew cwd⟩
  · intro a b pathsA pathsB hne hnewA hnewB l m hl hm hprefix
    obtain ⟨entryA, restA, rfl, hentryA⟩ := (placed_of_new hnewA cwd).owns hl
    obtain ⟨entryB, restB, rfl, hentryB⟩ := (placed_of_new hnewB cwd).owns hm
    have hsame : entryA = entryB :=
      (List.cons_prefix_cons.mp ((List.prefix_append_right_inj _).mp hprefix)).1
    have hnameA := (new_eq_ok_iff.mp hnewA).1
    have hnameB := (new_eq_ok_iff.mp hnewB).1
    rcases hentryA with rfl | ⟨rfl, -⟩
    · rcases hentryB with rfl | ⟨rfl, -⟩
      · exact hne hsame
      · exact isName_ne_lock hnameA hsame
    · rcases hentryB with rfl | ⟨rfl, -⟩
      · exact isName_ne_lock hnameB hsame.symm
      · have hchars : a.toList = b.toList := by
          simpa using congrArg String.toList hsame
        exact hne (Text.ext hchars)
  · intro s paths key pub hnew hkeys l hl
    obtain ⟨rfl, rfl⟩ := Prod.mk.inj (Except.ok.inj hkeys)
    obtain ⟨entry, rest, rfl, hentry⟩ := (placed_of_new hnew cwd).owns hl
    have hname := (new_eq_ok_iff.mp hnew).1
    have hkey : IsComponent "id_ed25519" := ⟨by decide, by decide, by decide, by decide⟩
    have hpub : IsComponent "id_ed25519.pub" := ⟨by decide, by decide, by decide, by decide⟩
    rw [hkey.locate_join, hpub.locate_join]
    constructor
    · intro heq
      exact ne_key hname (hentry.imp id And.left) (Or.inl rfl)
        (List.cons.inj (List.append_cancel_left heq)).1
    · intro heq
      exact ne_key hname (hentry.imp id And.left) (Or.inr rfl)
        (List.cons.inj (List.append_cancel_left heq)).1

end Devcroft.Lifecycle
