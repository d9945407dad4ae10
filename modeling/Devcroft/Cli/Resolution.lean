import Devcroft.Config.Discovery
import Devcroft.Exec.Client
import Devcroft.Lifecycle.StartTime

/-!
# Which sandbox a command is about

A command is about the sandbox that it is given the name of, or else about the one whose manifest is
discovered from the current directory. `exec` brings that sandbox up first, where it is down and
this is its project.
-/

namespace Devcroft.Cli

open Config Lifecycle Posix

/-- What the commands find around them. -/
structure Surroundings where
  homeVar : Option String
  currentDir : Except String Location
  files : HostFiles
  toml : Toml
  machine : Status.Machine
  /-- `read_dir` of the data directory. -/
  dataDir : Except IoError (List (Except IoError Status.DirEntry))
  /-- What stands at the paths of a sandbox. -/
  sandbox : StatePaths → Status.Sandbox

/-- A command ends with a message and an exit code. -/
structure Refusal where
  message : String
  code : ℕ
  deriving DecidableEq

/-- An absolute path. -/
def showPath (l : Location) : String := "/" ++ "/".intercalate l

/-- `known_sandboxes_suffix`. -/
def Surroundings.knownSandboxesSuffix (s : Surroundings) : String :=
  match Status.ps s.machine s.homeVar s.dataDir with
  | .ok sandboxes =>
    if sandboxes.isEmpty then ""
    else " Known sandboxes: " ++ ", ".intercalate (sandboxes.map (·.name)) ++ "."
  | .error _ => ""

/-- `discover_manifest_with_warnings`. -/
def Surroundings.discoverManifestWithWarnings (s : Surroundings) (start : Location) :
    Except String (Manifest × Location × List Warning) :=
  match discover s.files start with
  | none =>
    .error ("no devcroft.toml found in this directory or its ancestors; " ++
      "pass a sandbox name explicitly." ++ s.knownSandboxesSuffix)
  | some manifestPath =>
    match s.files.readToString manifestPath with
    | .error e => .error ("reading " ++ showPath manifestPath ++ ": " ++ e)
    | .ok text =>
      match parse s.toml text with
      | .error e => .error (showPath manifestPath ++ ": " ++ e.display)
      | .ok (manifest, warnings) => .ok (manifest, manifestPath.dropLast, warnings)

/-- `discover_manifest`. -/
def Surroundings.discoverManifest (s : Surroundings) (start : Location) :
    Except String (Manifest × Location) :=
  (s.discoverManifestWithWarnings start).map fun found => (found.1, found.2.1)

/-- `resolve_sandbox_name`. -/
def Surroundings.resolveSandboxName (s : Surroundings) (start : Location) :
    Except String String :=
  (s.discoverManifest start).map fun found => found.1.sandbox.name

/-- The current directory, or the end of a command. -/
def Surroundings.cwd (s : Surroundings) (cmd : String) : Except Refusal Location :=
  s.currentDir.mapError fun e =>
    ⟨"devcroft " ++ cmd ++ ": cannot determine current directory: " ++ e, 1⟩

/-- `resolve_name_arg`. -/
def Surroundings.resolveNameArg (s : Surroundings) (args : List String) (usage cmd : String) :
    Except Refusal String :=
  match args with
  | [] =>
    match s.cwd cmd with
    | .error refusal => .error refusal
    | .ok cwd =>
      (s.resolveSandboxName cwd).mapError fun msg => ⟨"devcroft " ++ cmd ++ ": " ++ msg, 2⟩
  | [name] =>
    if Text.startsWith "--" name then .error ⟨usage, 2⟩
    else if isValidName name = false then
      .error ⟨"devcroft " ++ cmd ++ ": '" ++ name ++ "' is not a valid sandbox name " ++
        "([a-z0-9][a-z0-9-]\x7b0,31\x7d); did you mean '" ++ slugify name ++ "'?", 2⟩
    else .ok name
  | _ => .error ⟨usage, 2⟩

/-- `resolve_manifest_strict`. -/
def Surroundings.resolveManifestStrict (s : Surroundings) (nameArg : Option String)
    (cwd : Location) (cmd : String) : Except Refusal Manifest :=
  match s.discoverManifest cwd with
  | .ok (manifest, _) =>
    match nameArg with
    | none => .ok manifest
    | some name =>
      if manifest.sandbox.name ≠ name then
        .error ⟨"devcroft " ++ cmd ++ ": the manifest discovered from this directory is for " ++
          "sandbox '" ++ manifest.sandbox.name ++ "', not '" ++ name ++ "'; run from within " ++
          name ++ "'s own project directory", 2⟩
      else .ok manifest
  | .error msg => .error ⟨"devcroft " ++ cmd ++ ": " ++ msg, 2⟩

/-- The part of `maybe_auto_up` that looks for the project of a sandbox that is not up. -/
def Surroundings.ownProject (s : Surroundings) (sandboxName : String) (cwd : Location) :
    Option (Manifest × Location) :=
  match s.discoverManifest cwd with
  | .error _ => none
  | .ok (manifest, projectRoot) =>
    if manifest.sandbox.name ≠ sandboxName then none else some (manifest, projectRoot)

/-- `maybe_auto_up`, up to where it calls `up`: with which manifest and project. -/
def Surroundings.maybeAutoUp (s : Surroundings) (sandboxName : String) (cwd : Location) :
    Except String (Option (Manifest × Location)) :=
  match StatePaths.new s.homeVar sandboxName with
  | .error e => .error ("resolving state paths for '" ++ sandboxName ++ "': " ++ e)
  | .ok paths =>
    match Status.health s.machine (s.sandbox paths) with
    | .error e => .error ("checking '" ++ sandboxName ++ "' health: " ++ Status.IoError.text e)
    | .ok (.healthy _) => .ok none
    | .ok _ => .ok (s.ownProject sandboxName cwd)

/-- What `exec` is about to do. -/
structure Invocation where
  /-- The project to bring up first, if any. -/
  bringUp : Option (Manifest × Location)
  sandboxName : String
  request : Exec.ExecRequest
  deriving DecidableEq

def EXEC_USAGE : String :=
  "devcroft exec: usage: devcroft exec [--no-up] [name] -- <cmd> [args...]"

/-- The arguments of `exec`. -/
structure ExecArgs where
  noUp : Bool
  name : Option String
  cmd : String
  cmdRest : List String
  deriving DecidableEq

/-- The part of `cli_exec` that looks at its arguments. -/
def execArgs (args : List String) : Except Refusal ExecArgs :=
  match args.dropWhile (· ≠ "--") with
  | [] => .error ⟨EXEC_USAGE, 2⟩
  | _ :: commandArgs =>
    let given := args.takeWhile (· ≠ "--")
    match given.filter (· ≠ "--no-up"), commandArgs with
    | _ :: _ :: _, _ => .error ⟨EXEC_USAGE, 2⟩
    | _, [] => .error ⟨"devcroft exec: no command given after `--`", 2⟩
    | [], cmd :: cmdRest => .ok ⟨given.contains "--no-up", none, cmd, cmdRest⟩
    | [name], cmd :: cmdRest => .ok ⟨given.contains "--no-up", some name, cmd, cmdRest⟩

/-- The sandbox of a command that may be given a name. -/
def Surroundings.sandboxOf (s : Surroundings) (cmd : String) (cwd : Location) :
    Option String → Except Refusal String
  | none => (s.resolveSandboxName cwd).mapError fun msg => ⟨"devcroft " ++ cmd ++ ": " ++ msg, 2⟩
  | some name => .ok name

/-- What `exec` brings up. -/
def Surroundings.bringUp (s : Surroundings) (noUp : Bool) (sandboxName : String) (cwd : Location) :
    Except Refusal (Option (Manifest × Location)) :=
  if noUp then .ok none
  else (s.maybeAutoUp sandboxName cwd).mapError fun msg => ⟨"devcroft exec: " ++ msg, 3⟩

/-- `cli_exec`, up to what it does in the end. -/
def Surroundings.cliExec (s : Surroundings) (args : List String) : Except Refusal Invocation := do
  let parsed ← execArgs args
  let cwd ← s.cwd "exec"
  let sandboxName ← s.sandboxOf "exec" cwd parsed.name
  let bringUp ← s.bringUp parsed.noUp sandboxName cwd
  return ⟨bringUp, sandboxName, ⟨parsed.cmd, parsed.cmdRest, showPath cwd⟩⟩

section Targets

variable {s : Surroundings} {cwd root dir : Location} {manifest : Manifest} {name : String}

/-- The project that a directory belongs to has this manifest. -/
structure Surroundings.Declares (s : Surroundings) (cwd root : Location) (manifest : Manifest) :
    Prop where
  project : ProjectOf s.files cwd root
  parsed : ∃ text warnings, s.files.readToString (root ++ [MANIFEST_FILE_NAME]) = .ok text ∧
    parse s.toml text = .ok (manifest, warnings)

/-- What `discover_manifest` finds. -/
theorem discoverManifest_eq_ok_iff :
    s.discoverManifest cwd = .ok (manifest, root) ↔ s.Declares cwd root manifest := by
  unfold Surroundings.discoverManifest Surroundings.discoverManifestWithWarnings
  constructor
  · intro h
    cases hdiscover : discover s.files cwd with
    | none =>
      rw [hdiscover] at h
      cases h
    | some manifestPath =>
      obtain ⟨root', hproject, rfl⟩ := discover_eq_some_iff.mp hdiscover
      rw [hdiscover] at h
      dsimp only at h
      cases hread : s.files.readToString (root' ++ [MANIFEST_FILE_NAME]) with
      | error e =>
        rw [hread] at h
        cases h
      | ok text =>
        rw [hread] at h
        dsimp only at h
        cases hparse : parse s.toml text with
        | error e =>
          rw [hparse] at h
          cases h
        | ok found =>
          rw [hparse] at h
          obtain ⟨rfl, rfl⟩ := Prod.mk.inj (Except.ok.inj h)
          rw [List.dropLast_concat]
          exact ⟨hproject, text, found.2, hread, hparse⟩
  · rintro ⟨hproject, text, warnings, hread, hparse⟩
    rw [discover_eq_some_iff.mpr ⟨root, hproject, rfl⟩]
    dsimp only
    rw [hread]
    dsimp only
    rw [hparse, List.dropLast_concat]
    rfl

/-- The name of a project's sandbox. -/
theorem resolveSandboxName_eq_ok_iff :
    s.resolveSandboxName cwd = .ok name ↔
      ∃ root manifest, s.Declares cwd root manifest ∧ manifest.sandbox.name = name := by
  unfold Surroundings.resolveSandboxName
  constructor
  · intro h
    cases hfound : s.discoverManifest cwd with
    | error e =>
      rw [hfound] at h
      cases h
    | ok found =>
      rw [hfound] at h
      exact ⟨found.2, found.1, discoverManifest_eq_ok_iff.mp hfound, Except.ok.inj h⟩
  · rintro ⟨root, manifest, hdeclares, rfl⟩
    rw [discoverManifest_eq_ok_iff.mpr hdeclares]
    rfl

theorem ownProject_eq_some_iff :
    s.ownProject name cwd = some (manifest, root) ↔
      s.Declares cwd root manifest ∧ manifest.sandbox.name = name := by
  rw [← discoverManifest_eq_ok_iff, Surroundings.ownProject]
  cases s.discoverManifest cwd with
  | error e => simp
  | ok found =>
    obtain ⟨found, projectRoot⟩ := found
    dsimp only
    split
    · next hne =>
      constructor
      · intro h
        cases h
      · rintro ⟨heq, hname⟩
        obtain ⟨rfl, rfl⟩ := Prod.mk.inj (Except.ok.inj heq)
        exact (hne hname).elim
    · next heq =>
      rw [ne_eq, not_not] at heq
      constructor
      · intro h
        obtain ⟨rfl, rfl⟩ := Prod.mk.inj (Option.some.inj h)
        exact ⟨rfl, heq⟩
      · rintro ⟨hfound, -⟩
        rw [Except.ok.inj hfound]

/-- What `maybe_auto_up` brings up: nothing where the keeper answers, and otherwise the project of
the current directory, if it has this name. -/
inductive Surroundings.BringsUp (s : Surroundings) (name : String) (cwd : Location) :
    Option (Manifest × Location) → Prop
  | healthy {paths : StatePaths} {pid : ℤ} (hpaths : StatePaths.new s.homeVar name = .ok paths)
      (hhealth : Status.health s.machine (s.sandbox paths) = .ok (.healthy pid)) :
      s.BringsUp name cwd none
  | elsewhere {paths : StatePaths} {health : Status.Health}
      (hpaths : StatePaths.new s.homeVar name = .ok paths)
      (hhealth : Status.health s.machine (s.sandbox paths) = .ok health)
      (hdown : ∀ pid, health ≠ .healthy pid)
      (hother : ∀ root manifest, s.Declares cwd root manifest → manifest.sandbox.name ≠ name) :
      s.BringsUp name cwd none
  | own {paths : StatePaths} {health : Status.Health} {root : Location} {manifest : Manifest}
      (hpaths : StatePaths.new s.homeVar name = .ok paths)
      (hhealth : Status.health s.machine (s.sandbox paths) = .ok health)
      (hdown : ∀ pid, health ≠ .healthy pid)
      (hproject : s.Declares cwd root manifest) (hname : manifest.sandbox.name = name) :
      s.BringsUp name cwd (some (manifest, root))

/-- What is brought up where the keeper does not answer. -/
theorem bringsUp_ownProject {paths : StatePaths} {health : Status.Health}
    (hpaths : StatePaths.new s.homeVar name = .ok paths)
    (hhealth : Status.health s.machine (s.sandbox paths) = .ok health)
    (hdown : ∀ pid, health ≠ .healthy pid) : s.BringsUp name cwd (s.ownProject name cwd) := by
  cases hown : s.ownProject name cwd with
  | none =>
    refine .elsewhere hpaths hhealth hdown fun root manifest hproject hname => ?_
    rw [ownProject_eq_some_iff.mpr ⟨hproject, hname⟩] at hown
    cases hown
  | some found =>
    obtain ⟨hproject, hname⟩ := ownProject_eq_some_iff.mp hown
    exact .own hpaths hhealth hdown hproject hname

/-- `maybe_auto_up` brings up no other project. -/
theorem maybeAutoUp_eq_ok_iff {bringUp : Option (Manifest × Location)} :
    s.maybeAutoUp name cwd = .ok bringUp ↔ s.BringsUp name cwd bringUp := by
  have hdownEq {paths : StatePaths} {health : Status.Health}
      (hpaths : StatePaths.new s.homeVar name = .ok paths)
      (hhealth : Status.health s.machine (s.sandbox paths) = .ok health)
      (hdown : ∀ pid, health ≠ .healthy pid) :
      s.maybeAutoUp name cwd = .ok (s.ownProject name cwd) := by
    unfold Surroundings.maybeAutoUp
    rw [hpaths]
    dsimp only
    rw [hhealth]
    cases health with
    | healthy pid => exact (hdown pid rfl).elim
    | none => rfl
    | stale pid => rfl
  constructor
  · intro h
    cases hpaths : StatePaths.new s.homeVar name with
    | error e =>
      rw [Surroundings.maybeAutoUp, hpaths] at h
      cases h
    | ok paths =>
      cases hhealth : Status.health s.machine (s.sandbox paths) with
      | error e =>
        rw [Surroundings.maybeAutoUp, hpaths] at h
        dsimp only at h
        rw [hhealth] at h
        cases h
      | ok health =>
        by_cases hdown : ∀ pid, health ≠ .healthy pid
        · rw [hdownEq hpaths hhealth hdown] at h
          rw [← Except.ok.inj h]
          exact bringsUp_ownProject hpaths hhealth hdown
        · simp only [ne_eq, not_forall, not_not] at hdown
          obtain ⟨pid, rfl⟩ := hdown
          rw [Surroundings.maybeAutoUp, hpaths] at h
          dsimp only at h
          rw [hhealth] at h
          rw [← Except.ok.inj h]
          exact .healthy hpaths hhealth
  · intro h
    cases h with
    | healthy hpaths hhealth =>
      rw [Surroundings.maybeAutoUp, hpaths]
      dsimp only
      rw [hhealth]
    | elsewhere hpaths hhealth hdown hother =>
      rw [hdownEq hpaths hhealth hdown]
      cases hown : s.ownProject name cwd with
      | none => rfl
      | some found =>
        obtain ⟨hproject, hname⟩ := ownProject_eq_some_iff.mp hown
        exact (hother _ _ hproject hname).elim
    | own hpaths hhealth hdown hproject hname =>
      rw [hdownEq hpaths hhealth hdown, ownProject_eq_some_iff.mpr ⟨hproject, hname⟩]

/-- A manifest counts in all directories of its project. -/
theorem Surroundings.Declares.within (h : s.Declares cwd root manifest) (habove : root <+: dir)
    (hbelow : dir <+: cwd) : s.Declares dir root manifest where
  project := h.project.within habove hbelow
  parsed := h.parsed

/-- Another error is no result either. -/
theorem mapError_eq_ok_iff {ε δ α : Type} {f : ε → δ} {x : Except ε α} {a : α} :
    x.mapError f = .ok a ↔ x = .ok a := by
  cases x <;> simp [Except.mapError]

/-- An option is not the name of a sandbox. -/
theorem isValidName_option (h : Text.startsWith "--" name = true) : isValidName name = false := by
  obtain ⟨rest, rfl⟩ := Text.startsWith_iff.mp h
  have hdash : isNameChar '-' = false := by decide
  simp [isValidName, hdash]

/-- What `resolve_name_arg` accepts. -/
theorem resolveNameArg_eq_ok_iff {args : List String} {usage cmd : String} :
    s.resolveNameArg args usage cmd = .ok name ↔
      args = [name] ∧ isValidName name = true ∨ args = [] ∧ ∃ cwd root manifest,
        s.currentDir = .ok cwd ∧ s.Declares cwd root manifest ∧ manifest.sandbox.name = name := by
  unfold Surroundings.resolveNameArg Surroundings.cwd
  rcases args with - | ⟨given, - | ⟨second, others⟩⟩
  · dsimp only
    cases s.currentDir with
    | error e => simp [Except.mapError]
    | ok cwd =>
      change (s.resolveSandboxName cwd).mapError _ = _ ↔ _
      rw [mapError_eq_ok_iff, resolveSandboxName_eq_ok_iff]
      simp
  · dsimp only
    split
    · next hoption =>
      have hinvalid := isValidName_option hoption
      constructor
      · intro h
        cases h
      · rintro (⟨hgiven, hvalid⟩ | ⟨hnil, -⟩)
        · rw [(List.cons.inj hgiven).1, hvalid] at hinvalid
          cases hinvalid
        · cases hnil
    · split
      · next hinvalid =>
        constructor
        · intro h
          cases h
        · rintro (⟨hgiven, hvalid⟩ | ⟨hnil, -⟩)
          · rw [(List.cons.inj hgiven).1, hvalid] at hinvalid
            cases hinvalid
          · cases hnil
      · next hvalid =>
        rw [Bool.not_eq_false] at hvalid
        constructor
        · intro h
          obtain rfl := Except.ok.inj h
          exact Or.inl ⟨rfl, hvalid⟩
        · rintro (⟨hgiven, -⟩ | ⟨hnil, -⟩)
          · rw [(List.cons.inj hgiven).1]
          · cases hnil
  · simp

/-- Wherever a command is run in a project, it is about the sandbox of that project, or about one
that it is given the name of; and what it may touch of it is in one directory of its own. -/
theorem resolveNameArg_placed {args : List String} {home usage cmd : String}
    (hhome : s.homeVar = some home) (h : s.resolveNameArg args usage cmd = .ok name)
    (place : Location) :
    (∃ paths, StatePaths.new s.homeVar name = .ok paths ∧
      Placed (locate place (join home ".local/share/devcroft")) name place paths) ∧
    (args = [name] ∨ args = [] ∧ ∃ cwd root manifest, s.currentDir = .ok cwd ∧
      s.Declares cwd root manifest ∧ manifest.sandbox.name = name ∧
      ∀ dir, root <+: dir → dir <+: cwd → ∀ usage cmd,
        { s with currentDir := .ok dir }.resolveNameArg [] usage cmd = .ok name) := by
  have hresolved := resolveNameArg_eq_ok_iff.mp h
  have hvalid : isValidName name = true := by
    rcases hresolved with ⟨-, hvalid⟩ | ⟨-, cwd, root, manifest, -, hproject, rfl⟩
    · exact hvalid
    · obtain ⟨text, warnings, -, hparse⟩ := hproject.parsed
      exact (parse_ok hparse).name
  constructor
  · have hpaths : StatePaths.new (some home) name = .ok _ :=
      new_eq_ok_iff.mpr ⟨isValidName_iff.mp hvalid, rfl⟩
    rw [hhome]
    exact ⟨_, hpaths, placed_of_new hpaths place⟩
  · rcases hresolved with ⟨hargs, -⟩ | ⟨hargs, cwd, root, manifest, hcwd, hproject, hname⟩
    · exact Or.inl hargs
    · refine Or.inr ⟨hargs, cwd, root, manifest, hcwd, hproject, hname, ?_⟩
      intro dir habove hbelow usage cmd
      have hwithin := hproject.within habove hbelow
      exact resolveNameArg_eq_ok_iff.mpr
        (Or.inr ⟨rfl, dir, root, manifest, rfl, ⟨hwithin.project, hwithin.parsed⟩, hname⟩)

/-- A directory of a project, with a manifest and a git checkout in the same place. -/
def sampleSurroundings : Surroundings where
  homeVar := some "/home/u"
  currentDir := .ok ["home", "u", "p", "src"]
  files := ⟨fun l => l = ["home", "u", "p", "devcroft.toml"],
    fun l => l = ["home", "u", "p", ".git"], fun _ => .ok ""⟩
  toml := ⟨fun _ => .ok [],
    fun _ => .ok { RawManifest.default with sandbox := ⟨some "p", none⟩ }⟩
  machine := Status.sampleMachine
  dataDir := .ok []
  sandbox := fun _ => ⟨[], .absent, .absent, false, none⟩

/-- The sandbox of the project is found from a directory below. -/
theorem resolveNameArg_placed_below :
    (∃ paths, StatePaths.new (some "/home/u") "p" = .ok paths ∧
      Placed (locate [] (join "/home/u" ".local/share/devcroft")) "p" [] paths) ∧
    ∃ root manifest, sampleSurroundings.Declares ["home", "u", "p", "src"] root manifest ∧
      manifest.sandbox.name = "p" := by
  have h : sampleSurroundings.resolveNameArg [] "" "down" = .ok "p" := by decide +kernel
  obtain ⟨hpaths, hnamed⟩ := resolveNameArg_placed rfl h []
  rcases hnamed with hargs | ⟨-, cwd, root, manifest, hcwd, hproject, hname, -⟩
  · cases hargs
  · obtain rfl := Except.ok.inj hcwd
    exact ⟨hpaths, root, manifest, hproject, hname⟩

/-- What `resolve_manifest_strict` accepts: the manifest of the project, under the name that is
given. -/
theorem resolveManifestStrict_eq_ok_iff {nameArg : Option String} {cmd : String} :
    s.resolveManifestStrict nameArg cwd cmd = .ok manifest ↔
      (∃ root, s.Declares cwd root manifest) ∧
        ∀ given ∈ nameArg, manifest.sandbox.name = given := by
  unfold Surroundings.resolveManifestStrict
  simp only [← discoverManifest_eq_ok_iff]
  cases s.discoverManifest cwd with
  | error e => simp
  | ok found =>
    cases nameArg with
    | none =>
      constructor
      · intro h
        obtain rfl := Except.ok.inj h
        exact ⟨⟨found.2, rfl⟩, fun _ hgiven => nomatch hgiven⟩
      · rintro ⟨⟨root, hfound⟩, -⟩
        rw [Except.ok.inj hfound]
    | some given =>
      dsimp only
      split
      · next hne =>
        constructor
        · intro h
          cases h
        · rintro ⟨⟨root, hfound⟩, hgiven⟩
          rw [Except.ok.inj hfound] at hne
          exact (hne (hgiven given rfl)).elim
      · next heq =>
        rw [ne_eq, not_not] at heq
        constructor
        · intro h
          obtain rfl := Except.ok.inj h
          exact ⟨⟨found.2, rfl⟩, fun other hother => heq.trans (Option.some.inj hother)⟩
        · rintro ⟨⟨root, hfound⟩, -⟩
          rw [Except.ok.inj hfound]

/-- The arguments before the first `--`, and those behind it. -/
theorem separator_iff {args before after : List String} :
    args = before ++ "--" :: after ∧ "--" ∉ before ↔
      args.takeWhile (· ≠ "--") = before ∧ args.dropWhile (· ≠ "--") = "--" :: after := by
  constructor
  · rintro ⟨rfl, hbefore⟩
    have hplain : ∀ a ∈ before, decide (a ≠ "--") = true := fun a ha =>
      decide_eq_true fun h => hbefore (h ▸ ha)
    constructor
    · rw [List.takeWhile_append_of_pos hplain]
      simp
    · rw [List.dropWhile_append_of_pos hplain]
      simp
  · rintro ⟨htake, hdrop⟩
    constructor
    · rw [← htake, ← hdrop, List.takeWhile_append_dropWhile]
    · intro hmem
      rw [← htake] at hmem
      simpa using List.mem_takeWhile_imp hmem

/-- What the first argument that is left over is. -/
theorem dropWhile_separator {args after : List String} {first : String}
    (h : args.dropWhile (· ≠ "--") = first :: after) : first = "--" := by
  have hhead := List.head?_dropWhile_not (fun a : String => decide (a ≠ "--")) args
  rw [h] at hhead
  simpa using hhead

/-- `exec` takes everything behind the first `--` for the command. -/
theorem execArgs_eq_ok_iff {args : List String} {parsed : ExecArgs} :
    execArgs args = .ok parsed ↔
      ∃ before, args = before ++ "--" :: parsed.cmd :: parsed.cmdRest ∧ "--" ∉ before ∧
        before.filter (· ≠ "--no-up") = parsed.name.toList ∧
        parsed.noUp = before.contains "--no-up" := by
  constructor
  · intro h
    unfold execArgs at h
    cases hdrop : args.dropWhile (· ≠ "--") with
    | nil =>
      rw [hdrop] at h
      cases h
    | cons first commandArgs =>
      obtain rfl := dropWhile_separator hdrop
      obtain ⟨hargs, hbefore⟩ := separator_iff.mpr ⟨rfl, hdrop⟩
      rw [hdrop] at h
      dsimp only at h
      split at h
      · cases h
      · cases h
      · next hnames =>
        obtain rfl := Except.ok.inj h
        exact ⟨_, hargs, hbefore, hnames, rfl⟩
      · next hnames =>
        obtain rfl := Except.ok.inj h
        exact ⟨_, hargs, hbefore, hnames, rfl⟩
  · rintro ⟨before, hargs, hbefore, hnames, hnoUp⟩
    obtain ⟨htake, hdrop⟩ := separator_iff.mp ⟨hargs, hbefore⟩
    unfold execArgs
    rw [hdrop, htake]
    dsimp only
    obtain ⟨noUp, name, cmd, cmdRest⟩ := parsed
    obtain rfl : noUp = before.contains "--no-up" := hnoUp
    rw [hnames]
    cases name with
    | none => rfl
    | some name => rfl

/-- A step of a computation that may fail. -/
theorem bind_eq_ok_iff {ε α β : Type} {x : Except ε α} {f : α → Except ε β} {b : β} :
    x >>= f = .ok b ↔ ∃ a, x = .ok a ∧ f a = .ok b := by
  cases x <;> simp [bind, Except.bind]

/-- The sandbox that a command with at most one name is about. -/
theorem sandboxOf_eq_ok_iff {given : Option String} {cmd : String} :
    s.sandboxOf cmd cwd given = .ok name ↔
      given = some name ∨ given = none ∧ ∃ root manifest,
        s.Declares cwd root manifest ∧ manifest.sandbox.name = name := by
  cases given with
  | none =>
    rw [Surroundings.sandboxOf, mapError_eq_ok_iff, resolveSandboxName_eq_ok_iff]
    simp
  | some given => simp [Surroundings.sandboxOf]

/-- With `--no-up` nothing is brought up. -/
theorem bringUp_eq_ok_iff {noUp : Bool} {bringUp : Option (Manifest × Location)} :
    s.bringUp noUp name cwd = .ok bringUp ↔
      noUp = true ∧ bringUp = none ∨ ¬noUp = true ∧ s.BringsUp name cwd bringUp := by
  unfold Surroundings.bringUp
  split
  · next h => simp [h, eq_comm]
  · next h =>
    rw [mapError_eq_ok_iff, maybeAutoUp_eq_ok_iff]
    simp [h]

/-- `exec` runs all that is behind the first `--` and nothing else, in the sandbox that it is given
the name of, or in that of the current directory; and the project that it brings up first, if any,
is that of the current directory, under this name. -/
theorem cliExec_eq_ok_iff {args : List String} {inv : Invocation} :
    s.cliExec args = .ok inv ↔
      ∃ before cwd, args = before ++ "--" :: inv.request.cmd :: inv.request.args ∧
        "--" ∉ before ∧ s.currentDir = .ok cwd ∧ inv.request.cwd = showPath cwd ∧
        (before.filter (· ≠ "--no-up") = [inv.sandboxName] ∨
          before.filter (· ≠ "--no-up") = [] ∧ ∃ root manifest,
            s.Declares cwd root manifest ∧ manifest.sandbox.name = inv.sandboxName) ∧
        ("--no-up" ∈ before ∧ inv.bringUp = none ∨
          "--no-up" ∉ before ∧ s.BringsUp inv.sandboxName cwd inv.bringUp) := by
  unfold Surroundings.cliExec
  simp only [bind_eq_ok_iff]
  constructor
  · rintro ⟨parsed, hparsed, cwd, hcwd, sandboxName, hname, bringUp, hup, hinv⟩
    obtain ⟨before, hargs, hbefore, hnames, hnoUp⟩ := execArgs_eq_ok_iff.mp hparsed
    obtain rfl := Except.ok.inj hinv
    refine ⟨before, cwd, hargs, hbefore, mapError_eq_ok_iff.mp hcwd, rfl, ?_, ?_⟩
    · rw [hnames]
      rcases sandboxOf_eq_ok_iff.mp hname with hgiven | ⟨hnone, hproject⟩
      · exact Or.inl (by rw [hgiven]; rfl)
      · exact Or.inr ⟨by rw [hnone]; rfl, hproject⟩
    · rw [bringUp_eq_ok_iff, hnoUp, List.contains_iff_mem] at hup
      exact hup
  · rintro ⟨before, cwd, hargs, hbefore, hcwd, hrequest, hname, hup⟩
    obtain ⟨bringUp, sandboxName, cmd, cmdRest, dir⟩ := inv
    obtain rfl : dir = showPath cwd := hrequest
    have hbringUp : s.bringUp (before.contains "--no-up") sandboxName cwd = .ok bringUp := by
      rw [bringUp_eq_ok_iff, List.contains_iff_mem]
      exact hup
    rcases hname with hname | ⟨hname, hproject⟩
    · exact ⟨⟨before.contains "--no-up", some sandboxName, cmd, cmdRest⟩,
        execArgs_eq_ok_iff.mpr ⟨before, hargs, hbefore, hname, rfl⟩, cwd,
        mapError_eq_ok_iff.mpr hcwd, sandboxName, rfl, bringUp, hbringUp, rfl⟩
    · exact ⟨⟨before.contains "--no-up", none, cmd, cmdRest⟩,
        execArgs_eq_ok_iff.mpr ⟨before, hargs, hbefore, hname, rfl⟩, cwd,
        mapError_eq_ok_iff.mpr hcwd, sandboxName,
        sandboxOf_eq_ok_iff.mpr (Or.inr ⟨rfl, hproject⟩), bringUp, hbringUp, rfl⟩

end Targets

end Devcroft.Cli
