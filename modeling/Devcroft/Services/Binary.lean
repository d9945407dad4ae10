import Devcroft.Files
import Devcroft.Lifecycle.Terminate

/-!
# The supervisor's binary

`resolve_in_env` looks for process-compose on the `PATH` of the resolved environment, and
`prepare_services` fails without it. The `PATH` of an activated environment ends with the
directories of the host, and the search takes the first file of the name: it does not ask,
as the search for the shell does, whether the file is an executable of the store.
-/

namespace Devcroft.Services

open Links Files Lifecycle Program

/-- The path of process-compose in a directory. -/
def candidate (dir : String) : String := Posix.join dir "process-compose"

/-- `resolve_in_env`. -/
def resolveInEnv (fs : FileSystem) (env : List (String × String)) : Option String :=
  ((pathDirs env).map candidate).find? fun path => fs.isFile (pathOf path)

/-- What the search for the shell asks of a file: that it leads to an executable file of the
store. -/
def InStore (fs : FileSystem) (path : String) : Prop :=
  ∃ l root, fs.canonicalize (pathOf path) = some l ∧ fs.tree.node l = some (.file true) ∧
    storeRoot (PathName.ofLocation l) = some root

/-- The environment itself supplies process-compose. -/
def Supplied (fs : FileSystem) (env : List (String × String)) : Prop :=
  ∃ dir ∈ pathDirs env, InStore fs (candidate dir)

/-- A file of the name that is no executable of the store comes after one that is. -/
def StoreFirst (fs : FileSystem) (env : List (String × String)) : Prop :=
  ∀ before dir after, pathDirs env = before ++ dir :: after →
    fs.isFile (pathOf (candidate dir)) = true → ¬InStore fs (candidate dir) →
    ∃ earlier ∈ before, InStore fs (candidate earlier)

/-- An `up` that has services to start in this environment. -/
structure Wants (fs : FileSystem) (env : List (String × String)) (input : UpInput)
    (resolution : Resolution) : Prop where
  search : input.resolveInEnv = resolveInEnv fs
  env_eq : resolution.env = env
  hooks : input.opts.skipHooks = false
  declared : resolution.services.names ≠ []

/-- Only what the environment supplies is found, and without it services are not started. -/
def OwnBinary (fs : FileSystem) (env : List (String × String)) : Prop :=
  (∀ path, resolveInEnv fs env = some path → InStore fs path) ∧
  (¬Supplied fs env → ∀ input resolution, Wants fs env input resolution →
    ∃ e, prepareServices input resolution = raise e)

/-- An executable of the store is a file. -/
theorem InStore.isFile {fs : FileSystem} {path : String} (h : InStore fs path) :
    fs.isFile (pathOf path) = true := by
  obtain ⟨l, root, hl, hnode, -⟩ := h
  rw [FileSystem.isFile, FileSystem.metadata, hl, Option.bind_some, hnode]

/-- Without a binary the preparation of services fails before it does anything. -/
theorem prepareServices_fails {input : UpInput} {resolution : Resolution}
    (hhooks : input.opts.skipHooks = false) (hdeclared : resolution.services.names ≠ [])
    (hnone : input.resolveInEnv resolution.env = none) :
    ∃ e, prepareServices input resolution = raise e := by
  have hsupported : resolution.services ≠ .unsupported := by
    intro h
    rw [h] at hdeclared
    exact hdeclared rfl
  have hempty : resolution.services.names.isEmpty = false := by
    cases hnames : resolution.services.names with
    | nil => exact absurd hnames hdeclared
    | cons name names => rfl
  obtain ⟨e, he⟩ : ∃ e, checkServices input resolution = .error e := by
    rw [checkServices, hnone]
    split
    · exact ⟨_, rfl⟩
    · exact ⟨_, rfl⟩
  refine ⟨e, ?_⟩
  rw [prepareServices, if_neg hsupported, hhooks, hempty, he]
  rfl

/-- A host with its own process-compose, and a package in the store without one. -/
def hostFiles : FileSystem where
  tree := FileTree.ofEntries
    [([], .dir), (locationOf ["nix"], .dir), (locationOf ["nix", "store"], .dir),
      (locationOf ["nix", "store", "p-python"], .dir),
      (locationOf ["nix", "store", "p-python", "bin"], .dir), (locationOf ["usr"], .dir),
      (locationOf ["usr", "bin"], .dir),
      (locationOf ["usr", "bin", "process-compose"], .file true)]
    (by decide +kernel) (by decide +kernel)
  cwd := []
  cwd_dir := by decide +kernel
  maxLinks := 40

/-- The environment of an activation that puts the package in front of the host's directories. -/
def hostEnv : List (String × String) :=
  [("PATH", "/nix/store/p-python/bin:" ++ Provider.CANONICAL_PATH)]

/-- A project with this search for the binary. -/
def hostInput : UpInput := { sampleInput [] with resolveInEnv := resolveInEnv hostFiles }

/-- The environment with one service. -/
def hostResolution : Resolution := ⟨hostEnv, [], [], none, .declared ["web"], false⟩

end Devcroft.Services
