import Devcroft.Config.Manifest
import Devcroft.Provider.Capture

/-!
# The flox provider up to activation

`FloxProvider::resolve` as far as the `flox activate` that it runs on the host: which
environment directory it activates and what that directory then holds. A project with
an activation hook is activated from a derived copy without the hook, which is reused
when it is already there.

Paths lead to places that hold files, so that links among them, symbolic or hard, are
paths with one place.
-/

namespace Devcroft.Provider

open Config

/-- The files of a flox environment that devcroft reads or derives. -/
inductive FloxFile where
  | manifest
  | lock
  | envJson
  deriving DecidableEq

/-- The path of a file below `.flox`. -/
def FloxFile.relative : FloxFile → String
  | manifest => "env/manifest.toml"
  | lock => "env/manifest.lock"
  | envJson => "env.json"

/-- `ARTIFACT_DIR` of the services. -/
def ARTIFACT_DIR : String := ".devcroft"

/-- `DERIVED_ENV_PREFIX`. -/
def DERIVED_ENV_PREFIX : String := "flox-env-"

/-- The directory of an environment. -/
inductive EnvDir where
  /-- The project itself. -/
  | project
  /-- The derived copy for a fingerprint. -/
  | derived (fingerprint : String)
  deriving DecidableEq

/-- The path of a directory in a project. -/
def EnvDir.path (projectRoot : String) : EnvDir → String
  | project => projectRoot
  | derived fingerprint =>
    projectRoot ++ "/" ++ ARTIFACT_DIR ++ "/" ++ DERIVED_ENV_PREFIX ++ fingerprint

/-- What a path leads to. -/
inductive Node where
  /-- Nothing. -/
  | absent
  /-- A regular file. -/
  | file (bytes : List UInt8)
  /-- Something that can be neither read nor written as a file. -/
  | other
  deriving DecidableEq

variable {Place : Type} [DecidableEq Place]

/-- The files of the environments: where each path leads, and what is there. -/
structure Store (Place : Type) where
  /-- The place that a file of an environment leads to, links followed. -/
  place : EnvDir → FloxFile → Place
  /-- What is at a place. -/
  node : Place → Node

/-- What a file of an environment is. -/
def Store.at (s : Store Place) (d : EnvDir) (f : FloxFile) : Node := s.node (s.place d f)

/-- `fs::read`: the bytes of a file. -/
def Store.read (s : Store Place) (d : EnvDir) (f : FloxFile) : Option (List UInt8) :=
  match s.at d f with
  | .file bytes => some bytes
  | _ => none

/-- `Path::is_file`. -/
def Store.isFile (s : Store Place) (d : EnvDir) (f : FloxFile) : Bool := (s.read d f).isSome

/-- Make the place of a path a file with these bytes. -/
def Store.put (s : Store Place) (d : EnvDir) (f : FloxFile) (bytes : List UInt8) : Store Place :=
  { s with node := fun p => if p = s.place d f then .file bytes else s.node p }

/-- The bytes that `fs::copy` finds in its source: it opens the target, and so empties it, before
it reads. -/
def Store.copied (s : Store Place) (source target : EnvDir) (f : FloxFile)
    (bytes : List UInt8) : List UInt8 :=
  if s.place source f = s.place target f then [] else bytes

/-- The steps that can fail with an input or output error. -/
inductive Step where
  | readScript
  | readManifest
  | readLock
  | createDir
  | readText
  | writeManifest
  | copy (f : FloxFile)
  deriving DecidableEq

/-- Reading and writing of whole TOML documents by the `toml` crate. -/
structure TomlDoc where
  /-- Text to a table. -/
  parse : String → Except String Table
  /-- A table to text. -/
  toText : Table → Except String String

/-- What `resolve` runs with. -/
structure FloxHost (Place : Type) where
  projectRoot : String
  /-- Whether the project has a `.flox` directory. -/
  floxDir : Bool
  store : Store Place
  toml : TomlDoc
  /-- The steps that fail, with the text of the error. -/
  fails : Step → Option String
  /-- The text of the error of reading or writing a path that cannot be. -/
  ioError : String
  /-- The variable `HOME`. -/
  home : Option String
  /-- Whether `flox` is on `PATH`. -/
  floxOnPath : Bool

/-- The text of the path of a file of the project's environment. -/
def FloxHost.sourcePath (host : FloxHost Place) (f : FloxFile) : String :=
  host.projectRoot ++ "/.flox/" ++ f.relative

/-- A step that may fail: its error, put after a text that says what it was doing. -/
def FloxHost.attempt (host : FloxHost Place) (step : Step) (doing : String) :
    Except ProviderError Unit :=
  match host.fails step with
  | some e => .error (.resolutionFailed (doing ++ ": " ++ e))
  | none => .ok ()

/-- Read a file of the project's environment. -/
def FloxHost.readSource (host : FloxHost Place) (step : Step) (f : FloxFile) (doing : String) :
    Except ProviderError (List UInt8) := do
  host.attempt step doing
  match host.store.read .project f with
  | some bytes => .ok bytes
  | none => .error (.resolutionFailed (doing ++ ": " ++ host.ioError))

/-- `fs::read_to_string` of the project's manifest. -/
def FloxHost.readText (host : FloxHost Place) (step : Step) (doing : String) :
    Except ProviderError String := do
  let bytes ← host.readSource step .manifest doing
  match Utf8.decode bytes with
  | some text => .ok text
  | none =>
    .error (.resolutionFailed (doing ++ ": " ++ "stream did not contain valid UTF-8"))

/-- The value under a key of a table. -/
def lookup (key : String) (table : Table) : Option Value :=
  (table.find? fun entry => entry.1 == key).map Prod.snd

/-- The `on-activate` script of a parsed manifest, unless it is blank. -/
def onActivate (table : Table) : Option String :=
  match (lookup "hook" table).bind Value.asTable with
  | none => none
  | some hook =>
    match lookup "on-activate" hook with
    | some (.string s) => if Text.trim s = "" then none else some s
    | _ => none

/-- `activation_hook_script`. -/
def FloxHost.activationHookScript (host : FloxHost Place) :
    Except ProviderError (Option String) := do
  let path := host.sourcePath .manifest
  let text ← host.readText .readScript ("reading " ++ path)
  match host.toml.parse text with
  | .error e =>
    .error (.resolutionFailed ("parsing " ++ path ++ ": " ++ e ++ "\n" ++
      "devcroft must parse this manifest to separate materialization from " ++
      "`[hook].on-activate`; it will not fall back to running the hook on the host"))
  | .ok table => .ok (onActivate table)

/-- `ensure_environment_present`. -/
def FloxHost.ensureEnvironmentPresent (host : FloxHost Place) : Except ProviderError Unit :=
  if host.floxDir then .ok () else .error (.noEnvironment "flox" "flox init")

/-- `manifest_fingerprint`. -/
def FloxHost.manifestFingerprint (host : FloxHost Place) : Except ProviderError String := do
  host.ensureEnvironmentPresent
  let manifest ← host.readSource .readManifest .manifest ("reading " ++ host.sourcePath .manifest)
  let lock := if (host.fails .readLock).isSome then none else host.store.read .project .lock
  return fingerprint [manifest, optionalFilePart lock]

/-- `strip_hook`. -/
def stripHook (toml : TomlDoc) (manifestText : String) : Except ProviderError String :=
  match toml.parse manifestText with
  | .error e => .error (.resolutionFailed ("parsing the flox manifest: " ++ e))
  | .ok table =>
    match toml.toText (table.filter fun entry => entry.1 != "hook") with
    | .error e => .error (.resolutionFailed ("serialising the derived manifest: " ++ e))
    | .ok text => .ok text

/-- `fs::write` to a file of a derived environment. -/
def FloxHost.write (host : FloxHost Place) (store : Store Place) (d : EnvDir) (f : FloxFile)
    (bytes : List UInt8) (step : Step) (doing : String) : Except ProviderError (Store Place) := do
  host.attempt step doing
  if store.at d f = .other then .error (.resolutionFailed (doing ++ ": " ++ host.ioError))
  else .ok (store.put d f bytes)

/-- One round of the loop that copies the optional files. -/
def FloxHost.copyOptional (host : FloxHost Place) (derived : EnvDir) (store : Store Place)
    (f : FloxFile) : Except ProviderError (Store Place) :=
  match store.read .project f with
  | none => .ok store
  | some bytes =>
    host.write store derived f (store.copied .project derived f bytes) (.copy f)
      ("copying " ++ host.sourcePath f)

/-- `derive_hook_free_env`. -/
def FloxHost.deriveHookFreeEnv (host : FloxHost Place) :
    Except ProviderError (EnvDir × Store Place) := do
  let fingerprint ← host.manifestFingerprint
  let derived := EnvDir.derived fingerprint
  if host.store.isFile derived .manifest then return (derived, host.store)
  host.attempt .createDir ("creating " ++ derived.path host.projectRoot ++ "/.flox/env")
  let manifestText ← host.readText .readText "reading the flox manifest"
  let stripped ← stripHook host.toml manifestText
  let store ← host.write host.store derived .manifest (Utf8.encode stripped) .writeManifest
    "writing the derived manifest"
  let store ← host.copyOptional derived store .lock
  let store ← host.copyOptional derived store .envJson
  return (derived, store)

/-- A `flox activate` on the host. -/
structure Activation (Place : Type) where
  /-- The directory that is activated. -/
  dir : EnvDir
  /-- The environment that it runs with. -/
  env : List (String × String)
  /-- The project's activation script, kept as data. -/
  script : Option String
  /-- The files at that moment. -/
  store : Store Place

/-- `FloxProvider::resolve` up to the activation. -/
def FloxHost.resolve (host : FloxHost Place) : Except ProviderError (Activation Place) := do
  host.ensureEnvironmentPresent
  let script ← host.activationHookScript
  let (dir, store) ← match script with
    | some _ => host.deriveHookFreeEnv
    | none => .ok (EnvDir.project, host.store)
  let baseline ← canonicalBaseEnv host.home
  if host.floxOnPath then return ⟨dir, baseline, script, store⟩
  else .error (.missingBinary "flox" "devcroft doctor")

end Devcroft.Provider
