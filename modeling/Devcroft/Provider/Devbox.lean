import Devcroft.Library.Json
import Devcroft.Library.Program
import Devcroft.Lifecycle.Up

/-!
# The devbox provider

`DevboxProvider::resolve` with the preconditions that it checks, the capture of the
activated environment by two commands on the host, and the comparison of `devbox.lock`
before and after the capture.
-/

namespace Devcroft.Provider

open Json Lifecycle Program

/-- The files of a devbox project. -/
inductive DevboxFile where
  | json
  | lock
  deriving DecidableEq

/-- The name of a file. -/
def DevboxFile.name : DevboxFile → String
  | json => "devbox.json"
  | lock => "devbox.lock"

/-- `std::process::Output`. -/
structure Output where
  success : Bool
  /-- The exit status as it is displayed. -/
  status : String
  stdout : List UInt8
  stderr : List UInt8
  deriving DecidableEq

/-- What `resolve` asks the host for. -/
inductive DevboxOp where
  /-- `Path::is_file`. -/
  | isFile (f : DevboxFile)
  /-- `fs::read_to_string`. -/
  | readToString (f : DevboxFile)
  /-- `resolve_on_path`. -/
  | resolveOnPath (name : String)
  /-- Whether `nix eval --expr 1` succeeds. -/
  | nixEval (nix : String)
  /-- The variable `HOME`. -/
  | home
  /-- `read_lock`. -/
  | readLock
  /-- `devbox shellenv --pure`. -/
  | shellenv (devbox : String) (base : List (String × String))
  /-- The shell that evaluates a script and dumps its environment. -/
  | evaluate (script : List UInt8) (base : List (String × String))
  /-- `fs::write` to the lockfile. -/
  | writeLock (bytes : List UInt8)
  /-- `fs::remove_file` of the lockfile. -/
  | removeLock
  deriving DecidableEq

namespace DevboxOp

/-- What they answer. -/
@[reducible] def Answer : DevboxOp → Type
  | isFile _ => Bool
  | readToString _ => Except String String
  | resolveOnPath _ => Option String
  | nixEval _ => Bool
  | home => Option String
  | readLock => Option (List UInt8)
  | shellenv _ _ => Except String Output
  | evaluate _ _ => Except String Output
  | writeLock _ => Except String Unit
  | removeLock => Except String Unit

end DevboxOp

/-- A lockfile: its bytes, or none. -/
abbrev Lock := Option (List UInt8)

/-- The files of a project. -/
structure DevboxFiles where
  json : Option (List UInt8)
  lock : Lock
  deriving DecidableEq

/-- What is under a name. -/
def DevboxFiles.at (files : DevboxFiles) : DevboxFile → Option (List UInt8)
  | .json => files.json
  | .lock => files.lock

/-- How an operation fares. -/
structure DevboxChoice where
  /-- The error with which it fails. -/
  fails : Option String
  /-- The path or the variable that is found. -/
  found : Option String
  /-- What a command outputs. -/
  output : Output
  /-- What a command leaves of the lockfile, or a write or removal that fails, where they touch it.
  -/
  leaves : Option Lock
  deriving DecidableEq

/-- The lockfile after an operation that may have touched it. -/
def DevboxChoice.touched (choice : DevboxChoice) (files : DevboxFiles) : DevboxFiles :=
  { files with lock := choice.leaves.getD files.lock }

/-- The text of the error of a path under which nothing is. -/
def NOT_FOUND : String := "No such file or directory (os error 2)"

/-- A command that is run. -/
def DevboxChoice.run (choice : DevboxChoice) (files : DevboxFiles) :
    Except String Output × DevboxFiles :=
  match choice.fails with
  | some e => (.error e, choice.touched files)
  | none => (.ok choice.output, choice.touched files)

/-- What an operation does. -/
def DevboxOp.act (o : DevboxOp) (choice : DevboxChoice) (files : DevboxFiles) :
    o.Answer × DevboxFiles :=
  match o with
  | isFile f => (choice.fails.isNone && (files.at f).isSome, files)
  | readToString f =>
    match choice.fails, files.at f with
    | some e, _ => (.error e, files)
    | none, none => (.error NOT_FOUND, files)
    | none, some bytes =>
      match Utf8.decode bytes with
      | some text => (.ok text, files)
      | none => (.error "stream did not contain valid UTF-8", files)
  | resolveOnPath _ => (choice.found, files)
  | nixEval _ => (choice.fails.isNone && choice.output.success, files)
  | home => (choice.found, files)
  | readLock => (if choice.fails.isSome then none else files.lock, files)
  | shellenv _ _ => choice.run files
  | evaluate _ _ => choice.run files
  | writeLock bytes =>
    match choice.fails with
    | some e => (.error e, choice.touched files)
    | none => (.ok (), { files with lock := some bytes })
  | removeLock =>
    match choice.fails, files.lock with
    | some e, _ => (.error e, choice.touched files)
    | none, none => (.error NOT_FOUND, files)
    | none, some _ => (.ok (), { files with lock := none })

/-- The host, of which only the commands that `resolve` runs touch the files of the project. -/
@[reducible] def devboxHost : Machine DevboxOp DevboxOp.Answer where
  State := DevboxFiles
  Choice := DevboxChoice
  idle := ⟨none, none, ⟨true, "exit status: 0", [], []⟩, none⟩
  surroundings _ files := files
  act := DevboxOp.act

/-- Where `strip_comments` is. -/
inductive Within where
  | code
  | string (escaped : Bool)
  | lineComment
  | blockComment (prev : Char)
  deriving DecidableEq

/-- `strip_comments`. -/
def stripComments : Within → List Char → List Char
  | _, [] => []
  | .string escaped, c :: rest =>
    c :: stripComments (if escaped then .string false else if c = '\\' then .string true
      else if c = '"' then .code else .string false) rest
  | .lineComment, c :: rest =>
    if c = '\n' then '\n' :: stripComments .code rest else stripComments .lineComment rest
  | .blockComment prev, c :: rest =>
    if prev = '*' ∧ c = '/' then stripComments .code rest
    else if c = '\n' then '\n' :: stripComments (.blockComment c) rest
    else stripComments (.blockComment c) rest
  | .code, '/' :: '/' :: rest => stripComments .lineComment rest
  | .code, '/' :: '*' :: rest => stripComments (.blockComment '\x00') rest
  | .code, c :: rest => c :: stripComments (if c = '"' then .string false else .code) rest

/-- `strip_trailing_commas`, within a string or not. -/
def stripTrailingCommas (inString escaped : Bool) : List Char → List Char
  | [] => []
  | c :: rest =>
    if inString then
      if escaped then c :: stripTrailingCommas true false rest
      else if c = '\\' then c :: stripTrailingCommas true true rest
      else if c = '"' then c :: stripTrailingCommas false false rest
      else c :: stripTrailingCommas true false rest
    else if c = '"' then c :: stripTrailingCommas true escaped rest
    else
      let next := (rest.dropWhile Text.isWhitespace).head?
      if c = ',' ∧ (next = some '\x7d' ∨ next = some ']') then
        stripTrailingCommas false escaped rest
      else c :: stripTrailingCommas false escaped rest

/-- `strip_jsonc`. -/
def stripJsonc (text : String) : String :=
  String.ofList (stripTrailingCommas false false (stripComments .code text.toList))

/-- A project, with the parser of JSON. -/
structure DevboxProject where
  root : String
  /-- `serde_json::from_str`. -/
  fromStr : String → Except String Value

namespace DevboxProject

variable (project : DevboxProject)

/-- The programs of the provider. -/
abbrev Resolving (α : Type) := Prog DevboxOp DevboxOp.Answer ProviderError α

/-- The path of a file. -/
def path (f : DevboxFile) : String := Posix.join project.root f.name

/-- `ensure_project_present`. -/
def ensureProjectPresent : Resolving Unit := do
  if ← perform (DevboxOp.isFile .json) then pure ()
  else raise (.noEnvironment "devbox" "devbox init")

/-- `ensure_nix_usable`. -/
def ensureNixUsable : Resolving Unit := do
  match ← perform (DevboxOp.resolveOnPath "nix") with
  | none => raise (.missingBinary "nix" "devcroft doctor")
  | some nix =>
    if ← perform (DevboxOp.nixEval nix) then pure ()
    else raise (.resolutionFailed ("devbox requires a usable Nix, but `nix eval` failed on this " ++
      "host; devbox is a frontend over Nix and cannot resolve packages without it (see " ++
      "`devcroft doctor`)"))

/-- `parse_devbox_json`. -/
def parseDevboxJson (f : DevboxFile) : Resolving Value := do
  let text ← orFail (fun e => .resolutionFailed ("reading " ++ project.path f ++ ": " ++ e))
    (← perform (DevboxOp.readToString f))
  orFail (fun e => .resolutionFailed ("parsing " ++ project.path f ++ ": " ++ e))
    (project.fromStr (stripJsonc text))

/-- `package_key`. -/
def packageKey (name : String) (value : Value) : String :=
  let version := match value with
    | .string v => some v
    | .object _ => (value.get "version").bind Value.asStr
    | _ => none
  match version with
  | some v => name ++ "@" ++ v
  | none => name

/-- The keys that a parsed `devbox.json` declares. -/
def keysOf (parsed : Value) : Except String (List String) :=
  match parsed.get "packages" with
  | none => .ok []
  | some (.array items) =>
    items.mapM fun v =>
      match v.asStr with
      | some s => .ok s
      | none => .error "'s `packages` array has a non-string entry"
  | some (.object entries) => .ok (entries.map fun entry => packageKey entry.1 entry.2)
  | some _ => .error "'s `packages` field is neither a list nor a table"

/-- `declared_package_keys`. -/
def declaredPackageKeys : Resolving (List String) := do
  let parsed ← project.parseDevboxJson .json
  orFail (fun what => .resolutionFailed (project.path .json ++ what)) (keysOf parsed)

/-- `ensure_everything_locked`. -/
def ensureEverythingLocked : Resolving Unit := do
  let declared ← project.declaredPackageKeys
  if declared = [] then return
  if ← perform (DevboxOp.isFile .lock) then
    let parsed ← project.parseDevboxJson .lock
    let locked := (((parsed.get "packages").bind Value.asObject).getD []).map Prod.fst
    match declared.find? fun key => !locked.contains key with
    | none => return
    | some key =>
      raise (.resolutionFailed ("package `" ++ key ++ "` is declared in devbox.json but has no " ++
        "resolution in devbox.lock; run `devbox install`"))
  else raise (.missingLock "devbox" "devbox install")

/-- `u8::is_ascii_whitespace`. -/
def isAsciiWhitespace (b : UInt8) : Bool := b == 32 || b == 9 || b == 10 || b == 12 || b == 13

/-- The trimmed text of the error output of a command. -/
def errorText (output : Output) : String := Text.trim (Utf8.decodeLossy output.stderr)

/-- `capture_activated_env`. -/
def captureActivatedEnv (devbox : String) (base : List (String × String)) :
    Resolving Environ.Vars := do
  let shellenv ← orFail (fun e => .resolutionFailed ("running `devbox shellenv`: " ++ e))
    (← perform (DevboxOp.shellenv devbox base))
  if !shellenv.success then
    raise (.resolutionFailed ("`devbox shellenv --pure` exited with " ++ shellenv.status ++ ": " ++
      errorText shellenv))
  else if shellenv.stdout.all isAsciiWhitespace then
    raise (.resolutionFailed ("`devbox shellenv --pure` succeeded but printed no environment; " ++
      "devcroft cannot tell an empty activation from a broken one, so it refuses rather than " ++
      "building a sandbox with none of the project's tooling in it"))
  else
    let output ← orFail
      (fun e => .resolutionFailed ("evaluating `devbox shellenv` output: " ++ e))
      (← perform (DevboxOp.evaluate shellenv.stdout base))
    if output.success then return parseEnvDump output.stdout
    else raise (.resolutionFailed ("evaluating `devbox shellenv --pure` output exited with " ++
      output.status ++ ": " ++ errorText output))

/-- `restore_lock_if_capture_resolved`. -/
def restoreLockIfCaptureResolved (before : Lock) : Resolving Unit := do
  let after ← perform DevboxOp.readLock
  if after = before then return
  let restored ← match before with
    | some bytes => perform (DevboxOp.writeLock bytes)
    | none => perform DevboxOp.removeLock
  orFail (fun e => .resolutionFailed ("devbox resolved during `up` and rewrote " ++
    project.path .lock ++ ", and restoring it failed: " ++ e)) restored
  raise (.resolutionFailed ("devbox resolved packages while capturing the environment and " ++
    "rewrote " ++ project.path .lock ++ " (devcroft restored it); provisioning must not resolve " ++
    "versions or contact a package index — run `devbox install` and commit the result"))

/-- `DevboxProvider::resolve`. -/
def resolve : Resolving Resolution := do
  ensureProjectPresent
  match ← perform (DevboxOp.resolveOnPath "devbox") with
  | none => raise (.missingBinary "devbox" "devcroft doctor")
  | some devbox =>
    ensureNixUsable
    project.ensureEverythingLocked
    let lockBefore ← perform DevboxOp.readLock
    let base ← orFail id (canonicalBaseEnv (← perform DevboxOp.home))
    let activated ← captureActivatedEnv devbox base
    project.restoreLockIfCaptureResolved lockBefore
    let baseline := Std.TreeMap.ofList base
    return {
      env := (changedEnv baseline activated).toList
      unset := unsetEnv baseline activated
      readOnlyGrants := storeGrants activated
      activationScript := none
      services := .unsupported
      ranActivationHook := false }

end DevboxProject

end Devcroft.Provider
