import Devcroft.Lifecycle.State
import Devcroft.Provider.Flox

/-!
# Bringing a sandbox up

`up`: what it finds of an earlier run decides what it clears, then the environment is
resolved, the egress proxy started or reused, `meta.json` written, the policy compiled
and the keeper started under it.
-/

namespace Devcroft.Lifecycle

open Config Policy Program Provider

/-- `UpOutcome`. -/
inductive UpOutcome where
  | alreadyUp
  | recovered
  | started
  | recreated
  deriving DecidableEq

/-- `UpOptions`. -/
structure UpOptions where
  recreate : Bool
  skipHooks : Bool
  deriving DecidableEq

/-- `ServiceSupport`, with the names of the services. -/
inductive ServiceSupport where
  | unsupported
  | declared (names : List String)
  deriving DecidableEq

/-- `ServiceSupport::declared`. -/
def ServiceSupport.names : ServiceSupport → List String
  | unsupported => []
  | declared names => names

/-- What a provider resolved. -/
structure Resolution where
  env : List (String × String)
  unset : List String
  readOnlyGrants : List String
  activationScript : Option String
  services : ServiceSupport
  ranActivationHook : Bool
  deriving DecidableEq

/-- A shell found in the environment or its closure. -/
structure ResolvedShell where
  path : String
  grant : Option String
  deriving DecidableEq

/-- What an `up` is given, and what it finds outside of the state directory. -/
structure UpInput where
  platform : Platform
  manifest : Manifest
  /-- The canonical path of the project. -/
  projectRoot : String
  opts : UpOptions
  /-- What the provider resolves. -/
  resolution : Except ProviderError Resolution
  /-- The fingerprint of the environment. -/
  fingerprint : Except ProviderError String
  /-- The search for a shell. -/
  shell : List (String × String) → Option ResolvedShell
  /-- The search for `process-compose`. -/
  resolveInEnv : List (String × String) → Option String
  /-- The services that the project's flox environment declares. -/
  servicesDeclaredByFlox : List String
  /-- The binary to run as a keeper or proxy. -/
  keeperExe : Except String String
  /-- Where the capability plan is checked. -/
  host : Policy.Host
  nono : Nono

/-- `RESOLVED_BACKEND`. -/
def RESOLVED_BACKEND : String := "process"

/-- `MAX_SOCKET_PATH`. -/
def MAX_SOCKET_PATH : ℕ := 103

/-- `data_dir`. -/
def dataDir (homeVar : Option String) : Except String String :=
  match homeVar with
  | none => .error "HOME is not set"
  | some home => .ok (Posix.join home ".local/share/devcroft")

/-- `StatePaths::new`: the state directory. -/
def statePaths (homeVar : Option String) (sandboxName : String) : Except String String :=
  if isValidName sandboxName then
    match dataDir homeVar with
    | .error e => .error e
    | .ok dir => .ok (Posix.join dir sandboxName)
  else
    .error ("'" ++ sandboxName ++
      "' is not a valid sandbox name ([a-z0-9][a-z0-9-]\x7b0,31\x7d)")

/-- `artifact_dir`. -/
def artifactDir (projectRoot sandboxName : String) : String :=
  Posix.join (Posix.join projectRoot ARTIFACT_DIR) sandboxName

/-- `socket_path`. -/
def socketPath (projectRoot sandboxName : String) : String :=
  Posix.join (artifactDir projectRoot sandboxName) "services.sock"

/-- `Path::parent`. -/
def parent (path : String) : Option String :=
  match path.toList.reverse.dropWhile (· = '/') with
  | [] => none
  | last =>
    match last.dropWhile (· ≠ '/') with
    | [] => some ""
    | rest =>
      match rest.dropWhile (· = '/') with
      | [] => some "/"
      | directory => some (String.ofList directory.reverse)

/-- The part of `ensure_egress_proxy` that starts a proxy. -/
def startEgressProxy (input : UpInput) : Cmd (UInt16 × String) := do
  let _exe ← orFail .state input.keeperExe
  match ← perform (Op.spawnProxy input.manifest.network.allow) with
  | .error e => raise (.keeper ("starting egress proxy: " ++ e))
  | .ok (pid, port, token) =>
    writePidfile .proxy pid
    return (port, token)

/-- `ensure_egress_proxy`. -/
def ensureEgressProxy (input : UpInput) : Cmd (UInt16 × String) := do
  perform (Op.enter .ensureEgressProxy)
  match ← readPidfile .proxy with
  | none => startEgressProxy input
  | some (pid, startTime) =>
    if ← isSameProcess pid startTime then
      match ← readMeta with
      | none => startEgressProxy input
      | some found =>
        match found.proxyPort, found.proxyToken with
        | some port, some token =>
          perform (Op.enter (.reuseEgressProxy input.manifest.network.allow))
          return (port, token)
        | _, _ => startEgressProxy input
    else startEgressProxy input

/-- `stop_orphaned_egress_proxy`. -/
def stopOrphanedEgressProxy : Cmd Unit := do
  terminateAndWait .proxy
  perform (Op.removeFile (.pidfile .proxy))

/-- The part of `up` that gets its proxy, if the manifest wants one. -/
def egressProxy (input : UpInput) : Cmd (Option (UInt16 × String)) := do
  if (compile input.platform input.manifest).wantsEgressProxy then
    let proxy ← ensureEgressProxy input
    return some proxy
  else
    stopOrphanedEgressProxy
    return none

/-- The grants of the provider, with the shell's. -/
def providerGrants (resolution : Resolution) (shell : ResolvedShell) : List String :=
  match shell.grant with
  | none => resolution.readOnlyGrants
  | some grant =>
    if resolution.readOnlyGrants.contains grant then resolution.readOnlyGrants
    else resolution.readOnlyGrants ++ [grant]

/-- What `up` writes to `meta.json`. -/
def upMeta (input : UpInput) (resolution : Resolution) (fingerprint : String)
    (shell : ResolvedShell) (proxy : Option (UInt16 × String)) : Meta where
  projectRoot := input.projectRoot
  envFingerprint := fingerprint
  readOnlyGrants := providerGrants resolution shell
  resolvedBackend := RESOLVED_BACKEND
  declaredServices := resolution.services.names
  ranActivationHook := resolution.ranActivationHook
  shell := some shell.path
  proxyPort := proxy.map Prod.fst
  proxyToken := proxy.map Prod.snd

/-- The policy under which `up_process` starts the keeper. -/
def upPolicy (input : UpInput) (exeDir provider : String) (resolution : Resolution)
    (shell : ResolvedShell) (proxy : Option (UInt16 × String)) : CompiledPolicy :=
  let compiled := ((compile input.platform input.manifest).withKeeperExeGrant
    exeDir).withProviderGrants provider (providerGrants resolution shell)
  let compiled :=
    match proxy with
    | some (port, _) => compiled.withProxyPort port
    | none => compiled
  if input.opts.skipHooks || resolution.services.names.isEmpty then compiled
  else
    compiled.withServicesSocketGrant provider
      (socketPath input.projectRoot input.manifest.sandbox.name)

/-- Set a variable. -/
def insertVar (env : List (String × String)) (key value : String) : List (String × String) :=
  (env.filter fun entry => entry.1 ≠ key) ++ [(key, value)]

/-- The address under which clients find the proxy. -/
def proxyEndpoint (port : UInt16) (token : String) : String :=
  "http://" ++ token ++ "@127.0.0.1:" ++ toString port.toNat

/-- The variables that lead clients to the proxy. -/
def PROXY_VARS : List String := ["HTTP_PROXY", "http_proxy", "HTTPS_PROXY", "https_proxy"]

/-- The variables that keep clients from it for loopback. -/
def NO_PROXY_VARS : List String := ["NO_PROXY", "no_proxy"]

/-- The environment of the keeper. -/
def keeperEnv (input : UpInput) (resolution : Resolution) (proxy : Option (UInt16 × String)) :
    List (String × String) :=
  let env := input.manifest.env.vars.foldl (fun env entry => insertVar env entry.1 entry.2)
    resolution.env
  match proxy with
  | none => env
  | some (port, token) =>
    let env := PROXY_VARS.foldl (fun env key => insertVar env key (proxyEndpoint port token)) env
    NO_PROXY_VARS.foldl (fun env key => insertVar env key "localhost,127.0.0.1,::1") env

/-- The variables to take from the keeper: those that the manifest does not set. -/
def keeperUnset (input : UpInput) (resolution : Resolution) : List String :=
  resolution.unset.filter fun key => !input.manifest.env.vars.any fun entry => entry.1 == key

/-- `ensure_no_services_declared_for_another_provider`. -/
def ensureNoServicesDeclaredForAnotherProvider (input : UpInput) : Except UpError Unit :=
  if input.opts.skipHooks || input.servicesDeclaredByFlox.isEmpty then .ok ()
  else
    .error (.provider (.resolutionFailed (
      "this project's flox environment declares " ++
        toString input.servicesDeclaredByFlox.length ++ " service(s) (" ++
        ", ".intercalate input.servicesDeclaredByFlox ++ "), but " ++
        "`env.provider` is `nix`, which has no service concept — they would " ++
        "be silently ignored; set `provider = \"flox\"` to run them, or " ++
        "remove them from the flox manifest")))

/-- The checks of `prepare_services` on the supervisor's socket and binary. -/
def checkServices (input : UpInput) (resolution : Resolution) : Except UpError Unit :=
  let socket := socketPath input.projectRoot input.manifest.sandbox.name
  if MAX_SOCKET_PATH < socket.utf8ByteSize then
    .error (.config ("the service supervisor's socket path is " ++
      toString socket.utf8ByteSize ++ " bytes, over the " ++ toString MAX_SOCKET_PATH ++
      " the OS allows for a unix socket: " ++ socket ++
      "\nmove the project closer to the filesystem root, or shorten `[sandbox].name`"))
  else if (input.resolveInEnv resolution.env).isNone then
    .error (.provider (.resolutionFailed (toString resolution.services.names.length ++
      " service(s) are declared but `process-compose` is not in the " ++
      "resolved environment; add it to the environment manifest " ++
      "(e.g. `flox install process-compose`)")))
  else .ok ()

/-- `prepare_services`: whether the keeper should start services. -/
def prepareServices (input : UpInput) (resolution : Resolution) : Cmd Bool := do
  orFail id (if resolution.services = .unsupported then
    ensureNoServicesDeclaredForAnotherProvider input else .ok ())
  if input.opts.skipHooks || resolution.services.names.isEmpty then return false
  else
    orFail id (checkServices input resolution)
    attempt .createServicesDir .state
    attempt .writeServicesConfig .state
    return true

/-- `hooks::run_one`. -/
def runHook (name : String) (command : Option String) : Cmd Unit :=
  match command with
  | none => return ()
  | some command => attempt (.hook name command) .keeper

/-- The directory of the supervisor's socket, which has to exist before the socket is granted. -/
def createSocketDir (input : UpInput) (resolution : Resolution) : Cmd Unit :=
  if input.opts.skipHooks || resolution.services.names.isEmpty then return ()
  else attempt .createServicesDir .state

/-- The first part of `up_process`: everything up to the listeners and keys. -/
def prepareKeeper (input : UpInput) (resolution : Resolution) (compiled : CompiledPolicy) :
    Cmd Bool := do
  createSocketDir input resolution
  let _caps ← orFail .policy
    (compiled.toCapabilityPlan.toCapabilitySet input.nono input.host input.projectRoot)
  attempt .writeProfile .state
  perform (Op.removeFile .socket)
  attempt .bindSocket .state
  perform (Op.removeFile .sshSocket)
  attempt .bindSshSocket .state
  attempt .clientKeypair .ssh
  attempt .hostKey .ssh
  prepareServices input resolution

/-- The last part of `up_process`: waiting for the keeper, then the project's own scripts. -/
def runHooks (input : UpInput) (outcome : UpOutcome) (resolution : Resolution) : Cmd Unit := do
  attempt .waitUntilResponsive fun e => .keeper ("keeper did not become responsive: " ++ e)
  if input.opts.skipHooks then return ()
  else
    runHook "activation" resolution.activationScript
    runHook "post_create" (if outcome = .started ∨ outcome = .recreated then
      input.manifest.hooks.postCreate else none)
    runHook "post_start" input.manifest.hooks.postStart

/-- What `up_process` starts the keeper with. -/
def keeperLaunch (input : UpInput) (root exe : String) (resolution : Resolution)
    (shell : ResolvedShell) (compiled : CompiledPolicy) (proxy : Option (UInt16 × String))
    (services isolated : Bool) : Launch where
  exe := exe
  projectRoot := input.projectRoot
  env := keeperEnv input resolution proxy
  unset := keeperUnset input resolution
  plan := compiled.toCapabilityPlan
  services := if services then some input.manifest.sandbox.name else none
  shell := shell.path
  isolateNetwork := isolated
  relay := if isolated then proxy.map fun p => (p.1, Posix.join root "proxy.sock") else none

/-- Whether the sandbox should get a network namespace of its own. -/
def wantsIsolation (compiled : CompiledPolicy) (services : Bool)
    (proxy : Option (UInt16 × String)) : Bool :=
  compiled.wantsNetworkIsolation services &&
    match proxy with
    | some (port, _) => !compiled.proxyPortCollidesWithDeclaredPorts port
    | none => true

/-- Whether the sandbox gets one: the host is only asked when it should. -/
def isolateNetwork (compiled : CompiledPolicy) (services : Bool)
    (proxy : Option (UInt16 × String)) : Cmd Bool :=
  if wantsIsolation compiled services proxy then perform Op.probeNetns else pure false

/-- `up_process`. -/
def upProcess (input : UpInput) (root : String) (outcome : UpOutcome) (resolution : Resolution)
    (shell : ResolvedShell) (proxy : Option (UInt16 × String)) : Cmd UpOutcome := do
  let exe ← orFail .state input.keeperExe
  match parent exe with
  | none => raise (.state "devcroft executable path has no parent directory")
  | some exeDir =>
    let kind ← orFail .provider (ProviderKind.fromName input.manifest.env.provider)
    let compiled := upPolicy input exeDir kind.staticName resolution shell proxy
    let services ← prepareKeeper input resolution compiled
    let isolated ← isolateNetwork compiled services proxy
    match ← perform (Op.spawnKeeper
      (keeperLaunch input root exe resolution shell compiled proxy services isolated)) with
    | .error e => raise (.keeper e)
    | .ok pid =>
      writePidfile .keeper pid
      runHooks input outcome resolution
      return outcome

/-- The error of an environment without a shell. -/
def NO_SHELL : String :=
  "no POSIX shell found in this environment or its closure, and devcroft " ++
    "needs one for `shell`, SSH login sessions and services; add one to the " ++
    "environment manifest (e.g. `flox install bash`)\nsearched: the store " ++
    "entries on the resolved environment's PATH, then their closure " ++
    "requisites"

/-- The part of `up` after it has settled on an outcome. -/
def bringUp (input : UpInput) (root : String) (outcome : UpOutcome) : Cmd UpOutcome := do
  let _kind ← orFail .provider (ProviderKind.fromName input.manifest.env.provider)
  let resolution ← orFail .provider input.resolution
  let fingerprint ← orFail .provider input.fingerprint
  attempt .createRoot .state
  let proxy ← egressProxy input
  match input.shell resolution.env with
  | none => raise (.provider (.resolutionFailed NO_SHELL))
  | some shell =>
    writeMeta (upMeta input resolution fingerprint shell proxy)
    upProcess input root outcome resolution shell proxy

/-- `up`. -/
def up (input : UpInput) : Cmd UpOutcome := do
  perform (Op.enter .command)
  let root ← orFail .state (statePaths input.host.homeVar input.manifest.sandbox.name)
  acquireLifecycleLock
  if input.opts.recreate then
    terminateAndWait .keeper
    terminateAndWait .proxy
    clearRuntimeState
    bringUp input root .recreated
  else
    match ← health with
    | .healthy _ => return .alreadyUp
    | .stale _ =>
      perform (Op.enter .staleRecovery)
      clearRuntimeState
      bringUp input root .recovered
    | .none => bringUp input root .started

end Devcroft.Lifecycle
