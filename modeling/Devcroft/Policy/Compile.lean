import Devcroft.Config.Parse

/-!
# Compiling the policy

`policy::compile` and the folds that later steps of `up` apply to its result. Every
rule keeps the origin that `policy --render` and `why` show for it.
-/

namespace Devcroft.Policy

open Config Paths

/-- The platforms for which the keeper's own grants differ. -/
inductive Platform where
  | linux
  | macos
  deriving DecidableEq

/-- devcroft's own data directory, always denied. -/
def DEVCROFT_DATA_DIR : String := "~/.local/share/devcroft"

/-- What the keeper itself reads. -/
def KEEPER_SYSTEM_READ : Platform → List String
  | .linux => ["/lib", "/lib64", "/lib/x86_64-linux-gnu", "/lib/aarch64-linux-gnu", "/usr/lib",
      "/usr/lib64", "/usr/lib/x86_64-linux-gnu", "/usr/lib/aarch64-linux-gnu",
      "/etc/ld.so.cache", "/dev/urandom"]
  | .macos => ["/usr/lib", "/System/Library", "/private/var/db/dyld", "/var/db/dyld",
      "/dev/urandom"]

/-- What the keeper itself reads and writes. -/
def KEEPER_SYSTEM_READWRITE : Platform → List String
  | .linux => ["/dev/pts", "/dev/ptmx", "/dev/null"]
  | .macos => ["/dev"]

/-- The signal isolation of every compiled policy. -/
def SIGNAL_MODE : String := "isolated"

/-- Where a compiled rule came from. -/
inductive Origin where
  | manifest (key : String)
  | provider (name : String)
  | baseline
  deriving DecidableEq

/-- An `Origin` as it is displayed. -/
def Origin.display : Origin → String
  | manifest key => "manifest:" ++ key
  | provider name => "provider:" ++ name
  | baseline => "baseline"

/-- A compiled path or domain with its origin. -/
structure AnnotatedValue where
  value : String
  origin : Origin
  deriving DecidableEq

/-- A compiled loopback port with its origin. -/
structure AnnotatedPort where
  value : UInt16
  origin : Origin
  deriving DecidableEq

/-- The manifest compiled into policy rules. -/
structure CompiledPolicy where
  sandboxName : String
  filesystemAllow : List AnnotatedValue
  filesystemRead : List AnnotatedValue
  filesystemDeny : List AnnotatedValue
  networkBlock : Bool
  networkAllowDomain : List AnnotatedValue
  networkPorts : List AnnotatedPort
  /-- The bound port of the egress proxy, once `up` has started it. -/
  networkProxyPort : Option UInt16
  /-- Unix sockets that the sandbox may bind. -/
  unixSocketBind : List AnnotatedValue
  signalMode : String
  deriving DecidableEq

/-- The baseline denials of credential directories: those that no entry of the manifest covers. -/
def sensitiveDenials (granted : List String) : List String :=
  SENSITIVE_PATHS.filter fun sensitive => !granted.any fun g => isWithin sensitive g

/-- `compile`. -/
def compile (platform : Platform) (manifest : Manifest) : CompiledPolicy where
  sandboxName := manifest.sandbox.name
  filesystemAllow :=
    (manifest.filesystem.allow.map (⟨·, .manifest "filesystem.allow"⟩)) ++
      (KEEPER_SYSTEM_READWRITE platform).map (⟨·, .baseline⟩)
  filesystemRead :=
    (manifest.filesystem.read.map (⟨·, .manifest "filesystem.read"⟩)) ++
      (KEEPER_SYSTEM_READ platform).map (⟨·, .baseline⟩)
  filesystemDeny :=
    (manifest.filesystem.deny.map (⟨·, .manifest "filesystem.deny"⟩)) ++
      ⟨DEVCROFT_DATA_DIR, .baseline⟩ ::
        (sensitiveDenials (manifest.filesystem.allow ++ manifest.filesystem.read)).map
          (⟨·, .baseline⟩)
  networkBlock := manifest.network.default = .deny
  networkAllowDomain := manifest.network.allow.map (⟨·, .manifest "network.allow"⟩)
  networkPorts := manifest.network.ports.map (⟨·, .manifest "network.ports"⟩)
  networkProxyPort := none
  unixSocketBind := []
  signalMode := SIGNAL_MODE

/-- `with_provider_grants`. -/
def CompiledPolicy.withProviderGrants (p : CompiledPolicy) (provider : String)
    (grants : List String) : CompiledPolicy :=
  { p with filesystemRead := p.filesystemRead ++ grants.map (⟨·, .provider provider⟩) }

/-- `wants_egress_proxy`. -/
def CompiledPolicy.wantsEgressProxy (p : CompiledPolicy) : Bool :=
  p.networkBlock && !p.networkAllowDomain.isEmpty

/-- `wants_network_isolation`. -/
def CompiledPolicy.wantsNetworkIsolation (p : CompiledPolicy) (_servicesDeclared : Bool) : Bool :=
  p.networkBlock

/-- `proxy_port_collides_with_declared_ports`. -/
def CompiledPolicy.proxyPortCollidesWithDeclaredPorts (p : CompiledPolicy)
    (proxyPort : UInt16) : Bool :=
  p.networkPorts.any fun port => port.value == proxyPort

/-- `with_proxy_port`. -/
def CompiledPolicy.withProxyPort (p : CompiledPolicy) (port : UInt16) : CompiledPolicy :=
  { p with networkProxyPort := some port }

/-- `with_services_socket_grant`. -/
def CompiledPolicy.withServicesSocketGrant (p : CompiledPolicy) (provider socket : String) :
    CompiledPolicy :=
  { p with unixSocketBind := p.unixSocketBind ++ [⟨socket, .provider provider⟩] }

/-- `with_keeper_exe_grant`. -/
def CompiledPolicy.withKeeperExeGrant (p : CompiledPolicy) (exeDir : String) : CompiledPolicy :=
  { p with filesystemRead := p.filesystemRead ++ [⟨exeDir, .baseline⟩] }

/-- Every baseline denial is a plain path below the home directory. -/
theorem baseline_home {d : String} (h : d = DEVCROFT_DATA_DIR ∨ d ∈ SENSITIVE_PATHS) :
    (components d).1 = .home ∧ hasTraversal d = false ∧ Text.startsWith "~//" d = false := by
  simp only [SENSITIVE_PATHS, List.mem_cons, List.not_mem_nil, or_false] at h
  rcases h with rfl | rfl | rfl | rfl | rfl <;> decide

/-- The keeper's own grants are plain absolute paths. -/
theorem keeper_absolute (platform : Platform) {g : String}
    (h : g ∈ KEEPER_SYSTEM_READ platform ++ KEEPER_SYSTEM_READWRITE platform) :
    (components g).1 = .absolute ∧ hasTraversal g = false ∧ Text.startsWith "~//" g = false := by
  have hall : ∀ p, ∀ g ∈ KEEPER_SYSTEM_READ p ++ KEEPER_SYSTEM_READWRITE p,
      (components g).1 = .absolute ∧ hasTraversal g = false ∧
        Text.startsWith "~//" g = false := by
    intro p
    cases p <;> decide
  exact hall platform g h

end Devcroft.Policy
