import Devcroft.Policy.Compile

/-!
# From the policy to the capability set

`to_capability_plan` and `to_capability_set`: the plain values of a compiled policy,
resolved against the home directory and the project root into what the `nono` library
is asked to grant. Denials are only checked against the grants, lexically; the
library has nothing to deny with.
-/

namespace Devcroft.Policy

open Paths Posix

/-- `CapabilityPlan`: a compiled policy without its origins. -/
structure CapabilityPlan where
  filesystemAllow : List String
  filesystemRead : List String
  filesystemDeny : List String
  networkBlock : Bool
  networkPorts : List UInt16
  networkProxyPort : Option UInt16
  unixSocketBind : List String
  signalMode : String
  deriving DecidableEq

/-- `to_capability_plan`. -/
def CompiledPolicy.toCapabilityPlan (p : CompiledPolicy) : CapabilityPlan where
  filesystemAllow := p.filesystemAllow.map AnnotatedValue.value
  filesystemRead := p.filesystemRead.map AnnotatedValue.value
  filesystemDeny := p.filesystemDeny.map AnnotatedValue.value
  networkBlock := p.networkBlock
  networkPorts := p.networkPorts.map AnnotatedPort.value
  networkProxyPort := p.networkProxyPort
  unixSocketBind := p.unixSocketBind.map AnnotatedValue.value
  signalMode := p.signalMode

/-- What a compiled plan denies. -/
theorem compile_deny (platform : Platform) (manifest : Config.Manifest) :
    (compile platform manifest).toCapabilityPlan.filesystemDeny =
      manifest.filesystem.deny ++ DEVCROFT_DATA_DIR ::
        sensitiveDenials (manifest.filesystem.allow ++ manifest.filesystem.read) := by
  simp [CompiledPolicy.toCapabilityPlan, compile, Function.comp_def]

/-- What a compiled plan grants: the entries of the manifest, and what the keeper needs. -/
theorem mem_compile_grants {platform : Platform} {manifest : Config.Manifest} {g : String} :
    g ∈ (compile platform manifest).toCapabilityPlan.filesystemAllow ++
        (compile platform manifest).toCapabilityPlan.filesystemRead ↔
      g ∈ manifest.filesystem.allow ++ manifest.filesystem.read ∨
        g ∈ KEEPER_SYSTEM_READ platform ++ KEEPER_SYSTEM_READWRITE platform := by
  simp only [CompiledPolicy.toCapabilityPlan, compile, List.map_append, List.map_map,
    Function.comp_def, List.map_id', List.mem_append]
  grind

/-- `nono::AccessMode`, as far as devcroft uses it. -/
inductive AccessMode where
  | read
  | readWrite
  deriving DecidableEq

/-- One call of `allow_path` or `allow_file`. -/
structure FsCapability where
  /-- The path that was passed. -/
  original : String
  /-- Where it leads. -/
  resolved : Location
  /-- The access granted. -/
  access : AccessMode
  /-- Whether it was passed to `allow_file`. -/
  isFile : Bool
  deriving DecidableEq

/-- The network mode of a capability set. -/
inductive NetworkMode where
  | proxyOnly (port : UInt16)
  | blocked
  | allowAll
  deriving DecidableEq

/-- `nono::CapabilitySet`, as what was asked of it. -/
structure CapabilitySet where
  fs : List FsCapability
  network : NetworkMode
  localhostPorts : List UInt16
  /-- Unix sockets to connect to and to bind. -/
  unixSockets : List String
  /-- Whether signals are isolated. -/
  signalIsolated : Bool
  deriving DecidableEq

/-- `CapabilitySetError`, with the panic on an unknown signal mode. -/
inductive CapabilitySetError where
  | denyOverlapsAllow (deny allow : String)
  | symlinkEscapesProjectRoot (value : String) (canonicalTarget : Location)
  | canonicalize (value : String)
  | backend (message : String)
  | unreachableSignalMode (other : String)
  deriving DecidableEq

/-- Where a plan is turned into a capability set. -/
structure Host where
  /-- The variable `HOME`, if it is set. -/
  homeVar : Option String
  /-- The current directory of the process. -/
  cwd : Location
  /-- The file tree. -/
  tree : Tree

/-- The home directory that `resolve` uses: empty when `HOME` is not set. -/
def Host.home (host : Host) : String := host.homeVar.getD ""

/-- Where the `nono` library refuses a call, and why. -/
structure Nono where
  /-- `allow_path` and `allow_file`. -/
  refusesPath : FsCapability → Option String
  /-- `allow_unix_socket`. -/
  refusesSocket : String → Option String

/-- `resolve`: the path that a value stands for, and whether it is relative to the project. -/
def resolve (host : Host) (projectRoot value : String) : String × Bool :=
  if value = "~" then (host.home, false)
  else
    match Text.stripPrefix "~/" value with
    | some rest => (join host.home rest, false)
    | none => if isAbsolute value then (value, false) else (join projectRoot value, true)

/-- A home-relative value is joined to the home directory. -/
theorem resolve_tilde_append (host : Host) (projectRoot rest : String) :
    resolve host projectRoot ("~/" ++ rest) = (join host.home rest, false) := by
  rw [resolve, if_neg (tilde_append_ne rest), Text.stripPrefix_eq_some_iff.mpr rfl]

/-- An absolute value is resolved as it stands. -/
theorem resolve_of_isAbsolute {host : Host} {projectRoot value : String}
    (h : isAbsolute value = true) : resolve host projectRoot value = (value, false) := by
  obtain ⟨rest, rfl⟩ := isAbsolute_iff.mp h
  obtain ⟨hne, htilde⟩ := slash_append_ne rest
  rw [resolve, if_neg hne, htilde]
  dsimp only
  rw [if_pos h]

/-- Any other value is joined to the project root. -/
theorem resolve_of_relative {host : Host} {projectRoot value : String} (hne : value ≠ "~")
    (hstrip : Text.stripPrefix "~/" value = none) (hrel : isAbsolute value = false) :
    resolve host projectRoot value = (join projectRoot value, true) := by
  rw [resolve, if_neg hne, hstrip]
  dsimp only
  rw [if_neg (by simp [hrel])]

/-- The first denial that falls inside a grant, as `check_no_deny_overlaps_allow` finds it. -/
def denyOverlap (plan : CapabilityPlan) : Option (String × String) :=
  plan.filesystemDeny.findSome? fun deny =>
    ((plan.filesystemAllow ++ plan.filesystemRead).find? fun allow => isWithin deny allow).map
      (deny, ·)

/-- No overlap is found exactly when no denial is within a grant. -/
theorem denyOverlap_eq_none_iff {plan : CapabilityPlan} :
    denyOverlap plan = none ↔ ∀ deny ∈ plan.filesystemDeny,
      ∀ allow ∈ plan.filesystemAllow ++ plan.filesystemRead, isWithin deny allow = false := by
  rw [denyOverlap, List.findSome?_eq_none_iff]
  refine forall_congr' fun deny => imp_congr_right fun _ => ?_
  rw [Option.map_eq_none_iff, List.find?_eq_none]
  simp only [Bool.not_eq_true]

/-- `check_no_deny_overlaps_allow`. -/
def checkNoDenyOverlapsAllow (plan : CapabilityPlan) : Except CapabilitySetError Unit :=
  match denyOverlap plan with
  | some (deny, allow) => .error (.denyOverlapsAllow deny allow)
  | none => .ok ()

/-- The check accepts exactly the plans without an overlap. -/
theorem checkNoDenyOverlapsAllow_eq_ok_iff {plan : CapabilityPlan} :
    checkNoDenyOverlapsAllow plan = .ok () ↔ ∀ deny ∈ plan.filesystemDeny,
      ∀ allow ∈ plan.filesystemAllow ++ plan.filesystemRead, isWithin deny allow = false := by
  rw [← denyOverlap_eq_none_iff, checkNoDenyOverlapsAllow]
  cases denyOverlap plan <;> simp

/-- The capability that a value asks for, once its path exists. -/
def capabilityOf (host : Host) (path : String) (access : AccessMode) : FsCapability where
  original := path
  resolved := locate host.cwd path
  access := access
  isFile := !host.tree.isDir host.cwd path

/-- The guard against symbolic links that lead out of the project. -/
def symlinkGuard (host : Host) (projectRoot value path : String) :
    Except CapabilitySetError Unit :=
  match host.tree.canonicalize host.cwd path with
  | none => .error (.canonicalize value)
  | some canonicalTarget =>
    match host.tree.canonicalize host.cwd projectRoot with
    | none => .error (.canonicalize ".")
    | some canonicalRoot =>
      if canonicalRoot.isPrefixOf canonicalTarget then .ok ()
      else .error (.symlinkEscapesProjectRoot value canonicalTarget)

/-- `grant`. -/
def grant (nono : Nono) (host : Host) (caps : CapabilitySet) (value projectRoot : String)
    (access : AccessMode) : Except CapabilitySetError CapabilitySet :=
  let (resolved, isProjectRelative) := resolve host projectRoot value
  if host.tree.exists host.cwd resolved then
    match if isProjectRelative then symlinkGuard host projectRoot value resolved else .ok () with
    | .error e => .error e
    | .ok () =>
      let capability := capabilityOf host resolved access
      match nono.refusesPath capability with
      | some message => .error (.backend message)
      | none => .ok { caps with fs := caps.fs ++ [capability] }
  else .ok caps

/-- Grant the entries of a list in turn. -/
def grantAll (nono : Nono) (host : Host) (projectRoot : String) (access : AccessMode) :
    CapabilitySet → List String → Except CapabilitySetError CapabilitySet
  | caps, [] => .ok caps
  | caps, value :: rest =>
    match grant nono host caps value projectRoot access with
    | .error e => .error e
    | .ok caps => grantAll nono host projectRoot access caps rest

/-- Allow the unix sockets of a list in turn. -/
def allowSockets (nono : Nono) :
    CapabilitySet → List String → Except CapabilitySetError CapabilitySet
  | caps, [] => .ok caps
  | caps, socket :: rest =>
    match nono.refusesSocket socket with
    | some message => .error (.backend message)
    | none => allowSockets nono { caps with unixSockets := caps.unixSockets ++ [socket] } rest

/-- The network mode of a plan: the proxy's port takes precedence over blocking everything. -/
def CapabilityPlan.networkMode (plan : CapabilityPlan) : NetworkMode :=
  match plan.networkProxyPort with
  | some port => .proxyOnly port
  | none => if plan.networkBlock then .blocked else .allowAll

/-- `to_capability_set`. -/
def CapabilityPlan.toCapabilitySet (plan : CapabilityPlan) (nono : Nono) (host : Host)
    (projectRoot : String) : Except CapabilitySetError CapabilitySet :=
  match denyOverlap plan with
  | some (deny, allow) => .error (.denyOverlapsAllow deny allow)
  | none =>
    match grantAll nono host projectRoot .readWrite ⟨[], .allowAll, [], [], false⟩
        plan.filesystemAllow with
    | .error e => .error e
    | .ok caps =>
      match grantAll nono host projectRoot .read caps plan.filesystemRead with
      | .error e => .error e
      | .ok caps =>
        match allowSockets nono { caps with
            network := plan.networkMode
            localhostPorts := plan.networkPorts } plan.unixSocketBind with
        | .error e => .error e
        | .ok caps =>
          if plan.signalMode = "isolated" then .ok { caps with signalIsolated := true }
          else .error (.unreachableSignalMode plan.signalMode)

/-- The capabilities that the existing entries of a list ask for. -/
def capabilities (host : Host) (projectRoot : String) (access : AccessMode)
    (values : List String) : List FsCapability :=
  ((values.map fun value => (resolve host projectRoot value).1).filter fun path =>
    host.tree.exists host.cwd path).map fun path => capabilityOf host path access

/-- Granting a list asks for exactly the capabilities of its existing entries. -/
theorem grantAll_ok {nono : Nono} {host : Host} {projectRoot : String} {access : AccessMode}
    {caps caps' : CapabilitySet} {values : List String}
    (h : grantAll nono host projectRoot access caps values = .ok caps') :
    caps'.fs = caps.fs ++ capabilities host projectRoot access values := by
  induction values generalizing caps with
  | nil =>
    obtain rfl := Except.ok.inj h
    simp [capabilities]
  | cons value rest ih =>
    unfold grantAll at h
    split at h
    · cases h
    · next caps₁ hgrant =>
      rw [ih h]
      unfold grant at hgrant
      dsimp only at hgrant
      split at hgrant
      · next hexists =>
        split at hgrant
        · cases hgrant
        · split at hgrant
          · cases hgrant
          · obtain rfl := Except.ok.inj hgrant
            simp [capabilities, hexists]
      · next hexists =>
        obtain rfl := Except.ok.inj hgrant
        simp [capabilities, hexists]

/-- Allowing sockets adds them, and nothing else. -/
theorem allowSockets_ok {nono : Nono} {caps caps' : CapabilitySet} {sockets : List String}
    (h : allowSockets nono caps sockets = .ok caps') :
    caps' = { caps with unixSockets := caps.unixSockets ++ sockets } := by
  induction sockets generalizing caps with
  | nil =>
    obtain rfl := Except.ok.inj h
    rw [List.append_nil]
  | cons socket rest ih =>
    unfold allowSockets at h
    split at h
    · cases h
    · rw [ih h]
      simp

/-- The first thing that `to_capability_set` does is `check_no_deny_overlaps_allow`. -/
theorem CapabilityPlan.toCapabilitySet_error {plan : CapabilityPlan} {e : CapabilitySetError}
    (h : checkNoDenyOverlapsAllow plan = .error e) (nono : Nono) (host : Host)
    (projectRoot : String) : plan.toCapabilitySet nono host projectRoot = .error e := by
  unfold checkNoDenyOverlapsAllow at h
  unfold toCapabilitySet
  cases hoverlap : denyOverlap plan with
  | none => simp [hoverlap] at h
  | some entry =>
    rw [hoverlap] at h
    obtain rfl := Except.error.inj h
    rfl

/-- A capability set that was built is what the two lists of grants give, with the network mode, the
ports and the sockets of the plan. -/
theorem CapabilityPlan.toCapabilitySet_eq_ok {plan : CapabilityPlan} {nono : Nono} {host : Host}
    {projectRoot : String} {caps : CapabilitySet}
    (h : plan.toCapabilitySet nono host projectRoot = .ok caps) :
    denyOverlap plan = none ∧ ∃ allowed granted,
      grantAll nono host projectRoot .readWrite ⟨[], .allowAll, [], [], false⟩
        plan.filesystemAllow = .ok allowed ∧
      grantAll nono host projectRoot .read allowed plan.filesystemRead = .ok granted ∧
      caps = ⟨granted.fs, plan.networkMode, plan.networkPorts,
        granted.unixSockets ++ plan.unixSocketBind, true⟩ := by
  unfold toCapabilitySet at h
  split at h
  · cases h
  · next hoverlap =>
    refine ⟨hoverlap, ?_⟩
    split at h
    · cases h
    · next allowed hallow =>
      split at h
      · cases h
      · next granted hread =>
        split at h
        · cases h
        · next caps₁ hsockets =>
          split at h
          · obtain rfl := Except.ok.inj h
            rw [allowSockets_ok hsockets]
            exact ⟨allowed, granted, hallow, hread, rfl⟩
          · cases h

/-- What a capability set that was built says about its plan: no denial falls inside a grant, and
the file capabilities are those of the existing grants. -/
theorem CapabilityPlan.toCapabilitySet_ok {plan : CapabilityPlan} {nono : Nono} {host : Host}
    {projectRoot : String} {caps : CapabilitySet}
    (h : plan.toCapabilitySet nono host projectRoot = .ok caps) :
    (∀ deny ∈ plan.filesystemDeny, ∀ allow ∈ plan.filesystemAllow ++ plan.filesystemRead,
      isWithin deny allow = false) ∧
    caps.fs = capabilities host projectRoot .readWrite plan.filesystemAllow ++
      capabilities host projectRoot .read plan.filesystemRead := by
  obtain ⟨hoverlap, allowed, granted, hallow, hread, rfl⟩ := toCapabilitySet_eq_ok h
  refine ⟨denyOverlap_eq_none_iff.mp hoverlap, ?_⟩
  change granted.fs = _
  rw [grantAll_ok hread, grantAll_ok hallow]
  rfl

/-- The network part of a capability set is the plan's. -/
theorem CapabilityPlan.toCapabilitySet_network {plan : CapabilityPlan} {nono : Nono} {host : Host}
    {projectRoot : String} {caps : CapabilitySet}
    (h : plan.toCapabilitySet nono host projectRoot = .ok caps) :
    caps.network = plan.networkMode ∧ caps.localhostPorts = plan.networkPorts := by
  obtain ⟨-, allowed, granted, -, -, rfl⟩ := toCapabilitySet_eq_ok h
  exact ⟨rfl, rfl⟩

end Devcroft.Policy
