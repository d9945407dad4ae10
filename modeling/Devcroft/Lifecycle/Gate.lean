import Devcroft.Lifecycle.Launch

/-!
# What `up` lets through

Two properties of every keeper that `up` starts: no manifest that denies a path gets
one, and the network part of its capability set is the one the manifest asks for. The
second fails for one port number, which the library takes for all of them.
-/

namespace Devcroft.Lifecycle

open Config Policy Program Provider

/-- A run of `up` on a host. -/
def upRun (input : UpInput) (host : Host) (choices : List Moment) :
    Ended machine UpError UpOutcome := run (up input) choices ⟨[], host⟩

/-- What holds of the keepers in every run. -/
theorem upRun_launches (input : UpInput) (host : Host) (choices : List Moment) :
    Launches input (upRun input host choices).config.trace := by
  have hstart : Before none (⟨[], host⟩ : Config machine).trace := ⟨fun _ h => (nomatch h), rfl⟩
  exact config_of_wp (G := fun _ _ => True) (up_launches input hstart) choices (guarded_true _)

/-- The policy of `up_process` is checked as the compiled one with its two folds. -/
theorem upPolicy_check (input : UpInput) (exeDir provider : String) (resolution : Resolution)
    (shell : ResolvedShell) (proxy : Option (UInt16 × String)) :
    checkNoDenyOverlapsAllow
        (upPolicy input exeDir provider resolution shell proxy).toCapabilityPlan =
      checkNoDenyOverlapsAllow ((compile input.platform input.manifest).folded
        [.keeperExe exeDir, .provider provider (providerGrants resolution shell)]).toCapabilityPlan := by
  unfold upPolicy
  cases proxy <;> dsimp only <;> split <;> rfl

/-- No keeper is started for an accepted manifest that denies something. -/
theorem unlaunched_of_deny {input : UpInput} (haccepted : input.manifest.filesystem.Accepted)
    (hdeny : input.manifest.filesystem.deny ≠ []) (host : Host) (choices : List Moment) :
    Unlaunched (upRun input host choices).config.trace := by
  intro step hstep launch hop
  obtain ⟨⟨exeDir, provider, resolution, shell, hplan⟩, -, caps, hcaps⟩ :=
    upRun_launches input host choices step hstep launch hop
  rw [hplan] at hcaps
  have hrejected := checkNoDenyOverlapsAllow_of_deny input.platform haccepted hdeny
    [.keeperExe exeDir, .provider provider (providerGrants resolution shell)]
  rw [← upPolicy_check input exeDir provider resolution shell (obtainedProxy _)] at hrejected
  cases hcheck : checkNoDenyOverlapsAllow
      (upPolicy input exeDir provider resolution shell (obtainedProxy _)).toCapabilityPlan with
  | ok u => exact hrejected hcheck
  | error e =>
    rw [CapabilityPlan.toCapabilitySet_error hcheck] at hcaps
    cases hcaps

/-- An `up` that succeeds without having found the sandbox up has started a keeper. -/
theorem exists_launch {input : UpInput} {host : Host} {choices : List Moment}
    {outcome : UpOutcome} (hok : (upRun input host choices).outcome = .ok outcome)
    (hne : outcome ≠ .alreadyUp) :
    ∃ step ∈ (upRun input host choices).config.trace, ∃ launch, step.op = .spawnKeeper launch := by
  obtain ⟨v, hfit⟩ := ok_of_wp (up_fit input ⟨[], host⟩) hok hne
  have hlaunched := hfit.launched
  have hmem : ∀ trace : List (Step machine), ∀ launch, latestLaunch trace = some launch →
      ∃ step ∈ trace, step.op = .spawnKeeper launch := by
    intro trace launch hlatest
    induction trace with
    | nil => cases hlatest
    | cons step earlier ih =>
      unfold latestLaunch at hlatest
      split at hlatest
      · next hop =>
        obtain rfl := Option.some.inj hlatest
        exact ⟨step, List.mem_cons_self, hop⟩
      · obtain ⟨s, hs, hop⟩ := ih hlatest
        exact ⟨s, List.mem_cons_of_mem _ hs, hop⟩
  obtain ⟨step, hstep, hop⟩ := hmem _ _ hlaunched
  exact ⟨step, hstep, _, hop⟩

/-- Exactly when the denials of an accepted manifest let a compiled plan pass, whatever absolute
grants are folded in: the manifest denies nothing and grants nothing that covers the data directory.
So a manifest that denies something is never brought up, and the denials of credential directories
never overlap. -/
theorem rejection {toml : Toml} {text : String} {manifest : Manifest} {warnings : List Warning}
    (hparse : parse toml text = .ok (manifest, warnings)) :
    (∀ (platform : Platform) (folds : List Fold),
      (∀ f ∈ folds, ∀ path ∈ f.paths, Posix.isAbsolute path = true) →
      (checkNoDenyOverlapsAllow ((compile platform manifest).folded folds).toCapabilityPlan =
          .ok () ↔
        manifest.filesystem.deny = [] ∧
          ∀ g ∈ manifest.filesystem.allow ++ manifest.filesystem.read,
            Paths.isWithin DEVCROFT_DATA_DIR g = false) ∧
      ∀ d ∈ sensitiveDenials (manifest.filesystem.allow ++ manifest.filesystem.read),
        ∀ g ∈ ((compile platform manifest).folded folds).toCapabilityPlan.filesystemAllow ++
            ((compile platform manifest).folded folds).toCapabilityPlan.filesystemRead,
          Paths.isWithin d g = false) ∧
    (manifest.filesystem.deny ≠ [] → ∀ (input : UpInput), input.manifest = manifest →
      ∀ (host : Host) (choices : List Moment),
        Unlaunched (upRun input host choices).config.trace ∧
        ∀ outcome, (upRun input host choices).outcome = .ok outcome →
          outcome = .alreadyUp) := by
  have haccepted := (parse_ok hparse).filesystem
  constructor
  · intro platform folds hfolds
    constructor
    · exact checkNoDenyOverlapsAllow_folded haccepted hfolds
    · intro d hd g hg
      exact sensitiveDenials_apart hfolds hd hg
  · rintro hdeny input rfl host choices
    have hunlaunched := unlaunched_of_deny haccepted hdeny host choices
    refine ⟨hunlaunched, fun outcome hok => ?_⟩
    by_contra hne
    obtain ⟨step, hstep, launch, hop⟩ := exists_launch hok hne
    exact hunlaunched step hstep launch hop

/-- A manifest that grants its project alone passes, with the grants of `up` folded in. -/
theorem rejection_project :
    checkNoDenyOverlapsAllow ((compile .linux (sampleManifest ["."])).folded
      [.keeperExe "/opt/devcroft", .provider "flox" ["/nix/store"]]).toCapabilityPlan = .ok () := by
  have hparse : parse (sampleToml ["."]) "" = .ok (sampleManifest ["."], []) := by decide
  have hiff := ((rejection hparse).1 .linux
    [.keeperExe "/opt/devcroft", .provider "flox" ["/nix/store"]] (by decide)).1
  exact hiff.mpr (by decide)

/-- The network part of a capability set is the one that a manifest asks for, with the proxy that
was obtained for it. -/
structure NetworkGate (manifest : Manifest) (proxy : Option (UInt16 × String))
    (caps : CapabilitySet) : Prop where
  /-- Everything is allowed exactly where the manifest says so. -/
  allowAll : caps.network = .allowAll ↔ manifest.network.default = .allow
  /-- The proxy alone can be reached exactly where the manifest denies by default, with exceptions.
  -/
  proxyOnly : ∀ port, caps.network = .proxyOnly port ↔
    manifest.network.default = .deny ∧ manifest.network.allow ≠ [] ∧
      ∃ token, proxy = some (port, token)
  /-- Where there are exceptions, there is a proxy. -/
  proxied : manifest.network.default = .deny → manifest.network.allow ≠ [] → proxy.isSome = true
  /-- Nothing can be reached exactly where the manifest denies without exceptions. -/
  blocked : caps.network = .blocked ↔
    manifest.network.default = .deny ∧ manifest.network.allow = []
  /-- The loopback ports are the manifest's. -/
  ports : caps.localhostPorts = manifest.network.ports
  /-- Each is an explicit port: the library takes 0 for any port. -/
  explicit : ∀ port ∈ caps.localhostPorts, 1 ≤ port.toNat ∧ port.toNat ≤ 65535

theorem explicit_iff {port : UInt16} : 1 ≤ port.toNat ∧ port.toNat ≤ 65535 ↔ port ≠ 0 := by
  have hlt := port.toNat_lt
  have hzero : port = 0 ↔ port.toNat = 0 := UInt16.toNat_inj.symm
  rw [ne_eq, hzero]
  omega

/-- When a compiled policy wants a proxy. -/
theorem wantsEgressProxy_iff (platform : Platform) (manifest : Manifest) :
    (compile platform manifest).wantsEgressProxy = true ↔
      manifest.network.default = .deny ∧ manifest.network.allow ≠ [] := by
  simp [CompiledPolicy.wantsEgressProxy, compile]

/-- The network part of the plan of `up_process`. -/
theorem upPolicy_network (input : UpInput) (exeDir provider : String) (resolution : Resolution)
    (shell : ResolvedShell) (proxy : Option (UInt16 × String)) :
    (upPolicy input exeDir provider resolution shell proxy).toCapabilityPlan.networkPorts =
      input.manifest.network.ports ∧
    (upPolicy input exeDir provider resolution shell proxy).toCapabilityPlan.networkMode =
      match proxy with
      | some (port, _) => .proxyOnly port
      | none => if input.manifest.network.default = .deny then .blocked else .allowAll := by
  have hports : ((compile input.platform input.manifest).networkPorts.map AnnotatedPort.value) =
      input.manifest.network.ports := by
    simp [compile, Function.comp_def]
  unfold upPolicy
  constructor
  · cases proxy <;> dsimp only <;> split <;> exact hports
  · cases proxy with
    | some entry => dsimp only; split <;> rfl
    | none =>
      dsimp only
      split <;>
        simp [CapabilityPlan.networkMode, CompiledPolicy.toCapabilityPlan, compile,
          CompiledPolicy.withProviderGrants, CompiledPolicy.withKeeperExeGrant,
          CompiledPolicy.withServicesSocketGrant]

/-- Exactly when the network part of a plan that `up` starts a keeper with is the one that the
manifest asks for: the port 0 is not among the manifest's. -/
theorem networkGate_iff {input : UpInput} {proxy : Option (UInt16 × String)} {launch : Launch}
    (hlaunched : Launched input proxy launch) {nono : Nono} {host : Policy.Host}
    {projectRoot : String} {caps : CapabilitySet}
    (hcaps : launch.plan.toCapabilitySet nono host projectRoot = .ok caps) :
    NetworkGate input.manifest proxy caps ↔ 0 ∉ input.manifest.network.ports := by
  obtain ⟨⟨exeDir, provider, resolution, shell, hplan⟩, hwants, -⟩ := hlaunched
  obtain ⟨hports, hmode⟩ := upPolicy_network input exeDir provider resolution shell proxy
  obtain ⟨hnetwork, hlocalhost⟩ := CapabilityPlan.toCapabilitySet_network hcaps
  rw [hplan, hports] at hlocalhost
  rw [hplan, hmode] at hnetwork
  have hsome : proxy.isSome = true ↔
      input.manifest.network.default = .deny ∧ input.manifest.network.allow ≠ [] := by
    rw [hwants]
    exact wantsEgressProxy_iff _ _
  constructor
  · intro hgate hmem
    have hbounds := hgate.explicit 0 (hlocalhost ▸ hmem)
    exact explicit_iff.mp hbounds rfl
  · intro hmem
    have hexplicit : ∀ port ∈ caps.localhostPorts, 1 ≤ port.toNat ∧ port.toNat ≤ 65535 := by
      intro port hport
      rw [hlocalhost] at hport
      exact explicit_iff.mpr fun hzero => hmem (hzero ▸ hport)
    cases hdefault : input.manifest.network.default with
    | allow =>
      have hnone : proxy = none := by
        cases proxy with
        | none => rfl
        | some entry =>
          have hdeny := (hsome.mp rfl).1
          rw [hdefault] at hdeny
          cases hdeny
      subst hnone
      rw [hdefault] at hnetwork
      constructor
      · simp [hnetwork, hdefault]
      · simp [hnetwork]
      · simp [hdefault]
      · simp [hnetwork, hdefault]
      · exact hlocalhost
      · exact hexplicit
    | deny =>
      rw [hdefault] at hnetwork
      cases proxy with
      | none =>
        have hempty : input.manifest.network.allow = [] := by
          by_contra hne
          cases hsome.mpr ⟨hdefault, hne⟩
        constructor
        · simp [hnetwork, hdefault]
        · simp [hnetwork]
        · simp [hempty]
        · simp [hnetwork, hdefault, hempty]
        · exact hlocalhost
        · exact hexplicit
      | some entry =>
        have hallow := (hsome.mp rfl).2
        constructor
        · simp [hnetwork, hdefault]
        · intro port
          simp [hnetwork, hdefault, hallow, Prod.ext_iff]
        · simp
        · simp [hnetwork, hallow]
        · exact hlocalhost
        · exact hexplicit

/-- Exactly when the network gate of every keeper that an `up` starts is the one that the manifest
asks for, in every run: the port 0 is not among the manifest's ports. -/
theorem upRun_networkGate {input : UpInput} {host : Host} {choices : List Moment}
    {step : Step machine} (hstep : step ∈ (upRun input host choices).config.trace) {launch : Launch}
    (hop : step.op = .spawnKeeper launch) :
    (∃ caps, launch.plan.toCapabilitySet input.nono input.host input.projectRoot = .ok caps) ∧
    ∀ nono host' projectRoot caps,
      launch.plan.toCapabilitySet nono host' projectRoot = .ok caps →
      (NetworkGate input.manifest (obtainedProxy (upRun input host choices).config.trace) caps ↔
        0 ∉ input.manifest.network.ports) := by
  have hlaunched := upRun_launches input host choices step hstep launch hop
  refine ⟨hlaunched.2.2, fun nono host' projectRoot caps hcaps => ?_⟩
  exact networkGate_iff hlaunched hcaps

/-- An input whose manifest has these exceptions and ports. -/
def portsInput (allow : List String) (ports : List UInt16) : UpInput :=
  { sampleInput allow with
    manifest := { sampleManifest ["."] with network := ⟨.deny, allow, ports⟩ } }

/-- A manifest text with these exceptions and ports. -/
def portsToml (allow : List String) (ports : List UInt16) : Toml where
  parse _ := .ok []
  tryInto _ := .ok { RawManifest.default with
    sandbox := ⟨some "p", none⟩
    network := ⟨.deny, allow, ports⟩ }

/-- The gate of a keeper that is started with a database port is as it should be. -/
theorem upRun_networkGate_database :
    ∃ step ∈ (upRun (portsInput ["a.org"] [5432]) freshHost (sampleMoments [] [])).config.trace,
      ∃ launch caps, step.op = .spawnKeeper launch ∧
        NetworkGate (portsInput ["a.org"] [5432]).manifest
          (obtainedProxy (upRun (portsInput ["a.org"] [5432]) freshHost
            (sampleMoments [] [])).config.trace) caps := by
  have hstarted : (upRun (portsInput ["a.org"] [5432]) freshHost (sampleMoments [] [])).outcome =
      .ok .started := by
    decide +kernel
  obtain ⟨step, hstep, launch, hop⟩ := exists_launch hstarted (by decide)
  obtain ⟨⟨caps, hcaps⟩, hgate⟩ := upRun_networkGate hstep hop
  refine ⟨step, hstep, launch, caps, hop, (hgate _ _ _ caps hcaps).mpr ?_⟩
  decide

/-- The port 0 is accepted and reaches the capability set, where it stands for every port. -/
theorem not_networkGate_zero :
    parse (portsToml [] [0]) "" = .ok ((portsInput [] [0]).manifest, []) ∧
    ∃ step ∈ (upRun (portsInput [] [0]) freshHost (sampleMoments [] [])).config.trace,
      ∃ launch caps, step.op = .spawnKeeper launch ∧
        launch.plan.toCapabilitySet (portsInput [] [0]).nono (portsInput [] [0]).host
          (portsInput [] [0]).projectRoot = .ok caps ∧
        caps.localhostPorts = [0] ∧
        ¬NetworkGate (portsInput [] [0]).manifest
          (obtainedProxy (upRun (portsInput [] [0]) freshHost
            (sampleMoments [] [])).config.trace) caps := by
  have hstarted : (upRun (portsInput [] [0]) freshHost (sampleMoments [] [])).outcome =
      .ok .started := by
    decide +kernel
  obtain ⟨step, hstep, launch, hop⟩ := exists_launch hstarted (by decide)
  have hlaunched := upRun_launches _ _ _ step hstep launch hop
  obtain ⟨⟨exeDir, provider, resolution, shell, hplan⟩, -, caps, hcaps⟩ := hlaunched
  have hports : caps.localhostPorts = [0] := by
    rw [(CapabilityPlan.toCapabilitySet_network hcaps).2, hplan]
    exact (upPolicy_network _ exeDir provider resolution shell _).1
  refine ⟨by decide, step, hstep, launch, caps, hop, hcaps, hports, fun hgate => ?_⟩
  have hbounds := hgate.explicit 0 (by rw [hports]; exact List.mem_cons_self)
  exact absurd hbounds (by decide)

end Devcroft.Lifecycle
