import Devcroft.Lifecycle.Terminate
import Devcroft.Lifecycle.Outcome

/-!
# Rebuilding the policy for display

`policy --render` and `why` do not ask the keeper. They compile the manifest again and
fold in what `meta.json` says of the last `up`. Compared with what `up_process` does,
the fold for the keeper's own binary is missing, and the one for the supervisor's
socket does not look at `--skip-hooks`.
-/

namespace Devcroft.Lifecycle

open Config Policy Program Provider

/-- `provider_static_name`. -/
def providerStaticName (name : String) : String :=
  match ProviderKind.fromName name with
  | .ok kind => kind.staticName
  | .error _ => "unknown"

/-- `compile_with_provider_grants`, where `found` is what reading `meta.json` gives. -/
def compileWithProviderGrants (platform : Platform) (homeVar : Option String)
    (found : Except String (Option Meta)) (manifest : Manifest) : CompiledPolicy :=
  let compiled := compile platform manifest
  match statePaths homeVar manifest.sandbox.name, found with
  | .ok _, .ok (some found) =>
    let compiled := compiled.withProviderGrants (providerStaticName manifest.env.provider)
      found.readOnlyGrants
    let compiled :=
      match found.proxyPort with
      | some port => compiled.withProxyPort port
      | none => compiled
    if found.declaredServices.isEmpty then compiled
    else
      compiled.withServicesSocketGrant (providerStaticName manifest.env.provider)
        (socketPath found.projectRoot manifest.sandbox.name)
  | _, _ => compiled

/-- Two policies have the same entries. -/
structure SameEntries (p q : CompiledPolicy) : Prop where
  filesystemAllow : ∀ x, x ∈ p.filesystemAllow ↔ x ∈ q.filesystemAllow
  filesystemRead : ∀ x, x ∈ p.filesystemRead ↔ x ∈ q.filesystemRead
  filesystemDeny : ∀ x, x ∈ p.filesystemDeny ↔ x ∈ q.filesystemDeny
  networkPorts : ∀ x, x ∈ p.networkPorts ↔ x ∈ q.networkPorts
  networkProxyPort : p.networkProxyPort = q.networkProxyPort
  unixSocketBind : ∀ x, x ∈ p.unixSocketBind ↔ x ∈ q.unixSocketBind

/-- The manifest's policy with what only an `up` knows, and with further baseline entries. -/
def livePolicy (input : UpInput) (own : List String) (provider : String) (grants : List String)
    (port : Option UInt16) (sockets : List String) : CompiledPolicy :=
  let compiled := compile input.platform input.manifest
  { compiled with
    filesystemRead := compiled.filesystemRead ++ own.map (⟨·, .baseline⟩) ++
      grants.map (⟨·, .provider provider⟩)
    networkProxyPort := port
    unixSocketBind := sockets.map (⟨·, .provider provider⟩) }

/-- The sockets that the keeper may bind. -/
def keptSockets (input : UpInput) (resolution : Resolution) : List String :=
  if input.opts.skipHooks || resolution.services.names.isEmpty then []
  else [socketPath input.projectRoot input.manifest.sandbox.name]

/-- The sockets that are shown. -/
def shownSockets (input : UpInput) (resolution : Resolution) : List String :=
  if resolution.services.names.isEmpty then []
  else [socketPath input.projectRoot input.manifest.sandbox.name]

theorem upPolicy_eq_livePolicy (input : UpInput) (exeDir provider : String)
    (resolution : Resolution) (shell : ResolvedShell) (proxy : Option (UInt16 × String)) :
    upPolicy input exeDir provider resolution shell proxy =
      livePolicy input [exeDir] provider (providerGrants resolution shell) (proxy.map Prod.fst)
        (keptSockets input resolution) := by
  unfold upPolicy keptSockets
  cases proxy <;> dsimp only <;> split <;> rfl

theorem Values.Fit.providerStaticName {v : Values} {input : UpInput} {c : Config machine}
    (hv : v.Fit input c) :
    providerStaticName input.manifest.env.provider = v.provider.staticName := by
  unfold Lifecycle.providerStaticName
  rw [hv.provider]

/-- The policy that is shown after an `up`. -/
theorem compileWithProviderGrants_eq_livePolicy {v : Values} {input : UpInput} {c : Config machine}
    (hv : v.Fit input c) :
    compileWithProviderGrants input.platform input.host.homeVar (.ok c.state.metaFile)
        input.manifest =
      livePolicy input [] v.provider.staticName (providerGrants v.resolution v.shell)
        (v.proxy.map Prod.fst) (shownSockets input v.resolution) := by
  have hroot := hv.root
  have hmeta := hv.written
  have hname := hv.providerStaticName
  unfold compileWithProviderGrants shownSockets
  rw [hroot, hmeta]
  dsimp only [Values.metaFile, upMeta]
  rw [hname]
  cases v.proxy <;> dsimp only [Option.map] <;> split <;>
    simp [livePolicy, CompiledPolicy.withProviderGrants, CompiledPolicy.withProxyPort,
      CompiledPolicy.withServicesSocketGrant, compile]

/-- Further baseline entries make no difference if the keeper reads these paths anyway. -/
theorem sameEntries_livePolicy_iff (input : UpInput) (exeDir provider : String)
    (grants : List String) (port : Option UInt16) (sockets sockets' : List String) :
    SameEntries (livePolicy input [] provider grants port sockets)
        (livePolicy input [exeDir] provider grants port sockets') ↔
      exeDir ∈ KEEPER_SYSTEM_READ input.platform ∧ ∀ s, s ∈ sockets ↔ s ∈ sockets' := by
  constructor
  · intro hsame
    constructor
    · have hread := (hsame.filesystemRead ⟨exeDir, .baseline⟩).mpr (by simp [livePolicy])
      simpa [livePolicy, compile] using hread
    · intro s
      simpa [livePolicy] using hsame.unixSocketBind ⟨s, .provider provider⟩
  · rintro ⟨hdir, hsockets⟩
    refine ⟨fun _ => Iff.rfl, fun x => ?_, fun _ => Iff.rfl, fun _ => Iff.rfl, rfl, fun x => ?_⟩
    · simp only [livePolicy, List.map_nil, List.append_nil, List.mem_append, List.map_cons,
        List.mem_singleton]
      refine ⟨fun h => h.imp_left Or.inl, ?_⟩
      rintro ((h | rfl) | h)
      · exact Or.inl h
      · left
        simp [compile, hdir]
      · exact Or.inr h
    · simp only [livePolicy, List.mem_map, hsockets]

/-- When the keeper is shown as it is: its binary lies where it reads anyway, and `--skip-hooks` has
no services to leave out. -/
def UpInput.Shown (input : UpInput) : Prop :=
  (∃ exe exeDir, input.keeperExe = .ok exe ∧ parent exe = some exeDir ∧
    exeDir ∈ KEEPER_SYSTEM_READ input.platform) ∧
  (input.opts.skipHooks = true →
    ∀ resolution, input.resolution = .ok resolution → resolution.services.names = [])

/-- The policy that is rebuilt has the entries of the one that the keeper's plan was built from. -/
def ShowsApplied (input : UpInput) (c : Config machine) : Prop :=
  ∃ v : Values, v.Fit input c ∧
    SameEntries (compileWithProviderGrants input.platform input.host.homeVar (.ok c.state.metaFile)
      input.manifest) (v.policy input)

/-- Both lists of sockets are the same unless `--skip-hooks` left out declared services. -/
theorem sockets_iff (input : UpInput) (resolution : Resolution) :
    (∀ s, s ∈ shownSockets input resolution ↔ s ∈ keptSockets input resolution) ↔
      (input.opts.skipHooks = true → resolution.services.names = []) := by
  unfold shownSockets keptSockets
  cases input.opts.skipHooks with
  | false => simp
  | true =>
    cases hnames : resolution.services.names with
    | nil => simp
    | cons name rest => simp

theorem Values.Fit.sameEntries_iff {v : Values} {input : UpInput} {c : Config machine}
    (hv : v.Fit input c) :
    SameEntries (compileWithProviderGrants input.platform input.host.homeVar
      (.ok c.state.metaFile) input.manifest) (v.policy input) ↔ input.Shown := by
  unfold Values.policy
  rw [compileWithProviderGrants_eq_livePolicy hv, upPolicy_eq_livePolicy,
    sameEntries_livePolicy_iff, sockets_iff]
  refine and_congr ⟨fun h => ⟨_, _, hv.exe, hv.exeDir, h⟩, ?_⟩ ⟨fun h hskip resolution hr => ?_,
    fun h hskip => h hskip _ hv.resolution⟩
  · rintro ⟨exe, exeDir, hexe, hdir, hread⟩
    obtain rfl := Except.ok.inj (hv.exe.symm.trans hexe)
    obtain rfl := Option.some.inj (hv.exeDir.symm.trans hdir)
    exact hread
  · obtain rfl := Except.ok.inj (hv.resolution.symm.trans hr)
    exact h hskip

/-- After every `up` that returns without having found the sandbox healthy, `policy --render` and
`why` show the policy that was applied just when the keeper's binary lies where it reads anyway and
`--skip-hooks` has no services to leave out. -/
theorem showsApplied_iff {input : UpInput} {c : Config machine} {moments : List Moment}
    {outcome : UpOutcome} (houtcome : (run (up input) moments c).outcome = .ok outcome)
    (hne : outcome ≠ .alreadyUp) :
    ShowsApplied input (run (up input) moments c).config ↔ input.Shown := by
  constructor
  · rintro ⟨v, hv, hsame⟩
    exact hv.sameEntries_iff.mp hsame
  · intro hshown
    obtain ⟨v, hv⟩ := ok_of_wp (up_fit input c) houtcome hne
    exact ⟨v, hv, hv.sameEntries_iff.mpr hshown⟩

/-- A build in `/usr/lib` is shown as it is, -/
theorem showsApplied_usrLib :
    ShowsApplied { sampleInput ["a.org"] with keeperExe := .ok "/usr/lib/devcroft" }
      (run (up { sampleInput ["a.org"] with keeperExe := .ok "/usr/lib/devcroft" })
        (sampleMoments [] []) (m := machine) ⟨[], freshHost⟩).config := by
  have hstarted : (run (up { sampleInput ["a.org"] with keeperExe := .ok "/usr/lib/devcroft" })
      (sampleMoments [] []) (m := machine) ⟨[], freshHost⟩).outcome = .ok .started := by
    decide +kernel
  refine (showsApplied_iff hstarted (by decide)).mpr ⟨⟨_, "/usr/lib", rfl, ?_, ?_⟩, ?_⟩
  · decide
  · decide
  · intro hskip
    cases hskip

/-- and one in `/opt` is not. -/
theorem not_showsApplied_opt :
    (run (up (sampleInput ["a.org"])) (sampleMoments [] []) (m := machine)
        ⟨[], freshHost⟩).outcome = .ok .started ∧
      ¬ShowsApplied (sampleInput ["a.org"]) (run (up (sampleInput ["a.org"])) (sampleMoments [] [])
        (m := machine) ⟨[], freshHost⟩).config := by
  refine ⟨by decide +kernel, ?_⟩
  rintro ⟨v, hv, hsame⟩
  obtain ⟨⟨exe, exeDir, hexe, hdir, hread⟩, -⟩ := hv.sameEntries_iff.mp hsame
  obtain rfl : "/opt/devcroft/devcroft" = exe := Except.ok.inj hexe
  have hopt : parent "/opt/devcroft/devcroft" = some "/opt/devcroft" := by decide
  obtain rfl := Option.some.inj (hopt.symm.trans hdir)
  exact absurd hread (by decide)

end Devcroft.Lifecycle
