import Devcroft.Keeper.Main
import Devcroft.Lifecycle.Environment
import Devcroft.Lifecycle.Gate
import Devcroft.Lifecycle.Recorded

/-!
# How a keeper confines itself

`up` checks the capability plan of a sandbox on the host and hands it to the keeper as JSON. The
keeper resolves it again, as another process with another current directory and other variables,
applies the result to itself and only then starts anything: its relay, its shutdown handler, the
services, the SSH server and the control socket.
-/

namespace Devcroft.Policy

open Posix

/-- A value that stands for a path below the home directory. -/
def HomeRelative (value : String) : Prop :=
  value = "~" ∨ ∃ rest, Text.stripPrefix "~/" value = some rest

/-- No grant of a plan depends on the home directory. -/
def CapabilityPlan.HomeFree (plan : CapabilityPlan) : Prop :=
  ∀ value ∈ plan.filesystemAllow ++ plan.filesystemRead, ¬HomeRelative value

/-- Values that two processes resolve alike, whatever their current directories: they share the
home directory, or the values do not depend on it. -/
def Alike (host host' : Host) (values : List String) : Prop :=
  (host'.home = host.home ∧ isAbsolute host.home = true) ∨
    ∀ value ∈ values, ¬HomeRelative value

section Alike

variable {host host' : Host} {projectRoot value : String}

theorem Alike.mono {values values' : List String} (h : Alike host host' values)
    (hsub : ∀ value ∈ values', value ∈ values) : Alike host host' values' :=
  h.imp_right fun hfree value hvalue => hfree value (hsub value hvalue)

/-- Such values lead to one absolute path. -/
theorem resolve_alike (hroot : isAbsolute projectRoot = true) (h : Alike host host' [value]) :
    resolve host' projectRoot value = resolve host projectRoot value ∧
      isAbsolute (resolve host projectRoot value).1 = true := by
  have hhome : HomeRelative value → host'.home = host.home ∧ isAbsolute host.home = true :=
    fun hrel => h.resolve_right fun hfree => hfree value (List.mem_singleton.mpr rfl) hrel
  unfold resolve
  by_cases htilde : value = "~"
  · obtain ⟨hsame, habs⟩ := hhome (Or.inl htilde)
    simp [htilde, hsame, habs]
  · rw [if_neg htilde, if_neg htilde]
    cases hstrip : Text.stripPrefix "~/" value with
    | some rest =>
      obtain ⟨hsame, habs⟩ := hhome (Or.inr ⟨rest, hstrip⟩)
      exact ⟨by rw [hsame], isAbsolute_join habs rest⟩
    | none =>
      refine ⟨rfl, ?_⟩
      dsimp only
      split
      · assumption
      · exact isAbsolute_join hroot value

/-- Where an absolute path leads does not depend on the current directory. -/
theorem canonicalize_of_isAbsolute (tree : Tree) (cwd cwd' : Location) {path : String}
    (h : isAbsolute path = true) : tree.canonicalize cwd' path = tree.canonicalize cwd path := by
  simp only [Tree.canonicalize, h, if_true]

theorem capabilityOf_alike (htree : host'.tree = host.tree) {path : String} (access : AccessMode)
    (h : isAbsolute path = true) :
    capabilityOf host' path access = capabilityOf host path access := by
  simp only [capabilityOf, locate, Tree.isDir, htree, h, if_true,
    canonicalize_of_isAbsolute host.tree host.cwd host'.cwd h]

variable {nono : Nono} {access : AccessMode}

theorem grant_alike (htree : host'.tree = host.tree) (hroot : isAbsolute projectRoot = true)
    (h : Alike host host' [value]) (caps : CapabilitySet) :
    grant nono host' caps value projectRoot access =
      grant nono host caps value projectRoot access := by
  obtain ⟨hresolve, habs⟩ := resolve_alike hroot h
  unfold grant
  rw [hresolve]
  generalize resolve host projectRoot value = resolved at habs ⊢
  obtain ⟨path, relative⟩ := resolved
  dsimp only at habs ⊢
  have hexists : host'.tree.exists host'.cwd path = host.tree.exists host.cwd path := by
    rw [htree, Tree.exists, Tree.exists,
      canonicalize_of_isAbsolute host.tree host.cwd host'.cwd habs]
  have hguard : symlinkGuard host' projectRoot value path =
      symlinkGuard host projectRoot value path := by
    rw [symlinkGuard, symlinkGuard, htree,
      canonicalize_of_isAbsolute host.tree host.cwd host'.cwd habs,
      canonicalize_of_isAbsolute host.tree host.cwd host'.cwd hroot]
  rw [hexists, hguard, capabilityOf_alike htree access habs]

theorem grantAll_alike (htree : host'.tree = host.tree) (hroot : isAbsolute projectRoot = true)
    {values : List String} (h : Alike host host' values) (caps : CapabilitySet) :
    grantAll nono host' projectRoot access caps values =
      grantAll nono host projectRoot access caps values := by
  induction values generalizing caps with
  | nil => rfl
  | cons value rest ih =>
    have hfirst : Alike host host' [value] := h.mono (by simp)
    have hrest : Alike host host' rest := h.mono fun _ => List.mem_cons_of_mem _
    simp only [grantAll, grant_alike htree hroot hfirst caps, ih hrest]

/-- Two processes that see the same files and resolve the grants of a plan alike build the same
capability set from it. -/
theorem toCapabilitySet_alike (htree : host'.tree = host.tree)
    (hroot : isAbsolute projectRoot = true) {plan : CapabilityPlan}
    (h : Alike host host' (plan.filesystemAllow ++ plan.filesystemRead)) :
    plan.toCapabilitySet nono host' projectRoot = plan.toCapabilitySet nono host projectRoot := by
  have hallow : Alike host host' plan.filesystemAllow := h.mono fun _ => List.mem_append_left _
  have hread : Alike host host' plan.filesystemRead := h.mono fun _ => List.mem_append_right _
  unfold CapabilityPlan.toCapabilitySet
  simp only [grantAll_alike htree hroot hallow, grantAll_alike htree hroot hread]

/-- Granting paths leaves the sockets as they are. -/
theorem grantAll_unixSockets {host : Host} {caps caps' : CapabilitySet} {values : List String}
    (h : grantAll nono host projectRoot access caps values = .ok caps') :
    caps'.unixSockets = caps.unixSockets := by
  induction values generalizing caps with
  | nil =>
    obtain rfl := Except.ok.inj h
    rfl
  | cons value rest ih =>
    unfold grantAll at h
    split at h
    · cases h
    · next caps₁ hgrant =>
      rw [ih h]
      unfold grant at hgrant
      dsimp only at hgrant
      split at hgrant
      · split at hgrant
        · cases hgrant
        · split at hgrant
          · cases hgrant
          · obtain rfl := Except.ok.inj hgrant
            rfl
      · obtain rfl := Except.ok.inj hgrant
        rfl

/-- What a capability set has beside its files is the plan's. -/
theorem toCapabilitySet_rest {plan : CapabilityPlan} {host : Host} {caps : CapabilitySet}
    (h : plan.toCapabilitySet nono host projectRoot = .ok caps) :
    caps = ⟨caps.fs, plan.networkMode, plan.networkPorts, plan.unixSocketBind, true⟩ := by
  obtain ⟨-, allowed, granted, hallow, hread, rfl⟩ := CapabilityPlan.toCapabilitySet_eq_ok h
  have hnone : granted.unixSockets = [] :=
    (grantAll_unixSockets hread).trans (grantAll_unixSockets hallow)
  simp [hnone]

end Alike

end Devcroft.Policy

namespace Devcroft.Keeper

open Environ Lifecycle Policy Program

/-- What `keeper_main` does with the system. -/
inductive KeeperOp where
  /-- `TcpListener::bind` on loopback. -/
  | bindRelay (port : UInt16)
  | currentDir
  /-- `nono::Sandbox::apply_auto`. -/
  | applyAuto (caps : CapabilitySet)
  /-- The thread of `relay_to_host_proxy`. -/
  | relayToHostProxy (port : UInt16) (socketPath : String)
  | installShutdownHandler
  /-- `SessionBackend::spawn`. -/
  | spawn (req : SpawnRequest)
  /-- `Registry::insert`. -/
  | insert (pgid : ℕ) (label : String)
  /-- `ssh::start_from_env`. -/
  | startSsh (control : Control)
  /-- `Keeper::serve`, which returns when `accept` fails. -/
  | serve
  /-- A line on the standard error output. -/
  | log (line : String)

/-- What they answer. -/
@[reducible] def KeeperOp.Answer : KeeperOp → Type
  | bindRelay _ => Except String Unit
  | currentDir => Except String String
  | applyAuto _ => Except String Unit
  | relayToHostProxy _ _ => Unit
  | installShutdownHandler => Except String Unit
  | spawn _ => Except String ℕ
  | insert _ _ => ℕ
  | startSsh _ => Unit
  | serve => Unit
  | log _ => Unit

/-- The operations after which something runs that is not `keeper_main` itself, or that are about
it. -/
def KeeperOp.Starts : KeeperOp → Bool
  | bindRelay _ | currentDir | applyAuto _ | log _ => false
  | _ => true

/-- Why `keeper_main` ends before it serves. -/
inductive KeeperExit where
  | planNotSet
  | parsingPlan (message : String)
  | projectRoot (message : String)
  | capabilitySet (e : CapabilitySetError)
  | applyingSandbox (message : String)
  | blockingSignals (message : String)
  deriving DecidableEq

/-- A part of `keeper_main`. -/
abbrev Booting (α : Type) := Prog KeeperOp KeeperOp.Answer KeeperExit α

/-- Where a keeper runs, and what it was handed. -/
structure KeeperProcess where
  vars : Vars
  tree : Posix.Tree
  nono : Nono
  /-- `serde_json::from_str`. -/
  fromStr : String → Except String CapabilityPlan
  cwd : String

/-- The process that resolves the plan. -/
def KeeperProcess.host (k : KeeperProcess) : Policy.Host where
  homeVar := getenv k.vars "HOME"
  cwd := Posix.locate [] k.cwd
  tree := k.tree

/-- The listener of the relay, bound before the keeper restricts itself. -/
def bindRelay (control : Control) : Booting (Option (UInt16 × String)) :=
  match control.relay with
  | none => return none
  | some (port, socketPath) => do
    match ← perform (KeeperOp.bindRelay port) with
    | .ok () => return some (port, socketPath)
    | .error e =>
      perform (KeeperOp.log ("devcroft keeper: could not bind egress relay on 127.0.0.1:" ++
        toString port.toNat ++ ": " ++ e))
      return none

/-- A variable that has to be there. -/
def planVariable (control : Control) : Except KeeperExit String :=
  match control.capabilityPlan with
  | none => .error .planNotSet
  | some json => .ok json

/-- `self_restrict`. -/
def selfRestrict (k : KeeperProcess) (control : Control) : Booting Unit := do
  let planJson ← orFail id (planVariable control)
  let plan ← orFail .parsingPlan (k.fromStr planJson)
  let projectRoot ← orFail .projectRoot (← perform KeeperOp.currentDir)
  let caps ← orFail .capabilitySet (plan.toCapabilitySet k.nono k.host projectRoot)
  orFail .applyingSandbox (← perform (KeeperOp.applyAuto caps))

/-- What `start_services_if_requested` and the SSH server read, in a current directory. -/
def keeperEnvOf (control : Control) (cwd : Option String) : KeeperEnv where
  startServices := control.startServices = some "1"
  servicesRoot := control.servicesRoot
  sandboxName := control.sandboxName
  ssh := ⟨control.shell, cwd⟩

/-- `start_services_if_requested`. -/
def startServicesIfRequested (control : Control) : Booting Unit :=
  if control.startServices = some "1" then do
    match ← perform (KeeperOp.spawn (servicesRequest (keeperEnvOf control none))) with
    | .ok pgid =>
      let id ← perform (KeeperOp.insert pgid "process-compose (services)")
      perform (KeeperOp.log ("services started session=" ++ toString id ++ " pgid=" ++
        toString pgid))
    | .error e => perform (KeeperOp.log ("services failed to start: " ++ e))
  else return ()

/-- `keeper_main`. -/
def keeperMain (k : KeeperProcess) : Booting Unit := do
  let control := Control.read k.vars
  let relay ← bindRelay control
  selfRestrict k control
  match relay with
  | none => pure ()
  | some (port, socketPath) => perform (KeeperOp.relayToHostProxy port socketPath)
  orFail .blockingSignals (← perform KeeperOp.installShutdownHandler)
  startServicesIfRequested control
  perform (KeeperOp.startSsh control)
  perform KeeperOp.serve

/-- How an operation fares. -/
structure KeeperChoice where
  /-- The error with which it fails. -/
  fails : Option String
  /-- The pid or the id that it answers. -/
  number : ℕ

/-- The answer of an operation that fails only when it is chosen to. -/
def KeeperChoice.fallible {α : Type} (t : KeeperChoice) (a : α) : Except String α :=
  match t.fails with
  | some e => .error e
  | none => .ok a

/-- The current directory of a keeper, and what it is confined to. -/
structure Confinement where
  cwd : String
  confined : Option CapabilitySet

/-- What the operations do. -/
def KeeperOp.act : (o : KeeperOp) → KeeperChoice → Confinement → o.Answer × Confinement
  | bindRelay _, t, s => (t.fallible (), s)
  | currentDir, t, s => (t.fallible s.cwd, s)
  | applyAuto caps, t, s =>
    match t.fails with
    | some e => (.error e, s)
    | none => (.ok (), { s with confined := some caps })
  | relayToHostProxy _ _, _, s => ((), s)
  | installShutdownHandler, t, s => (t.fallible (), s)
  | spawn _, t, s => (t.fallible t.number, s)
  | insert _ _, t, s => (t.number, s)
  | startSsh _, _, s => ((), s)
  | serve, _, s => ((), s)
  | log _, _, s => ((), s)

/-- The process as a machine. -/
@[reducible] def keeperMachine : Machine KeeperOp KeeperOp.Answer where
  State := Confinement
  Choice := KeeperChoice
  idle := ⟨none, 1⟩
  surroundings _ s := s
  act := KeeperOp.act

/-- A keeper that has just been started, with its first steps ahead. -/
def KeeperProcess.boot (k : KeeperProcess) (choices : List KeeperChoice) :
    Ended keeperMachine KeeperExit Unit :=
  run (keeperMain k) choices ⟨[], ⟨k.cwd, none⟩⟩

variable {G : Guard keeperMachine}

/-- Everything that was started so far was started under these capabilities. -/
def StartedUnder (P : CapabilitySet → Prop) (trace : List (Step keeperMachine)) : Prop :=
  ∀ step ∈ trace, step.op.Starts = true → ∃ kept, P kept ∧ step.before.confined = some kept

/-- Before the keeper has restricted itself. -/
structure Unconfined (cwd : String) (P : CapabilitySet → Prop) (c : Config keeperMachine) :
    Prop where
  started : StartedUnder P c.trace
  cwd : c.state.cwd = cwd

/-- After it. -/
structure Confined (P : CapabilitySet → Prop) (c : Config keeperMachine) : Prop where
  started : StartedUnder P c.trace
  confined : ∃ kept, P kept ∧ c.state.confined = some kept

theorem StartedUnder.cons {P : CapabilitySet → Prop} {trace : List (Step keeperMachine)}
    (h : StartedUnder P trace) {step : Step keeperMachine}
    (hstep : step.op.Starts = true → ∃ kept, P kept ∧ step.before.confined = some kept) :
    StartedUnder P (step :: trace) := by
  intro s hs
  rcases List.mem_cons.mp hs with rfl | hs
  · exact hstep
  · exact h s hs

/-- The operations that come before the restriction. -/
def KeeperOp.Early : KeeperOp → Prop
  | bindRelay _ | currentDir | log _ => True
  | _ => False

/-- They start nothing and leave the process as it is. -/
theorem Unconfined.next {cwd : String} {P : CapabilitySet → Prop} {c : Config keeperMachine}
    (h : Unconfined cwd P c) {o : KeeperOp} (ho : o.Early) (t : KeeperChoice) :
    Unconfined cwd P (c.next o t) := by
  cases o with
  | bindRelay port => exact ⟨h.started.cons (fun hs => nomatch hs), h.cwd⟩
  | currentDir => exact ⟨h.started.cons (fun hs => nomatch hs), h.cwd⟩
  | log line => exact ⟨h.started.cons (fun hs => nomatch hs), h.cwd⟩
  | _ => exact ho.elim

/-- No operation but another restriction changes what a keeper is confined to. -/
theorem Confined.next {P : CapabilitySet → Prop} {c : Config keeperMachine} (h : Confined P c)
    {o : KeeperOp} (ho : ∀ caps, o ≠ .applyAuto caps) (t : KeeperChoice) :
    Confined P (c.next o t) := by
  refine ⟨h.started.cons fun _ => h.confined, ?_⟩
  cases o with
  | applyAuto caps => exact (ho caps rfl).elim
  | _ => exact h.confined

theorem early_bindRelay (control : Control) : Only KeeperOp.Early (bindRelay control) := by
  unfold bindRelay
  split
  · exact only_pure _
  · refine only_bind (only_perform trivial) fun bound => ?_
    split
    · exact only_pure _
    · exact only_bind (only_perform trivial) fun _ => only_pure _

/-- `self_restrict` applies the capability set of the plan that it was handed, or fails. -/
theorem selfRestrict_confined {k : KeeperProcess} {control : Control} {json : String}
    {plan : CapabilityPlan} (hjson : control.capabilityPlan = some json)
    (hplan : k.fromStr json = .ok plan) {c : Config keeperMachine}
    {P : CapabilitySet → Prop}
    (hP : ∀ kept, plan.toCapabilitySet k.nono k.host k.cwd = .ok kept → P kept)
    (hc : Unconfined k.cwd P c) :
    wp G (fun _ => Confined P) (fun _ c' => StartedUnder P c'.trace) (selfRestrict k control)
      c := by
  have hvariable : planVariable control = .ok json := by rw [planVariable, hjson]
  refine wp_orFail_bind (fun planJson hvar => ?_) fun _ h => nomatch hvariable.symm.trans h
  obtain rfl : planJson = json := Except.ok.inj (hvar.symm.trans hvariable)
  refine wp_orFail_bind (fun parsed hparsed => ?_) fun _ h => nomatch hplan.symm.trans h
  obtain rfl : parsed = plan := Except.ok.inj (hparsed.symm.trans hplan)
  refine (wp_perform_bind _ _ _ _ _).mpr fun t _ => ?_
  have hdir : Unconfined k.cwd P (c.next .currentDir t) :=
    hc.next (o := .currentDir) trivial t
  refine wp_orFail_bind (fun projectRoot hroot => ?_) fun _ _ => hdir.started
  obtain rfl : projectRoot = k.cwd := by
    have hanswer : t.fallible c.state.cwd = .ok projectRoot := hroot
    unfold KeeperChoice.fallible at hanswer
    split at hanswer
    · cases hanswer
    · rw [← Except.ok.inj hanswer, hc.cwd]
  refine wp_orFail_bind (fun caps hcaps => ?_) fun _ _ => hdir.started
  refine (wp_perform_bind _ _ _ _ _).mpr fun t' _ => ?_
  have hstarted : StartedUnder P ((c.next .currentDir t).next (.applyAuto caps) t').trace :=
    hdir.started.cons fun hs => nomatch hs
  refine wp_orFail (fun _ happlied => ⟨hstarted, caps, hP caps hcaps, ?_⟩) fun _ _ => hstarted
  have hanswer : ((KeeperOp.applyAuto caps).act t' (c.next .currentDir t).state).1 = .ok () :=
    happlied
  show ((KeeperOp.applyAuto caps).act t' (c.next .currentDir t).state).2.confined = some caps
  simp only [KeeperOp.act] at hanswer ⊢
  split at hanswer
  · cases hanswer
  · rfl

/-- Whatever `keeper_main` starts, it starts under the capability set of the plan that it was
handed. -/
theorem boot_startedUnder {k : KeeperProcess} {json : String} {plan : CapabilityPlan}
    (hjson : (Control.read k.vars).capabilityPlan = some json)
    (hplan : k.fromStr json = .ok plan) (choices : List KeeperChoice) :
    StartedUnder (fun kept => plan.toCapabilitySet k.nono k.host k.cwd = .ok kept)
      (k.boot choices).config.trace := by
  let P : CapabilitySet → Prop := fun kept => plan.toCapabilitySet k.nono k.host k.cwd = .ok kept
  have hstart : Unconfined k.cwd P ⟨[], ⟨k.cwd, none⟩⟩ := ⟨fun _ hs => (nomatch hs), rfl⟩
  refine config_of_wp (P := fun c => StartedUnder P c.trace) (G := fun _ _ => True) ?_ choices
    (guarded_true _)
  refine wp_seq (wp_mono (wp_of_only (early_bindRelay _)
    (fun o c t ho h _ => h.next ho t) hstart) (fun _ _ h => h) fun _ _ h => h.started)
    fun relay c₁ hc₁ => ?_
  refine wp_seq (selfRestrict_confined hjson hplan (fun _ h => h) hc₁) fun _ c₂ hc₂ => ?_
  -- From here on the process is confined, and what follows does not change that.
  have hrest : ∀ {p : Booting Unit}, Only (fun o => ∀ caps, o ≠ .applyAuto caps) p →
      wp (fun _ _ => True) (fun _ c => StartedUnder P c.trace)
        (fun _ c => StartedUnder P c.trace) p c₂ := fun hp =>
    wp_mono (wp_of_only hp (fun o c t ho h _ => h.next ho t) hc₂) (fun _ _ h => h.started)
      fun _ _ h => h.started
  refine hrest ?_
  have hperform : ∀ o : KeeperOp, (∀ caps, o ≠ .applyAuto caps) →
      Only (fun o => ∀ caps, o ≠ .applyAuto caps) (perform o : Booting o.Answer) :=
    fun o ho => only_perform ho
  have hservices : Only (fun o => ∀ caps, o ≠ .applyAuto caps)
      (startServicesIfRequested (Control.read k.vars)) := by
    unfold startServicesIfRequested
    split
    · refine only_bind (hperform _ (by simp)) fun spawned => ?_
      split
      · exact only_bind (hperform _ (by simp)) fun _ => hperform _ (by simp)
      · exact hperform _ (by simp)
    · exact only_pure _
  have htail : Only (fun o => ∀ caps, o ≠ .applyAuto caps) (do
      orFail .blockingSignals (← perform KeeperOp.installShutdownHandler)
      startServicesIfRequested (Control.read k.vars)
      perform (KeeperOp.startSsh (Control.read k.vars))
      perform KeeperOp.serve : Booting Unit) := by
    refine only_bind (hperform _ (by simp)) fun _ => only_bind (only_orFail _ _) fun _ => ?_
    refine only_bind hservices fun _ => ?_
    exact only_bind (hperform _ (by simp)) fun _ => hperform _ (by simp)
  cases relay with
  | none => exact htail
  | some entry => exact only_bind (hperform _ (by simp)) fun _ => htail

/-- A step of a keeper is in its trace. -/
theorem mem_trace_run_perform {α : Type} (o : KeeperOp) (f : o.Answer → Booting α)
    (c : Config keeperMachine) :
    ∃ s ∈ (run (perform o >>= f) [] c).config.trace, s.op = o ∧ s.before = c.state := by
  refine ⟨c.step o ⟨none, 1⟩, ?_, rfl, rfl⟩
  have hstep : c.step o ⟨none, 1⟩ ∈ (c.next o ⟨none, 1⟩).trace := List.mem_cons_self
  exact (trace_suffix_run (f _) [] _).subset hstep

/-- A keeper in which nothing fails confines itself to what its plan stands for, and starts
something under that. -/
theorem boot_starts {k : KeeperProcess} {json : String} {plan : CapabilityPlan}
    {caps : CapabilitySet} (hjson : (Control.read k.vars).capabilityPlan = some json)
    (hplan : k.fromStr json = .ok plan)
    (hcaps : plan.toCapabilitySet k.nono k.host k.cwd = .ok caps) :
    ∃ s ∈ (k.boot []).config.trace, s.op.Starts = true ∧ s.before.confined = some caps := by
  have hrestrict : ∀ (f : Unit → Booting Unit) (c : Config keeperMachine),
      c.state = ⟨k.cwd, none⟩ → ∃ c', c'.state.confined = some caps ∧
        run (selfRestrict k (Control.read k.vars) >>= f) [] c = run (f ()) [] c' := by
    intro f c hc
    refine ⟨(c.next .currentDir ⟨none, 1⟩).next (.applyAuto caps) ⟨none, 1⟩, rfl, ?_⟩
    rw [selfRestrict, planVariable, hjson]
    show run ((orFail KeeperExit.parsingPlan (k.fromStr json) >>= _) >>= f) [] c = _
    rw [hplan]
    show run ((orFail KeeperExit.capabilitySet
      (plan.toCapabilitySet k.nono k.host c.state.cwd) >>= _) >>= f) [] _ = _
    rw [hc, hcaps]
    rfl
  have hstarts : ∀ (relay : Option (UInt16 × String)) (c : Config keeperMachine),
      c.state = ⟨k.cwd, none⟩ → ∃ s ∈ (run (do
        selfRestrict k (Control.read k.vars)
        match relay with
        | none => pure ()
        | some (port, socketPath) => perform (KeeperOp.relayToHostProxy port socketPath)
        orFail KeeperExit.blockingSignals (← perform KeeperOp.installShutdownHandler)
        startServicesIfRequested (Control.read k.vars)
        perform (KeeperOp.startSsh (Control.read k.vars))
        perform KeeperOp.serve : Booting Unit) [] c).config.trace,
        s.op.Starts = true ∧ s.before.confined = some caps := by
    intro relay c hc
    obtain ⟨c', hconfined, heq⟩ := hrestrict _ c hc
    rw [heq]
    cases relay with
    | none =>
      obtain ⟨s, hs, hop, hbefore⟩ := mem_trace_run_perform KeeperOp.installShutdownHandler _ c'
      exact ⟨s, hs, by rw [hop]; rfl, by rw [hbefore]; exact hconfined⟩
    | some relay =>
      obtain ⟨s, hs, hop, hbefore⟩ :=
        mem_trace_run_perform (KeeperOp.relayToHostProxy relay.1 relay.2) _ c'
      exact ⟨s, hs, by rw [hop]; rfl, by rw [hbefore]; exact hconfined⟩
  unfold KeeperProcess.boot keeperMain
  dsimp only
  cases hrelay : (Control.read k.vars).relay with
  | none =>
    rw [bindRelay, hrelay]
    exact hstarts none ⟨[], ⟨k.cwd, none⟩⟩ rfl
  | some relay =>
    rw [bindRelay, hrelay]
    exact hstarts (some relay)
      (Config.next ⟨[], ⟨k.cwd, none⟩⟩ (.bindRelay relay.1) ⟨none, 1⟩) rfl
/-- What an `up` with this input starts a keeper with. -/
def LaunchedBy (input : UpInput) (launch : Launch) : Prop :=
  ∃ root exe resolution shell compiled proxy services isolated,
    input.resolution = .ok resolution ∧
    launch = keeperLaunch input root exe resolution shell compiled proxy services isolated

/-- The operations of an `up` with this input, as far as starting keepers is concerned. -/
def LaunchesOnly (input : UpInput) (o : Lifecycle.Op) : Prop :=
  ∀ launch, o = .spawnKeeper launch → LaunchedBy input launch

theorem launchesOnly_of_sparing {input : UpInput} {α : Type} {p : Cmd α}
    (hp : Only Lifecycle.Op.Sparing p) : Only (LaunchesOnly input) p :=
  hp.mono fun o ho launch hop => by
    subst hop
    exact ho.elim

theorem launchesOnly_upProcess {input : UpInput} {root : String} {outcome : UpOutcome}
    {resolution : Resolution} {shell : ResolvedShell}
    {proxy : Option (UInt16 × String)} (hresolution : input.resolution = .ok resolution) :
    Only (LaunchesOnly input) (upProcess input root outcome resolution shell proxy) := by
  refine only_bind (only_orFail _ _) fun exe => ?_
  split
  · exact only_raise _
  · refine only_bind (only_orFail _ _) fun kind => ?_
    refine only_bind (launchesOnly_of_sparing ((plain_prepareKeeper _ _ _).mono fun _ h =>
      h.sparing)) fun services => ?_
    refine only_bind (launchesOnly_of_sparing ((plain_isolateNetwork _ _ _).mono fun _ h =>
      h.sparing)) fun isolated => ?_
    refine only_bind (only_perform fun launch hop => ?_) fun spawned => ?_
    · obtain rfl := Lifecycle.Op.spawnKeeper.inj hop
      exact ⟨_, _, _, _, _, _, _, _, hresolution, rfl⟩
    · have hwrite : ∀ pid, Only (LaunchesOnly input) (writePidfile .keeper pid) := fun pid =>
        (follows_writePidfile pid).mono fun o ho launch hop => by
          subst hop
          exact ho.elim
      split
      · exact only_raise _
      · refine only_bind (hwrite _) fun _ => only_bind (launchesOnly_of_sparing
          ((plain_runHooks _ _ _).mono fun _ h => h.sparing)) fun _ => only_pure _

/-- What follows an answer that may have failed starts from the answer. -/
theorem only_orFail_bind {α β δ : Type} {S : Lifecycle.Op → Prop} {wrap : δ → UpError}
    {r : Except δ α} {f : α → Cmd β} (h : ∀ a, r = .ok a → Only S (f a)) :
    Only S (orFail wrap r >>= f) := by
  cases r with
  | ok a => exact h a rfl
  | error e => trivial

theorem launchesOnly_bringUp (input : UpInput) (root : String) (outcome : UpOutcome) :
    Only (LaunchesOnly input) (bringUp input root outcome) := by
  refine only_bind (only_orFail _ _) fun kind => ?_
  refine only_orFail_bind fun resolution hresolution => ?_
  refine only_bind (only_orFail _ _) fun fingerprint => ?_
  have hroot : Only Lifecycle.Op.Sparing (attempt .createRoot .state) := only_attempt _ trivial
  refine only_bind (launchesOnly_of_sparing hroot) fun _ => ?_
  refine only_bind (launchesOnly_of_sparing (sparing_egressProxy input)) fun proxy => ?_
  have hwrite : ∀ m, Only (LaunchesOnly input) (writeMeta m) := fun m =>
    only_bind (only_perform fun _ hop => (nomatch hop)) fun _ => only_orFail _ _
  split
  · exact only_raise _
  · exact only_bind (hwrite _) fun _ => launchesOnly_upProcess hresolution

theorem launchesOnly_up (input : UpInput) : Only (LaunchesOnly input) (up input) := by
  have hclear : Only (LaunchesOnly input) clearRuntimeState :=
    launchesOnly_of_sparing (only_clearRuntimeState fun _ => trivial)
  have hstop : ∀ r, Only (LaunchesOnly input) (terminateAndWait r) := fun r =>
    launchesOnly_of_sparing (sparing_terminateAndWait r)
  refine only_bind (only_perform fun launch hop => nomatch hop) fun _ => ?_
  refine only_bind (only_orFail _ _) fun root => ?_
  refine only_bind (launchesOnly_of_sparing sparing_acquireLifecycleLock) fun _ => ?_
  split
  · refine only_bind (hstop .keeper) fun _ => only_bind (hstop .proxy) fun _ => ?_
    exact only_bind hclear fun _ => launchesOnly_bringUp input root _
  · refine only_bind (launchesOnly_of_sparing sparing_health) fun found => ?_
    cases found with
    | healthy pid => exact only_pure _
    | stale pid =>
      refine only_bind (only_perform fun launch hop => nomatch hop) fun _ => ?_
      exact only_bind hclear fun _ => launchesOnly_bringUp input root _
    | none => exact launchesOnly_bringUp input root _

/-- Every keeper that a run of `up` starts is started so. -/
theorem launchedBy_of_upRun {input : UpInput} {h : Lifecycle.Host} {moments : List Moment}
    {step : Step machine} (hstep : step ∈ (upRun input h moments).config.trace)
    {launch : Launch} (hop : step.op = .spawnKeeper launch) : LaunchedBy input launch := by
  have hall := config_of_wp (m := machine) (G := fun _ _ => True)
    (P := fun c => ∀ step ∈ c.trace, LaunchesOnly input step.op)
    (wp_of_only (launchesOnly_up input) (fun o c t ho hc _ s hs => ?_)
      (fun _ hs => (nomatch hs) : ∀ step ∈ (⟨[], h⟩ : Config machine).trace, _))
    moments (guarded_true _)
  · exact hall step hstep launch hop
  · rcases List.mem_cons.mp hs with rfl | hs
    · exact ho
    · exact hc s hs

/-- The home directory of the caller reaches the keeper: neither the provider nor the manifest has
set another one. -/
structure HomeKept (input : UpInput) (ambient : Vars) : Prop where
  ambient : ambient["HOME"]? = input.host.homeVar
  absolute : Posix.isAbsolute input.host.home = true
  manifest : "HOME" ∉ input.manifest.env.vars.map Prod.fst
  provider : ∀ resolution, input.resolution = .ok resolution →
    "HOME" ∉ resolution.env.map Prod.fst ∧ "HOME" ∉ resolution.unset

/-- The control variables are others. -/
theorem lastCall_home_controlCalls (launch : Launch) (ssh : SshHandoff)
    (toJson : CapabilityPlan → String) :
    lastCall "HOME" (launch.controlCalls ssh toJson) = none := by
  rw [lastCall_eq_none_iff, Launch.controlCalls]
  cases launch.relay <;> simp [Call.key]

/-- What a keeper finds under `HOME`. -/
theorem getElem?_environ_home (input : UpInput) (root exe : String) (resolution : Resolution)
    (shell : ResolvedShell) (compiled : CompiledPolicy) (proxy : Option (UInt16 × String))
    (services isolated : Bool) (ssh : SshHandoff) (toJson : CapabilityPlan → String)
    (ambient : Vars) :
    ((keeperLaunch input root exe resolution shell compiled proxy services isolated).environ ssh
      toJson ambient)["HOME"]? = sessionVariable input resolution proxy ambient "HOME" := by
  rw [getElem?_environ, Launch.controlVariable, lastCall_home_controlCalls, Option.bind_none,
    Option.none_or]

theorem proxyVariable_home (proxy : Option (UInt16 × String)) :
    proxyVariable proxy "HOME" = none := by
  unfold proxyVariable
  split
  · rfl
  · rw [if_neg (by decide), if_neg (by decide)]

/-- It is the caller's own then. -/
theorem HomeKept.getenv_environ {input : UpInput} {ambient : Vars} (hkept : HomeKept input ambient)
    {launch : Launch} (hlaunched : LaunchedBy input launch) (ssh : SshHandoff)
    (toJson : CapabilityPlan → String) :
    getenv (launch.environ ssh toJson ambient) "HOME" = input.host.homeVar := by
  obtain ⟨root, exe, resolution, shell, compiled, proxy, services, isolated, hresolution, rfl⟩ :=
    hlaunched
  obtain ⟨hset, hunset⟩ := hkept.provider resolution hresolution
  have hhome : ∃ home, input.host.homeVar = some home := by
    cases hvar : input.host.homeVar with
    | some home => exact ⟨home, rfl⟩
    | none =>
      have habs := hkept.absolute
      rw [Policy.Host.home, hvar] at habs
      exact absurd habs (by decide)
  obtain ⟨home, hhome⟩ := hhome
  rw [hhome]
  refine getenv_of_getElem? (by decide) ?_
  rw [getElem?_environ_home, sessionVariable, if_neg fun h => hunset h.1, proxyVariable_home,
    lastValue_eq_none_iff.mpr hkept.manifest, lastValue_eq_none_iff.mpr hset]
  exact hkept.ambient.trans hhome

/-- The keeper that `spawn_keeper` starts: in the project, with what it is handed. -/
def keeperProcess (launch : Launch) (ssh : SshHandoff) (toJson : CapabilityPlan → String)
    (fromStr : String → Except String CapabilityPlan) (ambient : Vars) (tree : Posix.Tree)
    (nono : Nono) : KeeperProcess where
  vars := launch.environ ssh toJson ambient
  tree := tree
  nono := nono
  fromStr := fromStr
  cwd := launch.projectRoot

/-- The keeper is handed its plan. -/
theorem read_capabilityPlan (launch : Launch) (ssh : SshHandoff) (toJson : CapabilityPlan → String)
    (ambient : Vars) : (Control.read (launch.environ ssh toJson ambient)).capabilityPlan =
      some (toJson launch.plan) := by
  rw [read_environ]
  rfl

/-- It starts in the project. -/
theorem LaunchedBy.projectRoot {input : UpInput} {launch : Launch} (h : LaunchedBy input launch) :
    launch.projectRoot = input.projectRoot := by
  obtain ⟨_, _, _, _, _, _, _, _, _, rfl⟩ := h
  rfl

/-- It builds the capability set that was checked, if it has the same home directory or needs none.
-/
theorem LaunchedBy.toCapabilitySet_eq {input : UpInput} {launch : Launch}
    (hlaunched : LaunchedBy input launch) (ssh : SshHandoff) (toJson : CapabilityPlan → String)
    (fromStr : String → Except String CapabilityPlan) {ambient : Vars}
    (hroot : Posix.isAbsolute input.projectRoot = true)
    (hhome : HomeKept input ambient ∨ launch.plan.HomeFree) :
    launch.plan.toCapabilitySet input.nono (keeperProcess launch ssh toJson fromStr ambient
        input.host.tree input.nono).host input.projectRoot =
      launch.plan.toCapabilitySet input.nono input.host input.projectRoot := by
  have hseen : (keeperProcess launch ssh toJson fromStr ambient input.host.tree
      input.nono).host.tree = input.host.tree := rfl
  refine toCapabilitySet_alike hseen hroot
    (hhome.imp (fun hhome => ⟨?_, hhome.absolute⟩) fun hfree => hfree)
  show (getenv (launch.environ ssh toJson ambient) "HOME").getD "" = input.host.home
  rw [hhome.getenv_environ hlaunched]
  rfl

/-- From `up` to the keeper, in every run of both, whatever fails: what `up` starts a keeper with
has passed its checks on the host, and whatever this keeper starts, it starts confined to the same
network, ports, sockets and signals. It is confined to the same files, too, as long as it has the
home directory of the caller of `up` or no grant of the plan depends on one. -/
theorem keeper_confined {input : UpInput} {h : Lifecycle.Host} {moments : List Moment}
    {step : Step machine} (hstep : step ∈ (upRun input h moments).config.trace)
    {launch : Launch} (hop : step.op = .spawnKeeper launch) (ssh : SshHandoff)
    (toJson : CapabilityPlan → String) (fromStr : String → Except String CapabilityPlan)
    (hserde : fromStr (toJson launch.plan) = .ok launch.plan) (ambient : Vars)
    (hroot : Posix.isAbsolute input.projectRoot = true) :
    ∃ caps, launch.plan.toCapabilitySet input.nono input.host input.projectRoot = .ok caps ∧
      ∀ choices, ∀ s ∈ ((keeperProcess launch ssh toJson fromStr ambient input.host.tree
          input.nono).boot choices).config.trace, s.op.Starts = true →
        ∃ kept, s.before.confined = some kept ∧ kept = { caps with fs := kept.fs } ∧
          (HomeKept input ambient ∨ launch.plan.HomeFree → kept = caps) := by
  have hlaunched := launchedBy_of_upRun hstep hop
  obtain ⟨-, -, caps, hcaps⟩ := upRun_launches input h moments step hstep launch hop
  let k := keeperProcess launch ssh toJson fromStr ambient input.host.tree input.nono
  refine ⟨caps, hcaps, fun choices s hs hstarts => ?_⟩
  obtain ⟨kept, hkept, hconfined⟩ :=
    boot_startedUnder (read_capabilityPlan launch ssh toJson ambient) hserde choices s hs hstarts
  have hkept : launch.plan.toCapabilitySet input.nono k.host input.projectRoot = .ok kept := by
    rw [← hlaunched.projectRoot]
    exact hkept
  refine ⟨kept, hconfined, ?_, fun hhome => ?_⟩
  · rw [toCapabilitySet_rest hkept, toCapabilitySet_rest hcaps]
  · have hsame := hlaunched.toCapabilitySet_eq ssh toJson fromStr hroot hhome
    exact Except.ok.inj (hkept.symm.trans (hsame.trans hcaps))

/-- A manifest that grants something below the home directory, and may set another one. -/
def homeInput (grant : String) (vars : List (String × String)) : UpInput :=
  { sampleInput ["a.org"] with
    manifest :=
      { (sampleInput ["a.org"]).manifest with
        filesystem := ⟨[".", grant], [], []⟩
        env := ⟨"flox", vars⟩ } }

/-- The keeper of a launch for such a manifest. -/
def sampleKeeper (launch : Launch) : KeeperProcess :=
  keeperProcess launch ⟨"host key", "client key"⟩ planJson (fun _ => .ok launch.plan)
    (Std.TreeMap.ofList [("HOME", "/home/u")]) Policy.sampleHost.tree Policy.sampleNono

/-- What the services, sessions and servers of a keeper are confined to, if they are started. -/
def confinedTo (launch : Launch) : List CapabilitySet :=
  ((sampleKeeper launch).boot []).config.trace.filterMap fun step =>
    if step.op.Starts then step.before.confined else none

/-- The keeper that an operation starts. -/
def launchOf (o : Lifecycle.Op) : Option Launch :=
  match o with
  | .spawnKeeper launch => some launch
  | _ => none

theorem eq_of_launchOf {o : Lifecycle.Op} {launch : Launch} (h : launchOf o = some launch) :
    o = .spawnKeeper launch := by
  cases o with
  | spawnKeeper l => exact congrArg Lifecycle.Op.spawnKeeper (Option.some.inj h)
  | _ => cases h

/-- What a launch's plan stands for in the keeper is what is started there is confined to. -/
theorem mem_confinedTo {launch : Launch} {caps : CapabilitySet}
    (h : launch.plan.toCapabilitySet Policy.sampleNono (sampleKeeper launch).host
      launch.projectRoot = .ok caps) : caps ∈ confinedTo launch := by
  have hjson := read_capabilityPlan launch ⟨"host key", "client key"⟩ planJson
    (Std.TreeMap.ofList [("HOME", "/home/u")])
  obtain ⟨s, hs, hstarts, hconfined⟩ := boot_starts (k := sampleKeeper launch) hjson rfl h
  exact List.mem_filterMap.mpr ⟨s, hs, by rw [if_pos hstarts, hconfined]⟩

/-- A keeper that is brought up serves under what was checked. -/
theorem keeper_confined_home :
    ∃ step ∈ (upRun (homeInput "~/p/src" []) freshHost (sampleMoments [] [])).config.trace,
      ∃ launch caps, step.op = .spawnKeeper launch ∧
        launch.plan.toCapabilitySet (homeInput "~/p/src" []).nono (homeInput "~/p/src" []).host
          (homeInput "~/p/src" []).projectRoot = .ok caps ∧ caps ∈ confinedTo launch := by
  have hrun : (upRun (homeInput "~/p/src" []) freshHost (sampleMoments [] [])).config.trace.any
      (fun step => (launchOf step.op).isSome) = true := by decide +kernel
  obtain ⟨step, hstep, hlaunches⟩ := List.any_eq_true.mp hrun
  obtain ⟨launch, hlaunch⟩ := Option.isSome_iff_exists.mp hlaunches
  have hop := eq_of_launchOf hlaunch
  have hlaunched := launchedBy_of_upRun hstep hop
  have hhome : HomeKept (homeInput "~/p/src" []) (Std.TreeMap.ofList [("HOME", "/home/u")]) := by
    refine ⟨by decide +kernel, by decide, by decide, fun resolution hresolution => ?_⟩
    obtain rfl := Except.ok.inj hresolution
    decide
  obtain ⟨caps, hcaps, hall⟩ := keeper_confined hstep hop ⟨"host key", "client key"⟩
    planJson (fun _ => .ok launch.plan) rfl (Std.TreeMap.ofList [("HOME", "/home/u")]) (by decide)
  have hsame := hlaunched.toCapabilitySet_eq ⟨"host key", "client key"⟩ planJson
    (fun _ => .ok launch.plan) (by decide) (Or.inl hhome)
  have hkept := mem_confinedTo (hlaunched.projectRoot.symm ▸ hsame.trans hcaps)
  obtain ⟨s, hs, hconfined⟩ := List.mem_filterMap.mp hkept
  have hstarted : s.op.Starts = true := by
    by_contra hnot
    rw [if_neg hnot] at hconfined
    cases hconfined
  obtain ⟨kept, hbefore, -, heq⟩ := hall [] s hs hstarted
  rw [if_pos hstarted, hbefore] at hconfined
  refine ⟨step, hstep, launch, kept, hop, ?_, ?_⟩
  · rw [heq (Or.inl hhome)]
    exact hcaps
  · rw [Option.some.inj hconfined]
    exact hkept

/-- Where the credentials of the caller lie. -/
def CREDENTIALS : Posix.Location := ["home", "u", ".ssh"]

/-- Does a capability set reach this place? -/
def reaches (place : Posix.Location) (caps : CapabilitySet) : Bool :=
  caps.fs.any fun capability => capability.resolved = place

/-- The host where another home directory is set. -/
def movedHost (home : String) : Policy.Host := { Policy.sampleHost with homeVar := some home }

/-- Does a plan reach the credentials only where another home directory is set? -/
def leaks (home : String) (plan : CapabilityPlan) : Bool :=
  ((plan.toCapabilitySet Policy.sampleNono Policy.sampleHost "/home/u/p").toOption.all fun caps =>
    !reaches CREDENTIALS caps) &&
  (plan.toCapabilitySet Policy.sampleNono (movedHost home) "/home/u/p").toOption.any
    (reaches CREDENTIALS)

/-- The home directory of a keeper whose manifest sets one. -/
theorem sampleKeeper_host {grant home : String} {launch : Launch}
    (h : LaunchedBy (homeInput grant [("HOME", home)]) launch) :
    (sampleKeeper launch).host = movedHost home := by
  have hroot := h.projectRoot
  obtain ⟨root, exe, resolution, shell, compiled, proxy, services, isolated, hresolution, rfl⟩ := h
  have hvalue : getenv ((keeperLaunch (homeInput grant [("HOME", home)]) root exe resolution shell
      compiled proxy services isolated).environ ⟨"host key", "client key"⟩ planJson
      (Std.TreeMap.ofList [("HOME", "/home/u")])) "HOME" = some home := by
    refine getenv_of_getElem? (by decide) ?_
    have hset : "HOME" ∈ (homeInput grant [("HOME", home)]).manifest.env.vars.map Prod.fst :=
      List.mem_singleton.mpr rfl
    rw [getElem?_environ_home, sessionVariable, if_neg fun hunset => hunset.2 hset,
      proxyVariable_home]
    simp [homeInput, lastValue_singleton]
  unfold KeeperProcess.host movedHost
  have hcwd : Posix.locate [] "/home/u/p" = Policy.sampleHost.cwd := by decide
  simp only [sampleKeeper, keeperProcess, hvalue, hroot, ← hcwd]
  rfl

/-- A manifest that sets `HOME` for its sessions sets it for the keeper, too: what is checked as a
directory of that name below the home directory of the caller is granted as the directory of their
credentials. -/
theorem not_confined_home :
    ∃ step ∈ (upRun (homeInput "~/u/.ssh" [("HOME", "/home")]) freshHost
        (sampleMoments [] [])).config.trace, ∃ launch, step.op = .spawnKeeper launch ∧
      (∀ caps, launch.plan.toCapabilitySet Policy.sampleNono Policy.sampleHost "/home/u/p" =
        .ok caps → reaches CREDENTIALS caps = false) ∧
      ∃ kept ∈ confinedTo launch, reaches CREDENTIALS kept = true := by
  have hrun : (upRun (homeInput "~/u/.ssh" [("HOME", "/home")]) freshHost
      (sampleMoments [] [])).config.trace.any
        (fun step => (launchOf step.op).any fun launch => leaks "/home" launch.plan) = true := by
    decide +kernel
  obtain ⟨step, hstep, hlaunches⟩ := List.any_eq_true.mp hrun
  obtain ⟨launch, hlaunch, hleaks⟩ := (Option.any_eq_true _ _).mp hlaunches
  have hop := eq_of_launchOf hlaunch
  have hlaunched := launchedBy_of_upRun hstep hop
  obtain ⟨hchecked, hkept⟩ := Bool.and_eq_true_iff.mp hleaks
  refine ⟨step, hstep, launch, hop, fun caps hcaps => ?_, ?_⟩
  · rw [hcaps] at hchecked
    simpa [Except.toOption] using hchecked
  · cases hcaps : launch.plan.toCapabilitySet Policy.sampleNono (movedHost "/home")
        "/home/u/p" with
    | error e =>
      rw [hcaps] at hkept
      cases hkept
    | ok kept =>
      rw [hcaps] at hkept
      refine ⟨kept, mem_confinedTo ?_, hkept⟩
      rw [sampleKeeper_host hlaunched, hlaunched.projectRoot]
      exact hcaps

end Devcroft.Keeper
