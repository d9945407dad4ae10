import Devcroft.Lifecycle.Up
import Devcroft.Ssh.Server

/-!
# The keeper

`keeper_main` with everything that runs in the process: the services' supervisor is
started, the SSH server and the control socket are served, and the thread of
`install_shutdown_handler` waits for a signal. Each action is one step of one of these,
or of a child.
-/

namespace Devcroft.Keeper

open Ssh Lifecycle

/-- What the keeper reads of its environment. -/
structure KeeperEnv where
  /-- `DEVCROFT_START_SERVICES` is `1`. -/
  startServices : Bool
  /-- `DEVCROFT_SERVICES_ROOT`. -/
  servicesRoot : Option String
  /-- `DEVCROFT_SANDBOX_NAME`. -/
  sandboxName : Option String
  ssh : ServerEnv
  deriving DecidableEq

/-- Where `keeper_main` is. -/
inductive Main where
  /-- Before `start_services_if_requested`. -/
  | starting
  /-- Before `registry.insert` for the services. -/
  | servicesSpawned (pgid : ℕ)
  /-- Within it, with an id. -/
  | servicesNumbered (pgid id : ℕ)
  | serving
  deriving DecidableEq

/-- Where the thread of `install_shutdown_handler` is; `calls` are the arguments of `kill` that are
still to come in a loop. -/
inductive Handler where
  /-- In `sigwait`. -/
  | waiting
  /-- Before `service_process_groups`. -/
  | signalled
  /-- Before the first `registry.snapshot`. -/
  | asked (services : List Int32)
  | terminating (services : List Int32) (calls terminated : List ℤ)
  /-- Before the second `registry.snapshot`. -/
  | grace (services : List Int32) (terminated : List ℤ)
  | killing (calls terminated : List ℤ)
  deriving DecidableEq

/-- The keeper. -/
structure KeeperState where
  shared : Shared
  conns : ℕ → Conn
  ssh : ℕ → SshConn
  main : Main
  handler : Handler
  /-- The process has exited. -/
  exited : Bool

/-- A keeper that has just installed its shutdown handler. -/
def KeeperState.start : KeeperState where
  shared := ⟨.new, []⟩
  conns := fun _ => .accepted
  ssh := fun _ => .newClient
  main := .starting
  handler := .waiting
  exited := false

/-- The request for the services' supervisor. -/
def servicesRequest (env : KeeperEnv) : SpawnRequest :=
  let root := env.servicesRoot.getD "."
  let name := env.sandboxName.getD ""
  { cmd := "process-compose"
    args := ["up", "-f", Posix.join (artifactDir root name) "services.yaml", "-t=false", "-L",
      Posix.join (artifactDir root name) "services.log", "-u", socketPath root name,
      "--keep-project"]
    cwd := root
    env := []
    pty := none }

/-- `service_process_groups`, from the pids that the supervisor reports. -/
def serviceProcessGroups (env : KeeperEnv) (answer : Option (List (Option Int64))) : List Int32 :=
  if env.startServices then
    ((answer.getD []).filterMap id).filter (0 < ·) |>.map Int64.toInt32
  else []

/-- The arguments of `kill` in one of the handler's loops. -/
def sweep (registry : Registry) (services : List Int32) : List ℤ :=
  registry.snapshot.map (fun entry => -(entry.2.pgid : ℤ)) ++ services.map fun pgid => (-pgid).toInt

/-- What happens in `keeper_main`. -/
inductive MainAct where
  | startServices (outcome : Except String ℕ)
  | proceed (now : ℕ)
  /-- `accept` fails, and `keeper_main` exits. -/
  | acceptFails
  deriving DecidableEq

/-- What happens in the handler's thread. -/
inductive HandlerAct where
  /-- A signal arrives. -/
  | signal
  /-- The supervisor answers with the pids of the services, or not at all. -/
  | ask (answer : Option (List (Option Int64)))
  | proceed
  deriving DecidableEq

/-- The actions. -/
inductive Act where
  | conn (k : ℕ) (a : ConnAct)
  | ssh (k : ℕ) (a : SshAct)
  | child (origin : Origin) (e : ChildEvent)
  | main (a : MainAct)
  | handler (a : HandlerAct)
  deriving DecidableEq

/-- A step of `keeper_main`. -/
def KeeperState.stepMain (env : KeeperEnv) (s : KeeperState) : MainAct → Option KeeperState
  | .startServices outcome =>
    match s.main, env.startServices, outcome with
    | .starting, false, _ => some { s with main := .serving }
    | .starting, true, .error _ => some { s with main := .serving }
    | .starting, true, .ok pid =>
      (spawnGroup pid .services (servicesRequest env) s.shared.groups).map fun groups =>
        { s with shared := { s.shared with groups := groups }, main := .servicesSpawned pid }
    | _, _, _ => none
  | .proceed now =>
    match s.main with
    | .servicesSpawned pgid =>
      let (id, registry) := s.shared.registry.takeId
      some { s with
        shared := { s.shared with registry := registry }
        main := .servicesNumbered pgid id }
    | .servicesNumbered pgid id =>
      let registry := s.shared.registry.put id ⟨pgid, "process-compose (services)", now⟩
      some { s with shared := { s.shared with registry := registry }, main := .serving }
    | _ => none
  | .acceptFails => if s.main = .serving then some { s with exited := true } else none

/-- A step of the handler's thread. -/
def KeeperState.stepHandler (env : KeeperEnv) (s : KeeperState) : HandlerAct → Option KeeperState
  | .signal => if s.handler = .waiting then some { s with handler := .signalled } else none
  | .ask answer =>
    if s.handler = .signalled then
      some { s with handler := .asked (serviceProcessGroups env answer) }
    else none
  | .proceed =>
    match s.handler with
    | .asked services =>
      let calls := sweep s.shared.registry services
      some { s with handler := .terminating services calls calls }
    | .terminating services (target :: calls) terminated =>
      some { s with
        shared := { s.shared with groups := kill target SIGTERM s.shared.groups }
        handler := .terminating services calls terminated }
    | .terminating services [] terminated => some { s with handler := .grace services terminated }
    | .grace services terminated =>
      some { s with handler := .killing (sweep s.shared.registry services) terminated }
    | .killing (target :: calls) terminated =>
      some { s with
        shared := { s.shared with groups := kill target SIGKILL s.shared.groups }
        handler := .killing calls terminated }
    | .killing [] _ => some { s with exited := true }
    | _ => none

/-- A step of the keeper: once it has exited only its children go on. -/
def KeeperState.step (env : KeeperEnv) (s : KeeperState) : Act → Option KeeperState
  | .child origin e =>
    some { s with shared := { s.shared with groups := childEvent origin e s.shared.groups } }
  | .conn k a =>
    if s.exited = false ∧ s.main = .serving then
      ((s.conns k).step k s.shared a).map fun (conn, shared) =>
        { s with shared := shared, conns := insertAt s.conns k conn }
    else none
  | .ssh k a =>
    if s.exited = false ∧ s.main = .serving then
      ((s.ssh k).step k env.ssh s.shared.groups a).map fun (conn, groups) =>
        { s with shared := { s.shared with groups := groups }, ssh := insertAt s.ssh k conn }
    else none
  | .main a => if s.exited then none else s.stepMain env a
  | .handler a => if s.exited then none else s.stepHandler env a

section Steps

variable {env : KeeperEnv} {s next : KeeperState}

/-- What a step of `keeper_main` can do. -/
inductive MainStep (env : KeeperEnv) (s : KeeperState) : MainAct → KeeperState → Prop where
  | serve {outcome : Except String ℕ} (hmain : s.main = .starting)
      (hnone : env.startServices = false ∨ ∃ message, outcome = .error message) :
      MainStep env s (.startServices outcome) { s with main := .serving }
  | spawn {pid : ℕ} {groups : List Group} (hmain : s.main = .starting)
      (hstart : env.startServices = true)
      (hspawn : spawnGroup pid .services (servicesRequest env) s.shared.groups = some groups) :
      MainStep env s (.startServices (.ok pid))
        { s with shared := { s.shared with groups := groups }, main := .servicesSpawned pid }
  | number {now pgid : ℕ} (hmain : s.main = .servicesSpawned pgid) :
      MainStep env s (.proceed now) { s with
        shared := { s.shared with registry := s.shared.registry.takeId.2 }
        main := .servicesNumbered pgid s.shared.registry.takeId.1 }
  | record {now pgid id : ℕ} (hmain : s.main = .servicesNumbered pgid id) :
      MainStep env s (.proceed now) { s with
        shared := { s.shared with
          registry := s.shared.registry.put id ⟨pgid, "process-compose (services)", now⟩ }
        main := .serving }
  | exit (hmain : s.main = .serving) : MainStep env s .acceptFails { s with exited := true }

/-- What a step of the handler's thread can do. -/
inductive HandlerStep (env : KeeperEnv) (s : KeeperState) : HandlerAct → KeeperState → Prop where
  | signal (hhandler : s.handler = .waiting) :
      HandlerStep env s .signal { s with handler := .signalled }
  | ask {answer : Option (List (Option Int64))} (hhandler : s.handler = .signalled) :
      HandlerStep env s (.ask answer)
        { s with handler := .asked (serviceProcessGroups env answer) }
  | collect {services : List Int32} (hhandler : s.handler = .asked services) :
      HandlerStep env s .proceed { s with
        handler := .terminating services (sweep s.shared.registry services)
          (sweep s.shared.registry services) }
  | terminate {services : List Int32} {target : ℤ} {calls terminated : List ℤ}
      (hhandler : s.handler = .terminating services (target :: calls) terminated) :
      HandlerStep env s .proceed { s with
        shared := { s.shared with groups := kill target SIGTERM s.shared.groups }
        handler := .terminating services calls terminated }
  | pause {services : List Int32} {terminated : List ℤ}
      (hhandler : s.handler = .terminating services [] terminated) :
      HandlerStep env s .proceed { s with handler := .grace services terminated }
  | recollect {services : List Int32} {terminated : List ℤ}
      (hhandler : s.handler = .grace services terminated) :
      HandlerStep env s .proceed
        { s with handler := .killing (sweep s.shared.registry services) terminated }
  | kill {target : ℤ} {calls terminated : List ℤ}
      (hhandler : s.handler = .killing (target :: calls) terminated) :
      HandlerStep env s .proceed { s with
        shared := { s.shared with groups := kill target SIGKILL s.shared.groups }
        handler := .killing calls terminated }
  | exit {terminated : List ℤ} (hhandler : s.handler = .killing [] terminated) :
      HandlerStep env s .proceed { s with exited := true }

theorem KeeperState.stepMain_cases {a : MainAct} (h : s.stepMain env a = some next) :
    MainStep env s a next := by
  cases a with
  | startServices outcome =>
    simp only [KeeperState.stepMain] at h
    split at h
    · next hmain hstart =>
      obtain rfl := Option.some.inj h
      exact .serve hmain (Or.inl hstart)
    · next message hmain hstart =>
      obtain rfl := Option.some.inj h
      exact .serve hmain (Or.inr ⟨message, rfl⟩)
    · next pid hmain hstart =>
      obtain ⟨groups, hspawn, rfl⟩ := Option.map_eq_some_iff.mp h
      exact .spawn hmain hstart hspawn
    · cases h
  | proceed now =>
    simp only [KeeperState.stepMain] at h
    split at h
    · next pgid hmain =>
      obtain rfl := Option.some.inj h
      exact .number hmain
    · next pgid id hmain =>
      obtain rfl := Option.some.inj h
      exact .record hmain
    · cases h
  | acceptFails =>
    simp only [KeeperState.stepMain] at h
    split at h
    · next hmain =>
      obtain rfl := Option.some.inj h
      exact .exit hmain
    · cases h

theorem KeeperState.stepHandler_cases {a : HandlerAct} (h : s.stepHandler env a = some next) :
    HandlerStep env s a next := by
  cases a with
  | signal =>
    simp only [KeeperState.stepHandler] at h
    split at h
    · next hhandler =>
      obtain rfl := Option.some.inj h
      exact .signal hhandler
    · cases h
  | ask answer =>
    simp only [KeeperState.stepHandler] at h
    split at h
    · next hhandler =>
      obtain rfl := Option.some.inj h
      exact .ask hhandler
    · cases h
  | proceed =>
    simp only [KeeperState.stepHandler] at h
    split at h
    · next services hhandler =>
      obtain rfl := Option.some.inj h
      exact .collect hhandler
    · next services target calls terminated hhandler =>
      obtain rfl := Option.some.inj h
      exact .terminate hhandler
    · next services terminated hhandler =>
      obtain rfl := Option.some.inj h
      exact .pause hhandler
    · next services terminated hhandler =>
      obtain rfl := Option.some.inj h
      exact .recollect hhandler
    · next target calls terminated hhandler =>
      obtain rfl := Option.some.inj h
      exact .kill hhandler
    · next terminated hhandler =>
      obtain rfl := Option.some.inj h
      exact .exit hhandler
    · cases h

/-- What a step of the keeper can do. -/
inductive KeeperStep (env : KeeperEnv) (s : KeeperState) : Act → KeeperState → Prop where
  | conn {k : ℕ} {a : ConnAct} {c : Conn} {shared : Shared} (hexited : s.exited = false)
      (hmain : s.main = .serving) (hstep : (s.conns k).step k s.shared a = some (c, shared)) :
      KeeperStep env s (.conn k a)
        { s with shared := shared, conns := insertAt s.conns k c }
  | ssh {k : ℕ} {a : SshAct} {c : SshConn} {groups : List Group} (hexited : s.exited = false)
      (hmain : s.main = .serving)
      (hstep : (s.ssh k).step k env.ssh s.shared.groups a = some (c, groups)) :
      KeeperStep env s (.ssh k a)
        { s with shared := { s.shared with groups := groups }, ssh := insertAt s.ssh k c }
  | child {origin : Origin} {e : ChildEvent} :
      KeeperStep env s (.child origin e)
        { s with shared := { s.shared with groups := childEvent origin e s.shared.groups } }
  | main {a : MainAct} {next : KeeperState} (hexited : s.exited = false)
      (hstep : MainStep env s a next) : KeeperStep env s (.main a) next
  | handler {a : HandlerAct} {next : KeeperState} (hexited : s.exited = false)
      (hstep : HandlerStep env s a next) : KeeperStep env s (.handler a) next

/-- Every step of the keeper is one of these. -/
theorem KeeperState.step_cases {a : Act} (h : s.step env a = some next) :
    KeeperStep env s a next := by
  cases a with
  | conn k a =>
    simp only [KeeperState.step] at h
    split at h
    · next hserving =>
      obtain ⟨⟨c, shared⟩, hstep, rfl⟩ := Option.map_eq_some_iff.mp h
      exact .conn hserving.1 hserving.2 hstep
    · cases h
  | ssh k a =>
    simp only [KeeperState.step] at h
    split at h
    · next hserving =>
      obtain ⟨⟨c, groups⟩, hstep, rfl⟩ := Option.map_eq_some_iff.mp h
      exact .ssh hserving.1 hserving.2 hstep
    · cases h
  | child origin e =>
    obtain rfl := Option.some.inj h
    exact .child
  | main a =>
    simp only [KeeperState.step] at h
    split at h
    · cases h
    · next hexited => exact .main (by simpa using hexited) (stepMain_cases h)
  | handler a =>
    simp only [KeeperState.step] at h
    split at h
    · cases h
    · next hexited => exact .handler (by simpa using hexited) (stepHandler_cases h)

end Steps

end Devcroft.Keeper
