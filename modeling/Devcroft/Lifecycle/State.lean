import Devcroft.Library.Program
import Devcroft.Policy.CapabilitySet

/-!
# The state of one sandbox on its host

The processes that devcroft starts for a sandbox, the files that record them, and the
operations through which the lifecycle commands act on both. A command holds the
lifecycle lock, so between two of its operations only processes of others come and go,
and processes of the sandbox die.
-/

namespace Devcroft.Lifecycle

open Program

/-- What `up` records about a sandbox beside its policy. -/
structure Meta where
  projectRoot : String
  envFingerprint : String
  readOnlyGrants : List String
  resolvedBackend : String
  declaredServices : List String
  ranActivationHook : Bool
  shell : Option String
  proxyPort : Option UInt16
  proxyToken : Option String
  deriving DecidableEq

/-- What a keeper is started with. -/
structure Launch where
  exe : String
  projectRoot : String
  env : List (String × String)
  unset : List String
  plan : Policy.CapabilityPlan
  /-- The sandbox name under which to start services. -/
  services : Option String
  shell : String
  isolateNetwork : Bool
  /-- The proxy's port to relay to its unix socket. -/
  relay : Option (UInt16 × String)
  deriving DecidableEq

/-- The two kinds of processes that are recorded in a pidfile. -/
inductive Role where
  | keeper
  | proxy
  deriving DecidableEq

/-- What a process is. -/
inductive Kind where
  | keeper (launch : Launch)
  | proxy (port : UInt16) (token : String) (allow : List String)
  /-- Not of this sandbox. -/
  | foreign
  deriving DecidableEq

/-- The pidfile that is meant for a kind of process. -/
def Kind.role : Kind → Option Role
  | keeper _ => some .keeper
  | proxy _ _ _ => some .proxy
  | foreign => none

/-- A live process. -/
structure Proc where
  /-- Its start time in clock ticks since boot. -/
  start : ℕ
  kind : Kind
  deriving DecidableEq

/-- The files of the state directory that are removed or read. -/
inductive StateFile where
  | pidfile (r : Role)
  | metaFile
  | socket
  | sshSocket
  | proxySocket
  deriving DecidableEq

/-- The host, as far as one sandbox is concerned. -/
structure Host where
  /-- Whether there is a `/proc` to read start times from. -/
  procfs : Bool
  /-- The latest start time. -/
  clock : ℕ
  /-- The live processes by pid. -/
  procs : ℕ → Option Proc
  /-- The record in a pidfile: a pid with a start time, if it can be parsed. -/
  pidfile : Role → Option (ℕ × ℕ)
  /-- `meta.json`. -/
  metaFile : Option Meta

/-- The start time that devcroft sees of a process. -/
def Host.startOf (h : Host) (p : Proc) : ℕ := if h.procfs then p.start else 0

/-- A new process. -/
def Host.born (h : Host) (pid : ℕ) (kind : Kind) : Host :=
  { h with
    clock := h.clock + 1
    procs := fun q => if q = pid then some ⟨h.clock + 1, kind⟩ else h.procs q }

/-- A process is gone. -/
def Host.died (h : Host) (pid : ℕ) : Host :=
  { h with procs := fun q => if q = pid then none else h.procs q }

/-- A pidfile gets this record, or becomes absent or unreadable as one. -/
def Host.record (h : Host) (r : Role) (entry : Option (ℕ × ℕ)) : Host :=
  { h with pidfile := fun q => if q = r then entry else h.pidfile q }

/-- A file is removed. -/
def Host.remove (h : Host) : StateFile → Host
  | .pidfile r => h.record r none
  | .metaFile => { h with metaFile := none }
  | .socket => h
  | .sshSocket => h
  | .proxySocket => h

/-- What happens between two operations. -/
inductive Event where
  | death (pid : ℕ)
  /-- Another process of the host starts. -/
  | birth (pid : ℕ)
  deriving DecidableEq

/-- The host after an event. A pid in use is not given out again. -/
def Host.after (h : Host) : Event → Host
  | .death pid => h.died pid
  | .birth pid => if h.procs pid = none then h.born pid .foreign else h

/-- What is chosen for an operation. -/
structure Moment where
  /-- What happens before it. -/
  events : List Event
  /-- The text of its error, if it fails. -/
  fails : Option String
  /-- The files that an operation takes along when it fails. -/
  drops : List StateFile
  /-- A yes or no that is not in devcroft's hands. -/
  answer : Bool
  /-- The pid of a new process. -/
  pid : ℕ
  /-- The port on which a new proxy is bound. -/
  port : UInt16
  /-- The token drawn for it. -/
  token : String

/-- A moment in which nothing goes wrong. -/
def Moment.quiet : Moment := ⟨[], none, [], true, 0, 0, ""⟩

/-- The answer of an operation that fails only when it is chosen to. -/
def Moment.fallible {α : Type} (t : Moment) (a : α) : Except String α :=
  match t.fails with
  | some e => .error e
  | none => .ok a

/-- A signal to a process. -/
inductive Signal where
  | term
  | kill
  deriving DecidableEq

/-- Where a command is: what it has entered last. -/
inductive Place where
  /-- A command, at its beginning. -/
  | command
  | health
  /-- The branch of `up` that recovers from a stale keeper. -/
  | staleRecovery
  | terminateAndWait (r : Role)
  | ensureEgressProxy
  /-- The branch of `ensure_egress_proxy` that reuses a live proxy. -/
  | reuseEgressProxy (allow : List String)
  | writePidfile (r : Role)
  deriving DecidableEq

/-- The steps of `up` that can fail and touch no process, pidfile or `meta.json`. -/
inductive Attempt where
  | createRoot
  | createServicesDir
  | writeProfile
  | bindSocket
  | bindSshSocket
  | clientKeypair
  | hostKey
  | writeServicesConfig
  | waitUntilResponsive
  | removeArtifacts
  | hook (name command : String)
  deriving DecidableEq

/-- The operations of the lifecycle commands. -/
inductive Op where
  /-- Nothing but the place where the command is now. -/
  | enter (place : Place)
  | acquireLock
  | readPidfile (r : Role)
  | processStartTime (pid : ℕ)
  | isProcessAlive (pid : ℕ)
  /-- Connecting to the control socket. -/
  | connect
  | kill (pid : ℕ) (signal : Signal)
  /-- Comparing the clock with a deadline. -/
  | deadlinePassed
  /-- Removing a file whatever comes of it. -/
  | removeFile (f : StateFile)
  /-- Removing the state directory. -/
  | removeRoot
  | attempt (a : Attempt)
  | spawnProxy (allow : List String)
  | spawnKeeper (launch : Launch)
  | writeRecord (r : Role) (pid start : ℕ)
  | readMeta
  | writeMeta (m : Meta)
  | probeNetns
  deriving DecidableEq

/-- The answers of the operations. -/
@[reducible] def Answer : Op → Type
  | .enter _ => Unit
  | .acquireLock => Except String Unit
  | .readPidfile _ => Except String (Option (ℕ × ℕ))
  | .processStartTime _ => Except String ℕ
  | .isProcessAlive _ => Bool
  | .connect => Bool
  | .kill _ _ => Unit
  | .deadlinePassed => Bool
  | .removeFile _ => Unit
  | .removeRoot => Except String Unit
  | .attempt _ => Except String Unit
  | .spawnProxy _ => Except String (ℕ × UInt16 × String)
  | .spawnKeeper _ => Except String ℕ
  | .writeRecord _ _ _ => Except String Unit
  | .readMeta => Except String (Option Meta)
  | .writeMeta _ => Except String Unit
  | .probeNetns => Bool

/-- `/proc/[pid]/stat`, where there is one. -/
def Host.processStartTime (h : Host) (pid : ℕ) (t : Moment) : Except String ℕ :=
  if h.procfs then
    match h.procs pid with
    | none => .error "No such file or directory (os error 2)"
    | some p => t.fallible p.start
  else .ok 0

theorem Moment.fallible_of_none {α : Type} {t : Moment} (h : t.fails = none) (a : α) :
    t.fallible a = .ok a := by
  rw [fallible, h]

theorem Moment.eq_of_fallible {α : Type} {t : Moment} {a b : α} (h : t.fallible a = .ok b) :
    a = b := by
  unfold fallible at h
  split at h
  · cases h
  · exact Except.ok.inj h

/-- The start time of a process, if nothing fails. -/
theorem Host.processStartTime_of_none {h : Host} {pid : ℕ} {p : Proc} {t : Moment}
    (hp : h.procs pid = some p) (hfails : t.fails = none) :
    h.processStartTime pid t = .ok (h.startOf p) := by
  unfold processStartTime startOf
  split
  · rw [hp]
    exact Moment.fallible_of_none hfails p.start
  · rfl

theorem Host.startOf_of_processStartTime {h : Host} {pid start : ℕ} {p : Proc} {t : Moment}
    (hp : h.procs pid = some p) (hstart : h.processStartTime pid t = .ok start) :
    h.startOf p = start := by
  unfold processStartTime at hstart
  unfold startOf
  split at hstart
  · next hprocfs =>
    rw [hp] at hstart
    rw [if_pos hprocfs]
    exact Moment.eq_of_fallible hstart
  · next hprocfs =>
    rw [if_neg hprocfs]
    exact Except.ok.inj hstart

/-- A process is started, if nothing fails and the pid is free. -/
def Host.spawn {α : Type} (h : Host) (t : Moment) (kind : Kind) (a : α) : Except String α × Host :=
  match h.procs t.pid with
  | some _ => (.error "Resource temporarily unavailable (os error 11)", h)
  | none =>
    match t.fails with
    | some e => (.error e, h)
    | none => (.ok a, h.born t.pid kind)

/-- What the operations do. -/
def Host.act : (o : Op) → Moment → Host → Answer o × Host
  | .enter _, _, h => ((), h)
  | .acquireLock, t, h => (t.fallible (), h)
  | .readPidfile r, t, h => (t.fallible (h.pidfile r), h)
  | .processStartTime pid, t, h => (h.processStartTime pid t, h)
  | .isProcessAlive pid, _, h => ((h.procs pid).isSome, h)
  | .connect, t, h => (t.answer, h)
  | .kill pid .term, t, h => ((), if t.answer then h.died pid else h)
  | .kill pid .kill, _, h => ((), h.died pid)
  | .deadlinePassed, t, h => (t.answer, h)
  | .removeFile f, t, h => ((), if t.fails.isSome then h else h.remove f)
  | .removeRoot, t, h =>
    match t.fails with
    | some e => (.error e, t.drops.foldl Host.remove h)
    | none => (.ok (), { h with pidfile := fun _ => none, metaFile := none })
  | .attempt _, t, h => (t.fallible (), h)
  | .spawnProxy allow, t, h => h.spawn t (.proxy t.port t.token allow) (t.pid, t.port, t.token)
  | .spawnKeeper launch, t, h => h.spawn t (.keeper launch) t.pid
  | .writeRecord r pid start, t, h =>
    match t.fails with
    | some e => (.error e, if t.drops.contains (.pidfile r) then h.record r none else h)
    | none => (.ok (), h.record r (some (pid, start)))
  | .readMeta, t, h => (t.fallible h.metaFile, h)
  | .writeMeta m, t, h =>
    match t.fails with
    | some e => (.error e, h)
    | none => (.ok (), { h with metaFile := some m })
  | .probeNetns, t, h => (t.answer, h)

/-- The host as a machine. -/
@[reducible] def machine : Machine Op Answer where
  State := Host
  Choice := Moment
  idle := .quiet
  surroundings t h := t.events.foldl Host.after h
  act := Host.act

/-- The errors of the lifecycle commands; `down` and `rm` know only the first. -/
inductive UpError where
  | state (e : String)
  | policy (e : Policy.CapabilitySetError)
  | config (msg : String)
  | provider (e : Provider.ProviderError)
  | keeper (msg : String)
  | ssh (msg : String)
  deriving DecidableEq

/-- A part of a lifecycle command. -/
abbrev Cmd (α : Type) := Prog Op Answer UpError α

/-- Ask for an operation that may fail, and wrap its error. -/
def attempt (a : Attempt) (wrap : String → UpError) : Cmd Unit := do
  orFail wrap (← perform (Op.attempt a))

/-- `acquire_lifecycle_lock`. -/
def acquireLifecycleLock : Cmd Unit := do
  orFail .state (← perform Op.acquireLock)

/-- `Health`. -/
inductive Health where
  | none
  | healthy (pid : ℕ)
  | stale (pid : ℕ)
  deriving DecidableEq

/-- `read_pidfile`. -/
def readPidfile (r : Role) : Cmd (Option (ℕ × ℕ)) := do
  orFail .state (← perform (Op.readPidfile r))

/-- `write_pidfile`. -/
def writePidfile (r : Role) (pid : ℕ) : Cmd Unit := do
  perform (Op.enter (.writePidfile r))
  let start ← orFail .state (← perform (Op.processStartTime pid))
  orFail .state (← perform (Op.writeRecord r pid start))

/-- `read_meta`. -/
def readMeta : Cmd (Option Meta) := do
  orFail .state (← perform Op.readMeta)

/-- `write_meta`. -/
def writeMeta (m : Meta) : Cmd Unit := do
  orFail .state (← perform (Op.writeMeta m))

/-- `is_same_process`. -/
def isSameProcess (pid recordedStartTime : ℕ) : Cmd Bool := do
  if recordedStartTime = 0 then perform (Op.isProcessAlive pid)
  else
    match ← perform (Op.processStartTime pid) with
    | .ok current => return current == recordedStartTime
    | .error _ => return false

/-- `health`. -/
def health : Cmd Health := do
  perform (Op.enter .health)
  match ← readPidfile .keeper with
  | none => return .none
  | some (pid, startTime) =>
    if ← isSameProcess pid startTime then
      if ← perform Op.connect then return .healthy pid else return .stale pid
    else return .stale pid

/-- `clear_runtime_state`. -/
def clearRuntimeState : Cmd Unit := do
  perform (Op.removeFile (.pidfile .keeper))
  perform (Op.removeFile .socket)
  perform (Op.removeFile (.pidfile .proxy))
  perform (Op.removeFile .sshSocket)
  perform (Op.removeFile .proxySocket)

/-- How often a grace period of 5 s has room for a poll every 50 ms. -/
def POLLS : ℕ := 100

/-- The polling of `terminate_and_wait_pid`, for at most so many rounds: whether the process is seen
to be gone. -/
def pollUntilGone (pid startTime : ℕ) : ℕ → Cmd Bool
  | 0 => return false
  | rounds + 1 => do
    if ← perform Op.deadlinePassed then return false
    if ← isSameProcess pid startTime then pollUntilGone pid startTime rounds
    else return true

/-- `terminate_and_wait_pid`. -/
def terminateAndWaitPid (pid startTime : ℕ) : Cmd Unit := do
  perform (Op.kill pid .term)
  if ← pollUntilGone pid startTime POLLS then return ()
  if ← isSameProcess pid startTime then perform (Op.kill pid .kill)

/-- `terminate_and_wait`. -/
def terminateAndWait (r : Role) : Cmd Unit := do
  perform (Op.enter (.terminateAndWait r))
  match ← perform (Op.readPidfile r) with
  | .ok (some (pid, startTime)) =>
    if ← isSameProcess pid startTime then terminateAndWaitPid pid startTime
  | _ => return ()

end Devcroft.Lifecycle
