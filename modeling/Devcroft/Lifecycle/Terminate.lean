import Devcroft.Lifecycle.Up
import Devcroft.Policy.Denials

/-!
# Taking a sandbox down

`down` and `rm`, and the commands of a sandbox together. Every command takes the
lifecycle lock, so that commands run one after the other.
-/

namespace Devcroft.Lifecycle

open Program

/-- `stop_if_running`. -/
def stopIfRunning : Cmd Unit := do
  terminateAndWait .keeper
  terminateAndWait .proxy

/-- `down`. -/
def down (homeVar : Option String) (sandboxName : String) : Cmd Unit := do
  perform (Op.enter .command)
  let _root ← orFail .state (statePaths homeVar sandboxName)
  acquireLifecycleLock
  stopIfRunning
  clearRuntimeState

/-- `rm`. -/
def rm (homeVar : Option String) (sandboxName : String) : Cmd Unit := do
  perform (Op.enter .command)
  let _root ← orFail .state (statePaths homeVar sandboxName)
  let found ← perform Op.readMeta
  acquireLifecycleLock
  stopIfRunning
  orFail .state (← perform Op.removeRoot)
  match found with
  | .ok (some _) => attempt .removeArtifacts .state
  | _ => return ()

/-- The lifecycle commands. -/
inductive Command where
  | up (input : UpInput)
  | down (homeVar : Option String) (sandboxName : String)
  | rm (homeVar : Option String) (sandboxName : String)

/-- The program of a command: its outcome, if it is an `up`. -/
def Command.prog : Command → Cmd (Option UpOutcome)
  | .up input => do
    let outcome ← Lifecycle.up input
    return some outcome
  | .down homeVar sandboxName => do
    Lifecycle.down homeVar sandboxName
    return none
  | .rm homeVar sandboxName => do
    Lifecycle.rm homeVar sandboxName
    return none

/-- A host on which nothing of the sandbox has ever been: other processes may run. -/
def Host.Fresh (h : Host) : Prop :=
  (∀ pid p, h.procs pid = some p → p.kind = .foreign) ∧ (∀ r, h.pidfile r = none) ∧
    h.metaFile = none

/-- A flox project that reaches these domains. -/
def sampleInput (allow : List String) : UpInput where
  platform := .linux
  manifest := { Policy.sampleManifest ["."] with network := ⟨.deny, allow, []⟩ }
  projectRoot := "/home/u/p"
  opts := ⟨false, false⟩
  resolution := .ok ⟨[("PATH", "/nix/store/s/bin")], [], ["/nix/store"], none, .declared [], false⟩
  fingerprint := .ok "0123456789abcdef"
  shell := fun _ => some ⟨"/nix/store/b/bin/sh", some "/nix/store/b"⟩
  resolveInEnv := fun _ => none
  servicesDeclaredByFlox := []
  keeperExe := .ok "/opt/devcroft/devcroft"
  host := Policy.sampleHost
  nono := Policy.sampleNono

/-- A Linux host without processes or files of the sandbox. -/
def freshHost : Host := ⟨true, 0, fun _ => none, fun _ => none, none⟩

theorem freshHost_fresh : freshHost.Fresh :=
  ⟨fun _ _ hp => (nomatch hp), fun _ => rfl, rfl⟩

/-- Choices that give every process another pid, port and token: the yes-or-no answers at some
steps are no, some steps fail. -/
def sampleMoments (refused failed : List ℕ) : List Moment :=
  (List.range 120).map fun i =>
    { Moment.quiet with
      pid := i + 1
      port := UInt16.ofNat (40000 + i)
      token := toString i
      answer := !refused.contains i
      fails := if failed.contains i then some "Input/output error (os error 5)" else none }

end Devcroft.Lifecycle
