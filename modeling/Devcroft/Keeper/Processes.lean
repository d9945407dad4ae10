import Mathlib.Data.Int.Notation
import Devcroft.Keeper.Protocol

/-!
# The process groups that a keeper starts

Every child that the keeper spawns leads a process group of its own, and its pid is the
group's id. The keeper waits for the child, not for the group: other members may live
on. The kernel gives out a pid again once the child was waited for and no member of the
group is left.
-/

namespace Devcroft.Keeper

/-- What a child was spawned for. -/
inductive Origin where
  /-- A session of the control socket, by its connection. -/
  | control (conn : ℕ)
  /-- A session of the SSH server, by its connection and its number there. -/
  | ssh (conn session : ℕ)
  /-- The supervisor of the services. -/
  | services
  deriving DecidableEq

/-- Whether a child was spawned for a session. -/
def Origin.isSession : Origin → Bool
  | control _ => true
  | ssh _ _ => true
  | services => false

/-- What has become of a child. -/
inductive Leader where
  | running
  /-- It has exited, and nobody has waited for it. -/
  | exited (status : ExitStatus)
  /-- It was waited for. -/
  | reaped
  deriving DecidableEq

/-- A child with its process group. -/
structure Group where
  pgid : ℕ
  origin : Origin
  request : SpawnRequest
  leader : Leader
  /-- How many other members are alive. -/
  others : ℕ
  deriving DecidableEq

/-- Some member of the group is running. -/
def Group.running (g : Group) : Prop := g.leader = .running ∨ 0 < g.others

instance (g : Group) : Decidable g.running := inferInstanceAs (Decidable (_ ∨ _))

/-- Nothing of the group is left, and its id may be given out again. -/
def Group.gone (g : Group) : Prop := g.leader = .reaped ∧ g.others = 0

instance (g : Group) : Decidable g.gone := inferInstanceAs (Decidable (_ ∧ _))

/-- The status of a process that was killed. -/
def KILLED : ExitStatus := ⟨none, some 9⟩

/-- A killed process has exited. -/
def Leader.killed : Leader → Leader
  | running => exited KILLED
  | leader => leader

/-- A group when `kill(target, SIGKILL)` was called: `-1` means every process, another negative
target the group of that id, and a positive one a single process. -/
def Group.killed (target : ℤ) (g : Group) : Group :=
  if target = -1 ∨ target = -(g.pgid : ℤ) then { g with leader := g.leader.killed, others := 0 }
  else if target = g.pgid then { g with leader := g.leader.killed }
  else g

/-- `kill(target, sig)`: what other signals do is up to the processes. -/
def kill (target : ℤ) (sig : ℕ) (groups : List Group) : List Group :=
  if sig = SIGKILL then groups.map (Group.killed target) else groups

/-- A child is spawned with a pid that the kernel can give out. -/
def spawnGroup (pid : ℕ) (origin : Origin) (request : SpawnRequest) (groups : List Group) :
    Option (List Group) :=
  if 1 < pid ∧ ∀ g ∈ groups, g.pgid = pid → g.gone then
    some (groups ++ [⟨pid, origin, request, .running, 0⟩])
  else none

/-- `Child::wait`, which returns once the child has exited. -/
def reap (origin : Origin) (groups : List Group) : Option (ExitStatus × List Group) :=
  match groups.find? fun g => g.origin = origin with
  | none => none
  | some g =>
    match g.leader with
    | .exited status =>
      some (status,
        groups.map fun g => if g.origin = origin then { g with leader := .reaped } else g)
    | _ => none

/-- What the processes of a group do of themselves. -/
inductive ChildEvent where
  | exits (status : ExitStatus)
  | forks
  | otherExits
  deriving DecidableEq

/-- A group after such an event. -/
def Group.after (g : Group) : ChildEvent → Group
  | .exits status => if g.leader = .running then { g with leader := .exited status } else g
  | .forks => if g.running then { g with others := g.others + 1 } else g
  | .otherExits => { g with others := g.others - 1 }

/-- The groups after an event in the group of an origin. -/
def childEvent (origin : Origin) (e : ChildEvent) (groups : List Group) : List Group :=
  groups.map fun g => if g.origin = origin then g.after e else g

end Devcroft.Keeper
