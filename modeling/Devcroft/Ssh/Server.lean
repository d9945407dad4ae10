import Devcroft.Library.Text
import Devcroft.Keeper.Connection

/-!
# One connection of the SSH server

The handler of a connection is called for one request of the client after the other, in
the order in which they arrive. It keeps the sessions that it starts in a map of its
own, and the task that waits for a child knows nothing of that map.
-/

namespace Devcroft.Ssh

open Keeper

/-- What the SSH server has of the keeper's environment. -/
structure ServerEnv where
  /-- `DEVCROFT_SHELL`. -/
  shell : Option String
  /-- The current directory. -/
  cwd : Option String
  deriving DecidableEq

/-- `LOGIN_SHELL`. -/
def LOGIN_SHELL : String := "sh"

/-- `session_shell`. -/
def sessionShell (env : ServerEnv) : String := env.shell.getD LOGIN_SHELL

/-- `env_allowed`. -/
def envAllowed (name : String) : Bool :=
  name = "TERM" || name = "LANG" || Text.startsWith "LC_" name

/-- `PendingChannel`. -/
structure PendingChannel where
  pty : Option PtySize
  env : List (String × String)
  deriving DecidableEq

/-- A channel for which nothing was requested. -/
def PendingChannel.default : PendingChannel := ⟨none, []⟩

/-- `ActiveSession`. -/
structure ActiveSession where
  /-- Whether stdin is open. -/
  stdin : Bool
  /-- The size of the pty, if there is one. -/
  pty : Option PtySize
  pgid : ℕ
  /-- Which of the sessions of the connection it is. -/
  session : ℕ
  deriving DecidableEq

/-- Where the task is that waits for the child of a session. -/
inductive WaitTask where
  /-- Before the pumps are joined. -/
  | pumping
  /-- Before `child.wait`. -/
  | waiting
  | reaped (status : ExitStatus)
  deriving DecidableEq

/-- A connection, `SshServer` with the tasks that it started. -/
structure SshConn where
  /-- Whether the handler is still there. -/
  connected : Bool
  channels : List ℕ
  pending : ℕ → Option PendingChannel
  active : ℕ → Option ActiveSession
  /-- How many children were spawned. -/
  spawned : ℕ
  /-- The task of each session. -/
  tasks : ℕ → Option WaitTask

/-- `new_client`. -/
def SshConn.newClient : SshConn where
  connected := true
  channels := []
  pending := fun _ => none
  active := fun _ => none
  spawned := 0
  tasks := fun _ => none

/-- A map with another entry. -/
def insertAt {α : Type} (f : ℕ → α) (key : ℕ) (value : α) : ℕ → α :=
  fun k => if k = key then value else f k

@[simp] theorem insertAt_self {α : Type} (f : ℕ → α) (key : ℕ) (value : α) :
    insertAt f key value key = value := if_pos rfl

theorem insertAt_of_ne {α : Type} {f : ℕ → α} {key k : ℕ} {value : α} (h : k ≠ key) :
    insertAt f key value k = f k := if_neg h

/-- The connection is over: the handler is dropped with its maps. -/
def SshConn.dropped (c : SshConn) : SshConn :=
  { c with connected := false, channels := [], pending := fun _ => none, active := fun _ => none }

/-- The requests of a client. -/
inductive Call where
  | channelOpenSession (channel : ℕ)
  | ptyRequest (channel : ℕ) (colWidth rowHeight : UInt32)
  | envRequest (channel : ℕ) (name value : String)
  | shellRequest (channel : ℕ)
  /-- With the command as text. -/
  | execRequest (channel : ℕ) (command : String)
  | windowChangeRequest (channel : ℕ) (colWidth rowHeight : UInt32)
  | data (channel : ℕ) (bytes : List UInt8)
  | channelEof (channel : ℕ)
  | channelClose (channel : ℕ)
  | subsystemRequest (channel : ℕ) (name : String)
  deriving DecidableEq

/-- How the surroundings answer a handler. -/
structure Reply where
  /-- Whether `channel_success` or `channel_failure` could be sent. -/
  sent : Bool
  /-- The pid of a new child, if it could be spawned. -/
  pid : Option ℕ
  /-- Whether stdin takes bytes. -/
  stdinTakes : Bool
  deriving DecidableEq

/-- The connection after a handler that replies last: an error of the reply ends it. -/
def SshConn.replied (c : SshConn) (reply : Reply) : SshConn := if reply.sent then c else c.dropped

/-- `start_session` on the `k`-th connection. -/
def SshConn.startSession (k : ℕ) (env : ServerEnv) (c : SshConn) (channel : ℕ) (cmd : String)
    (args : List String) (reply : Reply) (groups : List Group) : Option (SshConn × List Group) :=
  let pending := (c.pending channel).getD .default
  let c := { c with pending := insertAt c.pending channel none }
  let req : SpawnRequest := ⟨cmd, args, env.cwd.getD "/", pending.env, pending.pty⟩
  match reply.pid with
  | none => some (c.replied reply, groups)
  | some pid =>
    (spawnGroup pid (.ssh k c.spawned) req groups).map fun groups =>
      let started := { c with spawned := c.spawned + 1 }
      if reply.sent then
        ({ started with
          active := insertAt c.active channel (some ⟨true, pending.pty, pid, c.spawned⟩)
          tasks := insertAt c.tasks c.spawned (some .pumping) }, groups)
      else (started.dropped, groups)

/-- `channel_close`. -/
def SshConn.channelClose (c : SshConn) (channel : ℕ) (groups : List Group) :
    SshConn × List Group :=
  let closed := { c with
    channels := c.channels.filter (· ≠ channel)
    pending := insertAt c.pending channel none
    active := insertAt c.active channel none }
  match c.active channel with
  | none => (closed, groups)
  | some active => (closed, kill (-active.pgid) SIGTERM groups)

/-- The methods of the handler. -/
def SshConn.call (k : ℕ) (env : ServerEnv) (c : SshConn) (reply : Reply) (groups : List Group) :
    Call → Option (SshConn × List Group)
  | .channelOpenSession channel =>
    some ({ c with channels := channel :: c.channels.filter (· ≠ channel) }, groups)
  | .ptyRequest channel colWidth rowHeight =>
    let pending := (c.pending channel).getD .default
    let size : PtySize := ⟨rowHeight.toUInt16, colWidth.toUInt16⟩
    let c :=
      { c with pending := insertAt c.pending channel (some { pending with pty := some size }) }
    some (c.replied reply, groups)
  | .envRequest channel name value =>
    if envAllowed name then
      let pending := (c.pending channel).getD .default
      let env := (pending.env.filter fun entry => entry.1 ≠ name) ++ [(name, value)]
      let c := { c with pending := insertAt c.pending channel (some { pending with env := env }) }
      some (c.replied reply, groups)
    else some (c.replied reply, groups)
  | .shellRequest channel => c.startSession k env channel (sessionShell env) [] reply groups
  | .execRequest channel command =>
    c.startSession k env channel (sessionShell env) ["-c", command] reply groups
  | .windowChangeRequest channel colWidth rowHeight =>
    let size : PtySize := ⟨rowHeight.toUInt16, colWidth.toUInt16⟩
    match c.active channel with
    | none => some (c, groups)
    | some active =>
      some ({ c with
        active :=
          insertAt c.active channel (some { active with pty := active.pty.map fun _ => size })
      }, groups)
  | .data channel _ =>
    match c.active channel with
    | none => some (c, groups)
    | some active =>
      some ({ c with
        active := insertAt c.active channel
          (some { active with stdin := active.stdin && reply.stdinTakes }) }, groups)
  | .channelEof channel =>
    match c.active channel with
    | none => some (c, groups)
    | some active =>
      some ({ c with active := insertAt c.active channel (some { active with stdin := false }) },
        groups)
  | .channelClose channel => some (c.channelClose channel groups)
  | .subsystemRequest channel name =>
    if name = "sftp" ∧ channel ∈ c.channels then
      let c := { c with channels := c.channels.filter (· ≠ channel) }
      some (c.replied reply, groups)
    else some (c.replied reply, groups)

/-- What happens on a connection. -/
inductive SshAct where
  | call (request : Call) (reply : Reply)
  /-- A step of the task of a session. -/
  | task (session : ℕ)
  /-- The connection ends without any more requests. -/
  | disconnect
  deriving DecidableEq

/-- A step of the task that waits for the child of a session. -/
def SshConn.task (k : ℕ) (c : SshConn) (session : ℕ) (groups : List Group) :
    Option (SshConn × List Group) :=
  match c.tasks session with
  | some .pumping => some ({ c with tasks := insertAt c.tasks session (some .waiting) }, groups)
  | some .waiting =>
    (reap (.ssh k session) groups).map fun (status, groups) =>
      ({ c with tasks := insertAt c.tasks session (some (.reaped status)) }, groups)
  | _ => none

/-- A step of the `k`-th connection. -/
def SshConn.step (k : ℕ) (env : ServerEnv) (c : SshConn) (groups : List Group) :
    SshAct → Option (SshConn × List Group)
  | .call request reply => if c.connected then c.call k env reply groups request else none
  | .task session => c.task k session groups
  | .disconnect => if c.connected then some (c.dropped, groups) else none

end Devcroft.Ssh
