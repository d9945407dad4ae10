import Mathlib.Tactic.Common

/-!
# The frames of the control socket

What a client and the keeper say to each other on one connection of the control socket.
-/

namespace Devcroft.Keeper

/-- `PtySize`. -/
structure PtySize where
  rows : UInt16
  cols : UInt16
  deriving DecidableEq

/-- `SpawnRequest`. -/
structure SpawnRequest where
  cmd : String
  args : List String
  cwd : String
  env : List (String × String)
  pty : Option PtySize
  deriving DecidableEq

/-- `SIGHUP`. -/
def SIGHUP : ℕ := 1

/-- `SIGINT`. -/
def SIGINT : ℕ := 2

/-- `SIGKILL`. -/
def SIGKILL : ℕ := 9

/-- `SIGTERM`. -/
def SIGTERM : ℕ := 15

/-- `SessionSignal`. -/
inductive SessionSignal where
  | int
  | term
  | hup
  deriving DecidableEq

/-- `SessionSignal::as_libc`. -/
def SessionSignal.asLibc : SessionSignal → ℕ
  | int => SIGINT
  | term => SIGTERM
  | hup => SIGHUP

/-- `ExitStatus`. -/
structure ExitStatus where
  code : Option Int32
  signal : Option Int32
  deriving DecidableEq

/-- `SessionSummary`. -/
structure SessionSummary where
  id : ℕ
  command : String
  startedUnix : ℕ
  deriving DecidableEq

/-- `QueryResult`. -/
structure QueryResult where
  uptimeSecs : ℕ
  sessions : List SessionSummary
  deriving DecidableEq

/-- `Frame`. -/
inductive Frame where
  | spawn (req : SpawnRequest)
  | spawnOk (sessionId : ℕ)
  | spawnErr (message : String)
  | stdin (bytes : List UInt8)
  | stdinClosed
  | stdout (bytes : List UInt8)
  | stderr (bytes : List UInt8)
  | resize (size : PtySize)
  | signal (sig : SessionSignal)
  | exit (status : ExitStatus)
  | query
  | queryResult (result : QueryResult)
  deriving DecidableEq

end Devcroft.Keeper
