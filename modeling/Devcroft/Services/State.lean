import Mathlib.Data.List.Sort
import Devcroft.Library.Json
import Devcroft.Library.Utf8

/-!
# The services as their supervisor reports them

`query` asks the supervisor over a socket that the sandbox controls. It reads an HTTP
response as JSON, and each item of it as the state of one service.
-/

namespace Devcroft.Services

open Json

/-- Whether an item has a name. -/
def isNamed (v : Value) : Bool := ((v.get "name").bind Value.asStr).isSome

/-- The integer that an item has as its pid. -/
def pid? (v : Value) : Option ℤ := (v.get "pid").bind Value.toInt?

/-- `ServiceHealth`. -/
inductive ServiceHealth where
  | running
  | failed (exitCode : Int64)
  | exited
  | notStarted
  | pending
  | skipped
  deriving DecidableEq

/-- `ServiceState`. -/
structure ServiceState where
  name : String
  health : ServiceHealth
  pid : Option Int64
  deriving DecidableEq

/-- The health that an item reports. -/
def healthOf (status : Option String) (isRunning : Option Bool) (exitCode : Option Int64) :
    ServiceHealth :=
  if status = some "Pending" then .pending
  else if status = some "Skipped" then .skipped
  else if isRunning = some true then .running
  else
    match exitCode.filter (· ≠ 0) with
    | some code => .failed code
    | none => if isRunning = some false then .exited else .notStarted

/-- `ServiceState::from_json`. -/
def ServiceState.fromJson (v : Value) : Option ServiceState := do
  let name ← (← v.get "name").asStr
  let status := (v.get "status").bind Value.asStr
  let isRunning := (v.get "is_running").bind Value.asBool
  let exitCode := (v.get "exit_code").bind Value.asI64
  some ⟨name, healthOf status isRunning exitCode,
    ((v.get "pid").bind Value.asI64).filter fun p => 0 < p⟩

/-- `Unreachable`. -/
inductive Unreachable where
  | noSocket
  | unusable (why : String)
  deriving DecidableEq

/-- `MAX_RESPONSE`. -/
def MAX_RESPONSE : ℕ := 4 * 1024 * 1024

/-- What `query` meets at the path of the socket. -/
structure Peer where
  /-- `symlink_metadata`: whether the path is a socket, and who owns it. -/
  metadata : Option (Bool × ℕ)
  /-- The user that devcroft runs as. -/
  uid : ℕ
  /-- How connecting, setting the timeouts and writing the request fail. -/
  connect : Except String Unit
  timeouts : Except String Unit
  write : Except String Unit
  /-- The bytes of the response, to the end. -/
  read : Except String (List UInt8)
  /-- The exchange takes longer than `QUERY_DEADLINE`. -/
  late : Bool
  /-- `serde_json::from_str`. -/
  fromStr : String → Except String Value

/-- A step of the exchange, its error put after a text that says what it was doing. -/
def step {α : Type} (doing : String) (r : Except String α) : Except Unreachable α :=
  r.mapError fun e => .unusable (doing ++ ": " ++ e)

/-- A condition on the exchange. -/
def ensure (condition : Bool) (why : String) : Except Unreachable Unit :=
  if condition then .ok () else .error (.unusable why)

/-- The part of `query` that receives the response. -/
def Peer.receive (peer : Peer) (socket : String) : Except Unreachable (List UInt8) := do
  let (isSocket, owner) ← match peer.metadata with
    | some metadata => .ok metadata
    | none => .error .noSocket
  ensure isSocket (socket ++ " exists but is not a socket")
  ensure (owner = peer.uid)
    (socket ++ " is owned by uid " ++ toString owner ++ ", not " ++ toString peer.uid)
  step "connect" peer.connect
  step "socket timeout" peer.timeouts
  step "write" peer.write
  let raw ← step "read" (peer.read.map (List.take MAX_RESPONSE))
  ensure (!peer.late) "supervisor did not answer within the deadline"
  ensure (raw.length < MAX_RESPONSE) ("response exceeded " ++ toString MAX_RESPONSE ++ " bytes")
  return raw

/-- The part of `query` that finds the items in the response. -/
def Peer.items (peer : Peer) (raw : List UInt8) : Except Unreachable (List Value) := do
  let text := Utf8.decodeLossy raw
  let body ← match Text.find "\r\n\r\n" text with
    | some i => .ok (Text.sliceFrom (i + 4) text)
    | none => .error (.unusable "no HTTP body in response")
  let start ← match Text.find "\x7b" body with
    | some i => .ok i
    | none => .error (.unusable "no JSON in response body")
  let parsed ← step "malformed JSON" (peer.fromStr (Text.sliceFrom start body))
  match (parsed.get "data").bind Value.asArray with
  | some items => return items
  | none => .error (.unusable "response JSON has no `data` array")

/-- `query`. -/
def Peer.query (peer : Peer) (socket : String) : Except Unreachable (List ServiceState) := do
  let raw ← peer.receive socket
  let items ← peer.items raw
  return (items.filterMap ServiceState.fromJson).insertionSort fun a b => a.name ≤ b.name

/-- The items of the response, of which there are none where `query` fails. -/
def Peer.reported (peer : Peer) (socket : String) : List Value :=
  match peer.receive socket >>= peer.items with
  | .ok items => items
  | .error _ => []

/-- The pids of the services, where `query` succeeds. -/
def Peer.answer (peer : Peer) (socket : String) : Option (List (Option Int64)) :=
  match peer.query socket with
  | .ok states => some (states.map ServiceState.pid)
  | .error _ => none

/-- An item is a service where it has a name, with its pid where that is positive. -/
theorem ServiceState.fromJson_pid {v : Value} {q : Int64} :
    (∃ state, fromJson v = some state ∧ state.pid = some q) ↔
      isNamed v = true ∧ pid? v = some q.toInt ∧ 0 < q.toInt := by
  have hpid : ((v.get "pid").bind Value.asI64).filter (fun p => decide (0 < p)) = some q ↔
      pid? v = some q.toInt ∧ 0 < q.toInt := by
    rw [Option.filter_eq_some_iff, decide_eq_true_eq, Int64.lt_iff_toInt_lt]
    refine and_congr_left fun _ => ?_
    simp only [pid?, Option.bind_eq_some_iff, Value.asI64_eq_some_iff]
  rw [← hpid]
  unfold fromJson isNamed
  cases v.get "name" with
  | none => simp
  | some w => cases w <;> simp [Value.asStr]

/-- The pids that the supervisor answers with. -/
theorem Peer.mem_answer {peer : Peer} {socket : String} {q : Int64} :
    some q ∈ (peer.answer socket).getD [] ↔
      ∃ v ∈ peer.reported socket, isNamed v = true ∧ pid? v = some q.toInt ∧ 0 < q.toInt := by
  simp only [← ServiceState.fromJson_pid]
  unfold answer reported query
  cases hreceive : peer.receive socket with
  | error e => simp [bind, Except.bind]
  | ok raw =>
    cases hitems : peer.items raw with
    | error e => simp [bind, Except.bind, hitems]
    | ok items =>
      simp only [bind, Except.bind, hitems, pure, Except.pure, Option.getD_some, List.mem_map,
        List.mem_insertionSort, List.mem_filterMap]
      constructor
      · rintro ⟨state, ⟨v, hv, hstate⟩, hq⟩
        exact ⟨v, hv, state, hstate, hq⟩
      · rintro ⟨v, hv, state, hstate, hq⟩
        exact ⟨state, ⟨v, hv, hstate⟩, hq⟩

end Devcroft.Services
