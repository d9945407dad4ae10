import Devcroft.Keeper.Framing
import Devcroft.Lifecycle.Artifacts
import Devcroft.Lifecycle.Up
import Mathlib.Data.List.Sort

/-!
# The listing of all sandboxes

`ps` goes through the entries of the data directory. What it cannot find out about the keeper of a
sandbox is reported in the summary of that sandbox; a record of a sandbox that cannot be read ends
the whole listing.
-/

namespace Devcroft.Lifecycle.Status

open Keeper Wire Utf8

/-- What stands at a path. -/
inductive Stored where
  | absent
  | bytes (bytes : List UInt8)
  /-- Something that cannot be read. -/
  | unreadable (message : String)
  deriving DecidableEq

/-- `std::fs::read_to_string`. -/
def Stored.readToString : Stored → Except IoError String
  | absent => .error .notFound
  | bytes content =>
    match decode content with
    | some s => .ok s
    | none => .error (.other "stream did not contain valid UTF-8")
  | unreadable message => .error (.other message)

/-- The processes of the machine. -/
structure Processes where
  alive : ℤ → Bool
  startTime : ℤ → Except String ℕ

/-- What a client of a control socket meets: how it takes what is written, and what it answers. -/
structure Peer where
  sink : Sink FrameError
  answer : List UInt8

/-- A sandbox in the data directory. -/
structure Sandbox where
  fileName : List UInt8
  metaFile : Stored
  pidfile : Stored
  /-- Whether the control socket accepts the connection of `health`. -/
  accepts : Bool
  /-- What the connection of `query_keeper` meets, if it is accepted too. -/
  peer : Option Peer

/-- What `ps` depends on beside the sandboxes: `serde_json`, for frames and for `Meta`, and the
processes. -/
structure Machine where
  json : SerdeJson
  metaFromStr : String → Except String Meta
  processes : Processes

/-- `read_meta`. -/
def readMeta (m : Machine) (file : Stored) : Except IoError (Option Meta) :=
  match file.readToString with
  | .ok s =>
    match m.metaFromStr s with
    | .ok recorded => .ok (some recorded)
    | .error message => .error (.other message)
  | .error .notFound => .ok none
  | .error e => .error e

/-- `read_pidfile`. -/
def readPidfile (file : Stored) : Except IoError (Option (ℤ × ℕ)) :=
  match file.readToString with
  | .ok s =>
    let parts := Text.splitWhitespace s
    let pid := parts[0]?.bind Text.parseI32
    let startTime := parts[1]?.bind Text.parseU64
    .ok (pid.bind fun pid => startTime.map fun startTime => (pid, startTime))
  | .error .notFound => .ok none
  | .error e => .error e

/-- `is_same_process`. -/
def isSameProcess (processes : Processes) (pid : ℤ) (recordedStartTime : ℕ) : Bool :=
  if recordedStartTime = 0 then processes.alive pid
  else
    match processes.startTime pid with
    | .ok current => current = recordedStartTime
    | .error _ => false

/-- `Health`. -/
inductive Health where
  | none
  | healthy (pid : ℤ)
  | stale (pid : ℤ)
  deriving DecidableEq

/-- `health`. -/
def health (m : Machine) (s : Sandbox) : Except IoError Health :=
  match readPidfile s.pidfile with
  | .error e => .error e
  | .ok none => .ok .none
  | .ok (some (pid, startTime)) =>
    if isSameProcess m.processes pid startTime = false then .ok (.stale pid)
    else if s.accepts then .ok (.healthy pid)
    else .ok (.stale pid)

/-- `KeeperStatus`. -/
inductive KeeperStatus where
  | none
  | stale
  | healthy (uptimeSecs sessionCount : ℕ)
  deriving DecidableEq

/-- Why the status of a keeper is not known. -/
inductive KeeperError where
  | state (e : IoError)
  | connect
  | frame (e : FrameError)
  | unexpected (response : Frame)
  deriving DecidableEq

/-- `query_keeper`. -/
def queryKeeper (m : Machine) (s : Sandbox) : Except KeeperError QueryResult :=
  match s.peer with
  | none => .error .connect
  | some peer =>
    match (writeFrame m.json peer.sink .query []).1 with
    | .error e => .error (.frame e)
    | .ok () =>
      match (readFrame m.json peer.answer).1 with
      | .ok (.queryResult result) => .ok result
      | .ok other => .error (.unexpected other)
      | .error e => .error (.frame e)

/-- `keeper_status`. -/
def keeperStatus (m : Machine) (s : Sandbox) : Except KeeperError KeeperStatus :=
  match health m s with
  | .error e => .error (.state e)
  | .ok .none => .ok .none
  | .ok (.stale _) => .ok .stale
  | .ok (.healthy _) =>
    match queryKeeper m s with
    | .ok result => .ok (.healthy result.uptimeSecs result.sessions.length)
    | .error e => .error e

/-- `SandboxSummary`. -/
structure SandboxSummary where
  name : String
  keeper : KeeperStatus
  projectRoot : Option String
  declaredServices : List String
  deriving DecidableEq

/-- The body of the loop of `ps`, for a directory. -/
def summaryOf (m : Machine) (s : Sandbox) : Except IoError SandboxSummary :=
  let keeper :=
    match keeperStatus m s with
    | .ok status => status
    | .error _ => .stale
  match readMeta m s.metaFile with
  | .error e => .error e
  | .ok recorded =>
    .ok {
      name := decodeLossy s.fileName
      keeper := keeper
      projectRoot := recorded.map Meta.projectRoot
      declaredServices := (recorded.map Meta.declaredServices).getD [] }

/-- An entry of the data directory: whether it is a directory, and what it is then. -/
structure DirEntry where
  isDir : Except IoError Bool
  sandbox : Sandbox

/-- The loop of `ps`. -/
def psLoop (m : Machine) : List (Except IoError DirEntry) → Except IoError (List SandboxSummary)
  | [] => .ok []
  | .error e :: _ => .error e
  | .ok entry :: rest =>
    match entry.isDir with
    | .error e => .error e
    | .ok false => psLoop m rest
    | .ok true =>
      match summaryOf m entry.sandbox with
      | .error e => .error e
      | .ok summary => (psLoop m rest).map (summary :: ·)

/-- The order of the listing. -/
def byName (summaries : List SandboxSummary) : List SandboxSummary :=
  summaries.insertionSort fun a b => a.name ≤ b.name

/-- `ps`, where `read_dir` of the data directory has this result. -/
def ps (m : Machine) (homeVar : Option String)
    (readDir : Except IoError (List (Except IoError DirEntry))) :
    Except IoError (List SandboxSummary) :=
  match dataDir homeVar with
  | .error message => .error (.other message)
  | .ok _ =>
    match readDir with
    | .ok entries => (psLoop m entries).map byName
    | .error .notFound => .ok []
    | .error e => .error e

/-- A data directory that can be read: its entries, each a directory or not. -/
abbrev DataDir := List (Bool × Sandbox)

/-- What reading it yields. -/
def DataDir.read (dir : DataDir) : List (Except IoError DirEntry) :=
  dir.map fun entry => .ok ⟨.ok entry.1, entry.2⟩

/-- The sandboxes in it. -/
def DataDir.sandboxes (dir : DataDir) : List Sandbox :=
  (dir.filter fun entry => entry.1).map Prod.snd

/-- What there is to say about a sandbox, from its own state: as far as its keeper answers and its
records can be read. -/
def summarize (m : Machine) (s : Sandbox) : SandboxSummary :=
  let recorded := (readMeta m s.metaFile).toOption.join
  { name := decodeLossy s.fileName
    keeper := (keeperStatus m s).toOption.getD .stale
    projectRoot := recorded.map Meta.projectRoot
    declaredServices := (recorded.map Meta.declaredServices).getD [] }

/-- Each sandbox has one summary in the sorted listing, and that is what a listing of it alone says.
-/
structure Isolated (m : Machine) (home : String) (dir : DataDir) : Prop where
  listed : ∃ out, ps m (some home) (.ok dir.read) = .ok out ∧
    out.Perm (dir.sandboxes.map (summarize m)) ∧ out.Pairwise fun a b => a.name ≤ b.name
  alone : ∀ s ∈ dir.sandboxes,
    ps m (some home) (.ok (DataDir.read [(true, s)])) = .ok [summarize m s]

/-- The record of a sandbox is absent, or a text that is a well-formed one. -/
def RecordSound (m : Machine) (s : Sandbox) : Prop :=
  s.metaFile = .absent ∨ ∃ text recorded,
    s.metaFile = .bytes (encode text) ∧ m.metaFromStr text = .ok recorded

variable {m : Machine} {s : Sandbox} {dir : DataDir}

theorem readMeta_isOk_iff : (∃ recorded, readMeta m s.metaFile = .ok recorded) ↔
    RecordSound m s := by
  unfold readMeta RecordSound
  constructor
  · rintro ⟨recorded, h⟩
    cases hfile : s.metaFile with
    | absent => exact Or.inl rfl
    | unreadable message =>
      rw [hfile] at h
      cases h
    | bytes content =>
      rw [hfile] at h
      right
      cases htext : decode content with
      | none =>
        simp only [Stored.readToString, htext] at h
        cases h
      | some text =>
        simp only [Stored.readToString, htext] at h
        cases hmeta : m.metaFromStr text with
        | error message =>
          rw [hmeta] at h
          cases h
        | ok value => exact ⟨text, value, by rw [encode_of_decode htext], hmeta⟩
  · rintro (hfile | ⟨text, recorded, hfile, hmeta⟩)
    · exact ⟨none, by rw [hfile]; rfl⟩
    · exact ⟨some recorded, by simp [hfile, Stored.readToString, hmeta]⟩

/-- Of a sandbox whose record is sound, `ps` says what there is to say. -/
theorem summaryOf_eq_ok_iff {summary : SandboxSummary} :
    summaryOf m s = .ok summary ↔ RecordSound m s ∧ summary = summarize m s := by
  have hkeeper : (match keeperStatus m s with
      | .ok status => status
      | .error _ => .stale) = (keeperStatus m s).toOption.getD .stale := by
    cases keeperStatus m s <;> rfl
  rw [← readMeta_isOk_iff]
  unfold summaryOf summarize
  rw [hkeeper]
  cases hmeta : readMeta m s.metaFile with
  | error e => simp
  | ok recorded => simp [Except.toOption, eq_comm]

theorem exists_of_map_eq_ok {ε α β : Type} {f : α → β} {x : Except ε α} {b : β}
    (h : x.map f = .ok b) : ∃ a, x = .ok a ∧ f a = b := by
  cases x with
  | error e => cases h
  | ok a => exact ⟨a, rfl, Except.ok.inj h⟩

/-- The loop gets through if every record is sound. The induction is on the entries. -/
theorem psLoop_eq_ok_iff {out : List SandboxSummary} :
    psLoop m dir.read = .ok out ↔
      (∀ s ∈ dir.sandboxes, RecordSound m s) ∧ out = dir.sandboxes.map (summarize m) := by
  induction dir generalizing out with
  | nil => simp [DataDir.read, DataDir.sandboxes, psLoop, eq_comm]
  | cons entry dir ih =>
    obtain ⟨isDir, s⟩ := entry
    cases isDir with
    | false => exact ih
    | true =>
      have hread : DataDir.read ((true, s) :: dir) = .ok ⟨.ok true, s⟩ :: DataDir.read dir := rfl
      have hsandboxes : DataDir.sandboxes ((true, s) :: dir) = s :: DataDir.sandboxes dir := rfl
      rw [hread, hsandboxes, psLoop, List.forall_mem_cons, List.map_cons]
      simp only
      cases hsummary : summaryOf m s with
      | error e =>
        have hunsound : ¬RecordSound m s := by
          intro hsound
          have hok := summaryOf_eq_ok_iff.mpr ⟨hsound, rfl⟩
          rw [hsummary] at hok
          cases hok
        simp [hunsound]
      | ok summary =>
        obtain ⟨hsound, rfl⟩ := summaryOf_eq_ok_iff.mp hsummary
        constructor
        · intro h
          obtain ⟨rest, hrest, rfl⟩ := exists_of_map_eq_ok h
          obtain ⟨hall, rfl⟩ := ih.mp hrest
          exact ⟨⟨hsound, hall⟩, rfl⟩
        · rintro ⟨⟨-, hall⟩, rfl⟩
          simp only [ih.mpr ⟨hall, rfl⟩, Except.map]

/-- The listing is in the order of the names, and nothing gets lost in sorting it. -/
theorem byName_sorted (summaries : List SandboxSummary) :
    (byName summaries).Perm summaries ∧
      (byName summaries).Pairwise fun a b => a.name ≤ b.name := by
  have htotal : Std.Total fun a b : SandboxSummary => a.name ≤ b.name :=
    ⟨fun a b => String.le_total a.name b.name⟩
  have htrans : IsTrans SandboxSummary fun a b => a.name ≤ b.name :=
    ⟨fun a b c => String.le_trans⟩
  exact ⟨List.perm_insertionSort _ _, List.pairwise_insertionSort _ _⟩

/-- A codec that reads and writes nothing. -/
def noCodec (T : Type) : Codec T := ⟨fun _ => .error "", fun _ => .error ""⟩

/-- A machine where no keeper is running; `serde_json` refuses a text that ends after a brace. -/
def sampleMachine : Machine where
  json := ⟨noCodec _, noCodec _, noCodec _, noCodec _, noCodec _, noCodec _, noCodec _⟩
  metaFromStr := fun _ => .error "EOF while parsing an object at line 1 column 1"
  processes := ⟨fun _ => false, fun _ => .error "No such file or directory"⟩

/-- Two sandboxes, of which one was never started, and the other has a record that was cut short. -/
def sampleDir : DataDir :=
  [(true, ⟨encode "fresh", .absent, .absent, false, none⟩),
    (true, ⟨encode "broken", .bytes (encode "\x7b"), .absent, false, none⟩)]

end Devcroft.Lifecycle.Status
