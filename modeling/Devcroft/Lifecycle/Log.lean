import Devcroft.Keeper.Protocol
import Devcroft.Library.Appending
import Devcroft.Library.Hex
import Devcroft.Library.Text
import Devcroft.Library.Utf8

/-!
# The log of a sandbox

Two processes append to `keeper.log`: the keeper its records of spawned and exited sessions, and the
`up` that runs the hooks a header for each hook and the chunks of its output. Each `write` is
atomic, but a chunk may end anywhere in a line.
-/

namespace Devcroft.Lifecycle.Log

open Keeper Appending Utf8

section Debug

/-- A character in `{:?}` of a string, where some characters are printable. -/
def debugChar (printable : Char → Bool) (c : Char) : String :=
  if c = '\x00' then "\\0"
  else if c = '\t' then "\\t"
  else if c = '\r' then "\\r"
  else if c = '\n' then "\\n"
  else if c = '\\' then "\\\\"
  else if c = '\"' then "\\\""
  else if printable c then String.singleton c
  else "\\u\x7b" ++ String.ofList (Hex.pad 0 c.toNat) ++ "\x7d"

/-- `{:?}` of a string. -/
def debugStr (printable : Char → Bool) (s : String) : String :=
  "\"" ++ String.ofList (s.toList.flatMap fun c => (debugChar printable c).toList) ++ "\""

/-- `{:0width}` of a number. -/
def padded (width : ℕ) (n : ℤ) : String :=
  let sign := if n < 0 then "-" else ""
  let digits := Nat.toDigits 10 n.natAbs
  sign ++ String.ofList (List.replicate (width - (sign.length + digits.length)) '0' ++ digits)

/-- `{}` of a number. -/
def decimal (n : ℤ) : String := padded 0 n

/-- `{:?}` of a number that may be missing. -/
def debugOption : Option Int32 → String
  | none => "None"
  | some n => "Some(" ++ decimal n.toInt ++ ")"

/-- A text without a newline. -/
def OneLine (s : String) : Prop := '\n' ∉ s.toList

instance (s : String) : Decidable (OneLine s) := by
  unfold OneLine
  infer_instance

@[simp] theorem oneLine_append {s t : String} : OneLine (s ++ t) ↔ OneLine s ∧ OneLine t := by
  simp [OneLine, not_or]

theorem oneLine_debugChar (printable : Char → Bool) (c : Char) :
    OneLine (debugChar printable c) := by
  unfold debugChar
  split_ifs with _ _ _ hnewline
  · decide
  · decide
  · decide
  · decide
  · decide
  · decide
  · simpa [OneLine] using fun h => hnewline h.symm
  · simp only [oneLine_append]
    refine ⟨⟨by decide, fun hmem => ?_⟩, by decide⟩
    have hdigit := Hex.mem_pad (String.toList_ofList ▸ hmem)
    exact absurd hdigit (by decide)

/-- `{:?}` escapes newlines. -/
theorem oneLine_debugStr (printable : Char → Bool) (s : String) :
    OneLine (debugStr printable s) := by
  simp only [debugStr, oneLine_append]
  refine ⟨⟨by decide, fun hmem => ?_⟩, by decide⟩
  rw [String.toList_ofList, List.mem_flatMap] at hmem
  obtain ⟨c, -, hc⟩ := hmem
  exact oneLine_debugChar printable c hc

theorem oneLine_padded (width : ℕ) (n : ℤ) : OneLine (padded width n) := by
  simp only [padded, oneLine_append]
  constructor
  · split <;> decide
  · intro hmem
    rw [String.toList_ofList] at hmem
    rcases List.mem_append.mp hmem with hzero | hdigit
    · exact absurd (List.eq_of_mem_replicate hzero) (by decide)
    · exact absurd (Nat.isDigit_of_mem_toDigits (by decide) (by decide) hdigit) (by decide)

theorem oneLine_debugOption : ∀ n, OneLine (debugOption n)
  | none => by decide
  | some n => by
    simp only [debugOption, oneLine_append]
    exact ⟨⟨by decide, oneLine_padded 0 n.toInt⟩, by decide⟩

end Debug

section Keeper

/-- The fields of `libc::tm` that `log_timestamp` reads. -/
structure Tm where
  year : ℤ
  mon : ℤ
  mday : ℤ
  hour : ℤ
  min : ℤ
  sec : ℤ
  deriving DecidableEq

/-- `log_timestamp`, at a time. -/
def logTimestamp (tm : Tm) : String :=
  padded 4 (tm.year + 1900) ++ "-" ++ padded 2 (tm.mon + 1) ++ "-" ++ padded 2 tm.mday ++ "T" ++
    padded 2 tm.hour ++ ":" ++ padded 2 tm.min ++ ":" ++ padded 2 tm.sec ++ "Z"

/-- The records that a connection logs. -/
inductive Record where
  | spawn (tm : Tm) (sessionId : ℕ) (pgid : ℤ) (command : String)
  | exit (tm : Tm) (sessionId : ℕ) (status : ExitStatus)
  deriving DecidableEq

/-- What a record says. -/
def Record.line (printable : Char → Bool) : Record → String
  | spawn tm sessionId pgid command =>
    logTimestamp tm ++ " spawn session=" ++ decimal sessionId ++ " pgid=" ++ decimal pgid ++
      " command=" ++ debugStr printable command
  | exit tm sessionId status =>
    logTimestamp tm ++ " exit session=" ++ decimal sessionId ++ " code=" ++
      debugOption status.code ++ " signal=" ++ debugOption status.signal

theorem oneLine_logTimestamp (tm : Tm) : OneLine (logTimestamp tm) := by
  have hliteral : OneLine "-" ∧ OneLine "T" ∧ OneLine ":" ∧ OneLine "Z" := by decide
  simp only [logTimestamp, oneLine_append, oneLine_padded, hliteral, and_self]

/-- A record has no newline, whatever the command. -/
theorem Record.oneLine (printable : Char → Bool) (r : Record) : OneLine (r.line printable) := by
  have hliteral : OneLine " spawn session=" ∧ OneLine " pgid=" ∧ OneLine " command=" ∧
      OneLine " exit session=" ∧ OneLine " code=" ∧ OneLine " signal=" := by decide
  cases r with
  | spawn tm sessionId pgid command =>
    simp only [line, oneLine_append, oneLine_logTimestamp, oneLine_debugStr, decimal,
      oneLine_padded, hliteral, and_self]
  | exit tm sessionId status =>
    simp only [line, oneLine_append, oneLine_logTimestamp, oneLine_debugOption, decimal,
      oneLine_padded, hliteral, and_self]

end Keeper

section Hooks

/-- The names that `run_one` is called with. -/
inductive HookName where
  | activation
  | postCreate
  | postStart
  deriving DecidableEq

/-- The name as a text. -/
def HookName.text : HookName → String
  | activation => "activation"
  | postCreate => "post_create"
  | postStart => "post_start"

/-- `HookError`. -/
inductive HookError where
  | connect
  | protocol
  | failed (name : HookName) (detail : String)
  deriving DecidableEq

/-- One `write` to the log. -/
inductive Write where
  | record (r : Record)
  | header (name : HookName) (cmd : String)
  | output (bytes : List UInt8)
  deriving DecidableEq

/-- What a call of `run_one` is given and meets. -/
structure HookRun where
  name : HookName
  cmd : String
  /-- Whether the socket can be connected to. -/
  connects : Bool
  /-- Whether the `Spawn` can be written. -/
  sends : Bool
  /-- Whether the log can be opened. -/
  opens : Bool
  /-- The frames that are read, before a read fails. -/
  frames : List Frame
  deriving DecidableEq

/-- The frames of a session up to its exit: the chunks that are appended, and the exit status. -/
def forward : List Frame → List Write × Option ExitStatus
  | [] => ([], none)
  | .stdout bytes :: frames => ((.output bytes :: (forward frames).1), (forward frames).2)
  | .stderr bytes :: frames => ((.output bytes :: (forward frames).1), (forward frames).2)
  | .exit status :: _ => ([], some status)
  | _ :: frames => forward frames

/-- What the exit status of a hook means. -/
def hookResult (name : HookName) (status : ExitStatus) : Except HookError Unit :=
  match status.code, status.signal with
  | some 0, none => .ok ()
  | some code, _ => .error (.failed name ("exited with status " ++ decimal code.toInt))
  | none, some sig => .error (.failed name ("killed by signal " ++ decimal sig.toInt))
  | none, none => .error (.failed name "exited with unknown status")

/-- `run_one`: what it appends to the log, and its result. -/
def HookRun.runOne (run : HookRun) : List Write × Except HookError Unit :=
  if run.connects = false then ([], .error .connect)
  else if run.sends = false then ([], .error .protocol)
  else
    match run.frames with
    | .spawnOk _ :: frames =>
      if run.opens = false then ([], .error .connect)
      else
        (.header run.name run.cmd :: (forward frames).1,
          match (forward frames).2 with
          | some status => hookResult run.name status
          | none => .error .protocol)
    | .spawnErr message :: _ => ([], .error (.failed run.name message))
    | _ => ([], .error .protocol)

/-- The hook is spawned, and the log can be opened. -/
def HookRun.Starts (run : HookRun) : Prop :=
  run.connects = true ∧ run.sends = true ∧ run.opens = true ∧
    ∃ sessionId frames, run.frames = .spawnOk sessionId :: frames

theorem header_notMem_forward {name : HookName} {cmd : String} (frames : List Frame) :
    Write.header name cmd ∉ (forward frames).1 := by
  fun_induction forward frames with
  | case1 => simp
  | case2 bytes frames ih => simpa using ih
  | case3 bytes frames ih => simpa using ih
  | case4 => simp
  | case5 frame frames hstdout hstderr hexit ih => exact ih

/-- A run appends a header, that of its own command, if it starts. -/
theorem header_mem_runOne {run : HookRun} {name : HookName} {cmd : String} :
    Write.header name cmd ∈ run.runOne.1 ↔ run.Starts ∧ name = run.name ∧ cmd = run.cmd := by
  unfold HookRun.runOne HookRun.Starts
  split
  · next hconnects => simp [hconnects]
  split
  · next hsends => simp [hsends]
  next hconnects hsends =>
    split
    · next sessionId frames hframes =>
      split
      · next hopens => simp [hopens]
      · next hopens =>
        simp [hconnects, hsends, hopens, hframes, header_notMem_forward]
    · next hframes => simp [hframes]
    · next hother _ =>
      refine iff_of_false List.not_mem_nil ?_
      rintro ⟨⟨-, -, -, sessionId, frames, hframes⟩, -⟩
      exact hother sessionId frames hframes

end Hooks

section Log

/-- What a write appends. -/
def Write.bytes (printable : Char → Bool) : Write → List UInt8
  | record r => encode (r.line printable ++ "\n")
  | header name cmd => encode ("[hook " ++ name.text ++ "] $ " ++ cmd ++ "\n")
  | output bytes => bytes

/-- The log after some writes. -/
def logOf (printable : Char → Bool) (writes : List Write) : List UInt8 :=
  (writes.map (Write.bytes printable)).flatten

/-- A write of the keeper. -/
def Write.ofKeeper : Write → Bool
  | record _ => true
  | _ => false

/-- A write that is to be a line: a record or a header. -/
def Write.isLine : Write → Bool
  | output _ => false
  | _ => true

/-- Writes are an interleaving of the keeper's with those of the runs of the hooks. -/
structure Interleaves (records : List Record) (runs : List HookRun) (writes : List Write) :
    Prop where
  keeper : writes.filter Write.ofKeeper = records.map .record
  hooks : (writes.filter fun w => !w.ofKeeper) = runs.flatMap fun run => run.runOne.1

/-- The records stay whole: each record and each header is one whole line of the log, and in the
middle of a line of a hook's output the log goes on with that output. -/
structure Whole (printable : Char → Bool) (writes : List Write) : Prop where
  own : ∀ before w after, writes = before ++ w :: after → w.isLine = true →
    OwnLine newline (logOf printable before) (w.bytes printable)
  unsplit : ∀ before chunk between next after,
    writes = before ++ .output chunk :: (between ++ .output next :: after) →
    ¬EndsLine newline chunk → next ≠ [] →
    (∀ w ∈ between, w.ofKeeper = true ∨ w = .output []) → logOf printable between = []

/-- A chunk ends its line if what is appended next, but for empty chunks, is a record or a header.
-/
def ChunksEnd (writes : List Write) : Prop :=
  ∀ before chunk empties w after, writes = before ++ .output chunk :: (empties ++ w :: after) →
    (∀ e ∈ empties, e = .output []) → w.isLine = true → EndsLine newline chunk

variable {printable : Char → Bool}

@[simp] theorem logOf_append (writes later : List Write) :
    logOf printable (writes ++ later) = logOf printable writes ++ logOf printable later := by
  simp [logOf]

@[simp] theorem logOf_cons (w : Write) (later : List Write) :
    logOf printable (w :: later) = w.bytes printable ++ logOf printable later := by
  simp [logOf]

theorem encode_line (s : String) : encode (s ++ "\n") = encode s ++ [newline] :=
  encode_append s "\n"

/-- A text with a newline behind it is a line if the text has none. -/
theorem line_iff {s : String} :
    (∃ line, newline ∉ line ∧ encode (s ++ "\n") = line ++ [newline]) ↔ OneLine s := by
  rw [encode_line, OneLine, ← newline_mem_encode_iff]
  constructor
  · rintro ⟨line, hline, heq⟩
    rwa [List.append_cancel_right heq]
  · intro h
    exact ⟨encode s, h, rfl⟩

/-- A header is a line if its command is. -/
theorem header_line_iff {name : HookName} {cmd : String} :
    (∃ line, newline ∉ line ∧ (Write.header name cmd).bytes printable = line ++ [newline]) ↔
      OneLine cmd := by
  have hliteral : OneLine "[hook " ∧ OneLine "] $ " := by decide
  have hname : OneLine name.text := by cases name <;> decide
  rw [Write.bytes, line_iff]
  simp only [oneLine_append, hliteral, hname, and_self, true_and]

/-- A record or a header ends its line. -/
theorem endsLine_bytes {w : Write} (h : w.isLine = true) :
    EndsLine newline (w.bytes printable) ∧ w.bytes printable ≠ [] := by
  cases w with
  | record r =>
    rw [Write.bytes, encode_line]
    exact ⟨endsLine_concat _, by simp⟩
  | header name cmd =>
    rw [Write.bytes, encode_line]
    exact ⟨endsLine_concat _, by simp⟩
  | output bytes => cases h

/-- After a chunk and empty ones, a line begins where the chunk ends one. -/
theorem endsLine_logOf_output {before empties : List Write} {chunk : List UInt8}
    (hempty : ∀ e ∈ empties, e = Write.output []) (hchunk : chunk ≠ []) :
    EndsLine newline (logOf printable (before ++ .output chunk :: empties)) ↔
      EndsLine newline chunk := by
  have hnil : logOf printable empties = [] := by
    rw [logOf, List.flatten_eq_nil_iff]
    intro bytes hbytes
    obtain ⟨e, he, rfl⟩ := List.mem_map.mp hbytes
    rw [hempty e he]
    rfl
  rw [logOf_append, logOf_cons, hnil, List.append_nil]
  exact endsLine_append hchunk

/-- A line of the log begins wherever a record or a header is appended, if the chunks before these
end their lines. -/
theorem ChunksEnd.starts {writes : List Write} (h : ChunksEnd writes) {before after : List Write}
    {w : Write} (heq : writes = before ++ w :: after) (hw : w.isLine = true) :
    EndsLine newline (logOf printable before) := by
  rw [logOf, endsLine_flatten_iff]
  intro earlier piece later hpieces hpiece hlater
  obtain ⟨early, rest, rfl, -, hrest⟩ := List.map_eq_append_iff.mp hpieces
  obtain ⟨v, empties, rfl, rfl, rfl⟩ := List.map_eq_cons_iff.mp hrest
  have hempty : ∀ e ∈ empties, e = Write.output [] := by
    intro e he
    have hbytes := hlater _ (List.mem_map_of_mem he)
    cases e with
    | output bytes => rw [show bytes = [] from hbytes]
    | record r => exact absurd hbytes (endsLine_bytes rfl).2
    | header name cmd => exact absurd hbytes (endsLine_bytes rfl).2
  cases v with
  | output chunk =>
    refine h early chunk empties w after ?_ hempty hw
    rw [heq, List.append_assoc, List.cons_append]
  | record r => exact (endsLine_bytes rfl).1
  | header name cmd => exact (endsLine_bytes rfl).1

/-- Where each record finds the line before it ended, none is appended in the middle of a line. The
induction is on the writes since the middle of the line. -/
theorem logOf_between {writes : List Write}
    (hown : ∀ before w after, writes = before ++ w :: after → w.isLine = true →
      EndsLine newline (logOf printable before))
    {before between after : List Write} (heq : writes = before ++ (between ++ after))
    (hopen : ¬EndsLine newline (logOf printable before))
    (hbetween : ∀ w ∈ between, w.ofKeeper = true ∨ w = .output []) :
    logOf printable between = [] := by
  induction between generalizing before with
  | nil => rfl
  | cons w between ih =>
    rcases hbetween w List.mem_cons_self with hkeeper | rfl
    · have hline : w.isLine = true := by
        cases w with
        | record r => rfl
        | header name cmd => rfl
        | output bytes => cases hkeeper
      exact absurd (hown before w (between ++ after) heq hline) hopen
    · rw [logOf_cons, Write.bytes, List.nil_append]
      have hsplit : writes = (before ++ [.output []]) ++ (between ++ after) := by simp [heq]
      refine ih hsplit ?_ fun w hw => hbetween w (List.mem_cons_of_mem _ hw)
      simpa [logOf, Write.bytes] using hopen

/-- For every interleaving, the records in the log stay whole if and only if the commands of the
hooks that start are single lines, and no chunk of output leaves its line open before a record or
header. -/
theorem keeperLog_whole_iff {records : List Record} {runs : List HookRun} {writes : List Write}
    (h : Interleaves records runs writes) :
    Whole printable writes ↔ (∀ run ∈ runs, run.Starts → OneLine run.cmd) ∧ ChunksEnd writes := by
  have hheader : ∀ name cmd, Write.header name cmd ∈ writes ↔
      ∃ run ∈ runs, run.Starts ∧ name = run.name ∧ cmd = run.cmd := by
    intro name cmd
    have hfilter : Write.header name cmd ∈ writes ↔
        Write.header name cmd ∈ writes.filter fun w => !w.ofKeeper := by
      simp [Write.ofKeeper]
    simp only [hfilter, h.hooks, List.mem_flatMap, header_mem_runOne]
  constructor
  · intro hwhole
    constructor
    · intro run hrun hstarts
      have hmem := (hheader run.name run.cmd).mpr ⟨run, hrun, hstarts, rfl, rfl⟩
      obtain ⟨before, after, heq⟩ := List.append_of_mem hmem
      exact header_line_iff.mp (hwhole.own before _ after heq rfl).whole
    · intro before chunk empties w after heq hempty hw
      by_cases hchunk : chunk = []
      · rw [hchunk]
        exact endsLine_nil
      · have hsplit : writes = (before ++ .output chunk :: empties) ++ w :: after := by simp [heq]
        exact (endsLine_logOf_output hempty hchunk).mp (hwhole.own _ w after hsplit hw).starts
  · rintro ⟨hcmd, hchunks⟩
    constructor
    · intro before w after heq hw
      refine ⟨hchunks.starts heq hw, ?_⟩
      cases w with
      | record r => exact line_iff.mpr (r.oneLine printable)
      | header name cmd =>
        obtain ⟨run, hrun, hstarts, -, rfl⟩ := (hheader name cmd).mp (by simp [heq])
        exact header_line_iff.mpr (hcmd run hrun hstarts)
      | output bytes => cases hw
    · intro before chunk between next after heq hopen _ hbetween
      have hsplit : writes = (before ++ [.output chunk]) ++ (between ++ .output next :: after) := by
        simp [heq]
      refine logOf_between (fun _ _ _ => hchunks.starts) hsplit (fun hends => hopen ?_) hbetween
      have hempty : ∀ e ∈ ([] : List Write), e = .output [] := by simp
      exact (endsLine_logOf_output hempty (ne_nil_of_not_endsLine hopen)).mp hends

/-- The printable characters of ASCII. -/
def ascii (c : Char) : Bool := ' ' ≤ c && c ≤ '~'

/-- A time. -/
def sampleTime : Tm := ⟨125, 2, 9, 14, 5, 0⟩

/-- The records of a hook of a command. -/
def sampleRecords (cmd : String) : List Record :=
  [.spawn sampleTime 1 4711 ("sh -c " ++ cmd), .exit sampleTime 1 ⟨some 0, none⟩]

/-- A run of `post_create` with some output. -/
def sampleRun (cmd output : String) : HookRun where
  name := .postCreate
  cmd := cmd
  connects := true
  sends := true
  opens := true
  frames := [.spawnOk 1, .stdout (encode output), .exit ⟨some 0, none⟩]

/-- The keeper logs the exit when the output has been forwarded. -/
def sampleWrites (cmd output : String) : List Write :=
  [.record (.spawn sampleTime 1 4711 ("sh -c " ++ cmd)), .header .postCreate cmd,
    .output (encode output), .record (.exit sampleTime 1 ⟨some 0, none⟩)]

theorem sample_interleaves (cmd output : String) :
    Interleaves (sampleRecords cmd) [sampleRun cmd output] (sampleWrites cmd output) :=
  ⟨rfl, rfl⟩

theorem keeperLog_whole_sample : Whole ascii (sampleWrites "make" "made\n") := by
  refine (keeperLog_whole_iff (sample_interleaves "make" "made\n")).mpr ⟨?_, ?_⟩
  · intro run hrun _
    rw [List.mem_singleton.mp hrun]
    decide
  · intro before chunk empties w after heq _ _
    have hmem : Write.output chunk ∈ sampleWrites "make" "made\n" := by simp [heq]
    have hchunk : chunk = encode "made\n" := by simpa [sampleWrites] using hmem
    rw [hchunk]
    decide

/-- The output of `printf done` leaves its line open, and the record of the exit goes on with it;
and a command of two lines has a header of two lines. -/
theorem keeperLog_not_whole :
    (Interleaves (sampleRecords "printf done") [sampleRun "printf done" "done"]
        (sampleWrites "printf done" "done") ∧
      ¬Whole ascii (sampleWrites "printf done" "done")) ∧
    (Interleaves (sampleRecords "make\nmake test") [sampleRun "make\nmake test" ""]
        (sampleWrites "make\nmake test" "") ∧
      ¬Whole ascii (sampleWrites "make\nmake test" "")) := by
  refine ⟨⟨⟨rfl, rfl⟩, fun h => ?_⟩, ⟨rfl, rfl⟩, fun h => ?_⟩
  · have hstarts := (h.own (List.take 3 (sampleWrites "printf done" "done")) _ [] rfl rfl).starts
    exact absurd hstarts (by decide +kernel)
  · have hwhole := (h.own (List.take 1 (sampleWrites "make\nmake test" "")) _ _ rfl rfl).whole
    exact absurd (header_line_iff.mp hwhole) (by decide)

end Log

end Devcroft.Lifecycle.Log
