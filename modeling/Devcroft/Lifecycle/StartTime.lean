import Devcroft.Lifecycle.Listing

/-!
# The start time of a process

`process_start_time` reads field 22 of `/proc/[pid]/stat`. Field 2 is the name that the process
gives itself, in parentheses: whatever it is, the fields after it are behind the last closing
parenthesis, so that no process can pass for another one by its name.
-/

namespace Devcroft.Lifecycle.Status

open Utf8

/-- `/proc/{pid}/stat`. -/
def statPath (pid : ℤ) : String := "/proc/" ++ toString pid ++ "/stat"

/-- What is read from the text of this file. -/
def startTimeOf (pid : ℤ) (stat : String) : Except IoError ℕ :=
  match Text.rfind ')' stat with
  | none => .error (.other ("unexpected " ++ statPath pid ++ " format: no ')' found"))
  | some afterComm =>
    match (Text.splitWhitespace (Text.sliceFrom (afterComm + 1) stat))[19]?.bind Text.parseU64 with
    | some startTime => .ok startTime
    | none => .error (.other (statPath pid ++ " has no parseable starttime field"))

/-- `process_start_time`, on Linux and elsewhere. -/
def processStartTime (linux : Bool) (files : String → Stored) (pid : ℤ) : Except IoError ℕ :=
  if linux then
    match (files (statPath pid)).readToString with
    | .ok stat => startTimeOf pid stat
    | .error e => .error e
  else .ok 0

/-- Only what follows the last closing parenthesis is read. -/
theorem startTimeOf_append (pid : ℤ) (before : String) {rest : String} (h : ')' ∉ rest.toList) :
    startTimeOf pid (before ++ String.ofList [')'] ++ rest) =
      match (Text.splitWhitespace rest)[19]?.bind Text.parseU64 with
      | some startTime => .ok startTime
      | none => .error (.other (statPath pid ++ " has no parseable starttime field")) := by
  rw [startTimeOf, Text.rfind_append h]
  simp only
  rw [Text.sliceFrom_append]

/-- A text is accepted exactly if it has a closing parenthesis and the twentieth piece after the
last one is a number. -/
theorem startTimeOf_eq_ok_iff {pid : ℤ} {stat : String} {n : ℕ} :
    startTimeOf pid stat = .ok n ↔
      ∃ before rest, stat = before ++ String.ofList [')'] ++ rest ∧ ')' ∉ rest.toList ∧
        ∃ f, (Text.splitWhitespace rest)[19]? = some f ∧ Text.IsU64 f n := by
  have hok : ∀ found : Option ℕ,
      (match found with
      | some startTime => .ok startTime
      | none => .error (.other (statPath pid ++ " has no parseable starttime field")) :
        Except IoError ℕ) = .ok n ↔ found = some n := by
    intro found
    cases found <;> simp
  simp only [← Text.parseU64_eq_some_iff, ← Option.bind_eq_some_iff]
  cases hcut : Text.rsplitOnce ')' stat with
  | none =>
    have hnone := Text.rsplitOnce_eq_none_iff.mp hcut
    rw [startTimeOf, Text.rfind_eq_none_iff.mpr hnone]
    constructor
    · intro h
      cases h
    · rintro ⟨before, rest, rfl, -, -⟩
      exact (hnone (by simp)).elim
  | some pieces =>
    obtain ⟨before, rest⟩ := pieces
    obtain ⟨hs, hrest⟩ := Text.rsplitOnce_eq_some hcut
    obtain rfl : stat = before ++ String.ofList [')'] ++ rest := Text.ext (by simp [hs])
    rw [startTimeOf_append pid before hrest, hok]
    constructor
    · intro h
      exact ⟨before, rest, rfl, hrest, h⟩
    · rintro ⟨before', rest', hsame, hrest', h⟩
      have hcut' : Text.rsplitOnce ')' (before' ++ String.ofList [')'] ++ rest') =
          some (before', rest') := Text.rsplitOnce_append hrest'
      rw [← hsame, hcut] at hcut'
      obtain ⟨-, rfl⟩ := Prod.mk.inj (Option.some.inj hcut')
      exact h

/-- The text of an error. -/
def IoError.text : IoError → String
  | .notFound => "No such file or directory (os error 2)"
  | .other message => message

/-- The processes of a machine with these files. -/
def Processes.ofFiles (linux : Bool) (alive : ℤ → Bool) (files : String → Stored) : Processes where
  alive := alive
  startTime pid := (processStartTime linux files pid).mapError IoError.text

/-- A line of `/proc/[pid]/stat`: the process's name can be any text, the fields after it are
neither empty nor have whitespace or parentheses in them. -/
structure StatLine where
  pid : ℤ
  comm : String
  /-- The fields from the third one on. -/
  fields : List String
  /-- The whitespace that the line ends in, if any. -/
  ending : String
  nonempty : ∀ f ∈ fields, f ≠ ""
  plain : ∀ f ∈ fields, ∀ c ∈ f.toList, Text.isWhitespace c = false ∧ c ≠ '(' ∧ c ≠ ')'
  blank : ∀ c ∈ ending.toList, Text.isWhitespace c = true

/-- What follows the name's closing parenthesis. -/
def StatLine.rest (line : StatLine) : String :=
  String.join (line.fields.map (" " ++ ·)) ++ line.ending

/-- The text of a line. -/
def StatLine.text (line : StatLine) : String :=
  toString line.pid ++ " (" ++ line.comm ++ String.ofList [')'] ++ line.rest

/-- Field 22. -/
def StatLine.field22 (line : StatLine) : Option String := line.fields[19]?

/-- The fields have no parenthesis. -/
theorem StatLine.notMem_rest (line : StatLine) : ')' ∉ line.rest.toList := by
  intro hmem
  rw [rest, String.toList_append, List.mem_append, String.toList_join, List.mem_flatMap] at hmem
  rcases hmem with ⟨piece, hpiece, hmem⟩ | hmem
  · obtain ⟨f, hf, rfl⟩ := List.mem_map.mp hpiece
    rw [String.toList_append, List.mem_append] at hmem
    rcases hmem with hmem | hmem
    · exact absurd hmem (by decide)
    · exact (line.plain f hf _ hmem).2.2 rfl
  · exact absurd (line.blank _ hmem) (by decide)

/-- What follows the name are the fields. -/
theorem StatLine.splitWhitespace_rest (line : StatLine) :
    Text.splitWhitespace line.rest = line.fields :=
  Text.splitWhitespace_join line.nonempty (fun f hf c hc => (line.plain f hf c hc).1) line.blank

/-- Field 22 is read, whatever the name of the process is. -/
theorem StatLine.startTimeOf_text (line : StatLine) (pid : ℤ) :
    startTimeOf pid line.text =
      match line.field22.bind Text.parseU64 with
      | some startTime => .ok startTime
      | none => .error (.other (statPath pid ++ " has no parseable starttime field")) := by
  rw [text, startTimeOf_append pid _ line.notMem_rest, line.splitWhitespace_rest, field22]

/-- The start time is what the digits of field 22 stand for. -/
theorem processStartTime_eq_ok_iff {files : String → Stored} {line : StatLine}
    (hfile : files (statPath line.pid) = .bytes (encode line.text)) {n : ℕ} :
    processStartTime true files line.pid = .ok n ↔
      ∃ f, line.field22 = some f ∧ Text.IsU64 f n := by
  have hread : processStartTime true files line.pid = startTimeOf line.pid line.text := by
    simp only [processStartTime, if_true, hfile, Stored.readToString, decode_encode]
  simp only [← Text.parseU64_eq_some_iff, ← Option.bind_eq_some_iff]
  rw [hread, line.startTimeOf_text]
  cases line.field22.bind Text.parseU64 with
  | none => simp
  | some startTime => simp

/-- A process whose name goes on like the line of another one. -/
def impostor : StatLine where
  pid := 42
  comm := "a) R 1 1 1 0 -1 4 0 0 0 0 0 0 0 0 20 0 1 0 99 (\n"
  fields := ["S", "1", "1", "1", "0", "-1", "4", "0", "0", "0", "0", "0", "0", "0", "0", "20", "0",
    "1", "0", "1234567", "0"]
  ending := "\n"
  nonempty := by decide
  plain := by
    intro f hf
    apply Text.forall_mem
    revert f
    decide
  blank := Text.forall_mem (by decide)

/-- The files under `/proc` show the processes of a host, under names of any kind. -/
def Shows (host : Host) (files : String → Stored) : Prop :=
  ∀ pid : ℕ,
    match host.procs pid with
    | none => files (statPath pid) = .absent
    | some p => p.start < UInt64.size ∧ ∃ line : StatLine, line.pid = pid ∧
        line.field22 = some (toString p.start) ∧
        files (statPath pid) = .bytes (encode line.text)

/-- What is read of them is what the host answers to `process_start_time`: there the names of the
processes are left out. -/
theorem Shows.processStartTime_eq {host : Host} {files : String → Stored} (h : Shows host files)
    {t : Moment} (ht : t.fails = none) (pid : ℕ) :
    (processStartTime host.procfs files pid).mapError IoError.text =
      host.processStartTime pid t := by
  have hpid := h pid
  rw [Host.processStartTime]
  by_cases hprocfs : host.procfs = true
  · rw [if_pos hprocfs, hprocfs]
    cases hproc : host.procs pid with
    | none =>
      rw [hproc] at hpid
      simp only [processStartTime, if_true, hpid, Stored.readToString]
      rfl
    | some p =>
      rw [hproc] at hpid
      obtain ⟨hlt, line, hline, hfield, hfile⟩ := hpid
      rw [← hline] at hfile ⊢
      have hread := (processStartTime_eq_ok_iff hfile).mpr
        ⟨_, hfield, hlt, Or.inl (Text.isDecimal_toString p.start)⟩
      rw [hread]
      exact (Moment.fallible_of_none ht p.start).symm
  · rw [if_neg hprocfs, Bool.eq_false_iff.mpr hprocfs]
    rfl

end Devcroft.Lifecycle.Status
