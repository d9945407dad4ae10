import Devcroft.Library.Utf8
import Mathlib.Data.List.Count
import Mathlib.Data.List.Perm.Basic
import Mathlib.Logic.Function.Basic

/-!
# The listing of a directory over SFTP

`readdir` takes a batch of entries from the stream that `opendir` opened, and gives up the batch at
the first entry with an error. What a client gets that asks until the end of the stream depends on
where in the batches such entries stand.
-/

namespace Devcroft.Ssh.Sftp

open Utf8

/-- `READDIR_BATCH`. -/
def READDIR_BATCH : ℕ := 256

/-- `io::ErrorKind`, as far as `map_io_err` tells kinds apart. -/
inductive ErrorKind where
  | notFound
  | permissionDenied
  | other
  deriving DecidableEq

/-- `StatusCode`, as far as these requests are answered with one. -/
inductive StatusCode where
  | eof
  | noSuchFile
  | permissionDenied
  | failure
  deriving DecidableEq

/-- `map_io_err`. -/
def mapIoErr : ErrorKind → StatusCode
  | .notFound => .noSuchFile
  | .permissionDenied => .permissionDenied
  | .other => .failure

theorem mapIoErr_ne_eof (kind : ErrorKind) : mapIoErr kind ≠ .eof := by
  cases kind <;> decide

/-- What `ReadDir` yields: an error, or an entry whose metadata may be an error. The attributes that
are made from metadata are those of the `russh_sftp` crate. -/
inductive Entry (α : Type) where
  | failed (kind : ErrorKind)
  | named (name : List UInt8) (metadata : Except ErrorKind α)

/-- `File`. -/
structure File (α : Type) where
  filename : String
  attrs : α
  deriving DecidableEq

variable {α : Type}

/-- An entry as a file of the answer. -/
def Entry.read : Entry α → Except StatusCode (File α)
  | failed kind => .error (mapIoErr kind)
  | named _ (.error kind) => .error (mapIoErr kind)
  | named name (.ok attrs) => .ok ⟨decodeLossy name, attrs⟩

/-- The loop of `readdir`: at most so many entries, behind files that were collected. -/
def readLoop : ℕ → List (Entry α) → List (File α) →
    Except StatusCode (List (File α)) × List (Entry α)
  | 0, entries, files => (.ok files, entries)
  | _ + 1, [], files => (.ok files, [])
  | n + 1, entry :: entries, files =>
    match entry.read with
    | .ok file => readLoop n entries (files ++ [file])
    | .error status => (.error status, entries)

/-- What `readdir` answers, and what is left of the stream. -/
def readBatch (entries : List (Entry α)) :
    Except StatusCode (List (File α)) × List (Entry α) :=
  match readLoop READDIR_BATCH entries [] with
  | (.ok [], rest) => (.error .eof, rest)
  | result => result

/-- `FsHandler`, with what is left of the streams of its open directories. -/
structure FsHandler (α : Type) where
  openFiles : String → Bool
  openDirs : String → Option (List (Entry α))
  nextHandle : ℕ

/-- The requests that open and close handles, with what the file system answers, and `readdir`. -/
inductive Request (α : Type) where
  | openFile (id : UInt32) (file : Except ErrorKind Unit)
  | close (id : UInt32) (handle : String)
  | opendir (id : UInt32) (entries : Except ErrorKind (List (Entry α)))
  | readdir (id : UInt32) (handle : String)

/-- The replies to these. -/
inductive Reply (α : Type) where
  | handle (id : UInt32) (handle : String)
  | name (id : UInt32) (files : List (File α))
  | okStatus (id : UInt32)

/-- The text of a handle. -/
def handleText (n : ℕ) : String := String.ofList (Nat.toDigits 10 n)

/-- `alloc_handle`. -/
def FsHandler.allocHandle (s : FsHandler α) : String × FsHandler α :=
  (handleText s.nextHandle, { s with nextHandle := s.nextHandle + 1 })

/-- `open`. -/
def FsHandler.openFile (s : FsHandler α) :
    Except ErrorKind Unit → Except StatusCode String × FsHandler α
  | .error kind => (.error (mapIoErr kind), s)
  | .ok () =>
    let (handle, s) := s.allocHandle
    (.ok handle, { s with openFiles := Function.update s.openFiles handle true })

/-- `close`. -/
def FsHandler.close (s : FsHandler α) (handle : String) : FsHandler α :=
  { s with
    openFiles := Function.update s.openFiles handle false
    openDirs := Function.update s.openDirs handle none }

/-- `opendir`. -/
def FsHandler.opendir (s : FsHandler α) :
    Except ErrorKind (List (Entry α)) → Except StatusCode String × FsHandler α
  | .error kind => (.error (mapIoErr kind), s)
  | .ok entries =>
    let (handle, s) := s.allocHandle
    (.ok handle, { s with openDirs := Function.update s.openDirs handle (some entries) })

/-- `readdir`. -/
def FsHandler.readdir (s : FsHandler α) (handle : String) :
    Except StatusCode (List (File α)) × FsHandler α :=
  match s.openDirs handle with
  | none => (.error .failure, s)
  | some entries =>
    let (answer, rest) := readBatch entries
    (answer, { s with openDirs := Function.update s.openDirs handle (some rest) })

/-- The handling of a request. -/
def FsHandler.handle (s : FsHandler α) : Request α → Except StatusCode (Reply α) × FsHandler α
  | .openFile id file => ((s.openFile file).1.map (.handle id), (s.openFile file).2)
  | .close id handle => (.ok (.okStatus id), s.close handle)
  | .opendir id entries => ((s.opendir entries).1.map (.handle id), (s.opendir entries).2)
  | .readdir id handle => ((s.readdir handle).1.map (.name id), (s.readdir handle).2)

/-- The handler after some requests. -/
def FsHandler.after (s : FsHandler α) (requests : List (Request α)) : FsHandler α :=
  requests.foldl (fun s request => (s.handle request).2) s

/-- A request is a `readdir` on a handle. -/
def Request.reads (handle : String) : Request α → Bool
  | .readdir _ h => h = handle
  | _ => false

/-- A request closes a handle. -/
def Request.closes (handle : String) : Request α → Bool
  | .close _ h => h = handle
  | _ => false

/-- The answers that a client gets to its `readdir`s on a handle, among other requests. -/
def FsHandler.answers (handle : String) :
    FsHandler α → List (Request α) → List (Except StatusCode (List (File α)))
  | _, [] => []
  | s, request :: requests =>
    let later := answers handle (s.handle request).2 requests
    if request.reads handle then (s.readdir handle).1 :: later else later

/-- The files that answers bring. -/
def received (answers : List (Except StatusCode (List (File α)))) : List (File α) :=
  answers.flatMap fun answer => answer.toOption.getD []

/-- The files of the entries without an error. -/
def readable (entries : List (Entry α)) : List (File α) :=
  entries.filterMap fun entry => entry.read.toOption

/-- What a client gets of a directory whose handle it does not close: the end of the stream, if it
asks often enough, and that only when nothing is left of the stream, and until then each file whose
entry has no error, exactly once. -/
structure Listed (handle : String) (entries : List (Entry α)) (s : FsHandler α)
    (requests : List (Request α)) : Prop where
  reached : entries.length < requests.countP (Request.reads handle) →
    .error .eof ∈ s.answers handle requests
  exhausted : ∀ before later, requests = before ++ later →
    ((s.after before).readdir handle).1 = .error .eof → (s.after before).openDirs handle = some []
  complete : .error .eof ∈ s.answers handle requests →
    (received (s.answers handle requests)).Perm (readable entries)

/-- Before each entry with an error, the number of entries since the last one is a multiple of the
size of a batch. So many entries came before these since then. -/
def AlignedFrom : ℕ → List (Entry α) → Prop
  | _, [] => True
  | n, entry :: entries =>
    match entry.read with
    | .ok _ => AlignedFrom (n + 1) entries
    | .error _ => READDIR_BATCH ∣ n ∧ AlignedFrom 0 entries

section Batches

/-- Entries without an error, with their files. -/
def Reads (entries : List (Entry α)) (files : List (File α)) : Prop :=
  entries.map Entry.read = files.map Except.ok

/-- What a call of `readdir` can do with a stream. -/
inductive Call : List (Entry α) → Except StatusCode (List (File α)) → List (Entry α) → Prop
  | eof : Call [] (.error .eof) []
  | batch {entries rest : List (Entry α)} {files : List (File α)} (hreads : Reads entries files)
      (hne : entries ≠ []) (hfull : rest = [] ∨ entries.length = READDIR_BATCH) :
      Call (entries ++ rest) (.ok files) rest
  | fails {entries rest : List (Entry α)} {files : List (File α)} {entry : Entry α}
      {status : StatusCode} (hreads : Reads entries files)
      (hlength : entries.length < READDIR_BATCH) (hentry : entry.read = .error status)
      (hstatus : status ≠ .eof) :
      Call (entries ++ entry :: rest) (.error status) rest

theorem Entry.read_ne_eof {entry : Entry α} {status : StatusCode}
    (h : entry.read = .error status) : status ≠ .eof := by
  unfold Entry.read at h
  split at h
  · exact Except.error.inj h ▸ mapIoErr_ne_eof _
  · exact Except.error.inj h ▸ mapIoErr_ne_eof _
  · cases h

theorem Reads.cons {entry : Entry α} {file : File α} {entries : List (Entry α)}
    {files : List (File α)} (hentry : entry.read = .ok file) (h : Reads entries files) :
    Reads (entry :: entries) (file :: files) := by
  rw [Reads, List.map_cons, List.map_cons, hentry, h]

theorem Reads.length {entries : List (Entry α)} {files : List (File α)} (h : Reads entries files) :
    entries.length = files.length := by
  simpa using congrArg List.length h

/-- The loop takes entries up to its bound, the end of the stream or the first error. -/
theorem readLoop_spec (n : ℕ) (stream : List (Entry α)) (acc : List (File α)) :
    (∃ entries rest files, stream = entries ++ rest ∧ Reads entries files ∧
      (rest = [] ∨ entries.length = n) ∧ readLoop n stream acc = (.ok (acc ++ files), rest)) ∨
    (∃ entries entry rest files status, stream = entries ++ entry :: rest ∧ Reads entries files ∧
      entries.length < n ∧ entry.read = .error status ∧
      readLoop n stream acc = (.error status, rest)) := by
  induction n generalizing stream acc with
  | zero => exact Or.inl ⟨[], stream, [], rfl, rfl, Or.inr rfl, by simp [readLoop]⟩
  | succ n ih =>
    cases stream with
    | nil => exact Or.inl ⟨[], [], [], rfl, rfl, Or.inl rfl, by simp [readLoop]⟩
    | cons entry stream =>
      cases hentry : entry.read with
      | error status =>
        exact Or.inr ⟨[], entry, stream, [], status, rfl, rfl, by simp, hentry,
          by simp [readLoop, hentry]⟩
      | ok file =>
        have hloop : readLoop (n + 1) (entry :: stream) acc =
            readLoop n stream (acc ++ [file]) := by
          simp [readLoop, hentry]
        rw [hloop]
        rcases ih stream (acc ++ [file]) with
          ⟨entries, rest, files, rfl, hreads, hfull, heq⟩ |
          ⟨entries, bad, rest, files, status, rfl, hreads, hlength, hbad, heq⟩
        · refine Or.inl ⟨entry :: entries, rest, file :: files, rfl, hreads.cons hentry, ?_, ?_⟩
          · exact hfull.imp id fun hlength => by simp [hlength]
          · simp [heq]
        · exact Or.inr ⟨entry :: entries, bad, rest, file :: files, status, rfl,
            hreads.cons hentry, by simpa using hlength, hbad, heq⟩

/-- A call of `readdir` does one of three things. -/
theorem call_readBatch (stream : List (Entry α)) :
    Call stream (readBatch stream).1 (readBatch stream).2 := by
  rcases readLoop_spec READDIR_BATCH stream [] with
    ⟨entries, rest, files, rfl, hreads, hfull, heq⟩ |
    ⟨entries, bad, rest, files, status, rfl, hreads, hlength, hbad, heq⟩
  · cases files with
    | nil =>
      have hnil : entries = [] := List.length_eq_zero_iff.mp hreads.length
      subst hnil
      have hrest : rest = [] := hfull.resolve_right (by simp [READDIR_BATCH])
      subst hrest
      exact .eof
    | cons file files =>
      have hne : entries ≠ [] := by
        rintro rfl
        exact absurd hreads.length (by simp)
      rw [readBatch, heq, List.nil_append]
      exact .batch hreads hne hfull
  · rw [readBatch, heq]
    exact .fails hreads hlength hbad (Entry.read_ne_eof hbad)

/-- A call that is not answered with the end of the stream takes something from it. -/
theorem Call.length_lt {stream rest : List (Entry α)} {answer : Except StatusCode (List (File α))}
    (h : Call stream answer rest) (hne : stream ≠ []) :
    answer ≠ .error .eof ∧ rest.length < stream.length := by
  cases h with
  | eof => exact absurd rfl hne
  | batch hreads hentries hfull =>
    have := List.length_pos_of_ne_nil hentries
    exact ⟨by simp, by simp; omega⟩
  | fails hreads hlength hentry hstatus =>
    exact ⟨by simpa using hstatus, by simp; omega⟩

/-- The answers to so many calls. -/
def callAnswers : ℕ → List (Entry α) → List (Except StatusCode (List (File α)))
  | 0, _ => []
  | k + 1, stream => (readBatch stream).1 :: callAnswers k (readBatch stream).2

/-- Enough calls come to the end of the stream. -/
theorem eof_mem_callAnswers {k : ℕ} {stream : List (Entry α)} (h : stream.length < k) :
    .error .eof ∈ callAnswers k stream := by
  induction k generalizing stream with
  | zero => omega
  | succ k ih =>
    by_cases hne : stream = []
    · subst hne
      exact List.mem_cons_self
    · have hlt := ((call_readBatch stream).length_lt hne).2
      exact List.mem_cons_of_mem _ (ih (by omega))

/-- At the end of the stream nothing more is received. -/
theorem received_callAnswers_nil (k : ℕ) : received (callAnswers k ([] : List (Entry α))) = [] := by
  induction k with
  | zero => rfl
  | succ k ih => exact ih

theorem readable_append_of_reads {entries : List (Entry α)} {files : List (File α)}
    (h : Reads entries files) (rest : List (Entry α)) :
    readable (entries ++ rest) = files ++ readable rest := by
  have hfiles : readable entries = files := by
    have hmap : readable entries = (entries.map Entry.read).filterMap Except.toOption := by
      rw [List.filterMap_map]
      rfl
    rw [hmap, h, List.filterMap_map]
    exact List.filterMap_some
  rw [readable, List.filterMap_append, ← readable, ← readable, hfiles]

theorem alignedFrom_append_of_reads {entries : List (Entry α)} {files : List (File α)}
    (h : Reads entries files) (n : ℕ) (rest : List (Entry α)) :
    AlignedFrom n (entries ++ rest) ↔ AlignedFrom (n + entries.length) rest := by
  induction entries generalizing n files with
  | nil => rfl
  | cons entry entries ih =>
    cases files with
    | nil => cases h
    | cons file files =>
      obtain ⟨hentry, hrest⟩ := List.cons.inj h
      rw [List.cons_append, AlignedFrom]
      simp only [hentry]
      rw [ih hrest, List.length_cons, Nat.add_right_comm, Nat.add_assoc]

/-- A whole batch does not change where entries stand in the batches. -/
theorem alignedFrom_add_batch (n : ℕ) (entries : List (Entry α)) :
    AlignedFrom (n + READDIR_BATCH) entries ↔ AlignedFrom n entries := by
  induction entries generalizing n with
  | nil => rfl
  | cons entry entries ih =>
    unfold AlignedFrom
    split
    · rw [Nat.add_right_comm]
      exact ih (n + 1)
    · rw [Nat.dvd_add_self_right]

/-- A batch that is brought leaves the entries behind it where they stand in the batches. -/
theorem alignedFrom_batch_iff {entries rest : List (Entry α)} {files : List (File α)}
    (hreads : Reads entries files) (hfull : rest = [] ∨ entries.length = READDIR_BATCH) :
    AlignedFrom 0 (entries ++ rest) ↔ AlignedFrom 0 rest := by
  rw [alignedFrom_append_of_reads hreads]
  rcases hfull with rfl | hlength
  · exact Iff.rfl
  · rw [hlength, alignedFrom_add_batch]

/-- An entry with an error that gives a batch up stands at its beginning only if the batch has no
file before it. -/
theorem alignedFrom_failed_iff {entries rest : List (Entry α)} {files : List (File α)}
    {entry : Entry α} {status : StatusCode} (hreads : Reads entries files)
    (hlength : entries.length < READDIR_BATCH) (hentry : entry.read = .error status) :
    AlignedFrom 0 (entries ++ entry :: rest) ↔ files = [] ∧ AlignedFrom 0 rest := by
  rw [alignedFrom_append_of_reads hreads, AlignedFrom]
  simp only [hentry, Nat.zero_add]
  refine and_congr_left fun _ => ?_
  rw [← List.length_eq_zero_iff, ← hreads.length]
  constructor
  · intro hdvd
    exact Nat.eq_zero_of_dvd_of_lt hdvd hlength
  · intro hzero
    exact hzero ▸ Nat.dvd_zero _

/-- What calls bring is not more than the files without an error, and up to the end of the stream it
is all of these if and only if no batch is given up after its first entry. The induction is on the
calls. -/
theorem received_callAnswers (k : ℕ) (stream : List (Entry α)) :
    (received (callAnswers k stream)).length ≤ (readable stream).length ∧
      (.error .eof ∈ callAnswers k stream →
        (AlignedFrom 0 stream → received (callAnswers k stream) = readable stream) ∧
        ((received (callAnswers k stream)).length = (readable stream).length →
          AlignedFrom 0 stream)) := by
  induction k generalizing stream with
  | zero => exact ⟨Nat.zero_le _, fun h => nomatch h⟩
  | succ k ih =>
    have hcall := call_readBatch stream
    rw [callAnswers]
    generalize hanswer : (readBatch stream).1 = answer at hcall
    generalize hrest : (readBatch stream).2 = rest at hcall
    obtain ⟨hle, hend⟩ := ih rest
    cases hcall with
    | eof =>
      refine ⟨?_, fun _ => ⟨fun _ => ?_, fun _ => trivial⟩⟩
      · exact (congrArg List.length (received_callAnswers_nil (α := α) k)).le
      · exact received_callAnswers_nil (α := α) k
    | @batch entries _ files hreads hne hfull =>
      have hreceived : received (.ok files :: callAnswers k rest) =
          files ++ received (callAnswers k rest) := rfl
      rw [hreceived, readable_append_of_reads hreads, alignedFrom_batch_iff hreads hfull,
        List.length_append, List.length_append]
      refine ⟨by omega, fun hmem => ?_⟩
      obtain ⟨hall, hback⟩ := hend ((List.mem_cons.mp hmem).resolve_left (by simp))
      exact ⟨fun h => by rw [hall h], fun h => hback (by omega)⟩
    | @fails entries _ files entry status hreads hlength hentry hstatus =>
      have hreceived : received (.error status :: callAnswers k rest) =
          received (callAnswers k rest) := rfl
      have hentries : readable (entry :: rest) = readable rest := by
        simp [readable, hentry, Except.toOption]
      rw [hreceived, readable_append_of_reads hreads, hentries,
        alignedFrom_failed_iff hreads hlength hentry, List.length_append]
      refine ⟨by omega, fun hmem => ?_⟩
      have hne : Except.error (α := List (File α)) .eof ≠ .error status := by
        simpa using hstatus.symm
      obtain ⟨hall, hback⟩ := hend ((List.mem_cons.mp hmem).resolve_left hne)
      constructor
      · rintro ⟨rfl, h⟩
        exact hall h
      · intro h
        have hfiles : files.length = 0 := by omega
        exact ⟨List.length_eq_zero_iff.mp hfiles, hback (by omega)⟩

end Batches

section Handles

/-- Different numbers make different handles. -/
theorem handleText_injective {m n : ℕ} (h : handleText m = handleText n) : m = n := by
  have hdigits := String.ofList_injective h
  rw [← Nat.ofDigitChars_ten_toDigits (n := m), hdigits, Nat.ofDigitChars_ten_toDigits]

/-- A handle is not given out again. -/
theorem allocHandle_ne {s : FsHandler α} {k : ℕ} (hk : k < s.nextHandle) :
    handleText k ≠ s.allocHandle.1 := by
  intro h
  have := handleText_injective h
  omega

variable {k : ℕ} {s : FsHandler α} {stream : List (Entry α)}

/-- What a handler knows of an open directory: the stream, under a handle given out before. -/
structure FsHandler.Holds (s : FsHandler α) (k : ℕ) (stream : List (Entry α)) : Prop where
  stream : s.openDirs (handleText k) = some stream
  given : k < s.nextHandle

/-- Only a `readdir` on the handle takes anything from a stream. -/
theorem FsHandler.Holds.handle (h : s.Holds k stream) {request : Request α}
    (hcloses : request.closes (handleText k) = false) :
    (s.handle request).2.Holds k
      (if request.reads (handleText k) then (readBatch stream).2 else stream) := by
  obtain ⟨hstream, hgiven⟩ := h
  cases request with
  | openFile id file =>
    cases file with
    | error kind => exact ⟨hstream, hgiven⟩
    | ok => exact ⟨hstream, Nat.lt_succ_of_lt hgiven⟩
  | close id other =>
    have hne : handleText k ≠ other := by
      rintro rfl
      simp [Request.closes] at hcloses
    refine ⟨?_, hgiven⟩
    exact (Function.update_of_ne hne _ _).trans hstream
  | opendir id entries =>
    cases entries with
    | error kind => exact ⟨hstream, hgiven⟩
    | ok entries =>
      refine ⟨?_, Nat.lt_succ_of_lt hgiven⟩
      exact (Function.update_of_ne (allocHandle_ne hgiven) _ _).trans hstream
  | readdir id other =>
    by_cases hother : other = handleText k
    · subst hother
      simp only [FsHandler.handle, readdir, hstream, Request.reads, decide_true, if_true]
      exact ⟨Function.update_self _ _ _, hgiven⟩
    · simp only [FsHandler.handle, readdir, Request.reads, hother, decide_false,
        Bool.false_eq_true, if_false]
      split
      · exact ⟨hstream, hgiven⟩
      · exact ⟨(Function.update_of_ne (Ne.symm hother) _ _).trans hstream, hgiven⟩

/-- The answer of a `readdir` on the handle is that of a call on the stream. -/
theorem FsHandler.Holds.readdir (h : s.Holds k stream) :
    (s.readdir (handleText k)).1 = (readBatch stream).1 := by
  rw [FsHandler.readdir, h.stream]

/-- The answers that a client gets are those of as many calls on the stream. -/
theorem FsHandler.Holds.answers (h : s.Holds k stream) {requests : List (Request α)}
    (hcloses : ∀ request ∈ requests, request.closes (handleText k) = false) :
    s.answers (handleText k) requests =
      callAnswers (requests.countP (Request.reads (handleText k))) stream := by
  induction requests generalizing s stream with
  | nil => rfl
  | cons request requests ih =>
    obtain ⟨hfirst, hrest⟩ := List.forall_mem_cons.mp hcloses
    have hlater := ih (h.handle hfirst) hrest
    rw [FsHandler.answers, hlater]
    by_cases hreads : request.reads (handleText k) = true
    · rw [if_pos hreads, if_pos hreads, List.countP_cons_of_pos hreads, h.readdir, callAnswers]
    · rw [if_neg hreads, if_neg hreads, List.countP_cons_of_neg hreads]

/-- Whatever is requested, the stream of an open directory is held until its handle is closed. -/
theorem FsHandler.Holds.after (h : s.Holds k stream) {requests : List (Request α)}
    (hcloses : ∀ request ∈ requests, request.closes (handleText k) = false) :
    ∃ rest, (s.after requests).Holds k rest := by
  induction requests generalizing s stream with
  | nil => exact ⟨stream, h⟩
  | cons request requests ih =>
    obtain ⟨hfirst, hrest⟩ := List.forall_mem_cons.mp hcloses
    exact ih (h.handle hfirst) hrest

/-- `opendir` answers with a handle under which the stream is held. -/
theorem holds_opendir (s : FsHandler α) (entries : List (Entry α)) :
    (s.opendir (.ok entries)).1 = .ok (handleText s.nextHandle) ∧
      (s.opendir (.ok entries)).2.Holds s.nextHandle entries :=
  ⟨rfl, Function.update_self _ _ _, Nat.lt_succ_self _⟩

/-- Only the end of the stream is answered with `Eof`. -/
theorem eq_nil_of_eof (h : (readBatch stream).1 = .error .eof) : stream = [] := by
  by_contra hne
  exact ((call_readBatch stream).length_lt hne).1 h

/-- Whatever a handler has done before, and whatever else they request, the clients of a directory
get a complete listing if and only if no entry with an error stands within a batch. -/
theorem readdir_listed_iff (s : FsHandler α) (entries : List (Entry α)) :
    (∀ requests : List (Request α),
      (∀ request ∈ requests, request.closes (handleText s.nextHandle) = false) →
      Listed (handleText s.nextHandle) entries (s.opendir (.ok entries)).2 requests) ↔
    AlignedFrom 0 entries := by
  obtain ⟨-, hholds⟩ := holds_opendir s entries
  constructor
  · intro h
    let requests : List (Request α) :=
      List.replicate (entries.length + 1) (.readdir 0 (handleText s.nextHandle))
    have hcloses : ∀ request ∈ requests,
        request.closes (handleText s.nextHandle) = false := by
      intro request hrequest
      rw [List.eq_of_mem_replicate hrequest]
      rfl
    have hcount : requests.countP (Request.reads (handleText s.nextHandle)) =
        entries.length + 1 := by
      rw [List.countP_replicate, if_pos (by simp [Request.reads])]
    have hlisted := h requests hcloses
    have heof := hlisted.reached (by omega)
    have hperm := (hlisted.complete heof).length_eq
    rw [hholds.answers hcloses] at heof hperm
    exact ((received_callAnswers _ entries).2 heof).2 hperm
  · intro haligned requests hcloses
    constructor
    · intro hcount
      rw [hholds.answers hcloses]
      exact eof_mem_callAnswers hcount
    · intro before later heq heof
      have hbefore : ∀ request ∈ before, request.closes (handleText s.nextHandle) = false :=
        fun request hrequest => hcloses request (heq ▸ List.mem_append_left _ hrequest)
      obtain ⟨rest, hrest⟩ := hholds.after hbefore
      rw [hrest.readdir] at heof
      rw [hrest.stream, eq_nil_of_eof heof]
    · intro heof
      rw [hholds.answers hcloses] at heof ⊢
      rw [((received_callAnswers _ entries).2 heof).1 haligned]

/-- A directory with a file that cannot be looked at, between two others. -/
def sampleDir : List (Entry Unit) :=
  [.named (encode "a.txt") (.ok ()), .named (encode "b.txt") (.error .notFound),
    .named (encode "c.txt") (.ok ())]

/-- A handler that has opened it as its first directory. -/
def sampleHandler : FsHandler Unit :=
  (FsHandler.opendir ⟨fun _ => false, fun _ => none, 0⟩ (.ok sampleDir)).2

/-- The requests of a client that asks three times. -/
def sampleRequests : List (Request Unit) := List.replicate 3 (.readdir 0 "0")

/-- The client comes to the end of the directory, but does not get its first file. -/
theorem readdir_not_listed :
    sampleHandler.answers "0" sampleRequests =
        [.error .noSuchFile, .ok [⟨"c.txt", ()⟩], .error .eof] ∧
      ¬Listed "0" sampleDir sampleHandler sampleRequests := by
  have hanswers : sampleHandler.answers "0" sampleRequests =
      [.error .noSuchFile, .ok [⟨"c.txt", ()⟩], .error .eof] := by decide +kernel
  refine ⟨hanswers, fun h => ?_⟩
  have hlength := (h.complete (by rw [hanswers]; simp)).length_eq
  rw [hanswers] at hlength
  revert hlength
  decide +kernel

end Handles

end Devcroft.Ssh.Sftp
