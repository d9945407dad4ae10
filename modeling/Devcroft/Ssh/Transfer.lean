import Devcroft.Library.Extents
import Devcroft.Library.Interleaving
import Devcroft.Ssh.Sftp

/-!
# Files over SFTP

A client opens a file and writes it in pieces, each at its offset, without waiting for the answers;
or it reads it, from where it is on. The handler serves many handles at once, and several may lead
to one file.
-/

namespace Devcroft.Ssh.Sftp

open Extents Interleaving

/-- What a handle of a file leads to. -/
structure OpenFile where
  file : ℕ
  readable : Bool
  writable : Bool
  append : Bool
  deriving DecidableEq

/-- What `OpenOptions::open` brings: a file, which it may have emptied. -/
structure Opened where
  file : OpenFile
  truncated : Bool
  deriving DecidableEq

/-- The handler with its open files, and the contents of the files. -/
structure Server (α : Type) where
  handler : FsHandler α
  files : String → Option OpenFile
  disk : ℕ → List UInt8

/-- The requests about open files and directories, with what the file system answers. -/
inductive FileRequest (α : Type) where
  | openFile (id : UInt32) (opened : Except ErrorKind Opened)
  | close (id : UInt32) (handle : String)
  /-- A read returns at most so many bytes more than one. -/
  | read (id : UInt32) (handle : String) (offset len : ℕ) (more : Except ErrorKind ℕ)
  /-- `write_all` may fail after so many bytes. -/
  | write (id : UInt32) (handle : String) (offset : ℕ) (data : List UInt8)
    (failure : Option (ErrorKind × ℕ))
  | fstat (id : UInt32) (handle : String) (failure : Option ErrorKind)
  | fsetstat (id : UInt32) (handle : String) (size : Option ℕ) (failure : Option ErrorKind)
  | opendir (id : UInt32) (entries : Except ErrorKind (List (Entry α)))
  | readdir (id : UInt32) (handle : String)
  /-- Another process changes a file. -/
  | outside (file : ℕ) (content : List UInt8)

/-- The replies to these. -/
inductive FileReply (α : Type) where
  | handle (id : UInt32) (handle : String)
  | data (id : UInt32) (data : List UInt8)
  /-- The attributes of a file, as far as its size. -/
  | attrs (id : UInt32) (size : ℕ)
  | name (id : UInt32) (files : List (File α))
  | okStatus (id : UInt32)

/-- The last offset that `lseek` takes. -/
def MAX_OFFSET : ℕ := 9223372036854775807

variable {α : Type}

/-- `open`. -/
def Server.openFile (s : Server α) :
    Except ErrorKind Opened → Except StatusCode String × Server α
  | .error kind => (.error (mapIoErr kind), s)
  | .ok opened =>
    let (_, handler) := s.handler.openFile (.ok ())
    let handle := s.handler.allocHandle.1
    (.ok handle, {
      handler := handler
      files := Function.update s.files handle (some opened.file)
      disk := if opened.truncated then Function.update s.disk opened.file.file [] else s.disk })

/-- `close`. -/
def Server.close (s : Server α) (handle : String) : Server α :=
  { s with handler := s.handler.close handle, files := Function.update s.files handle none }

/-- `read`. -/
def Server.read (s : Server α) (handle : String) (offset len : ℕ) (more : Except ErrorKind ℕ) :
    Except StatusCode (List UInt8) :=
  match s.files handle with
  | none => .error .failure
  | some f =>
    if MAX_OFFSET < offset then .error .failure
    else
      match more with
      | .error kind => .error (mapIoErr kind)
      | .ok more =>
        if f.readable = false then .error .failure
        else
          let data := readAt (s.disk f.file) offset (min len (more + 1))
          if data.isEmpty then .error .eof else .ok data

/-- What `write_all` writes to a file. -/
def Server.put (s : Server α) (f : OpenFile) (offset : ℕ) (data : List UInt8) : Server α :=
  let content := s.disk f.file
  let offset := if f.append then content.length else offset
  { s with disk := Function.update s.disk f.file (writeAt 0 content offset data) }

/-- `write`. -/
def Server.write (s : Server α) (handle : String) (offset : ℕ) (data : List UInt8)
    (failure : Option (ErrorKind × ℕ)) : Except StatusCode Unit × Server α :=
  match s.files handle with
  | none => (.error .failure, s)
  | some f =>
    if MAX_OFFSET < offset then (.error .failure, s)
    else if data.isEmpty then (.ok (), s)
    else if f.writable = false then (.error .failure, s)
    else
      match failure with
      | none => (.ok (), s.put f offset data)
      | some (kind, n) => (.error (mapIoErr kind), s.put f offset (data.take n))

/-- `fstat`. -/
def Server.fstat (s : Server α) (handle : String) (failure : Option ErrorKind) :
    Except StatusCode ℕ :=
  match s.files handle, failure with
  | none, _ => .error .failure
  | some _, some kind => .error (mapIoErr kind)
  | some f, none => .ok (s.disk f.file).length

/-- `fsetstat`. -/
def Server.fsetstat (s : Server α) (handle : String) (size : Option ℕ)
    (failure : Option ErrorKind) : Except StatusCode Unit × Server α :=
  match size with
  | none => (.ok (), s)
  | some size =>
    match s.files handle, failure with
    | none, _ => (.error .failure, s)
    | some _, some kind => (.error (mapIoErr kind), s)
    | some f, none =>
      if f.writable = false then (.error .failure, s)
      else (.ok (),
        { s with disk := Function.update s.disk f.file (setLen 0 (s.disk f.file) size) })

/-- The handling of a request. What another process does is not answered. -/
def Server.handle (s : Server α) :
    FileRequest α → Option (Except StatusCode (FileReply α)) × Server α
  | .openFile id opened =>
    let (answer, next) := s.openFile opened
    (some (answer.map (.handle id)), next)
  | .close id handle => (some (.ok (.okStatus id)), s.close handle)
  | .read id handle offset len more =>
    (some ((s.read handle offset len more).map (.data id)), s)
  | .write id handle offset data failure =>
    let (answer, next) := s.write handle offset data failure
    (some (answer.map fun _ => .okStatus id), next)
  | .fstat id handle failure => (some ((s.fstat handle failure).map (.attrs id)), s)
  | .fsetstat id handle size failure =>
    let (answer, next) := s.fsetstat handle size failure
    (some (answer.map fun _ => .okStatus id), next)
  | .opendir id entries =>
    let (answer, handler) := s.handler.opendir entries
    (some (answer.map (.handle id)), { s with handler := handler })
  | .readdir id handle =>
    let (answer, handler) := s.handler.readdir handle
    (some (answer.map (.name id)), { s with handler := handler })
  | .outside file content => (none, { s with disk := Function.update s.disk file content })

/-- The handler after a request. -/
def Server.step (s : Server α) (request : FileRequest α) : Option (Server α) :=
  some (s.handle request).2

/-- A request changes a file. -/
def Server.changes (s : Server α) (file : ℕ) : FileRequest α → Bool
  | .openFile _ (.ok opened) => opened.truncated && opened.file.file = file
  | .write _ handle _ _ _ => (s.files handle).any fun f => f.file = file
  | .fsetstat _ handle (some _) _ => (s.files handle).any fun f => f.file = file
  | .outside other _ => other = file
  | _ => false

/-- The open handles were all given out. -/
def Server.Sound (s : Server α) : Prop :=
  ∀ handle, s.files handle ≠ none → ∃ k < s.handler.nextHandle, handle = handleText k

section Steps

variable {s : Server α} {handle : String} {file : ℕ} {request : FileRequest α}

@[simp] theorem put_files (f : OpenFile) (offset : ℕ) (data : List UInt8) :
    (s.put f offset data).files = s.files := rfl

@[simp] theorem put_handler (f : OpenFile) (offset : ℕ) (data : List UInt8) :
    (s.put f offset data).handler = s.handler := rfl

/-- A write leaves the handles. -/
theorem write_files (offset : ℕ) (data : List UInt8) (failure : Option (ErrorKind × ℕ)) :
    (s.write handle offset data failure).2.files = s.files ∧
      (s.write handle offset data failure).2.handler = s.handler := by
  unfold Server.write
  split
  · exact ⟨rfl, rfl⟩
  · split
    · exact ⟨rfl, rfl⟩
    · split
      · exact ⟨rfl, rfl⟩
      · split
        · exact ⟨rfl, rfl⟩
        · split <;> exact ⟨rfl, rfl⟩

theorem fsetstat_files (size : Option ℕ) (failure : Option ErrorKind) :
    (s.fsetstat handle size failure).2.files = s.files ∧
      (s.fsetstat handle size failure).2.handler = s.handler := by
  unfold Server.fsetstat
  split
  · exact ⟨rfl, rfl⟩
  · split
    · exact ⟨rfl, rfl⟩
    · exact ⟨rfl, rfl⟩
    · split <;> exact ⟨rfl, rfl⟩

/-- What a request does with the handles: it leaves them, or closes one, or opens one that was never
given out. -/
theorem files_step (s : Server α) (request : FileRequest α) :
    ((s.handle request).2.files = s.files ∧
        s.handler.nextHandle ≤ (s.handle request).2.handler.nextHandle) ∨
      (∃ id handle, request = .close id handle ∧
        (s.handle request).2.files = Function.update s.files handle none ∧
        (s.handle request).2.handler.nextHandle = s.handler.nextHandle) ∨
      ∃ f, (s.handle request).2.files =
          Function.update s.files (handleText s.handler.nextHandle) (some f) ∧
        (s.handle request).2.handler.nextHandle = s.handler.nextHandle + 1 := by
  cases request with
  | openFile id opened =>
    cases opened with
    | error kind => exact Or.inl ⟨rfl, le_rfl⟩
    | ok opened => exact Or.inr (Or.inr ⟨opened.file, rfl, rfl⟩)
  | close id handle => exact Or.inr (Or.inl ⟨id, handle, rfl, rfl, rfl⟩)
  | write id handle offset data failure =>
    obtain ⟨hfiles, hhandler⟩ : (s.write handle offset data failure).2.files = s.files ∧
        (s.write handle offset data failure).2.handler = s.handler := write_files offset data failure
    exact Or.inl ⟨hfiles, (congrArg FsHandler.nextHandle hhandler).ge⟩
  | fsetstat id handle size failure =>
    obtain ⟨hfiles, hhandler⟩ : (s.fsetstat handle size failure).2.files = s.files ∧
        (s.fsetstat handle size failure).2.handler = s.handler := fsetstat_files size failure
    exact Or.inl ⟨hfiles, (congrArg FsHandler.nextHandle hhandler).ge⟩
  | opendir id entries =>
    cases entries with
    | error kind => exact Or.inl ⟨rfl, le_rfl⟩
    | ok entries => exact Or.inl ⟨rfl, Nat.le_succ _⟩
  | readdir id handle =>
    refine Or.inl ⟨rfl, ?_⟩
    simp only [Server.handle, FsHandler.readdir]
    split <;> exact le_rfl
  | read | fstat | outside => exact Or.inl ⟨rfl, le_rfl⟩

/-- Handles stay among those that were given out. -/
theorem Server.Sound.step (hs : s.Sound) (request : FileRequest α) :
    (s.handle request).2.Sound := by
  intro handle hhandle
  rcases files_step s request with ⟨hfiles, hle⟩ | ⟨id, closed, -, hfiles, hsame⟩ |
    ⟨f, hfiles, hnext⟩
  · rw [hfiles] at hhandle
    obtain ⟨k, hk, rfl⟩ := hs handle hhandle
    exact ⟨k, by omega, rfl⟩
  · rw [hfiles] at hhandle
    by_cases hclosed : handle = closed
    · subst hclosed
      rw [Function.update_self] at hhandle
      exact (hhandle rfl).elim
    · rw [Function.update_of_ne hclosed] at hhandle
      obtain ⟨k, hk, rfl⟩ := hs handle hhandle
      exact ⟨k, by omega, rfl⟩
  · rw [hfiles] at hhandle
    by_cases hnew : handle = handleText s.handler.nextHandle
    · exact ⟨_, by omega, hnew⟩
    · rw [Function.update_of_ne hnew] at hhandle
      obtain ⟨k, hk, rfl⟩ := hs handle hhandle
      exact ⟨k, by omega, rfl⟩

/-- A handle that is not closed leads to its file still. -/
theorem Server.Sound.files_eq (hs : s.Sound) {f : OpenFile} (hopen : s.files handle = some f)
    (hcloses : ∀ id, request ≠ .close id handle) :
    (s.handle request).2.files handle = some f := by
  rcases files_step s request with ⟨hfiles, -⟩ | ⟨id, closed, rfl, hfiles, -⟩ | ⟨g, hfiles, -⟩
  · rw [hfiles, hopen]
  · have hne : handle ≠ closed := by
      rintro rfl
      exact hcloses id rfl
    rw [hfiles, Function.update_of_ne hne, hopen]
  · have hne : handle ≠ handleText s.handler.nextHandle := by
      obtain ⟨k, hk, rfl⟩ := hs handle (by rw [hopen]; simp)
      exact allocHandle_ne hk
    rw [hfiles, Function.update_of_ne hne, hopen]

/-- A write through another file's handle. -/
theorem write_disk_of_ne (hother : (s.files handle).any (fun f => f.file = file) = false)
    (offset : ℕ) (data : List UInt8) (failure : Option (ErrorKind × ℕ)) :
    (s.write handle offset data failure).2.disk file = s.disk file := by
  unfold Server.write
  cases hopen : s.files handle with
  | none => rfl
  | some f =>
    rw [hopen] at hother
    have hne : file ≠ f.file := by
      rintro rfl
      simp at hother
    dsimp only
    split
    · rfl
    · split
      · rfl
      · split
        · rfl
        · split <;> exact Function.update_of_ne hne _ _

/-- What does not change a file leaves it. -/
theorem disk_eq_of_not_changes (h : s.changes file request = false) :
    (s.handle request).2.disk file = s.disk file := by
  cases request with
  | openFile id opened =>
    cases opened with
    | error kind => rfl
    | ok opened =>
      simp only [Server.handle, Server.openFile]
      split
      · next htruncated =>
        refine Function.update_of_ne ?_ _ _
        rintro rfl
        simp [Server.changes, htruncated] at h
      · rfl
  | write id handle offset data failure => exact write_disk_of_ne h offset data failure
  | fsetstat id handle size failure =>
    cases size with
    | none => rfl
    | some size =>
      simp only [Server.handle, Server.fsetstat]
      split
      · rfl
      · rfl
      · next f hopen =>
        split
        · rfl
        · refine Function.update_of_ne ?_ _ _
          rintro rfl
          simp [Server.changes, hopen] at h
  | outside other content =>
    refine Function.update_of_ne ?_ _ _
    rintro rfl
    simp [Server.changes] at h
  | close | read | fstat | opendir | readdir => rfl

end Steps

/-- What is assumed of a request while a text is written through a handle: it does not close the
handle, and changes the file only by writing what stands in the text there. -/
def Uploads (handle : String) (file : ℕ) (text : List UInt8) :
    Guard (Server α) (FileRequest α) := fun s request =>
  (∀ id, request ≠ .close id handle) ∧
    (s.changes file request = true → ∃ id offset data failure,
      request = .write id handle offset data failure ∧ IsPiece text offset data)

/-- What is assumed of a request while a file is read through a handle. -/
def Leaves (handle : String) (file : ℕ) : Guard (Server α) (FileRequest α) := fun s request =>
  (∀ id, request ≠ .close id handle) ∧ s.changes file request = false

/-- A write through a handle that covers a position was answered with success. -/
def Written (handle : String) (taken : List (Server α × FileRequest α)) (i : ℕ) : Prop :=
  ∃ p ∈ taken, ∃ id offset data failure, p.2 = .write id handle offset data failure ∧
    (p.1.write handle offset data failure).1 = .ok () ∧ Covers offset data i

/-- The reads through a handle: where, how much, and the answer. -/
def readsOf (handle : String) (taken : List (Server α × FileRequest α)) :
    List (ℕ × ℕ × Except StatusCode (List UInt8)) :=
  taken.filterMap fun p =>
    match p.2 with
    | .read _ other offset len more =>
      if other = handle then some (offset, len, p.1.read handle offset len more) else none
    | _ => none

/-- A client reads on from where it is. -/
def ReadsOn : ℕ → List (ℕ × ℕ × Except StatusCode (List UInt8)) → Prop
  | _, [] => True
  | pos, (offset, len, answer) :: rest =>
    offset = pos ∧ 0 < len ∧ ReadsOn (pos + (answer.toOption.getD []).length) rest

/-- What a client gets by some reads. -/
def brought (reads : List (ℕ × ℕ × Except StatusCode (List UInt8))) : List UInt8 :=
  (reads.map fun r => r.2.2.toOption.getD []).flatten

section Uploading

variable {s : Server α} {handle : String} {f : OpenFile} {text : List UInt8}
  {past : List (Server α × FileRequest α)} {request : FileRequest α}

/-- A piece is written. -/
theorem partly_write {written : ℕ → Prop} (hopen : s.files handle = some f)
    (happend : f.append = false) (hdisk : Partly text written (s.disk f.file)) {offset : ℕ}
    {data : List UInt8} (hpiece : IsPiece text offset data) (failure : Option (ErrorKind × ℕ)) :
    Partly text
      (fun i => written i ∨
        (s.write handle offset data failure).1 = .ok () ∧ Covers offset data i)
      ((s.write handle offset data failure).2.disk f.file) := by
  have hrefused : Partly text (fun i => written i ∨ False) (s.disk f.file) :=
    hdisk.mono fun i hi => hi.resolve_right id
  unfold Server.write
  rw [hopen]
  dsimp only
  split
  · simpa using hrefused
  · split
    · next hempty =>
      rw [List.isEmpty_iff] at hempty
      subst hempty
      refine hdisk.mono fun i hi => hi.resolve_right ?_
      rintro ⟨-, hafter, hbefore⟩
      rw [List.length_nil] at hbefore
      omega
    · split
      · simpa using hrefused
      · split
        · have hwhole : Partly text _ (writeAt 0 (s.disk f.file) offset data) :=
            hdisk.writeAt hpiece
          simpa [Server.put, happend] using hwhole
        · next kind n =>
          have hpart : Partly text _ (writeAt 0 (s.disk f.file) offset (data.take n)) :=
            hdisk.writeAt (hpiece.take n)
          simp only [Server.put, happend, Function.update_self]
          exact hpart.mono fun i hi => Or.inl (hi.resolve_right (by simp))

/-- A text that is being written through a handle. -/
structure Uploading (handle : String) (f : OpenFile) (text : List UInt8)
    (past : List (Server α × FileRequest α)) (s : Server α) : Prop where
  sound : s.Sound
  isOpen : s.files handle = some f
  disk : Partly text (Written handle past) (s.disk f.file)

/-- Every request keeps it. -/
theorem Uploading.step (h : Uploading handle f text past s) (happend : f.append = false)
    (hguard : Uploads handle f.file text s request) :
    Uploading handle f text (past ++ [(s, request)]) (s.handle request).2 := by
  refine ⟨h.sound.step request, h.sound.files_eq h.isOpen hguard.1, ?_⟩
  cases hchanges : s.changes f.file request with
  | true =>
    obtain ⟨id, offset, data, failure, rfl, hpiece⟩ := hguard.2 hchanges
    refine (partly_write h.isOpen happend h.disk hpiece failure).mono fun i hi => ?_
    obtain ⟨p, hp, id', offset', data', failure', heq, hok, hcovers⟩ := hi
    rcases List.mem_append.mp hp with hp | hp
    · exact Or.inl ⟨p, hp, id', offset', data', failure', heq, hok, hcovers⟩
    · obtain rfl := List.mem_singleton.mp hp
      cases heq
      exact Or.inr ⟨hok, hcovers⟩
  | false =>
    rw [disk_eq_of_not_changes hchanges]
    refine h.disk.mono fun i hi => ?_
    obtain ⟨p, hp, id, offset, data, failure, heq, hok, hcovers⟩ := hi
    rcases List.mem_append.mp hp with hp | hp
    · exact ⟨p, hp, id, offset, data, failure, heq, hok, hcovers⟩
    · -- A write through the handle changes the file.
      obtain rfl := List.mem_singleton.mp hp
      cases heq
      simp [Server.changes, h.isOpen] at hchanges

end Uploading

section Downloading

variable {s : Server α} {handle : String} {f : OpenFile} {text : List UInt8}

/-- What a read is answered with. -/
theorem read_answer (hopen : s.files handle = some f) (offset len : ℕ)
    (more : Except ErrorKind ℕ) :
    IsPiece (s.disk f.file) offset
        ((s.read handle offset len more).toOption.getD []) ∧
      (0 < len → s.read handle offset len more = .error .eof →
        (s.disk f.file).length ≤ offset) := by
  unfold Server.read
  rw [hopen]
  dsimp only
  split
  · exact ⟨List.nil_prefix, nofun⟩
  · split
    · next kind =>
      refine ⟨List.nil_prefix, fun _ heof => ?_⟩
      exact (mapIoErr_ne_eof kind (Except.error.inj heof)).elim
    · next more =>
      split
      · exact ⟨List.nil_prefix, nofun⟩
      · split
        · next hempty =>
          refine ⟨List.nil_prefix, fun hlen _ => ?_⟩
          rw [List.isEmpty_iff, readAt, List.take_eq_nil_iff, List.drop_eq_nil_iff] at hempty
          omega
        · exact ⟨isPiece_readAt _ _ _, fun _ => nofun⟩

/-- A client that reads on gets what stands there, and at the end all of it. -/
theorem brought_spec {reads : List (ℕ × ℕ × Except StatusCode (List UInt8))} {pos : ℕ}
    (hreads : ∀ r ∈ reads, IsPiece text r.1 (r.2.2.toOption.getD []) ∧
      (0 < r.2.1 → r.2.2 = .error .eof → text.length ≤ r.1))
    (hon : ReadsOn pos reads) :
    Consecutive text pos (reads.map fun r => r.2.2.toOption.getD []) ∧
      ((∃ r ∈ reads, r.2.2 = .error .eof) → text.length ≤ pos + (brought reads).length) := by
  induction reads generalizing pos with
  | nil => exact ⟨trivial, nofun⟩
  | cons r reads ih =>
    obtain ⟨offset, len, answer⟩ := r
    obtain ⟨⟨hpiece, heof⟩, hrest⟩ := List.forall_mem_cons.mp hreads
    obtain ⟨rfl, hlen, hlater⟩ := hon
    obtain ⟨hconsecutive, hend⟩ := ih hrest hlater
    refine ⟨⟨hpiece, hconsecutive⟩, ?_⟩
    rintro ⟨r, hr, hanswer⟩
    have hlength : (brought ((offset, len, answer) :: reads)).length =
        (answer.toOption.getD []).length + (brought reads).length := by
      simp [brought]
    rw [hlength]
    rcases List.mem_cons.mp hr with rfl | hr
    · have := heof hlen hanswer
      omega
    · have := hend ⟨r, hr, hanswer⟩
      omega

end Downloading

/-- A file over SFTP: if a text is written through a handle to an empty file, in pieces in any
order, some of which may fail and be written again, then, as soon as the writes that were answered
with success cover it, the file is the text; a client that reads the file on from its beginning,
through any handle and in any amounts, gets a first part of the text, and all of it when it is told
of the end. Requests of others may come in between, as long as they do not change the file. -/
theorem transferred {s : Server α} {up down : List (FileRequest α)} {handle handle' : String}
    {f f' : OpenFile} {text : List UInt8} (hs : s.Sound) (hopen : s.files handle = some f)
    (happend : f.append = false) (hempty : s.disk f.file = [])
    (hup : Guarded (Uploads handle f.file text) (steps Server.step up s))
    (hcovered : ∀ i < text.length, Written handle (steps Server.step up s) i)
    (hopen' : (exec Server.step up s).files handle' = some f') (hsame : f'.file = f.file)
    (hdown : Guarded (Leaves handle' f.file)
      (steps Server.step down (exec Server.step up s)))
    (hon : ReadsOn 0 (readsOf handle' (steps Server.step down (exec Server.step up s)))) :
    let reads := readsOf handle' (steps Server.step down (exec Server.step up s))
    (exec Server.step up s).disk f.file = text ∧ brought reads <+: text ∧
      ((∃ r ∈ reads, r.2.2 = .error .eof) → brought reads = text) := by
  intro reads
  have huploading : Uploading handle f text (steps Server.step up s) (exec Server.step up s) := by
    have hstart : Uploading handle f text [] s := by
      refine ⟨hs, hopen, ?_⟩
      rw [hempty]
      exact (partly_nil text).mono fun i ⟨p, hp, _⟩ => nomatch hp
    refine history (J := Uploading handle f text) (fun past s a next h hguard hstep => ?_)
      hstart hup
    obtain rfl := Option.some.inj hstep
    exact h.step happend hguard
  have hdisk : (exec Server.step up s).disk f.file = text := huploading.disk.eq hcovered
  have hkept : ∀ p ∈ steps Server.step down (exec Server.step up s),
      p.1.files handle' = some f' ∧ p.1.disk f.file = text := by
    intro p hp
    have hinvariant := (invariant
      (I := fun s : Server α => s.Sound ∧ s.files handle' = some f' ∧ s.disk f.file = text)
      (fun s a next hs hguard hstep => ?_) ⟨huploading.sound, hopen', hdisk⟩ hdown).1 p hp
    · exact hinvariant.2
    · obtain rfl := Option.some.inj hstep
      obtain ⟨hsound, hfiles, htext⟩ := hs
      refine ⟨hsound.step a, hsound.files_eq hfiles hguard.1, ?_⟩
      rw [disk_eq_of_not_changes hguard.2, htext]
  have hreads : ∀ r ∈ reads, IsPiece text r.1 (r.2.2.toOption.getD []) ∧
      (0 < r.2.1 → r.2.2 = .error .eof → text.length ≤ r.1) := by
    intro r hr
    obtain ⟨⟨t, request⟩, hp, heq⟩ := List.mem_filterMap.mp hr
    obtain ⟨hfiles, htext⟩ := hkept _ hp
    cases request with
    | read id other offset len more =>
      simp only at heq
      split at heq
      · obtain rfl := Option.some.inj heq
        have hanswer := read_answer hfiles offset len more
        rw [hsame, htext] at hanswer
        exact hanswer
      · cases heq
    | _ => cases heq
  obtain ⟨hconsecutive, hend⟩ := brought_spec hreads hon
  refine ⟨hdisk, ?_, fun heof => ?_⟩
  · have hpiece := hconsecutive.flatten
    rwa [IsPiece, List.drop_zero] at hpiece
  · have hlength := hend heof
    rw [Nat.zero_add] at hlength
    exact hconsecutive.eq hlength

/-- A handler that was just made. -/
def Server.start : Server Unit := ⟨⟨fun _ => false, fun _ => none, 0⟩, fun _ => none, fun _ => []⟩

/-- A file is opened to be written, and to be read. -/
def openings : List (FileRequest Unit) :=
  [.openFile 1 (.ok ⟨⟨7, false, true, false⟩, true⟩),
    .openFile 2 (.ok ⟨⟨7, true, false, false⟩, false⟩)]

/-- Its second half is written first, and the first half only with the second try. -/
def writings : List (FileRequest Unit) :=
  [.write 3 "0" 2 [3, 4] none, .write 4 "0" 0 [1, 2] (some (.other, 1)),
    .write 5 "0" 0 [1, 2] none]

/-- It is read to its end. -/
def readings : List (FileRequest Unit) :=
  [.read 6 "1" 0 3 (.ok 9), .close 7 "0", .read 8 "1" 3 9 (.ok 9), .read 9 "1" 4 9 (.ok 9)]

/-- The handler with the open file. -/
def Server.opened : Server Unit := exec Server.step openings .start

/-- What was written is read. -/
theorem transferred_readings :
    brought (readsOf "1" (steps Server.step readings (exec Server.step writings .opened))) =
      [1, 2, 3, 4] := by
  have hsound : Server.opened.Sound := by
    have hstart : Server.start.Sound := fun handle hhandle => (hhandle rfl).elim
    exact (hstart.step _).step _
  have hup : Guarded (Uploads "0" 7 [1, 2, 3, 4]) (steps Server.step writings .opened) := by
    intro p hp
    have hrequest : p.2 ∈ writings := mem_of_mem_steps hp
    obtain ⟨id, offset, data, failure, heq, hpiece⟩ : ∃ id offset data failure,
        p.2 = .write id "0" offset data failure ∧ IsPiece [1, 2, 3, 4] offset data := by
      simp only [writings, List.mem_cons, List.not_mem_nil, or_false] at hrequest
      rcases hrequest with heq | heq | heq
      all_goals exact ⟨_, _, _, _, heq, by unfold IsPiece; decide⟩
    exact ⟨by simp [heq], fun _ => ⟨id, offset, data, failure, heq, hpiece⟩⟩
  have hcovered : ∀ i < [1, 2, 3, 4].length,
      Written "0" (steps Server.step writings .opened) i := by
    intro i hi
    by_cases hlow : i < 2
    · refine ⟨(_, .write 5 "0" 0 [1, 2] none),
        List.mem_cons_of_mem _ (List.mem_cons_of_mem _ List.mem_cons_self), _, _, _, _, rfl,
        by decide +kernel, ?_⟩
      exact ⟨Nat.zero_le i, hlow⟩
    · refine ⟨(_, .write 3 "0" 2 [3, 4] none), List.mem_cons_self, _, _, _, _, rfl,
        by decide +kernel, ?_⟩
      exact ⟨by omega, hi⟩
  have hdown : Guarded (Leaves "1" 7)
      (steps Server.step readings (exec Server.step writings .opened)) := by
    intro p hp
    have hrequest : p.2 ∈ readings := mem_of_mem_steps hp
    simp only [readings, List.mem_cons, List.not_mem_nil, or_false] at hrequest
    rcases hrequest with heq | heq | heq | heq <;> rw [Leaves, heq]
    all_goals exact ⟨by simp, rfl⟩
  have hreads : readsOf "1" (steps Server.step readings (exec Server.step writings .opened)) =
      [(0, 3, .ok [1, 2, 3]), (3, 9, .ok [4]), (4, 9, .error .eof)] := by
    decide +kernel
  have hopen : (exec Server.step writings .opened).files "1" = some ⟨7, true, false, false⟩ := by
    decide +kernel
  have hall := transferred (f := ⟨7, false, true, false⟩) hsound (by decide +kernel) rfl
    (by decide +kernel) hup hcovered hopen rfl hdown
    (by rw [hreads]; exact ⟨rfl, by decide, rfl, by decide, rfl, by decide, trivial⟩)
  exact hall.2.2 ⟨(4, 9, .error .eof), by rw [hreads]; simp, rfl⟩

end Devcroft.Ssh.Sftp
