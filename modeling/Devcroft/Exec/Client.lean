import Devcroft.Keeper.Output
import Devcroft.Lifecycle.Listing
import Devcroft.Lifecycle.StatePaths

/-!
# The client of a session

`devcroft exec` connects to the control socket of a sandbox, asks for a session and then reads
frames: it writes the output that they carry to its own streams, and ends with the status of the
child. What it reads may be cut at any byte.
-/

namespace Devcroft.Exec

open Keeper Wire Lifecycle

/-- `ExecRequest`. -/
structure ExecRequest where
  cmd : String
  args : List String
  cwd : String
  deriving DecidableEq

/-- `ExecError`. -/
inductive ExecError where
  | notRunning
  | connect (e : IoError)
  | spawnErr (message : String)
  | protocol (e : FrameError)
  /-- `Protocol`, with what came in place of `SpawnOk`. -/
  | unexpected (other : Frame)
  deriving DecidableEq

/-- What a client writes to its own streams, and its exit code. -/
structure Printed where
  stdout : List UInt8
  stderr : List UInt8
  code : Int32
  deriving DecidableEq

/-- `exit_code_from`. -/
def exitCodeFrom (status : ExitStatus) : Int32 :=
  match status.code, status.signal with
  | some code, _ => code
  | none, some signal => 128 + signal
  | none, none => 1

section Reading

variable {json : SerdeJson} {T : Type}

theorem local_fromJson (codec : Codec T) (payload : List UInt8) :
    Local (fromJson codec payload) := by
  unfold fromJson
  split
  · exact local_pure _
  · exact local_fail _

theorem local_frameOf (json : SerdeJson) (tag : UInt8) (payload : List UInt8) :
    Local (frameOf json tag payload) := by
  unfold frameOf
  split
  case h_1 | h_2 | h_3 | h_8 | h_9 | h_10 | h_12 =>
    exact (local_fromJson _ _).bind fun _ => local_pure _
  case h_13 => exact local_fail _
  all_goals exact local_pure _

/-- What `read_frame` takes does not depend on what follows. -/
theorem local_readFrame (json : SerdeJson) : Local (readFrame json) := by
  rw [readFrame_eq]
  exact local_readRaw.bind fun raw => local_frameOf json _ _

/-- A frame that is read takes some bytes. -/
theorem length_of_readFrame {bytes rest : List UInt8} {frame : Frame}
    (h : readFrame json bytes = (.ok frame, rest)) : rest.length < bytes.length := by
  obtain ⟨taken, rfl, hreads⟩ := local_readFrame json _ _ _ h
  cases taken with
  | nil => cases congrArg Prod.fst (hreads [])
  | cons b taken =>
    simp only [List.length_append, List.length_cons]
    omega

end Reading

/-- The frames that are read, until a read fails. -/
def readFrames (json : SerdeJson) (bytes : List UInt8) : List Frame :=
  match h : readFrame json bytes with
  | (.ok frame, rest) =>
    have : rest.length < bytes.length := length_of_readFrame h
    frame :: readFrames json rest
  | (.error _, _) => []
termination_by bytes.length

/-- The loop of `stream_session`, on the bytes that come until the connection ends. -/
def streamSession (json : SerdeJson) (bytes : List UInt8) : Printed :=
  match h : readFrame json bytes with
  | (.ok frame, rest) =>
    have : rest.length < bytes.length := length_of_readFrame h
    match frame with
    | .stdout out =>
      let printed := streamSession json rest
      { printed with stdout := out ++ printed.stdout }
    | .stderr out =>
      let printed := streamSession json rest
      { printed with stderr := out ++ printed.stderr }
    | .exit status => ⟨[], [], exitCodeFrom status⟩
    | _ => streamSession json rest
  | (.error _, _) => ⟨[], [], 1⟩
termination_by bytes.length

/-- What a client depends on. -/
structure Host where
  homeVar : Option String
  machine : Status.Machine
  /-- What stands at the paths of the sandbox at each attempt. -/
  sandbox : ℕ → StatePaths → Status.Sandbox
  /-- `UnixStream::connect` at each attempt. -/
  connect : ℕ → String → Except IoError Status.Peer
  /-- `try_clone`. -/
  tryClone : Except IoError Unit

/-- `connect_and_spawn`, with what is still to be read of the connection. -/
def connectAndSpawn (h : Host) (attempt : ℕ) (sandboxName : String) (spawnReq : SpawnRequest) :
    Except ExecError (List UInt8) :=
  match StatePaths.new h.homeVar sandboxName with
  | .error e => .error (.connect (.other e))
  | .ok paths =>
    match Status.health h.machine (h.sandbox attempt paths) with
    | .error e => .error (.connect e)
    | .ok (.stale _) | .ok .none => .error .notRunning
    | .ok (.healthy _) =>
      match h.connect attempt paths.socket with
      | .error e => .error (.connect e)
      | .ok peer =>
        match (writeFrame h.machine.json peer.sink (.spawn spawnReq) []).1 with
        | .error e => .error (.protocol e)
        | .ok () =>
          match readFrame h.machine.json peer.answer with
          | (.ok (.spawnOk _), rest) => .ok rest
          | (.ok (.spawnErr message), _) => .error (.spawnErr message)
          | (.ok other, _) => .error (.unexpected other)
          | (.error e, _) => .error (.protocol e)

/-- `stream_session` after a connection. -/
def stream (h : Host) (rest : List UInt8) : Except ExecError Printed :=
  match h.tryClone with
  | .error e => .error (.connect e)
  | .ok () => .ok (streamSession h.machine.json rest)

/-- What `exec` asks the keeper for. -/
def ExecRequest.spawnReq (req : ExecRequest) : SpawnRequest :=
  ⟨req.cmd, req.args, req.cwd, [], none⟩

/-- `exec`. -/
def exec (h : Host) (sandboxName : String) (req : ExecRequest) : Except ExecError Printed :=
  match connectAndSpawn h 0 sandboxName req.spawnReq with
  | .error e => .error e
  | .ok rest => stream h rest

def FALLBACK_SHELL : String := "sh"

/-- `recorded_shell`. -/
def recordedShell (h : Host) (sandboxName : String) : Option String :=
  match StatePaths.new h.homeVar sandboxName with
  | .error _ => none
  | .ok paths =>
    match Status.readMeta h.machine (h.sandbox 0 paths).metaFile with
    | .ok (some recorded) => recorded.shell
    | _ => none

/-- `shell`, with `$SHELL` and the size of the terminal. -/
def shell (h : Host) (sandboxName cwd : String) (shellVar : Option String)
    (terminalSize : Option PtySize) : Except ExecError Printed :=
  let fallback := (recordedShell h sandboxName).getD FALLBACK_SHELL
  let requestedShell := shellVar.getD fallback
  let size := terminalSize.getD ⟨24, 80⟩
  let spawnReq : SpawnRequest := ⟨requestedShell, [], cwd, [], some size⟩
  let connected :=
    match connectAndSpawn h 0 sandboxName spawnReq with
    | .error (.spawnErr message) =>
      if requestedShell ≠ fallback then
        connectAndSpawn h 1 sandboxName { spawnReq with cmd := fallback }
      else .error (.spawnErr message)
    | result => result
  match connected with
  | .error e => .error e
  | .ok rest => stream h rest

/-- What the loop does with frames that come whole, if the connection ends behind them. -/
def follow : List Frame → Printed
  | [] => ⟨[], [], 1⟩
  | .stdout out :: rest => { follow rest with stdout := out ++ (follow rest).stdout }
  | .stderr out :: rest => { follow rest with stderr := out ++ (follow rest).stderr }
  | .exit status :: _ => ⟨[], [], exitCodeFrom status⟩
  | _ :: rest => follow rest

section Following

variable {json : SerdeJson} {frames : List Frame} {bytes : List UInt8}

theorem readFrames_of_ok {frame : Frame} {rest : List UInt8}
    (h : readFrame json bytes = (.ok frame, rest)) :
    readFrames json bytes = frame :: readFrames json rest := by
  rw [readFrames]
  split
  · next frame' rest' h' =>
    obtain ⟨hframe, rfl⟩ := Prod.mk.inj (h'.symm.trans h)
    obtain rfl := Except.ok.inj hframe
    rfl
  · next e rest' h' => cases congrArg Prod.fst (h'.symm.trans h)

theorem readFrames_of_error {e : FrameError} {rest : List UInt8}
    (h : readFrame json bytes = (.error e, rest)) : readFrames json bytes = [] := by
  rw [readFrames]
  split
  · next frame' rest' h' => cases congrArg Prod.fst (h'.symm.trans h)
  · rfl

/-- The loop follows the frames that it reads. -/
theorem streamSession_eq (json : SerdeJson) (bytes : List UInt8) :
    streamSession json bytes = follow (readFrames json bytes) := by
  induction bytes using readFrames.induct json with
  | case1 bytes frame rest h _ ih =>
    rw [readFrames_of_ok h, streamSession]
    split
    · next frame' rest' h' =>
      obtain ⟨hframe, rfl⟩ := Prod.mk.inj (h'.symm.trans h)
      obtain rfl := Except.ok.inj hframe
      cases frame' <;> simp only [follow, ih]
    · next e rest' h' => cases congrArg Prod.fst (h'.symm.trans h)
  | case2 bytes e rest h =>
    rw [readFrames_of_error h, streamSession]
    split
    · next frame' rest' h' => cases congrArg Prod.fst (h'.symm.trans h)
    · rfl

/-- Of frames that are cut somewhere, those are read that came whole. -/
theorem readFrames_cut (hframes : ∀ frame ∈ frames, frame.Fits json ∧ frame.RoundTrips json)
    (hcut : bytes <+: frames.flatMap (Frame.encoding json)) :
    readFrames json bytes <+: frames ∧
      (bytes = frames.flatMap (Frame.encoding json) → readFrames json bytes = frames) := by
  induction frames generalizing bytes with
  | nil =>
    obtain rfl := List.prefix_nil.mp hcut
    have hnone : readFrames json [] = [] := readFrames_of_error rfl
    exact ⟨hnone ▸ List.nil_prefix, fun _ => hnone⟩
  | cons frame frames ih =>
    obtain ⟨⟨hfits, hround⟩, hrest⟩ := List.forall_mem_cons.mp hframes
    rw [List.flatMap_cons] at hcut ⊢
    by_cases hwhole : frame.encoding json <+: bytes
    · obtain ⟨left, rfl⟩ := hwhole
      obtain ⟨hgot, hall⟩ := ih hrest ((List.prefix_append_right_inj _).mp hcut)
      rw [readFrames_of_ok (reads_readFrame hfits hround left)]
      refine ⟨List.cons_prefix_cons.mpr ⟨rfl, hgot⟩, fun heq => ?_⟩
      rw [hall (List.append_cancel_left heq)]
    · -- The cut is within the first frame, which is then not read.
      have hpiece : bytes <+: frame.encoding json :=
        (List.prefix_or_prefix_of_prefix hcut (List.prefix_append _ _)).resolve_right hwhole
      have hne : bytes ≠ frame.encoding json := by
        rintro rfl
        exact hwhole (List.prefix_refl _)
      obtain ⟨e, left, herror⟩ := readFrame_strictPrefix hfits hpiece hne
      rw [readFrames_of_error herror]
      exact ⟨List.nil_prefix, fun heq => (hwhole (heq ▸ List.prefix_append _ _)).elim⟩

/-- Frames of output are written in order, each to its stream. -/
theorem follow_outputs {outs : List Frame} (houts : ∀ frame ∈ outs, frame.isOutput = true)
    (rest : List Frame) :
    follow (outs ++ rest) = ⟨outs.flatMap (Frame.bytes .stdout) ++ (follow rest).stdout,
      outs.flatMap (Frame.bytes .stderr) ++ (follow rest).stderr, (follow rest).code⟩ := by
  induction outs with
  | nil => rfl
  | cons frame outs ih =>
    obtain ⟨hframe, hrest⟩ := List.forall_mem_cons.mp houts
    have hfollow := ih hrest
    cases frame <;> simp only [Frame.isOutput, Bool.false_eq_true] at hframe
    all_goals
      rw [List.cons_append, follow, hfollow]
      simp [Frame.bytes]

/-- Of a session's frames without the first, a client that does not get all follows output only. -/
theorem follow_isPrefix {outs got : List Frame} {status : ExitStatus}
    (houts : ∀ frame ∈ outs, frame.isOutput = true) (hgot : got <+: outs ++ [.exit status]) :
    (follow got).stdout <+: outs.flatMap (Frame.bytes .stdout) ∧
      (follow got).stderr <+: outs.flatMap (Frame.bytes .stderr) ∧
      (got = outs ++ [.exit status] ∨ (follow got).code = 1) := by
  rcases List.prefix_concat_iff.mp hgot with rfl | hgot
  · rw [follow_outputs houts]
    simp [follow]
  · obtain ⟨rest, rfl⟩ := hgot
    have hfirst := fun frame hmem => houts frame (List.mem_append_left rest hmem)
    have hfollow := follow_outputs hfirst []
    rw [List.append_nil] at hfollow
    rw [hfollow]
    simp [follow]

end Following

section Chunks

/-- The buffer of a pump. -/
def PUMP_BUFFER : ℕ := 8192

/-- What is assumed of a step: a read of a pump returns no more than its buffer takes. -/
def Buffers (k : ℕ) : Interleaving.Guard KeeperState Act := fun _ a =>
  ∀ stream ∈ [Stream.stdout, .stderr], ∀ chunk ∈ ((pumped k stream a).join).toList,
    chunk.length ≤ PUMP_BUFFER

instance (k : ℕ) (s : KeeperState) (a : Act) : Decidable (Buffers k s a) :=
  inferInstanceAs (Decidable (∀ stream ∈ [Stream.stdout, .stderr],
    ∀ chunk ∈ ((pumped k stream a).join).toList, chunk.length ≤ PUMP_BUFFER))

/-- A frame carries no more than a pump reads at once. -/
def Small (frame : Frame) : Prop := ∀ stream, (frame.bytes stream).length ≤ PUMP_BUFFER

variable {k : ℕ} {c c' : Conn} {sh sh' : Shared} {a : ConnAct}

/-- A frame without output. -/
theorem small_of_not_output {frame : Frame} (h : frame.isOutput = false) : Small frame := by
  intro stream
  cases frame <;> first | exact Nat.zero_le _ | cases h

theorem small_stream {stream : Stream} {chunk : List UInt8} (h : chunk.length ≤ PUMP_BUFFER) :
    Small (stream.frame chunk) := by
  intro stream'
  cases stream <;> simp only [Stream.frame, Frame.bytes] <;> split <;> simp [h]

/-- What is sent in addition. -/
theorem small_send {frame : Frame} (hc : ∀ frame ∈ c.sent, Small frame)
    (hframe : Small frame) : ∀ other ∈ (c.send frame).sent, Small other := by
  unfold Conn.send
  split
  · intro other hmem
    rcases List.mem_append.mp hmem with hmem | hmem
    · exact hc other hmem
    · rw [List.mem_singleton.mp hmem]
      exact hframe
  · exact hc

/-- The first frame is answered without output. -/
theorem small_first (hc : ∀ frame ∈ c.sent, Small frame) (registry : Registry) (uptime : ℕ)
    (frame : Option Frame) :
    ∀ other ∈ (c.readFirst registry uptime frame).sent, Small other := by
  unfold Conn.readFirst
  split
  · exact hc
  · refine small_send hc ?_
    exact small_of_not_output rfl
  · refine small_send hc ?_
    exact small_of_not_output rfl
  · exact hc

/-- The frames of a connection stay small. -/
theorem small_step (hc : ∀ frame ∈ c.sent, Small frame)
    (ha : ∀ stream chunk, a = .pump stream (some chunk) → chunk.length ≤ PUMP_BUFFER)
    (h : c.step k sh a = some (c', sh')) : ∀ frame ∈ c'.sent, Small frame := by
  cases Conn.step_cases h with
  | @answer frame uptime takes out hphase =>
    simp only [Conn.step, hphase, Option.some.injEq, Prod.mk.injEq] at h
    rw [← h.1]
    exact small_first hc sh.registry uptime frame
  | spawnFails | announce | report =>
    refine small_send hc ?_
    exact small_of_not_output rfl
  | @pump stream chunk _ hpump =>
    unfold Conn.pump at hpump
    split at hpump
    · cases chunk with
      | none =>
        obtain rfl := Option.some.inj hpump
        exact hc
      | some bytes =>
        obtain rfl := Option.some.inj hpump
        split
        · exact small_send hc (small_stream (ha stream bytes rfl))
        · exact hc
    · cases hpump
  | write hwrite =>
    unfold Conn.write at hwrite
    split at hwrite
    · obtain rfl := Option.some.inj hwrite
      split <;> exact hc
    · cases hwrite
  | _ => exact hc

/-- In every run whose pumps read what their buffers take, the frames of a connection are small. -/
theorem small_run {env : KeeperEnv} {acts : List Act}
    (hbuffers : Interleaving.Guarded (Buffers k)
      (Interleaving.steps (KeeperState.step env) acts .start)) :
    ∀ frame ∈ ((Interleaving.exec (KeeperState.step env) acts .start).conns k).sent,
      Small frame := by
  refine (Interleaving.invariant (I := fun s => ∀ frame ∈ (s.conns k).sent, Small frame)
    (G := Buffers k) (fun s a next hs ha hstep => ?_) ?_ hbuffers).2
  · cases KeeperState.step_cases hstep with
    | @conn k' a c shared _ _ hconn =>
      by_cases hk : k' = k
      · subst hk
        dsimp only
        rw [Ssh.insertAt_self]
        refine small_step hs (fun stream chunk hpump => ?_) hconn
        subst hpump
        exact ha stream (by cases stream <;> simp) chunk (by simp [pumped])
      · dsimp only
        rw [Ssh.insertAt_of_ne (Ne.symm hk)]
        exact hs
    | ssh | child => exact hs
    | main _ hmain =>
      rw [congrFun hmain.aside.conns k]
      exact hs
    | handler _ hhandler =>
      rw [congrFun hhandler.aside.conns k]
      exact hs
  · intro frame hmem
    cases hmem

/-- A small frame of output can be written, and is read back. -/
theorem fits_output {json : SerdeJson} {frame : Frame} (hframe : frame.isOutput = true)
    (h : Small frame) : frame.Fits json ∧ frame.RoundTrips json := by
  have hle : PUMP_BUFFER ≤ MAX_FRAME_LEN := by decide
  cases frame with
  | stdout bytes =>
    have hbytes : bytes.length ≤ PUMP_BUFFER := h .stdout
    exact ⟨⟨bytes, rfl, hbytes.trans hle⟩, trivial⟩
  | stderr bytes =>
    have hbytes : bytes.length ≤ PUMP_BUFFER := h .stderr
    exact ⟨⟨bytes, rfl, hbytes.trans hle⟩, trivial⟩
  | _ => cases hframe

end Chunks

section Sessions

open Interleaving

/-- A client gets through to a keeper that takes its request and answers with these bytes. -/
structure Connects (h : Host) (sandboxName : String) (spawnReq : SpawnRequest)
    (answer : List UInt8) : Prop where
  peer : ∃ paths pid peer, StatePaths.new h.homeVar sandboxName = .ok paths ∧
    Status.health h.machine (h.sandbox 0 paths) = .ok (.healthy pid) ∧
    h.connect 0 paths.socket = .ok peer ∧
    (writeFrame h.machine.json peer.sink (.spawn spawnReq) []).1 = .ok () ∧ peer.answer = answer
  cloned : h.tryClone = .ok ()

variable {h : Host} {sandboxName : String} {req : ExecRequest} {bytes : List UInt8}

/-- A client that is told of its session streams it. -/
theorem exec_of_spawnOk (hconnects : Connects h sandboxName req.spawnReq bytes) {id : ℕ}
    {rest : List UInt8} (hread : readFrame h.machine.json bytes = (.ok (.spawnOk id), rest)) :
    exec h sandboxName req = .ok (streamSession h.machine.json rest) := by
  obtain ⟨paths, pid, peer, hpaths, hhealth, hpeer, hwrite, rfl⟩ := hconnects.peer
  simp only [exec, connectAndSpawn, hpaths, hhealth, hpeer, hwrite, hread, stream,
    hconnects.cloned]

theorem exec_of_error (hconnects : Connects h sandboxName req.spawnReq bytes) {e : FrameError}
    {rest : List UInt8} (hread : readFrame h.machine.json bytes = (.error e, rest)) :
    exec h sandboxName req = .error (.protocol e) := by
  obtain ⟨paths, pid, peer, hpaths, hhealth, hpeer, hwrite, rfl⟩ := hconnects.peer
  simp only [exec, connectAndSpawn, hpaths, hhealth, hpeer, hwrite, hread]

/-- A frame can be written, and is read back. -/
def Readable (json : SerdeJson) (frame : Frame) : Prop :=
  frame.Fits json ∧ frame.RoundTrips json

/-- What a client makes of the frames of a session, cut somewhere. -/
theorem exec_of_cut (hconnects : Connects h sandboxName req.spawnReq bytes)
    {id : ℕ} {output : Stream → List UInt8} {status : ExitStatus} {frames received : List Frame}
    (hprotocol : Protocol id output status frames) (hreceived : received <+: frames)
    (hfits : ∀ frame ∈ received, Readable h.machine.json frame)
    (hcut : bytes <+: received.flatMap (Frame.encoding h.machine.json)) :
    ((∃ e, exec h sandboxName req = .error (.protocol e)) ∨
      ∃ printed, exec h sandboxName req = .ok printed ∧ printed.stdout <+: output .stdout ∧
        printed.stderr <+: output .stderr ∧
        (printed.code = 1 ∨ received = frames ∧
          printed = ⟨output .stdout, output .stderr, exitCodeFrom status⟩)) ∧
    (received = frames → bytes = received.flatMap (Frame.encoding h.machine.json) →
      exec h sandboxName req =
        .ok ⟨output .stdout, output .stderr, exitCodeFrom status⟩) := by
  obtain ⟨outs, rfl, houts, hbytes⟩ := hprotocol
  have hwhole : follow (outs ++ [.exit status]) =
      ⟨output .stdout, output .stderr, exitCodeFrom status⟩ := by
    rw [follow_outputs houts, hbytes, hbytes]
    simp [follow]
  cases received with
  | nil =>
    obtain rfl := List.prefix_nil.mp hcut
    exact ⟨Or.inl ⟨_, exec_of_error hconnects rfl⟩, nofun⟩
  | cons first received =>
    obtain ⟨rfl, hlater⟩ := List.cons_prefix_cons.mp hreceived
    obtain ⟨⟨hfirst, hround⟩, hrest⟩ := List.forall_mem_cons.mp hfits
    rw [List.flatMap_cons] at hcut ⊢
    by_cases hspawned : (Frame.spawnOk id).encoding h.machine.json <+: bytes
    · obtain ⟨left, rfl⟩ := hspawned
      have hexec := exec_of_spawnOk hconnects (reads_readFrame hfirst hround left)
      obtain ⟨hgot, hall⟩ := readFrames_cut hrest ((List.prefix_append_right_inj _).mp hcut)
      rw [streamSession_eq] at hexec
      generalize readFrames h.machine.json left = got at hexec hgot hall
      refine ⟨Or.inr ⟨follow got, hexec, ?_⟩, fun heq hbytes' => ?_⟩
      · obtain ⟨hstdout, hstderr, hcode⟩ := follow_isPrefix houts (hgot.trans hlater)
        rw [hbytes] at hstdout hstderr
        refine ⟨hstdout, hstderr, hcode.symm.imp_right fun heq => ?_⟩
        rw [heq] at hgot ⊢
        exact ⟨by rw [hgot.eq_of_length_le hlater.length_le], hwhole⟩
      · rw [hexec, hall (List.append_cancel_left hbytes'), (List.cons.inj heq).2, hwhole]
    · -- The cut is within `SpawnOk`.
      have hpiece : bytes <+: (Frame.spawnOk id).encoding h.machine.json :=
        (List.prefix_or_prefix_of_prefix hcut (List.prefix_append _ _)).resolve_right hspawned
      have hne : bytes ≠ (Frame.spawnOk id).encoding h.machine.json := by
        rintro rfl
        exact hspawned (List.prefix_refl _)
      obtain ⟨e, left, herror⟩ := readFrame_strictPrefix hfirst hpiece hne
      refine ⟨Or.inl ⟨e, exec_of_error hconnects herror⟩, fun _ hbytes' => ?_⟩
      exact (hspawned (hbytes' ▸ List.prefix_append _ _)).elim

variable {k : ℕ} {past : List (KeeperState × Act)} {c : Conn} {json : SerdeJson}

/-- What was sent to a client can be written and is read back, if `serde_json` reads back the number
of the session and the status of the child. -/
theorem fits_sent (hc : Speaking k past c) (hsmall : ∀ frame ∈ c.sent, Small frame)
    (hid : Readable json (.spawnOk c.sessionId))
    (hexit : ∀ status, ExitedWith k status past → Readable json (.exit status)) :
    ∀ frame ∈ c.sent, Readable json frame := by
  obtain ⟨outs, last, hsent, houts, -, hnot, hended⟩ := hc.sent
  rw [hsent] at hsmall ⊢
  obtain ⟨-, hrest⟩ := List.forall_mem_cons.mp hsmall
  refine List.forall_mem_cons.mpr ⟨hid, fun frame hmem => ?_⟩
  rcases List.mem_append.mp hmem with hout | hlast
  · exact fits_output (houts frame hout) (hrest frame hmem)
  · by_cases hwaiter : c.waiter = .ended
    · obtain ⟨status, hexited, rfl⟩ := hended hwaiter
      rw [List.mem_singleton.mp hlast]
      exact hexit status hexited
    · rw [hnot hwaiter] at hlast
      cases hlast

/-- A client is told of the end only by the waiter. -/
theorem ended_of_exit (hc : Speaking k past c) {status : ExitStatus}
    (hmem : Frame.exit status ∈ c.sent) : c.waiter = .ended := by
  by_contra hwaiter
  obtain ⟨outs, last, hsent, houts, -, hnot, -⟩ := hc.sent
  rw [hsent, hnot hwaiter, List.append_nil] at hmem
  rcases List.mem_cons.mp hmem with heq | hout
  · cases heq
  · cases houts _ hout

/-- What the client of a session gets, over every interleaving: a part of the protocol that can be
written and is read back, with the child's own status behind it, and the whole once the session is
over. -/
theorem received_protocol {env : KeeperEnv} {acts : List Act} {output : Stream → List UInt8}
    (hdelivers : Guarded (Delivers k) (steps (KeeperState.step env) acts .start))
    (hbuffers : Guarded (Buffers k) (steps (KeeperState.step env) acts .start))
    (hspawned : Spawned k (steps (KeeperState.step env) acts .start))
    (houtput : ∀ stream,
      ReadsOf (output stream) (Keeper.reads k stream (steps (KeeperState.step env) acts .start)))
    (hid : Readable json
      (.spawnOk ((Interleaving.exec (KeeperState.step env) acts .start).conns k).sessionId))
    (hexit : ∀ status, ExitedWith k status (steps (KeeperState.step env) acts .start) →
      Readable json (.exit status)) :
    let s := Interleaving.exec (KeeperState.step env) acts .start
    ∃ status frames, Protocol (s.conns k).sessionId ((s.conns k).outputs output) status frames ∧
      (s.conns k).received <+: frames ∧ (∀ frame ∈ (s.conns k).received, Readable json frame) ∧
      ((s.conns k).received = frames →
        ExitedWith k status (steps (KeeperState.step env) acts .start)) ∧
      (Finished k s → (s.conns k).received = frames) := by
  have htold : Told k (steps (KeeperState.step env) acts .start)
      ((Interleaving.exec (KeeperState.step env) acts .start).conns k) :=
    history (J := fun past s => Told k past (s.conns k))
      (fun _ _ _ _ h hdelivers hstep => h.step hdelivers hstep) told_accepted hdelivers
  have hs : Consistent (Interleaving.exec (KeeperState.step env) acts .start) :=
    (invariant (G := Delivers k) (fun _ _ _ hs _ h => hs.step h) consistent_start hdelivers).2
  have hsmall := small_run hbuffers
  revert hid htold hs hsmall
  generalize Interleaving.exec (KeeperState.step env) acts .start = s
  intro hid htold hs hsmall s'
  rcases htold with hsilent | hrefused | hspeaking
  · have hnone : (s.conns k).received = [] := by
      rw [Conn.received, hsilent.sent, List.take_nil]
    have hnothing : ∀ frame ∈ ([] : List Frame), frame.isOutput = true := fun _ hmem =>
      (List.not_mem_nil hmem).elim
    obtain ⟨frames, hprotocol, hbegins⟩ := protocol_complete hnothing
      (fun stream => List.nil_prefix (l := (s.conns k).outputs output stream))
      (s.conns k).sessionId ⟨none, none⟩
    have hne : (s.conns k).received ≠ frames := by
      rintro heq
      rw [← heq, hnone] at hbegins
      cases List.prefix_nil.mp hbegins
    refine ⟨_, frames, hprotocol, hnone ▸ List.nil_prefix, ?_, fun heq => (hne heq).elim, ?_⟩
    · rw [hnone]
      exact fun _ hmem => (List.not_mem_nil hmem).elim
    · rintro (hreturned | ⟨-, hidle⟩)
      · exact (hsilent.phase hreturned).elim
      · exact (hsilent.not_finished hspawned (hidle (.proceed 0) rfl)).elim
  · exact (hrefused.unspawned hspawned).elim
  · have hfits : ∀ frame ∈ (s.conns k).received, Readable json frame := fun frame hmem =>
      fits_sent hspeaking hsmall hid hexit frame (List.mem_of_mem_take hmem)
    by_cases hended : (s.conns k).waiter = .ended
    · obtain ⟨status, hexited, hprotocol⟩ := hspeaking.protocol houtput hended
      refine ⟨status, _, hprotocol, List.take_prefix _ _, hfits, fun _ => hexited, ?_⟩
      intro hfinished
      have hwritten : (s.conns k).written = (s.conns k).sent.length := by
        rcases hfinished with hreturned | ⟨hchild, hidle⟩
        · exact (hspeaking.finished hreturned).2
        · exact (hspeaking.reported hs hchild hidle).2
      rw [Conn.received, hwritten, List.take_length]
    · obtain ⟨status, frames, hprotocol, hprefix⟩ := hspeaking.begins houtput
      refine ⟨status, frames, hprotocol, (List.take_prefix _ _).trans hprefix, hfits,
        fun heq => ?_, fun hfinished => ?_⟩
      · -- The status would have been sent.
        obtain ⟨outs, rfl, -⟩ := hprotocol
        have hmem : Frame.exit status ∈ (s.conns k).received := by
          rw [heq]
          simp
        exact (hended (ended_of_exit hspeaking (List.mem_of_mem_take hmem))).elim
      · have hreported : (s.conns k).waiter = .ended := by
          rcases hfinished with hreturned | ⟨hchild, hidle⟩
          · exact (hspeaking.finished hreturned).1
          · exact (hspeaking.reported hs hchild hidle).1
        exact (hended hreported).elim

/-- What `devcroft exec` prints and returns, over every interleaving of the keeper's threads, the
child and other clients, and wherever the bytes from the keeper are cut: it fails before its session
has begun, or prints of each stream what comes first in it, and returns 1 unless it has printed all
of both streams and returns the child's own code, or 128 and its signal. If the session is over and
no bytes are lost it does the latter. -/
theorem exec_session {env : KeeperEnv} {acts : List Act} {output : Stream → List UInt8}
    (hdelivers : Guarded (Delivers k) (steps (KeeperState.step env) acts .start))
    (hbuffers : Guarded (Buffers k) (steps (KeeperState.step env) acts .start))
    (hspawned : Spawned k (steps (KeeperState.step env) acts .start))
    (houtput : ∀ stream,
      ReadsOf (output stream) (Keeper.reads k stream (steps (KeeperState.step env) acts .start)))
    (hid : Readable h.machine.json
      (.spawnOk ((Interleaving.exec (KeeperState.step env) acts .start).conns k).sessionId))
    (hexit : ∀ status, ExitedWith k status (steps (KeeperState.step env) acts .start) →
      Readable h.machine.json (.exit status))
    (hconnects : Connects h sandboxName req.spawnReq bytes)
    (hcut : bytes <+:
      ((Interleaving.exec (KeeperState.step env) acts .start).conns k).received.flatMap
        (Frame.encoding h.machine.json)) :
    let s := Interleaving.exec (KeeperState.step env) acts .start
    let output := (s.conns k).outputs output
    ((∃ e, exec h sandboxName req = .error (.protocol e)) ∨
      ∃ printed, exec h sandboxName req = .ok printed ∧ printed.stdout <+: output .stdout ∧
        printed.stderr <+: output .stderr ∧
        (printed.code = 1 ∨
          ∃ status, ExitedWith k status (steps (KeeperState.step env) acts .start) ∧
            printed = ⟨output .stdout, output .stderr, exitCodeFrom status⟩)) ∧
    (Finished k s →
      bytes = (s.conns k).received.flatMap (Frame.encoding h.machine.json) →
      ∃ status, ExitedWith k status (steps (KeeperState.step env) acts .start) ∧
        exec h sandboxName req = .ok ⟨output .stdout, output .stderr, exitCodeFrom status⟩) := by
  obtain ⟨status, frames, hprotocol, hreceived, hfits, hexited, hfinished⟩ :=
    received_protocol hdelivers hbuffers hspawned houtput hid hexit
  obtain ⟨hpart, hall⟩ := exec_of_cut hconnects hprotocol hreceived hfits hcut
  constructor
  · refine hpart.imp_right ?_
    rintro ⟨printed, hexec, hstdout, hstderr, hcode⟩
    exact ⟨printed, hexec, hstdout, hstderr,
      hcode.imp_right fun hwhole => ⟨status, hexited hwhole.1, hwhole.2⟩⟩
  · intro hover hbytes
    exact ⟨status, hexited (hfinished hover), hall (hfinished hover) hbytes⟩

end Sessions

section Chatty

open Interleaving

/-- What `serde_json` does with the values of the chatty session. -/
def chattyJson : SerdeJson where
  spawnRequest := .only ⟨"sh", ["-c", "make"], "/home/u/p", [], none⟩
    ("\x7b\"cmd\":\"sh\",\"args\":[\"-c\",\"make\"],\"cwd\":\"/home/u/p\"," ++
      "\"env\":\x7b\x7d,\"pty\":null\x7d")
  spawnOkPayload := .only ⟨1⟩ "\x7b\"session_id\":1\x7d"
  spawnErrPayload := sampleJson.spawnErrPayload
  ptySize := sampleJson.ptySize
  sessionSignal := sampleJson.sessionSignal
  exitStatus := .only ⟨some 2, none⟩ "\x7b\"code\":2,\"signal\":null\x7d"
  queryResult := sampleJson.queryResult

/-- The bytes that the keeper writes in it. -/
def chattyAnswer : List UInt8 :=
  ((Interleaving.exec (KeeperState.step quietEnv) chattySession .start).conns 0).received.flatMap
    (Frame.encoding chattyJson)

/-- Its client. -/
def chattyHost : Host where
  homeVar := some "/home/u"
  machine := ⟨chattyJson, fun _ => .error "", ⟨fun _ => true, fun _ => .ok 7⟩⟩
  sandbox _ _ := ⟨[], .absent, .bytes (Utf8.encode "41 7"), true, none⟩
  connect _ _ := .ok ⟨Sink.vec, chattyAnswer⟩
  tryClone := .ok ()

/-- What it runs. -/
def chattyRequest : ExecRequest := ⟨"sh", ["-c", "make"], "/home/u/p"⟩

/-- It gets through. -/
theorem connects_chatty : Connects chattyHost "p" chattyRequest.spawnReq chattyAnswer := by
  have hname : Config.isValidName "p" = true := by decide
  have hhealth : Status.health chattyHost.machine
      ⟨[], .absent, .bytes (Utf8.encode "41 7"), true, none⟩ = .ok (.healthy 41) := by
    decide +kernel
  exact ⟨⟨_, 41, ⟨Sink.vec, chattyAnswer⟩, if_pos hname, hhealth, rfl, by decide +kernel, rfl⟩, rfl⟩

theorem spawned_chatty : Spawned 0 (steps (KeeperState.step quietEnv) chattySession .start) := by
  have hspawned : ∃ p ∈ steps (KeeperState.step quietEnv) chattySession .start,
      p.2 = .conn 0 (.spawn (.ok 100)) := by decide +kernel
  obtain ⟨p, hp, heq⟩ := hspawned
  exact ⟨p, hp, 100, heq⟩

theorem reads_chatty : ∀ stream, ReadsOf (chattyOutput stream)
    (reads 0 stream (steps (KeeperState.step quietEnv) chattySession .start)) := by
  rintro (_ | _)
  · exact ⟨by decide +kernel, fun _ => by decide +kernel⟩
  · exact ⟨by decide +kernel, fun _ => by decide +kernel⟩

/-- Its command has exited with 2. -/
theorem status_chatty {status : ExitStatus}
    (h : ExitedWith 0 status (steps (KeeperState.step quietEnv) chattySession .start)) :
    status = ⟨some 2, none⟩ := by
  have hleader : ∀ p ∈ steps (KeeperState.step quietEnv) chattySession .start,
      ∀ g ∈ p.1.shared.groups, g.leader = .running ∨ g.leader = .reaped ∨
        g.leader = .exited ⟨some 2, none⟩ := by decide +kernel
  obtain ⟨p, hp, g, hg, -, hexited⟩ := h
  rcases hleader p hp g hg with hrunning | hreaped | hstatus
  · cases hexited.symm.trans hrunning
  · cases hexited.symm.trans hreaped
  · exact Leader.exited.inj (hexited.symm.trans hstatus)

theorem id_chatty : Readable chattyJson (.spawnOk ((Interleaving.exec (KeeperState.step quietEnv)
    chattySession .start).conns 0).sessionId) := by
  have hsession : ((Interleaving.exec (KeeperState.step quietEnv) chattySession .start).conns
      0).sessionId = 1 := by decide +kernel
  rw [hsession]
  exact ⟨⟨_, rfl, by decide⟩, Codec.roundTrips_only _ _⟩

theorem exit_chatty : ∀ status,
    ExitedWith 0 status (steps (KeeperState.step quietEnv) chattySession .start) →
      Readable chattyJson (.exit status) := by
  intro status h
  rw [status_chatty h]
  exact ⟨⟨_, rfl, by decide⟩, Codec.roundTrips_only _ _⟩

/-- It prints both streams and returns the code of the command. -/
theorem exec_session_chatty :
    ∃ status, exec chattyHost "p" chattyRequest =
      .ok ⟨[1], [104, 105, 10], exitCodeFrom status⟩ := by
  have hpty : ((Interleaving.exec (KeeperState.step quietEnv) chattySession .start).conns
      0).request.pty = none := by decide +kernel
  have hall := exec_session (h := chattyHost) (by decide +kernel) (by decide +kernel)
    spawned_chatty reads_chatty id_chatty exit_chatty connects_chatty (List.prefix_refl _)
  obtain ⟨status, -, hexec⟩ := hall.2 (Or.inl (by decide +kernel)) rfl
  refine ⟨status, hexec.trans ?_⟩
  simp [Conn.outputs, Conn.has, hpty, chattyOutput]

end Chatty

end Devcroft.Exec
