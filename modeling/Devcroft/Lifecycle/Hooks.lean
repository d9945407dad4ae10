import Devcroft.Exec.Client
import Devcroft.Keeper.Sessions
import Devcroft.Lifecycle.Log

/-!
# The hooks of a bring-up

`up` runs the activation script and the hooks of a project as sessions of the keeper that it has
just started, one after the other, and appends to the log what they print. What it makes of a hook
rests on the frames of a session, which may be cut anywhere.
-/

namespace Devcroft.Lifecycle.Log

open Exec Interleaving Keeper

/-- `run_activation_script` and `hooks::run`: the scripts in order, up to the first that fails. -/
def runHooks : List HookRun → List Write × Except HookError Unit
  | [] => ([], .ok ())
  | run :: rest =>
    match run.runOne.2 with
    | .ok () => (run.runOne.1 ++ (runHooks rest).1, (runHooks rest).2)
    | .error e => (run.runOne.1, .error e)

/-- What is appended for a frame of output. -/
def chunkOf : Frame → Write
  | .stdout bytes | .stderr bytes => .output bytes
  | _ => .output []

/-- What is in the log of a hook whose session printed these frames. -/
structure Logged (run : HookRun) (outs : List Frame) : Prop where
  outputs : ∀ frame ∈ outs, frame.isOutput = true
  writes : run.runOne.1 = .header run.name run.cmd :: outs.map chunkOf

/-- What `run_one` asks the keeper to start, in a project. -/
def HookRun.spawnReq (run : HookRun) (root : String) : SpawnRequest :=
  ⟨"sh", ["-c", run.cmd], root, [], none⟩

/-- What was started for a hook was seen to have exited with this status. -/
def HookRun.Exited (run : HookRun) (root : String) (k : ℕ) (status : ExitStatus)
    (past : List (KeeperState × Act)) : Prop :=
  ∃ p ∈ past, ∃ g ∈ p.1.shared.groups,
    g.origin = .control k ∧ g.request = run.spawnReq root ∧ g.leader = .exited status

/-- It is the child of its connection. -/
theorem HookRun.Exited.child {run : HookRun} {root : String} {k : ℕ} {status : ExitStatus}
    {past : List (KeeperState × Act)} (h : run.Exited root k status past) :
    ExitedWith k status past := by
  obtain ⟨p, hp, g, hg, horigin, -, hleader⟩ := h
  exact ⟨p, hp, g, hg, horigin, hleader⟩

/-- A hook that is through: its command has exited with status 0, and the log has its header and all
that it has printed. -/
structure Completed (root : String) (k : ℕ) (past : List (KeeperState × Act))
    (output : Stream → List UInt8) (run : HookRun) : Prop where
  exited : run.Exited root k ⟨some 0, none⟩ past
  logged : ∃ outs, Logged run outs ∧ ∀ stream, outs.flatMap (Frame.bytes stream) = output stream

/-- A hook that is not: its command has exited otherwise, and the error names the hook, or the
connection or the log was in the way. The log has nothing of it, or its header and a first part of
what it has printed. -/
structure Broken (root : String) (k : ℕ) (past : List (KeeperState × Act))
    (output : Stream → List UInt8) (run : HookRun) (e : HookError) : Prop where
  error : e = .connect ∨ e = .protocol ∨
    ∃ status, run.Exited root k status past ∧ hookResult run.name status = .error e
  logged : run.runOne.1 = [] ∨
    ∃ outs, Logged run outs ∧ ∀ stream, outs.flatMap (Frame.bytes stream) <+: output stream

/-- A hook that stops before the end of its session. -/
structure Stopped (run : HookRun) (output : Stream → List UInt8) : Prop where
  error : ∃ e, run.runOne.2 = .error e ∧ (e = .connect ∨ e = .protocol)
  logged : run.runOne.1 = [] ∨
    ∃ outs, Logged run outs ∧ ∀ stream, outs.flatMap (Frame.bytes stream) <+: output stream

section Results

variable {run : HookRun} {status : ExitStatus} {outs : List Frame}

/-- Only status 0 without a signal is a success. -/
theorem hookResult_eq_ok_iff {name : HookName} :
    hookResult name status = .ok () ↔ status = ⟨some 0, none⟩ := by
  obtain ⟨code, signal⟩ := status
  unfold hookResult
  constructor
  · intro h
    split at h
    · next hcode hsignal =>
      dsimp only at hcode hsignal
      rw [hcode, hsignal]
      rfl
    all_goals cases h
  · intro h
    obtain ⟨rfl, rfl⟩ := ExitStatus.mk.inj h
    rfl

/-- An error names its hook. -/
theorem hookResult_error {name : HookName} {e : HookError}
    (h : hookResult name status = .error e) : ∃ detail, e = .failed name detail := by
  unfold hookResult at h
  split at h
  · cases h
  all_goals exact ⟨_, (Except.error.inj h).symm⟩

/-- Frames of output are appended chunk by chunk. -/
theorem forward_outputs (houts : ∀ frame ∈ outs, frame.isOutput = true) (rest : List Frame) :
    forward (outs ++ rest) = (outs.map chunkOf ++ (forward rest).1, (forward rest).2) := by
  induction outs with
  | nil => rfl
  | cons frame outs ih =>
    obtain ⟨hframe, hrest⟩ := List.forall_mem_cons.mp houts
    cases frame <;> simp only [Frame.isOutput, Bool.false_eq_true] at hframe
    all_goals
      rw [List.cons_append, forward, ih hrest]
      rfl

/-- The log can be written to. -/
def HookRun.Ready (run : HookRun) : Prop :=
  run.connects = true ∧ run.sends = true ∧ run.opens = true

/-- A hook that does not come as far as its header. -/
theorem runOne_early (h : ¬run.Ready ∨ run.frames = []) {id : ℕ} {rest : List Frame}
    (hframes : run.frames = [] ∨ run.frames = .spawnOk id :: rest) :
    ∃ e, run.runOne = ([], .error e) ∧ (e = .connect ∨ e = .protocol) := by
  unfold HookRun.runOne
  split
  · exact ⟨_, rfl, Or.inl rfl⟩
  split
  · exact ⟨_, rfl, Or.inr rfl⟩
  next hconnects hsends =>
    rcases hframes with hframes | hframes <;> rw [hframes]
    · exact ⟨_, rfl, Or.inr rfl⟩
    · have hopens : run.opens = false := by
        rcases h with h | h
        · by_contra hopens
          exact h ⟨by simpa using hconnects, by simpa using hsends, by simpa using hopens⟩
        · cases h.symm.trans hframes
      simp only [hopens, if_true]
      exact ⟨_, rfl, Or.inl rfl⟩

/-- What the end of the frames of a hook means. -/
def endOf (name : HookName) : Option ExitStatus → Except HookError Unit
  | some status => hookResult name status
  | none => .error .protocol

/-- One that does. -/
theorem runOne_started (hready : run.Ready) {id : ℕ} {rest : List Frame}
    (hframes : run.frames = .spawnOk id :: rest) :
    run.runOne =
      (.header run.name run.cmd :: (forward rest).1, endOf run.name (forward rest).2) := by
  obtain ⟨hconnects, hsends, hopens⟩ := hready
  simp only [HookRun.runOne, hconnects, hsends, hopens, hframes, Bool.true_eq_false, if_false]
  cases (forward rest).2 <;> rfl

/-- What a hook appends and returns, where its frames are the first ones of a session. -/
theorem runOne_of_isPrefix {id : ℕ} {output : Stream → List UInt8} {frames : List Frame}
    (hprotocol : Protocol id output status frames) (hgot : run.frames <+: frames) :
    (run.frames = frames ∧ run.runOne.2 = hookResult run.name status ∧
      ∃ outs, Logged run outs ∧ ∀ stream, outs.flatMap (Frame.bytes stream) = output stream) ∨
    ((run.frames = frames → ¬run.Ready) ∧ Stopped run output) := by
  obtain ⟨outs, rfl, houts, hbytes⟩ := hprotocol
  have hfirst : run.frames = [] ∨ ∃ rest, run.frames = .spawnOk id :: rest ∧
      rest <+: outs ++ [.exit status] := by
    cases hframes : run.frames with
    | nil => exact Or.inl rfl
    | cons frame rest =>
      rw [hframes] at hgot
      obtain ⟨rfl, hrest⟩ := List.cons_prefix_cons.mp hgot
      exact Or.inr ⟨rest, rfl, hrest⟩
  have hearly : ¬run.Ready ∨ run.frames = [] →
      (run.frames = .spawnOk id :: (outs ++ [.exit status]) → ¬run.Ready) ∧
        Stopped run output := by
    intro hnot
    have hframes : run.frames = [] ∨
        run.frames = .spawnOk id :: (run.frames.drop 1) := by
      rcases hfirst with hnil | ⟨rest, hcons, -⟩
      · exact Or.inl hnil
      · exact Or.inr (by rw [hcons]; rfl)
    obtain ⟨e, hrun, he⟩ := runOne_early hnot hframes
    refine ⟨fun heq => ?_, ⟨e, by rw [hrun], he⟩, Or.inl (by rw [hrun])⟩
    rcases hnot with hnot | hnil
    · exact hnot
    · cases hnil.symm.trans heq
  by_cases hready : run.Ready
  · rcases hfirst with hnil | ⟨rest, hframes, hrest⟩
    · exact Or.inr (hearly (Or.inr hnil))
    · have hrun := runOne_started hready hframes
      rcases List.prefix_concat_iff.mp hrest with rfl | hrest
      · left
        rw [forward_outputs houts] at hrun
        simp only [forward, List.append_nil] at hrun
        refine ⟨hframes, by rw [hrun]; rfl, outs, ⟨houts, by rw [hrun]⟩, hbytes⟩
      · right
        obtain ⟨later, rfl⟩ := hrest
        have hprinted := fun frame hmem => houts frame (List.mem_append_left later hmem)
        have hforward := forward_outputs hprinted []
        rw [List.append_nil] at hforward
        rw [hforward] at hrun
        simp only [forward, List.append_nil] at hrun
        refine ⟨fun heq => ?_, ⟨_, by rw [hrun]; rfl, Or.inr rfl⟩, Or.inr ⟨rest,
          ⟨hprinted, by rw [hrun]⟩, fun stream => ?_⟩⟩
        · -- The frames would be longer than they are.
          rw [hframes] at heq
          have hlength := congrArg List.length heq
          simp at hlength
        · rw [← hbytes stream, List.flatMap_append]
          exact List.prefix_append _ _
  · exact Or.inr (hearly (Or.inl hready))

end Results

section Running

variable {json : SerdeJson} {env : KeeperEnv} {acts : List Act}

/-- A hook's session in a run of the keeper: it is asked for what `run_one` sends, and the frames
are read from what the keeper has written, which may be cut anywhere. -/
structure Attached (json : SerdeJson) (env : KeeperEnv) (acts : List Act) (root : String)
    (run : HookRun) (k : ℕ) (output : Stream → List UInt8) (bytes : List UInt8) : Prop where
  asked : firstFrame k (steps (KeeperState.step env) acts .start) =
    some (some (.spawn (run.spawnReq root)))
  delivers : Guarded (Delivers k) (steps (KeeperState.step env) acts .start)
  buffers : Guarded (Buffers k) (steps (KeeperState.step env) acts .start)
  spawned : Keeper.Spawned k (steps (KeeperState.step env) acts .start)
  reads : ∀ stream,
    ReadsOf (output stream) (Keeper.reads k stream (steps (KeeperState.step env) acts .start))
  id : Readable json
    (.spawnOk ((Interleaving.exec (KeeperState.step env) acts .start).conns k).sessionId)
  exit : ∀ status, ExitedWith k status (steps (KeeperState.step env) acts .start) →
    Readable json (.exit status)
  cut : bytes <+: ((Interleaving.exec (KeeperState.step env) acts .start).conns
    k).received.flatMap (Frame.encoding json)
  frames : run.frames = readFrames json bytes

/-- Its session is over, and nothing of it is lost. -/
structure Undisturbed (json : SerdeJson) (env : KeeperEnv) (acts : List Act) (run : HookRun) (k : ℕ)
    (bytes : List UInt8) : Prop where
  ended : Finished k (Interleaving.exec (KeeperState.step env) acts .start)
  whole : bytes = ((Interleaving.exec (KeeperState.step env) acts .start).conns
    k).received.flatMap (Frame.encoding json)
  ready : run.Ready

variable {root : String} {run : HookRun} {k : ℕ} {output : Stream → List UInt8}
  {bytes : List UInt8}

/-- The child of its connection is the one that runs its command. -/
theorem Attached.exited (h : Attached json env acts root run k output bytes) {status : ExitStatus}
    (hexited : ExitedWith k status (steps (KeeperState.step env) acts .start)) :
    run.Exited root k status (steps (KeeperState.step env) acts .start) := by
  obtain ⟨p, hp, g, hg, horigin, hleader⟩ := hexited
  exact ⟨p, hp, g, hg, horigin, request_of_asked h.asked hp hg horigin, hleader⟩

/-- A hook is completed or broken; where its session is over and nothing of it is lost, it depends
on the status of its command alone. -/
theorem Attached.session (h : Attached json env acts root run k output bytes) :
    let s := Interleaving.exec (KeeperState.step env) acts .start
    let past := steps (KeeperState.step env) acts .start
    ((run.runOne.2 = .ok () ∧ Completed root k past ((s.conns k).outputs output) run) ∨
      ∃ e, run.runOne.2 = .error e ∧ Broken root k past ((s.conns k).outputs output) run e) ∧
    (Undisturbed json env acts run k bytes →
      ∃ status, run.Exited root k status past ∧ run.runOne.2 = hookResult run.name status) := by
  intro s past
  obtain ⟨status, frames, hprotocol, hreceived, hfits, hexited, hfinished⟩ :=
    received_protocol h.delivers h.buffers h.spawned h.reads h.id h.exit
  obtain ⟨hgot, hall⟩ := readFrames_cut hfits h.cut
  rw [← h.frames] at hgot hall
  rcases runOne_of_isPrefix hprotocol (hgot.trans hreceived) with
    ⟨hframes, hresult, houts⟩ | ⟨hready, hstopped⟩
  · have hexited : run.Exited root k status past :=
      h.exited (hexited (hreceived.eq_of_length_le (hframes ▸ hgot.length_le)))
    refine ⟨?_, fun _ => ⟨status, hexited, hresult⟩⟩
    cases hok : hookResult run.name status with
    | ok u =>
      obtain rfl := hookResult_eq_ok_iff.mp hok
      exact Or.inl ⟨hresult.trans hok, hexited, houts⟩
    | error e =>
      obtain ⟨outs, hlogged, hbytes⟩ := houts
      refine Or.inr ⟨e, hresult.trans hok, Or.inr (Or.inr ⟨status, hexited, hok⟩), Or.inr
        ⟨outs, hlogged, fun stream => ?_⟩⟩
      rw [hbytes]
  · obtain ⟨e, herror, he⟩ := hstopped.error
    refine ⟨Or.inr ⟨e, herror, ?_, hstopped.logged⟩, fun hwell => ?_⟩
    · exact he.imp_right Or.inl
    · exact (hready ((hall hwell.whole).trans (hfinished hwell.ended)) hwell.ready).elim

end Running

section Chatty

/-- A hook that prints on both streams and exits with 2. -/
def chattyHook : HookRun :=
  ⟨.postCreate, "make", true, true, true, readFrames chattyJson chattyAnswer⟩

end Chatty

end Devcroft.Lifecycle.Log
