import Mathlib.Data.List.ReduceOption
import Devcroft.Library.Interleaving
import Devcroft.Keeper.Consistency

/-!
# What a session says

The pumps, the waiter and the connection's own thread send to one writer. What a client
gets is `SpawnOk`, the output of both streams in the order of each, and `Exit` last: the
waiter reports the status only once the pumps have ended, and a pump ends only when its
stream does.
-/

namespace Devcroft.Keeper

open Ssh Interleaving

/-- What a frame carries of a stream. -/
def Frame.bytes (stream : Stream) : Frame → List UInt8
  | stdout bytes => if stream = .stdout then bytes else []
  | stderr bytes => if stream = .stderr then bytes else []
  | _ => []

/-- `Stdout` or `Stderr`. -/
def Frame.isOutput : Frame → Bool
  | stdout _ => true
  | stderr _ => true
  | _ => false

/-- The streams of a session: a pty merges them into one. -/
def Conn.has (c : Conn) (stream : Stream) : Bool := stream = .stdout || c.request.pty.isNone

/-- The frames that the client got. -/
def Conn.received (c : Conn) : List Frame := c.sent.take c.written

/-- What the pump of a stream was told, of a step of the `k`-th connection. -/
def pumped (k : ℕ) (stream : Stream) : Act → Option (Option (List UInt8))
  | .conn k' (.pump stream' chunk) => if k' = k ∧ stream' = stream then some chunk else none
  | _ => none

/-- What the reads of a stream returned so far: chunks, and `none` for the end or `EIO`. -/
def reads (k : ℕ) (stream : Stream) (taken : List (KeeperState × Act)) :
    List (Option (List UInt8)) :=
  taken.filterMap fun p => pumped k stream p.2

/-- Reads of a stream that produces these bytes up to its end. -/
structure ReadsOf (output : List UInt8) (answers : List (Option (List UInt8))) : Prop where
  chunks : answers.reduceOption.flatten <+: output
  ends : none ∈ answers → answers.reduceOption.flatten = output

/-- `backend.spawn` has succeeded for the `k`-th connection. -/
def Spawned (k : ℕ) (taken : List (KeeperState × Act)) : Prop :=
  ∃ p ∈ taken, ∃ pid, p.2 = .conn k (.spawn (.ok pid))

/-- The child of the `k`-th connection was seen to have exited with this status. -/
def ExitedWith (k : ℕ) (status : ExitStatus) (taken : List (KeeperState × Act)) : Prop :=
  ∃ p ∈ taken, ∃ g ∈ p.1.shared.groups, g.origin = .control k ∧ g.leader = .exited status

/-- What is assumed of a step: writes to the client of the `k`-th connection do not fail. -/
def Delivers (k : ℕ) : Guard KeeperState Act := fun _ a => a ≠ .conn k (.write false)

instance (k : ℕ) (s : KeeperState) (a : Act) : Decidable (Delivers k s a) :=
  inferInstanceAs (Decidable (a ≠ _))

/-- The actions of a connection's threads that do not wait for the client. -/
def ConnAct.own : ConnAct → Bool
  | proceed _ => true
  | pump _ _ => true
  | write _ => true
  | wait => true
  | _ => false

/-- The session of the `k`-th connection is over: its child does not run, and its threads have
nothing left to do, or were all joined. -/
def Finished (k : ℕ) (s : KeeperState) : Prop :=
  (s.conns k).phase = .returned ∨
    ((∀ g ∈ s.shared.groups, g.origin = .control k → g.leader ≠ .running) ∧
      ∀ a : ConnAct, a.own = true → (s.conns k).step k s.shared a = none)

/-- What the client of a session is to get. -/
def Protocol (id : ℕ) (output : Stream → List UInt8) (status : ExitStatus) (frames : List Frame) :
    Prop :=
  ∃ outs : List Frame, frames = .spawnOk id :: (outs ++ [.exit status]) ∧
    (∀ frame ∈ outs, frame.isOutput = true) ∧
    ∀ stream, outs.flatMap (Frame.bytes stream) = output stream

/-- The output of the streams that a session has. -/
def Conn.outputs (c : Conn) (output : Stream → List UInt8) (stream : Stream) : List UInt8 :=
  if c.has stream then output stream else []

section Past

variable {k : ℕ} {stream : Stream} {past : List (KeeperState × Act)} {s : KeeperState} {a : Act}

theorem reads_append (p : KeeperState × Act) :
    reads k stream (past ++ [p]) = reads k stream past ++ (pumped k stream p.2).toList := by
  cases h : pumped k stream p.2 <;> simp [reads, h]

theorem reads_append_of_none {p : KeeperState × Act} (h : pumped k stream p.2 = none) :
    reads k stream (past ++ [p]) = reads k stream past := by
  rw [reads_append, h, Option.toList_none, List.append_nil]

theorem Spawned.later (h : Spawned k past) (p : KeeperState × Act) : Spawned k (past ++ [p]) := by
  obtain ⟨q, hq, pid, heq⟩ := h
  exact ⟨q, List.mem_append_left _ hq, pid, heq⟩

theorem ExitedWith.later {status : ExitStatus} (h : ExitedWith k status past)
    (p : KeeperState × Act) : ExitedWith k status (past ++ [p]) := by
  obtain ⟨q, hq, hg⟩ := h
  exact ⟨q, List.mem_append_left _ hq, hg⟩

/-- Only the spawn itself makes a session spawned. -/
theorem spawned_append {p : KeeperState × Act} (h : Spawned k (past ++ [p])) :
    Spawned k past ∨ ∃ pid, p.2 = .conn k (.spawn (.ok pid)) := by
  obtain ⟨q, hq, pid, heq⟩ := h
  rcases List.mem_append.mp hq with hq | hq
  · exact Or.inl ⟨q, hq, pid, heq⟩
  · obtain rfl := List.mem_singleton.mp hq
    exact Or.inr ⟨pid, heq⟩

/-- `child.wait` returns the status with which the child has exited. -/
theorem exitedWith_of_reap {status : ExitStatus} {groups : List Group}
    (h : reap (.control k) s.shared.groups = some (status, groups)) :
    ExitedWith k status (past ++ [(s, a)]) := by
  unfold reap at h
  split at h
  · cases h
  · next g hfind =>
    have ho : g.origin = .control k := by
      have hfound := List.find?_some hfind
      exact of_decide_eq_true hfound
    split at h
    · next status' hleader =>
      obtain ⟨rfl, -⟩ := Prod.mk.inj (Option.some.inj h)
      exact ⟨(s, a), by simp, g, List.mem_of_find?_eq_some hfind, ho, hleader⟩
    · cases h

end Past

section Told

variable {k : ℕ} {past : List (KeeperState × Act)} {c c' : Conn} {sh sh' : Shared}

/-- A connection that has sent nothing yet. -/
structure Silent (k : ℕ) (past : List (KeeperState × Act)) (c : Conn) : Prop where
  stage : c.phase.stage ≠ .started
  phase : c.phase ≠ .returned
  waiter : c.waiter = .notStarted
  sent : c.sent = []
  written : c.written = 0
  receiving : c.receiving = true
  pumps : ∀ stream, c.pumps stream = false
  reads : ∀ stream, reads k stream past = []
  spawned : Spawned k past → c.phase.stage ≠ .unspawned

/-- A connection that was answered without a session. -/
structure Refused (k : ℕ) (past : List (KeeperState × Act)) (c : Conn) : Prop where
  phase : c.phase = .returned
  waiter : c.waiter = .notStarted
  pumps : ∀ stream, c.pumps stream = false
  unspawned : ¬Spawned k past

/-- A connection whose session was announced: what was sent so far is what the pumps have read,
and the status only if the waiter is through. -/
structure Speaking (k : ℕ) (past : List (KeeperState × Act)) (c : Conn) : Prop where
  stage : c.phase.stage = .started ∨ c.phase = .returned
  waiter : c.waiter ≠ .notStarted
  receiving : c.receiving = true
  written : c.written ≤ c.sent.length
  sent : ∃ outs last : List Frame, c.sent = .spawnOk c.sessionId :: (outs ++ last) ∧
    (∀ frame ∈ outs, frame.isOutput = true) ∧
    (∀ stream, outs.flatMap (Frame.bytes stream) = (reads k stream past).reduceOption.flatten) ∧
    (c.waiter ≠ .ended → last = []) ∧
    (c.waiter = .ended → ∃ status, ExitedWith k status past ∧ last = [.exit status])
  told : ∀ status, c.waiter = .reaped status ∨ c.waiter = .removed status →
    ExitedWith k status past
  absent : ∀ stream, c.has stream = false → c.pumps stream = false ∧ reads k stream past = []
  stopped : ∀ stream, c.has stream = true → c.pumps stream = false → none ∈ reads k stream past
  joined : c.waiter ≠ .pumping → ∀ stream, c.pumps stream = false
  finished : c.phase = .returned → c.waiter = .ended ∧ c.written = c.sent.length

/-- What is known of a connection to whose client writes do not fail. -/
def Told (k : ℕ) (past : List (KeeperState × Act)) (c : Conn) : Prop :=
  Silent k past c ∨ Refused k past c ∨ Speaking k past c

theorem told_accepted : Told k [] .accepted :=
  Or.inl ⟨by decide, by decide, rfl, rfl, rfl, rfl, fun _ => rfl, fun _ => rfl,
    fun ⟨_, hp, _⟩ => nomatch hp⟩

/-- A step in which no pump of the connection moves. -/
theorem Speaking.later (h : Speaking k past c) {p : KeeperState × Act}
    (hpumped : ∀ stream, pumped k stream p.2 = none) : Speaking k (past ++ [p]) c := by
  have hreads : ∀ stream, Keeper.reads k stream (past ++ [p]) = Keeper.reads k stream past :=
    fun stream => reads_append_of_none (hpumped stream)
  refine { h with
    sent := ?_
    told := fun status hw => (h.told status hw).later p
    absent := fun stream hhas => ⟨(h.absent stream hhas).1,
      (hreads stream).trans (h.absent stream hhas).2⟩
    stopped := fun stream hhas hpumps => by
      rw [hreads]
      exact h.stopped stream hhas hpumps }
  obtain ⟨outs, last, hsent, houts, hbytes, hnot, hended⟩ := h.sent
  refine ⟨outs, last, hsent, houts, fun stream => ?_, hnot, fun hw => ?_⟩
  · rw [hreads]
    exact hbytes stream
  · obtain ⟨status, hexited, hlast⟩ := hended hw
    exact ⟨status, hexited.later p, hlast⟩

/-- The connection's thread goes on. -/
theorem Speaking.moved (h : Speaking k past c) {phase : Phase} {stdin : Bool}
    (hstage : phase.stage = .started) :
    Speaking k past { c with phase := phase, stdin := stdin } where
  stage := Or.inl hstage
  waiter := h.waiter
  receiving := h.receiving
  written := h.written
  sent := h.sent
  told := h.told
  absent := h.absent
  stopped := h.stopped
  joined := h.joined
  finished := by
    rintro rfl
    cases hstage

/-- A step of others. -/
theorem Told.others (h : Told k past c) {p : KeeperState × Act} (hp : ∀ a, p.2 ≠ .conn k a) :
    Told k (past ++ [p]) c := by
  have hpumped : ∀ stream, pumped k stream p.2 = none := by
    intro stream
    unfold pumped
    split
    · next k' stream' chunk heq =>
      refine if_neg ?_
      rintro ⟨rfl, -⟩
      exact hp _ heq
    · rfl
  have hspawned : Spawned k (past ++ [p]) → Spawned k past := by
    intro h
    rcases spawned_append h with h | ⟨pid, heq⟩
    · exact h
    · exact (hp _ heq).elim
  rcases h with h | h | h
  · exact Or.inl { h with
      reads := fun stream => (reads_append_of_none (hpumped stream)).trans (h.reads stream)
      spawned := fun hs => h.spawned (hspawned hs) }
  · exact Or.inr (Or.inl { h with unspawned := fun hs => h.unspawned (hspawned hs) })
  · exact Or.inr (Or.inr (h.later hpumped))

@[simp] theorem Conn.send_pumps (c : Conn) (frame : Frame) : (c.send frame).pumps = c.pumps := by
  unfold Conn.send
  split <;> rfl

/-- A connection ends before there is a session. -/
theorem Silent.refused (h : Silent k past c) (hstage : c.phase.stage = .unspawned)
    {p : KeeperState × Act} (hp : ∀ pid, p.2 ≠ .conn k (.spawn (.ok pid)))
    (hphase : c'.phase = .returned) (hwaiter : c'.waiter = c.waiter) (hpumps : c'.pumps = c.pumps) :
    Refused k (past ++ [p]) c' where
  phase := hphase
  waiter := hwaiter.trans h.waiter
  pumps stream := by
    rw [hpumps]
    exact h.pumps stream
  unspawned hs := by
    rcases spawned_append hs with hs | ⟨pid, heq⟩
    · exact h.spawned hs hstage
    · exact hp pid heq

/-- A connection goes on towards its session. -/
theorem Silent.moved (h : Silent k past c) {p : KeeperState × Act}
    (hpumped : ∀ stream, pumped k stream p.2 = none) {phase : Phase} (request : SpawnRequest)
    (pgid sessionId : ℕ) (hstage : phase.stage ≠ .started) (hphase : phase ≠ .returned)
    (hspawned : Spawned k (past ++ [p]) → phase.stage ≠ .unspawned) :
    Silent k (past ++ [p])
      { c with phase := phase, request := request, pgid := pgid, sessionId := sessionId } where
  stage := hstage
  phase := hphase
  waiter := h.waiter
  sent := h.sent
  written := h.written
  receiving := h.receiving
  pumps := h.pumps
  reads stream := (reads_append_of_none (hpumped stream)).trans (h.reads stream)
  spawned := hspawned

/-- The session is announced. -/
theorem Silent.announced (h : Silent k past c) {p : KeeperState × Act}
    (hpumped : ∀ stream, pumped k stream p.2 = none) :
    Speaking k (past ++ [p]) { c.send (.spawnOk c.sessionId) with
      phase := .reading
      waiter := .pumping
      pumps := fun stream => stream = .stdout || c.request.pty.isNone
      stdin := true } := by
  have hreads : ∀ stream, Keeper.reads k stream (past ++ [p]) = [] :=
    fun stream => (reads_append_of_none (hpumped stream)).trans (h.reads stream)
  have hsend : c.send (.spawnOk c.sessionId) = { c with sent := [.spawnOk c.sessionId] } := by
    rw [Conn.send, if_pos h.receiving, h.sent, List.nil_append]
  rw [hsend]
  refine ⟨Or.inl rfl, by simp, h.receiving, ?_, ⟨[], [], rfl, by simp, ?_, by simp, by simp⟩,
    by simp, ?_, ?_, by simp, by simp⟩
  · rw [h.written]
    exact Nat.zero_le _
  · intro stream
    rw [hreads]
    rfl
  · intro stream hhas
    exact ⟨hhas, hreads stream⟩
  · intro stream hhas hpumps
    cases hhas.symm.trans hpumps

/-- The first steps of a connection, up to `SpawnOk`. -/
theorem Silent.step (h : Silent k past c) {s : KeeperState} {a : ConnAct}
    (hstep : c.step k sh a = some (c', sh')) : Told k (past ++ [(s, .conn k a)]) c' := by
  have hlater : (∀ pid, a ≠ .spawn (.ok pid)) → Spawned k (past ++ [(s, .conn k a)]) →
      c.phase.stage ≠ .unspawned := by
    intro ha hs
    rcases spawned_append hs with hs | ⟨pid, heq⟩
    · exact h.spawned hs
    · exact (ha pid (Act.conn.inj heq).2).elim
  cases Conn.step_cases hstep with
  | accept hphase =>
    refine Or.inl (h.moved (fun _ => rfl) _ _ _ (by decide) (by decide) fun hs => ?_)
    exact (hlater (by simp) hs (by rw [hphase]; rfl)).elim
  | answer out hphase =>
    have hstage : c.phase.stage = .unspawned := by rw [hphase]; rfl
    exact Or.inr (Or.inl (h.refused hstage (by simp) rfl (by simp) (by simp)))
  | hangUp hphase =>
    have hstage : c.phase.stage = .unspawned := by rw [hphase]; rfl
    exact Or.inr (Or.inl (h.refused hstage (by simp) rfl rfl rfl))
  | spawnFails hphase =>
    have hstage : c.phase.stage = .unspawned := by rw [hphase]; rfl
    exact Or.inr (Or.inl (h.refused hstage (by simp) rfl (by simp) (by simp)))
  | spawn | number | insert =>
    exact Or.inl (h.moved (fun _ => rfl) _ _ _ (by decide) (by decide) fun _ => by decide)
  | announce => exact Or.inr (Or.inr (h.announced fun _ => rfl))
  | giveUp _ hreceiving => exact (hreceiving h.receiving).elim
  | frame _ hphase | signal hphase | terminate hphase | kill hphase | join hphase =>
    exact (h.stage (by rw [hphase]; rfl)).elim
  | look hphase =>
    rcases hphase with hphase | hphase | hphase <;> exact (h.stage (by rw [hphase]; rfl)).elim
  | pump hpump =>
    rw [Conn.pump, if_neg (by simp [h.pumps])] at hpump
    cases hpump
  | write hwrite =>
    rw [Conn.write, if_neg (by simp [h.sent])] at hwrite
    cases hwrite
  | joinPumps hwaiter | reap hwaiter | remove hwaiter | report hwaiter =>
    rw [h.waiter] at hwaiter
    cases hwaiter

/-- A connection that was refused is over, but for what the writer has left. -/
theorem Refused.step (h : Refused k past c) {s : KeeperState} {a : ConnAct}
    (hstep : c.step k sh a = some (c', sh')) : Refused k (past ++ [(s, .conn k a)]) c' := by
  have hspawned : (∀ pid, a ≠ .spawn (.ok pid)) → ¬Spawned k (past ++ [(s, .conn k a)]) := by
    intro ha hs
    rcases spawned_append hs with hs | ⟨pid, heq⟩
    · exact h.unspawned hs
    · exact ha pid (Act.conn.inj heq).2
  cases Conn.step_cases hstep with
  | accept hphase | answer _ hphase | hangUp hphase | frame _ hphase | signal hphase
  | spawnFails hphase | spawn hphase | number hphase | insert hphase | announce hphase
  | giveUp hphase | terminate hphase | kill hphase | join hphase =>
    rw [h.phase] at hphase
    cases hphase
  | look hphase =>
    rw [h.phase] at hphase
    rcases hphase with hphase | hphase | hphase <;> cases hphase
  | pump hpump =>
    rw [Conn.pump, if_neg (by simp [h.pumps])] at hpump
    cases hpump
  | write hwrite =>
    obtain ⟨hphase, hwaiter, -, -⟩ := Conn.write_eq_some hwrite
    refine ⟨hphase.trans h.phase, hwaiter.trans h.waiter, ?_, hspawned (by simp)⟩
    unfold Conn.write at hwrite
    split at hwrite
    · obtain rfl := Option.some.inj hwrite
      split <;> exact h.pumps
    · cases hwrite
  | joinPumps hwaiter | reap hwaiter | remove hwaiter | report hwaiter =>
    rw [h.waiter] at hwaiter
    cases hwaiter

/-- What is known of a connection one of whose pumps runs. -/
theorem Speaking.running (h : Speaking k past c) {stream : Stream}
    (hpumps : c.pumps stream = true) :
    c.has stream = true ∧ c.waiter = .pumping ∧ c.phase ≠ .returned := by
  have hwaiter : c.waiter = .pumping := by
    by_contra hne
    rw [h.joined hne stream] at hpumps
    cases hpumps
  refine ⟨?_, hwaiter, fun hphase => ?_⟩
  · by_contra hnot
    rw [(h.absent stream (by simpa using hnot)).1] at hpumps
    cases hpumps
  · rw [(h.finished hphase).1] at hwaiter
    cases hwaiter

/-- What a pump is told is one more answer of its stream, and of no other. -/
theorem reads_pump (s : KeeperState) (stream stream' : Stream) (chunk : Option (List UInt8)) :
    reads k stream' (past ++ [(s, .conn k (.pump stream chunk))]) =
      reads k stream' past ++ if stream = stream' then [chunk] else [] := by
  rw [reads_append]
  by_cases hstream : stream = stream'
  · simp [pumped, hstream]
  · simp [pumped, hstream]

/-- A pump leaves what is known of a stream that is not there. -/
theorem Speaking.absent_pump (h : Speaking k past c) {s : KeeperState} {stream stream' : Stream}
    {chunk : Option (List UInt8)} (hhas : c.has stream = true) (hnot : c.has stream' = false) :
    reads k stream' (past ++ [(s, .conn k (.pump stream chunk))]) = [] := by
  have hne : stream ≠ stream' := by
    rintro rfl
    exact Bool.false_ne_true (hnot.symm.trans hhas)
  rw [reads_pump, if_neg hne, List.append_nil]
  exact (h.absent stream' hnot).2

/-- A frame of output carries bytes of its own stream only. -/
theorem Stream.bytes_frame (stream stream' : Stream) (bytes : List UInt8) :
    (stream.frame bytes).bytes stream' = if stream = stream' then bytes else [] := by
  cases stream <;> cases stream' <;> rfl

theorem Stream.isOutput_frame (stream : Stream) (bytes : List UInt8) :
    (stream.frame bytes).isOutput = true := by
  cases stream <;> rfl

/-- A pump hands on what it has read. -/
theorem Speaking.hands (h : Speaking k past c) {s : KeeperState} {stream : Stream}
    (hpumps : c.pumps stream = true) (bytes : List UInt8) :
    Speaking k (past ++ [(s, .conn k (.pump stream (some bytes)))])
      { c with sent := c.sent ++ [stream.frame bytes] } := by
  obtain ⟨hhas, hwaiter, hphase⟩ := h.running hpumps
  refine { h with
    written := ?_
    sent := ?_
    told := fun status hw => (h.told status hw).later _
    absent := fun stream' hnot => ⟨(h.absent stream' hnot).1, h.absent_pump hhas hnot⟩
    stopped := fun stream' hhas' hpumps' => ?_
    finished := fun hreturned => (hphase hreturned).elim }
  · have hle := h.written
    simp only [List.length_append, List.length_singleton]
    omega
  · obtain ⟨outs, last, hsent, houts, hbytes, hnot, -⟩ := h.sent
    have hended : c.waiter ≠ .ended := by rw [hwaiter]; simp
    obtain rfl := hnot hended
    refine ⟨outs ++ [stream.frame bytes], [], by simp [hsent], fun frame hframe => ?_,
      fun stream' => ?_, fun _ => rfl, fun hw => (hended hw).elim⟩
    · rcases List.mem_append.mp hframe with hframe | hframe
      · exact houts frame hframe
      · rw [List.mem_singleton.mp hframe]
        exact stream.isOutput_frame bytes
    · rw [List.flatMap_append, hbytes, reads_pump, List.reduceOption_append, List.flatten_append,
        List.flatMap_singleton, Stream.bytes_frame]
      split <;> simp
  · rw [reads_pump]
    exact List.mem_append_left _ (h.stopped stream' hhas' hpumps')

/-- A pump ends with its stream. -/
theorem Speaking.ends (h : Speaking k past c) {s : KeeperState} {stream : Stream}
    (hpumps : c.pumps stream = true) :
    Speaking k (past ++ [(s, .conn k (.pump stream none))])
      { c with pumps := fun s => s ≠ stream && c.pumps s } := by
  obtain ⟨hhas, hwaiter, hphase⟩ := h.running hpumps
  refine { h with
    sent := ?_
    told := fun status hw => (h.told status hw).later _
    absent := fun stream' hnot => ⟨?_, h.absent_pump hhas hnot⟩
    stopped := fun stream' hhas' hpumps' => ?_
    joined := fun hne => (hne hwaiter).elim
    finished := fun hreturned => (hphase hreturned).elim }
  · obtain ⟨outs, last, hsent, houts, hbytes, hnot, -⟩ := h.sent
    refine ⟨outs, last, hsent, houts, fun stream' => ?_, hnot, fun hw => ?_⟩
    · rw [hbytes, reads_pump, List.reduceOption_append]
      split <;> simp [List.reduceOption]
    · rw [hwaiter] at hw
      cases hw
  · dsimp only
    rw [(h.absent stream' hnot).1, Bool.and_false]
  · rw [reads_pump]
    by_cases hstream : stream = stream'
    · simp [hstream]
    · have hstopped : c.pumps stream' = false := by simpa [Ne.symm hstream] using hpumps'
      exact List.mem_append_left _ (h.stopped stream' hhas' hstopped)

/-- A step of a pump. -/
theorem Speaking.pump (h : Speaking k past c) {s : KeeperState} {stream : Stream}
    {chunk : Option (List UInt8)} (hpump : c.pump stream chunk = some c') :
    Speaking k (past ++ [(s, .conn k (.pump stream chunk))]) c' := by
  unfold Conn.pump at hpump
  split at hpump
  · next hpumps =>
    cases chunk with
    | none =>
      obtain rfl := Option.some.inj hpump
      exact h.ends hpumps
    | some bytes =>
      obtain rfl := Option.some.inj hpump
      rw [if_pos h.receiving, Conn.send, if_pos h.receiving]
      exact h.hands hpumps bytes
  · cases hpump

/-- A step of the waiter. -/
theorem Speaking.wait (h : Speaking k past c) {s : KeeperState}
    (hwait : ConnStep k c s.shared .wait c' sh') :
    Speaking k (past ++ [(s, .conn k .wait)]) c' := by
  have hlater : Speaking k (past ++ [(s, .conn k .wait)]) c := h.later fun _ => rfl
  have hphase : c.waiter ≠ .ended → c.phase ≠ .returned :=
    fun hne hreturned => hne (h.finished hreturned).1
  obtain ⟨outs, last, hsent, houts, hbytes, hnot, -⟩ := hlater.sent
  cases hwait with
  | joinPumps hwaiter hpumps =>
    have hlast := hnot (by rw [hwaiter]; simp)
    exact { hlater with
      waiter := by simp
      sent := ⟨outs, last, hsent, houts, hbytes, fun _ => hlast, by simp⟩
      told := by simp
      joined := fun _ => hpumps
      finished := fun hreturned => (hphase (by rw [hwaiter]; simp) hreturned).elim }
  | @reap status groups hwaiter hreap =>
    have hlast := hnot (by rw [hwaiter]; simp)
    refine { hlater with
      waiter := by simp
      sent := ⟨outs, last, hsent, houts, hbytes, fun _ => hlast, by simp⟩
      told := fun status' hw => ?_
      joined := fun _ => hlater.joined (by rw [hwaiter]; simp)
      finished := fun hreturned => (hphase (by rw [hwaiter]; simp) hreturned).elim }
    obtain rfl : status = status' := by simpa using hw
    exact exitedWith_of_reap hreap
  | @remove status hwaiter =>
    have hlast := hnot (by rw [hwaiter]; simp)
    refine { hlater with
      waiter := by simp
      sent := ⟨outs, last, hsent, houts, hbytes, fun _ => hlast, by simp⟩
      told := fun status' hw => hlater.told status' (Or.inl ?_)
      joined := fun _ => hlater.joined (by rw [hwaiter]; simp)
      finished := fun hreturned => (hphase (by rw [hwaiter]; simp) hreturned).elim }
    obtain rfl : status = status' := by simpa using hw
    exact hwaiter
  | @report status hwaiter =>
    obtain rfl := hnot (by rw [hwaiter]; simp)
    have hexited := hlater.told status (Or.inr hwaiter)
    rw [Conn.send, if_pos h.receiving]
    refine { hlater with
      waiter := by simp
      written := ?_
      sent := ⟨outs, [.exit status], by simp [hsent], houts, hbytes, by simp,
        fun _ => ⟨status, hexited, rfl⟩⟩
      told := by simp
      joined := fun _ => hlater.joined (by rw [hwaiter]; simp)
      finished := fun hreturned => (hphase (by rw [hwaiter]; simp) hreturned).elim }
    have hle := h.written
    simp only [List.length_append, List.length_singleton]
    omega

/-- The steps of a connection whose session was announced. -/
theorem Speaking.step (h : Speaking k past c) {s : KeeperState} {a : ConnAct}
    (hdelivers : a ≠ .write false) (hstep : c.step k s.shared a = some (c', sh')) :
    Speaking k (past ++ [(s, .conn k a)]) c' := by
  have hbefore : ∀ {P : Prop}, c.phase.stage ≠ .started → c.phase ≠ .returned → P :=
    fun hstage hphase => (h.stage.elim hstage hphase).elim
  have hcases := Conn.step_cases hstep
  cases hcases with
  | accept hphase | answer _ hphase | hangUp hphase | spawnFails hphase | spawn hphase
  | number hphase | insert hphase | announce hphase | giveUp hphase =>
    exact hbefore (by rw [hphase]; decide) (by rw [hphase]; decide)
  | frame _ _ _ hnext =>
    refine (h.later fun _ => rfl).moved ?_
    rcases hnext with rfl | rfl <;> rfl
  | look _ hnext =>
    refine (h.later fun _ => rfl).moved ?_
    rcases hnext with rfl | rfl | rfl | ⟨rfl | rfl, -⟩ <;> rfl
  | signal | terminate | kill => exact (h.later fun _ => rfl).moved rfl
  | @join now _ hwaiter hwritten =>
    have hlater : Speaking k (past ++ [(s, .conn k (.proceed now))]) c := h.later fun _ => rfl
    refine { hlater with
      stage := Or.inr rfl
      finished := fun _ => ⟨hwaiter, hwritten.resolve_left ?_⟩ }
    rw [h.receiving]
    simp
  | pump hpump => exact h.pump hpump
  | @write succeeds _ hwrite =>
    obtain rfl : succeeds = true := by
      by_contra hnot
      exact hdelivers (by rw [Bool.not_eq_true] at hnot; rw [hnot])
    have hlater : Speaking k (past ++ [(s, .conn k (.write true))]) c := h.later fun _ => rfl
    unfold Conn.write at hwrite
    split at hwrite
    · next hleft =>
      obtain rfl := Option.some.inj hwrite
      refine { hlater with
        written := hleft.2
        finished := fun hreturned => ?_ }
      have hwritten := (h.finished hreturned).2
      omega
    · cases hwrite
  | joinPumps | reap | remove | report => exact h.wait (Conn.step_cases hstep)

end Told

section Session

variable {env : KeeperEnv} {k : ℕ} {past : List (KeeperState × Act)} {s next : KeeperState}

/-- Every step of the keeper keeps what is known of the connection. -/
theorem Told.step (h : Told k past (s.conns k)) {a : Act} (hdelivers : Delivers k s a)
    (hstep : s.step env a = some next) : Told k (past ++ [(s, a)]) (next.conns k) := by
  have hothers : next.conns k = s.conns k → (∀ b, a ≠ .conn k b) →
      Told k (past ++ [(s, a)]) (next.conns k) := fun heq ha => heq ▸ h.others ha
  cases KeeperState.step_cases hstep with
  | @conn k' a c shared _ _ hconn =>
    by_cases hk : k' = k
    · subst hk
      dsimp only
      rw [insertAt_self]
      rcases h with h | h | h
      · exact h.step hconn
      · exact Or.inr (Or.inl (h.step hconn))
      · exact Or.inr (Or.inr (h.step (fun ha => hdelivers (by rw [ha])) hconn))
    · exact hothers (insertAt_of_ne (Ne.symm hk)) (by simp [hk])
  | ssh => exact hothers rfl (by simp)
  | child => exact hothers rfl (by simp)
  | main _ hmain => exact hothers (congrFun hmain.aside.conns k) (by simp)
  | handler _ hhandler => exact hothers (congrFun hhandler.aside.conns k) (by simp)

/-- Frames of output can be completed, as long as they carry no more than the output. -/
theorem protocol_complete {outs : List Frame} (houts : ∀ frame ∈ outs, frame.isOutput = true)
    {output : Stream → List UInt8}
    (hbytes : ∀ stream, outs.flatMap (Frame.bytes stream) <+: output stream) (id : ℕ)
    (status : ExitStatus) :
    ∃ frames, Protocol id output status frames ∧ .spawnOk id :: outs <+: frames := by
  obtain ⟨stdout, hstdout⟩ := hbytes .stdout
  obtain ⟨stderr, hstderr⟩ := hbytes .stderr
  refine ⟨_, ⟨outs ++ [.stdout stdout, .stderr stderr], rfl, fun frame hframe => ?_,
    fun stream => ?_⟩, ?_⟩
  · rcases List.mem_append.mp hframe with hframe | hframe
    · exact houts frame hframe
    · simp only [List.mem_cons, List.not_mem_nil, or_false] at hframe
      rcases hframe with rfl | rfl <;> rfl
  · rw [List.flatMap_append]
    cases stream with
    | stdout => simpa [Frame.bytes] using hstdout
    | stderr => simpa [Frame.bytes] using hstderr
  · rw [List.append_assoc]
    exact List.prefix_append (.spawnOk id :: outs) _

/-- What a connection has sent by the time its waiter is through. -/
theorem Speaking.protocol {c : Conn} (h : Speaking k past c) {output : Stream → List UInt8}
    (houtput : ∀ stream, ReadsOf (output stream) (Keeper.reads k stream past))
    (hended : c.waiter = .ended) :
    ∃ status, ExitedWith k status past ∧ Protocol c.sessionId (c.outputs output) status c.sent := by
  obtain ⟨outs, last, hsent, houts, hbytes, -, hlast⟩ := h.sent
  obtain ⟨status, hexited, rfl⟩ := hlast hended
  refine ⟨status, hexited, outs, hsent, houts, fun stream => ?_⟩
  rw [hbytes, Conn.outputs]
  cases hhas : c.has stream with
  | false =>
    rw [(h.absent stream hhas).2]
    rfl
  | true =>
    have hpumps : c.pumps stream = false := h.joined (by rw [hended]; simp) stream
    exact (houtput stream).ends (h.stopped stream hhas hpumps)

/-- What a connection has sent at any time. -/
theorem Speaking.begins {c : Conn} (h : Speaking k past c) {output : Stream → List UInt8}
    (houtput : ∀ stream, ReadsOf (output stream) (Keeper.reads k stream past)) :
    ∃ status frames, Protocol c.sessionId (c.outputs output) status frames ∧ c.sent <+: frames := by
  by_cases hended : c.waiter = .ended
  · obtain ⟨status, -, hprotocol⟩ := h.protocol houtput hended
    exact ⟨status, c.sent, hprotocol, List.prefix_refl _⟩
  · obtain ⟨outs, last, hsent, houts, hbytes, hnot, -⟩ := h.sent
    obtain rfl := hnot hended
    have hprefix : ∀ stream, outs.flatMap (Frame.bytes stream) <+: c.outputs output stream := by
      intro stream
      rw [hbytes, Conn.outputs]
      cases hhas : c.has stream with
      | false =>
        rw [(h.absent stream hhas).2]
        exact List.prefix_refl _
      | true => exact (houtput stream).chunks
    rw [hsent, List.append_nil]
    exact ⟨⟨none, none⟩, protocol_complete houts hprefix c.sessionId _⟩

/-- Before a session is announced, its thread has something left to do. -/
theorem Silent.not_finished {sh : Shared} {c : Conn} (h : Silent k past c) (hs : Spawned k past) :
    c.step k sh (.proceed 0) ≠ none := by
  have hstage := h.spawned hs
  have hstarted := h.stage
  have hreturned := h.phase
  simp only [Conn.step, Conn.proceed]
  cases hphase : c.phase <;> rw [hphase] at hstage hstarted hreturned <;>
    simp_all [Phase.stage]
  split <;> simp

/-- `child.wait` returns once the child has exited. -/
theorem exists_reap {o : Origin} {groups : List Group} (hspawned : ∃ g ∈ groups, g.origin = o)
    (hexited : ∀ g ∈ groups, g.origin = o → g.leader ≠ .running ∧ g.leader ≠ .reaped) :
    ∃ status groups', reap o groups = some (status, groups') := by
  obtain ⟨g, hg, ho⟩ := hspawned
  unfold reap
  split
  · next hfind =>
    have hnot := List.find?_eq_none.mp hfind g hg
    exact (hnot (decide_eq_true ho)).elim
  · next g' hfind =>
    have ho' : g'.origin = o := by
      have hfound := List.find?_some hfind
      exact of_decide_eq_true hfound
    obtain ⟨hrunning, hreaped⟩ := hexited g' (List.mem_of_find?_eq_some hfind) ho'
    split
    · exact ⟨_, _, rfl⟩
    · next hnot =>
      exfalso
      cases hleader : g'.leader with
      | running => exact hrunning hleader
      | exited status => exact hnot status hleader
      | reaped => exact hreaped hleader

/-- A session whose child does not run, and of whose threads none can go on, was reported. -/
theorem Speaking.reported (h : Speaking k past (s.conns k)) (hs : Consistent s)
    (hchild : ∀ g ∈ s.shared.groups, g.origin = .control k → g.leader ≠ .running)
    (hidle : ∀ a : ConnAct, a.own = true → (s.conns k).step k s.shared a = none) :
    (s.conns k).waiter = .ended ∧ (s.conns k).written = (s.conns k).sent.length := by
  have hpumps : ∀ stream, (s.conns k).pumps stream = false := by
    intro stream
    by_contra hrunning
    have hpump := hidle (.pump stream none) rfl
    simp [Conn.step, Conn.pump, hrunning] at hpump
  have hwait := hidle .wait rfl
  have hwrite := hidle (.write true) rfl
  constructor
  · simp only [Conn.step, Conn.wait] at hwait
    cases hwaiter : (s.conns k).waiter with
    | notStarted => exact (h.waiter hwaiter).elim
    | pumping => simp [hwaiter, hpumps] at hwait
    | waiting =>
      -- The child is there, does not run, and was not waited for.
      have hb := hs.conns k
      have hstage := hb.started (by rw [hwaiter]; simp) (by rw [hwaiter]; simp)
      obtain ⟨status, groups, hreap⟩ := exists_reap (hb.hasChild hstage (by decide)) fun g hg ho =>
        ⟨hchild g hg ho, (hb.unreaped (by rw [hwaiter]; rfl) g hg ho).2⟩
      simp [hwaiter, hreap] at hwait
    | reaped status => simp [hwaiter] at hwait
    | removed status => simp [hwaiter] at hwait
    | ended => rfl
  · by_contra hne
    have hle := h.written
    have hleft : (s.conns k).written < (s.conns k).sent.length := by omega
    simp [Conn.step, Conn.write, h.receiving, hleft] at hwrite

/-- In every interleaving in which writes to its client do not fail, the client of a session gets
`SpawnOk`, the output of each stream in order, and `Exit` with the child's status: a part of this
at any time, and the whole of it once the session is over. -/
theorem sessionOutput {acts : List Act} {output : Stream → List UInt8}
    (hdelivers : Guarded (Delivers k) (steps (KeeperState.step env) acts .start))
    (hspawned : Spawned k (steps (KeeperState.step env) acts .start))
    (houtput : ∀ stream,
      ReadsOf (output stream) (Keeper.reads k stream (steps (KeeperState.step env) acts .start))) :
    let s := exec (KeeperState.step env) acts .start
    let c := s.conns k
    (∃ status frames, Protocol c.sessionId (c.outputs output) status frames ∧
      c.received <+: frames) ∧
    (Finished k s → ∃ status,
      ExitedWith k status (steps (KeeperState.step env) acts .start) ∧
        Protocol c.sessionId (c.outputs output) status c.received) := by
  have htold : Told k (steps (KeeperState.step env) acts .start)
      ((exec (KeeperState.step env) acts .start).conns k) :=
    history (J := fun past s => Told k past (s.conns k))
      (fun _ _ _ _ h hdelivers hstep => h.step hdelivers hstep) told_accepted hdelivers
  have hs : Consistent (exec (KeeperState.step env) acts .start) :=
    (invariant (G := Delivers k) (fun _ _ _ hs _ h => hs.step h) consistent_start hdelivers).2
  intro s c
  rcases htold with h | h | h
  · constructor
    · have hnone : ∀ stream, ([] : List Frame).flatMap (Frame.bytes stream) <+:
          c.outputs output stream := fun stream => List.nil_prefix
      obtain ⟨frames, hprotocol, -⟩ := protocol_complete (by simp) hnone c.sessionId ⟨none, none⟩
      refine ⟨_, frames, hprotocol, ?_⟩
      have hreceived : c.received = [] := by
        rw [Conn.received, h.sent, List.take_nil]
      rw [hreceived]
      exact List.nil_prefix
    · rintro (hreturned | ⟨-, hidle⟩)
      · exact (h.phase hreturned).elim
      · exact (h.not_finished hspawned (hidle (.proceed 0) rfl)).elim
  · exact (h.unspawned hspawned).elim
  · constructor
    · obtain ⟨status, frames, hprotocol, hprefix⟩ := h.begins houtput
      exact ⟨status, frames, hprotocol, (List.take_prefix _ _).trans hprefix⟩
    · intro hfinished
      obtain ⟨hended, hwritten⟩ : c.waiter = .ended ∧ c.written = c.sent.length := by
        rcases hfinished with hreturned | ⟨hchild, hidle⟩
        · exact h.finished hreturned
        · exact h.reported hs hchild hidle
      have hreceived : c.received = c.sent := by
        rw [Conn.received, hwritten, List.take_length]
      rw [hreceived]
      exact h.protocol houtput hended

end Session

/-- A client runs a command that writes to both streams, and goes away once it has the status. -/
def chattySession : List Act :=
  [.main (.startServices (.error "")),
    .conn 0 (.read (some (.spawn ⟨"sh", ["-c", "make"], "/home/u/p", [], none⟩)) 0 true),
    .conn 0 (.spawn (.ok 100)), .conn 0 (.proceed 0), .conn 0 (.proceed 0), .conn 0 (.proceed 0),
    .conn 0 (.pump .stderr (some [104, 105])), .conn 0 (.write true),
    .conn 0 (.pump .stdout (some [1])), .child (.control 0) (.exits ⟨some 2, none⟩),
    .conn 0 (.pump .stdout none), .conn 0 (.pump .stderr (some [10])),
    .conn 0 (.pump .stderr none), .conn 0 .wait, .conn 0 .wait, .conn 0 .wait, .conn 0 .wait,
    .conn 0 (.write true), .conn 0 (.write true), .conn 0 (.write true), .conn 0 (.write true),
    .conn 0 (.read none 0 true), .conn 0 (.proceed 0), .conn 0 (.proceed 0)]

/-- The keeper that serves it runs no services. -/
def quietEnv : KeeperEnv := ⟨false, none, none, ⟨none, none⟩⟩

/-- What the command writes. -/
def chattyOutput : Stream → List UInt8
  | .stdout => [1]
  | .stderr => [104, 105, 10]

/-- Its client gets all of it, and then the status. -/
theorem sessionOutput_chatty :
    ((exec (KeeperState.step quietEnv) chattySession .start).conns 0).received =
      [.spawnOk 1, .stderr [104, 105], .stdout [1], .stderr [10], .exit ⟨some 2, none⟩] ∧
    ∃ status, ExitedWith 0 status (steps (KeeperState.step quietEnv) chattySession .start) ∧
      Protocol ((exec (KeeperState.step quietEnv) chattySession .start).conns 0).sessionId
        (((exec (KeeperState.step quietEnv) chattySession .start).conns 0).outputs chattyOutput)
        status ((exec (KeeperState.step quietEnv) chattySession .start).conns 0).received := by
  have hspawned : ∃ p ∈ steps (KeeperState.step quietEnv) chattySession .start,
      p.2 = .conn 0 (.spawn (.ok 100)) := by decide +kernel
  have houtput : ∀ stream, ReadsOf (chattyOutput stream)
      (reads 0 stream (steps (KeeperState.step quietEnv) chattySession .start)) := by
    rintro (_ | _)
    · exact ⟨by decide +kernel, fun _ => by decide +kernel⟩
    · exact ⟨by decide +kernel, fun _ => by decide +kernel⟩
  obtain ⟨p, hp, heq⟩ := hspawned
  exact ⟨by decide +kernel, (sessionOutput (by decide +kernel) ⟨p, hp, 100, heq⟩ houtput).2
    (Or.inl (by decide +kernel))⟩

end Devcroft.Keeper
