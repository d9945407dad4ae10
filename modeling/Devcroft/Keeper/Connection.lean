import Devcroft.Keeper.Registry

/-!
# One connection of the control socket

`handle_with_grace` as threads: the thread of the connection, which reads the frames of
the client, the waiter, the pumps of the child's output and the writer. They share the
registry and the processes, and each step of a thread touches these at most once.
-/

namespace Devcroft.Keeper

/-- What the threads of a keeper share. -/
structure Shared where
  registry : Registry
  groups : List Group
  deriving DecidableEq

/-- Where the thread of a connection is. -/
inductive Phase where
  /-- Before the first frame. -/
  | first
  /-- Before `backend.spawn`. -/
  | spawning
  /-- Before `registry.insert`. -/
  | spawned
  /-- Within `registry.insert`, with an id. -/
  | numbered
  /-- Before `SpawnOk` is sent. -/
  | inserted
  /-- Before the next frame. -/
  | reading
  /-- After a frame, before `registry.contains`. -/
  | checking
  /-- After the loop, before `registry.contains`. -/
  | left
  /-- Before the `SIGTERM` of the escalation. -/
  | terminating
  /-- Before the second `registry.contains` of the escalation. -/
  | grace
  /-- Before the `SIGKILL` of the escalation. -/
  | killing
  /-- Before the other threads are joined. -/
  | joining
  | returned
  deriving DecidableEq

/-- Where the waiter is. -/
inductive Waiter where
  | notStarted
  /-- Before the pumps are joined. -/
  | pumping
  /-- Before `child.wait`. -/
  | waiting
  /-- Before `registry.remove`. -/
  | reaped (status : ExitStatus)
  /-- Before `Exit` is sent. -/
  | removed (status : ExitStatus)
  | ended
  deriving DecidableEq

/-- The two streams of a child. -/
inductive Stream where
  | stdout
  | stderr
  deriving DecidableEq

/-- A connection. -/
structure Conn where
  phase : Phase
  /-- What is to be spawned. -/
  request : SpawnRequest
  pgid : ℕ
  sessionId : ℕ
  waiter : Waiter
  /-- Whether the pumps are running. -/
  pumps : Stream → Bool
  /-- Whether the child's stdin is open. -/
  stdin : Bool
  /-- The frames that were sent to the writer. -/
  sent : List Frame
  /-- How many of them the client got. -/
  written : ℕ
  /-- Whether the writer is still receiving. -/
  receiving : Bool

/-- A connection that was accepted. -/
def Conn.accepted : Conn where
  phase := .first
  request := ⟨"", [], "", [], none⟩
  pgid := 0
  sessionId := 0
  waiter := .notStarted
  pumps := fun _ => false
  stdin := false
  sent := []
  written := 0
  receiving := true

/-- `tx.send`, whose failure nobody looks at. -/
def Conn.send (c : Conn) (frame : Frame) : Conn :=
  if c.receiving then { c with sent := c.sent ++ [frame] } else c

/-- `describe`. -/
def describe (req : SpawnRequest) : String :=
  if req.args.isEmpty then req.cmd else req.cmd ++ " " ++ " ".intercalate req.args

/-- What a step of a connection needs from its surroundings. -/
inductive ConnAct where
  /-- Its thread reads a frame, or fails to: with the time, the keeper's uptime, and whether stdin
  takes bytes. -/
  | read (frame : Option Frame) (uptime : ℕ) (stdinTakes : Bool)
  /-- Its thread spawns: a pid, or an error. -/
  | spawn (outcome : Except String ℕ)
  /-- Any other step of its thread, at a time. -/
  | proceed (now : ℕ)
  /-- A pump reads a chunk, or nothing more. -/
  | pump (stream : Stream) (chunk : Option (List UInt8))
  /-- The writer writes a frame, or fails to. -/
  | write (succeeds : Bool)
  /-- A step of the waiter. -/
  | wait
  deriving DecidableEq

/-- The answer to a query. -/
def queryResult (registry : Registry) (uptime : ℕ) : QueryResult where
  uptimeSecs := uptime
  sessions := registry.snapshot.map fun entry => ⟨entry.1, entry.2.command, entry.2.started⟩

/-- The first frame. -/
def Conn.readFirst (c : Conn) (registry : Registry) (uptime : ℕ) : Option Frame → Conn
  | some (.spawn req) => { c with phase := .spawning, request := req }
  | some .query => { c.send (.queryResult (queryResult registry uptime)) with phase := .returned }
  | some _ =>
    { c.send (.spawnErr "expected Spawn or Query as the first frame") with phase := .returned }
  | none => { c with phase := .returned }

/-- A later frame: the connection after it, and the processes. -/
def Conn.readLater (c : Conn) (groups : List Group) (stdinTakes : Bool) :
    Option Frame → Conn × List Group
  | some (.stdin _) => ({ c with phase := .checking, stdin := c.stdin && stdinTakes }, groups)
  | some .stdinClosed => ({ c with phase := .checking, stdin := false }, groups)
  | some (.signal sig) => ({ c with phase := .checking }, kill (-c.pgid) sig.asLibc groups)
  | some _ => ({ c with phase := .checking }, groups)
  | none => ({ c with phase := .left }, groups)

/-- A step of the thread between its calls of `read_frame` and `backend.spawn`. -/
def Conn.proceed (c : Conn) (now : ℕ) (sh : Shared) : Option (Conn × Shared) :=
  match c.phase with
  | .spawned =>
    let (id, registry) := sh.registry.takeId
    some ({ c with phase := .numbered, sessionId := id }, { sh with registry := registry })
  | .numbered =>
    some ({ c with phase := .inserted }, { sh with
      registry := sh.registry.put c.sessionId ⟨c.pgid, describe c.request, now⟩ })
  | .inserted =>
    if c.receiving then
      some ({ c.send (.spawnOk c.sessionId) with
        phase := .reading
        waiter := .pumping
        pumps := fun stream => stream = .stdout || c.request.pty.isNone
        stdin := true }, sh)
    else
      some ({ c with phase := .returned },
        { sh with registry := sh.registry.remove c.sessionId })
  | .checking =>
    some ({ c with phase := if sh.registry.contains c.sessionId then .reading else .left }, sh)
  | .left =>
    some ({ c with phase := if sh.registry.contains c.sessionId then .terminating else .joining }, sh)
  | .terminating =>
    some ({ c with phase := .grace }, { sh with groups := kill (-c.pgid) SIGTERM sh.groups })
  | .grace =>
    some ({ c with phase := if sh.registry.contains c.sessionId then .killing else .joining }, sh)
  | .killing =>
    some ({ c with phase := .joining }, { sh with groups := kill (-c.pgid) SIGKILL sh.groups })
  | .joining =>
    if c.waiter = .ended ∧ (c.receiving = false ∨ c.written = c.sent.length) then
      some ({ c with phase := .returned }, sh)
    else none
  | _ => none

/-- A step of the waiter of the `k`-th connection. -/
def Conn.wait (k : ℕ) (c : Conn) (sh : Shared) : Option (Conn × Shared) :=
  match c.waiter with
  | .pumping =>
    if c.pumps .stdout || c.pumps .stderr then none else some ({ c with waiter := .waiting }, sh)
  | .waiting =>
    (reap (.control k) sh.groups).map fun (status, groups) =>
      ({ c with waiter := .reaped status }, { sh with groups := groups })
  | .reaped status =>
    some ({ c with waiter := .removed status },
      { sh with registry := sh.registry.remove c.sessionId })
  | .removed status => some ({ c.send (.exit status) with waiter := .ended }, sh)
  | _ => none

/-- The frame for a chunk of output. -/
def Stream.frame : Stream → List UInt8 → Frame
  | stdout => .stdout
  | stderr => .stderr

/-- A step of a pump. -/
def Conn.pump (c : Conn) (stream : Stream) (chunk : Option (List UInt8)) : Option Conn :=
  if c.pumps stream then
    let stopped := { c with pumps := fun s => s ≠ stream && c.pumps s }
    match chunk with
    | none => some stopped
    | some bytes => some (if c.receiving then c.send (stream.frame bytes) else stopped)
  else none

/-- A step of the writer. -/
def Conn.write (c : Conn) (succeeds : Bool) : Option Conn :=
  if c.receiving ∧ c.written < c.sent.length then
    some (if succeeds then { c with written := c.written + 1 } else { c with receiving := false })
  else none

/-- A step of the `k`-th connection. -/
def Conn.step (k : ℕ) (c : Conn) (sh : Shared) : ConnAct → Option (Conn × Shared)
  | .read frame uptime stdinTakes =>
    match c.phase with
    | .first => some (c.readFirst sh.registry uptime frame, sh)
    | .reading =>
      let (next, groups) := c.readLater sh.groups stdinTakes frame
      some (next, { sh with groups := groups })
    | _ => none
  | .spawn outcome =>
    if c.phase = .spawning then
      match outcome with
      | .error e => some ({ c.send (.spawnErr e) with phase := .returned }, sh)
      | .ok pid =>
        (spawnGroup pid (.control k) c.request sh.groups).map fun groups =>
          ({ c with phase := .spawned, pgid := pid }, { sh with groups := groups })
    else none
  | .proceed now => c.proceed now sh
  | .pump stream chunk => (c.pump stream chunk).map fun next => (next, sh)
  | .write succeeds => (c.write succeeds).map fun next => (next, sh)
  | .wait => c.wait k sh

section Steps

/-- What a step of a connection can do. -/
inductive ConnStep (k : ℕ) (c : Conn) (sh : Shared) : ConnAct → Conn → Shared → Prop where
  | accept {req : SpawnRequest} {uptime : ℕ} {stdinTakes : Bool} (hphase : c.phase = .first) :
      ConnStep k c sh (.read (some (.spawn req)) uptime stdinTakes)
        { c with phase := .spawning, request := req } sh
  /-- The first frame is an answered query, or is refused. -/
  | answer {frame : Option Frame} {uptime : ℕ} {stdinTakes : Bool} (out : Frame)
      (hphase : c.phase = .first) :
      ConnStep k c sh (.read frame uptime stdinTakes) { c.send out with phase := .returned } sh
  | hangUp {uptime : ℕ} {stdinTakes : Bool} (hphase : c.phase = .first) :
      ConnStep k c sh (.read none uptime stdinTakes) { c with phase := .returned } sh
  /-- A later frame that is not a signal. -/
  | frame {frame : Option Frame} {uptime : ℕ} {stdinTakes : Bool} (stdin : Bool) {phase : Phase}
      (hphase : c.phase = .reading) (hframe : ∀ sig, frame ≠ some (.signal sig))
      (hnext : phase = .checking ∨ phase = .left) :
      ConnStep k c sh (.read frame uptime stdinTakes) { c with phase := phase, stdin := stdin } sh
  | signal {sig : SessionSignal} {uptime : ℕ} {stdinTakes : Bool} (hphase : c.phase = .reading) :
      ConnStep k c sh (.read (some (.signal sig)) uptime stdinTakes) { c with phase := .checking }
        { sh with groups := kill (-c.pgid) sig.asLibc sh.groups }
  | spawnFails {message : String} (hphase : c.phase = .spawning) :
      ConnStep k c sh (.spawn (.error message))
        { c.send (.spawnErr message) with phase := .returned } sh
  | spawn {pid : ℕ} {groups : List Group} (hphase : c.phase = .spawning)
      (hspawn : spawnGroup pid (.control k) c.request sh.groups = some groups) :
      ConnStep k c sh (.spawn (.ok pid)) { c with phase := .spawned, pgid := pid }
        { sh with groups := groups }
  | number {now : ℕ} (hphase : c.phase = .spawned) :
      ConnStep k c sh (.proceed now)
        { c with phase := .numbered, sessionId := sh.registry.takeId.1 }
        { sh with registry := sh.registry.takeId.2 }
  | insert {now : ℕ} (hphase : c.phase = .numbered) :
      ConnStep k c sh (.proceed now) { c with phase := .inserted } { sh with
        registry := sh.registry.put c.sessionId ⟨c.pgid, describe c.request, now⟩ }
  | announce {now : ℕ} (hphase : c.phase = .inserted) (hreceiving : c.receiving = true) :
      ConnStep k c sh (.proceed now) { c.send (.spawnOk c.sessionId) with
        phase := .reading
        waiter := .pumping
        pumps := fun stream => stream = .stdout || c.request.pty.isNone
        stdin := true } sh
  | giveUp {now : ℕ} (hphase : c.phase = .inserted) (hreceiving : ¬c.receiving = true) :
      ConnStep k c sh (.proceed now) { c with phase := .returned }
        { sh with registry := sh.registry.remove c.sessionId }
  /-- A step on from `registry.contains`, which sees the entry where the connection is about to
  signal. -/
  | look {now : ℕ} {phase : Phase}
      (hphase : c.phase = .checking ∨ c.phase = .left ∨ c.phase = .grace)
      (hnext : phase = .reading ∨ phase = .left ∨ phase = .joining ∨
        ((phase = .terminating ∨ phase = .killing) ∧ c.phase ≠ .checking ∧
          sh.registry.contains c.sessionId = true)) :
      ConnStep k c sh (.proceed now) { c with phase := phase } sh
  | terminate {now : ℕ} (hphase : c.phase = .terminating) :
      ConnStep k c sh (.proceed now) { c with phase := .grace }
        { sh with groups := kill (-c.pgid) SIGTERM sh.groups }
  | kill {now : ℕ} (hphase : c.phase = .killing) :
      ConnStep k c sh (.proceed now) { c with phase := .joining }
        { sh with groups := kill (-c.pgid) SIGKILL sh.groups }
  | join {now : ℕ} (hphase : c.phase = .joining) (hwaiter : c.waiter = .ended)
      (hwritten : c.receiving = false ∨ c.written = c.sent.length) :
      ConnStep k c sh (.proceed now) { c with phase := .returned } sh
  | pump {stream : Stream} {chunk : Option (List UInt8)} {c' : Conn}
      (hpump : c.pump stream chunk = some c') :
      ConnStep k c sh (.pump stream chunk) c' sh
  | write {succeeds : Bool} {c' : Conn} (hwrite : c.write succeeds = some c') :
      ConnStep k c sh (.write succeeds) c' sh
  | joinPumps (hwaiter : c.waiter = .pumping) (hpumps : ∀ stream, c.pumps stream = false) :
      ConnStep k c sh .wait { c with waiter := .waiting } sh
  | reap {status : ExitStatus} {groups : List Group} (hwaiter : c.waiter = .waiting)
      (hreap : reap (.control k) sh.groups = some (status, groups)) :
      ConnStep k c sh .wait { c with waiter := .reaped status } { sh with groups := groups }
  | remove {status : ExitStatus} (hwaiter : c.waiter = .reaped status) :
      ConnStep k c sh .wait { c with waiter := .removed status }
        { sh with registry := sh.registry.remove c.sessionId }
  | report {status : ExitStatus} (hwaiter : c.waiter = .removed status) :
      ConnStep k c sh .wait { c.send (.exit status) with waiter := .ended } sh

variable {k : ℕ} {c c' : Conn} {sh sh' : Shared} {a : ConnAct}

theorem Conn.step_read {frame : Option Frame} {uptime : ℕ} {stdinTakes : Bool}
    (h : c.step k sh (.read frame uptime stdinTakes) = some (c', sh')) :
    ConnStep k c sh (.read frame uptime stdinTakes) c' sh' := by
  simp only [Conn.step] at h
  split at h
  · next hphase =>
    obtain ⟨rfl, rfl⟩ := Prod.mk.inj (Option.some.inj h)
    unfold Conn.readFirst
    split
    · exact .accept hphase
    · exact .answer _ hphase
    · exact .answer _ hphase
    · exact .hangUp hphase
  · next hphase =>
    obtain ⟨rfl, rfl⟩ := Prod.mk.inj (Option.some.inj h)
    unfold Conn.readLater
    split
    · exact .frame _ hphase (by simp) (Or.inl rfl)
    · exact .frame _ hphase (by simp) (Or.inl rfl)
    · exact .signal hphase
    · next hsignal =>
      refine .frame c.stdin hphase (fun sig heq => ?_) (Or.inl rfl)
      exact hsignal sig (Option.some.inj heq)
    · exact .frame c.stdin hphase (by simp) (Or.inr rfl)
  · cases h

theorem Conn.step_proceed {now : ℕ} (h : c.proceed now sh = some (c', sh')) :
    ConnStep k c sh (.proceed now) c' sh' := by
  unfold Conn.proceed at h
  split at h
  · next hphase =>
    obtain ⟨rfl, rfl⟩ := Prod.mk.inj (Option.some.inj h)
    exact .number hphase
  · next hphase =>
    obtain ⟨rfl, rfl⟩ := Prod.mk.inj (Option.some.inj h)
    exact .insert hphase
  · next hphase =>
    split at h
    · next hreceiving =>
      obtain ⟨rfl, rfl⟩ := Prod.mk.inj (Option.some.inj h)
      exact .announce hphase hreceiving
    · next hreceiving =>
      obtain ⟨rfl, rfl⟩ := Prod.mk.inj (Option.some.inj h)
      exact .giveUp hphase hreceiving
  · next hphase =>
    obtain ⟨rfl, rfl⟩ := Prod.mk.inj (Option.some.inj h)
    refine .look (Or.inl hphase) ?_
    split
    · exact Or.inl rfl
    · exact Or.inr (Or.inl rfl)
  · next hphase =>
    obtain ⟨rfl, rfl⟩ := Prod.mk.inj (Option.some.inj h)
    refine .look (Or.inr (Or.inl hphase)) ?_
    split
    · next hcontains => exact Or.inr (Or.inr (Or.inr ⟨Or.inl rfl, by simp [hphase], hcontains⟩))
    · exact Or.inr (Or.inr (Or.inl rfl))
  · next hphase =>
    obtain ⟨rfl, rfl⟩ := Prod.mk.inj (Option.some.inj h)
    exact .terminate hphase
  · next hphase =>
    obtain ⟨rfl, rfl⟩ := Prod.mk.inj (Option.some.inj h)
    refine .look (Or.inr (Or.inr hphase)) ?_
    split
    · next hcontains => exact Or.inr (Or.inr (Or.inr ⟨Or.inr rfl, by simp [hphase], hcontains⟩))
    · exact Or.inr (Or.inr (Or.inl rfl))
  · next hphase =>
    obtain ⟨rfl, rfl⟩ := Prod.mk.inj (Option.some.inj h)
    exact .kill hphase
  · next hphase =>
    split at h
    · next hended =>
      obtain ⟨rfl, rfl⟩ := Prod.mk.inj (Option.some.inj h)
      exact .join hphase hended.1 hended.2
    · cases h
  · cases h

theorem Conn.step_wait (h : c.wait k sh = some (c', sh')) : ConnStep k c sh .wait c' sh' := by
  unfold Conn.wait at h
  split at h
  · next hwaiter =>
    split at h
    · cases h
    · next hpumps =>
      obtain ⟨rfl, rfl⟩ := Prod.mk.inj (Option.some.inj h)
      simp only [Bool.or_eq_true, not_or, Bool.not_eq_true] at hpumps
      refine .joinPumps hwaiter fun stream => ?_
      cases stream with
      | stdout => exact hpumps.1
      | stderr => exact hpumps.2
  · next hwaiter =>
    obtain ⟨⟨status, groups⟩, hreap, heq⟩ := Option.map_eq_some_iff.mp h
    obtain ⟨rfl, rfl⟩ := Prod.mk.inj heq
    exact .reap hwaiter hreap
  · next status hwaiter =>
    obtain ⟨rfl, rfl⟩ := Prod.mk.inj (Option.some.inj h)
    exact .remove hwaiter
  · next status hwaiter =>
    obtain ⟨rfl, rfl⟩ := Prod.mk.inj (Option.some.inj h)
    exact .report hwaiter
  · cases h

/-- Every step of a connection is one of these. -/
theorem Conn.step_cases (h : c.step k sh a = some (c', sh')) : ConnStep k c sh a c' sh' := by
  cases a with
  | read frame uptime stdinTakes => exact Conn.step_read h
  | spawn outcome =>
    simp only [Conn.step] at h
    split at h
    · next hphase =>
      cases outcome with
      | error message =>
        obtain ⟨rfl, rfl⟩ := Prod.mk.inj (Option.some.inj h)
        exact .spawnFails hphase
      | ok pid =>
        obtain ⟨groups, hspawn, heq⟩ := Option.map_eq_some_iff.mp h
        obtain ⟨rfl, rfl⟩ := Prod.mk.inj heq
        exact .spawn hphase hspawn
    · cases h
  | proceed now => exact Conn.step_proceed h
  | pump stream chunk =>
    obtain ⟨next, hpump, heq⟩ := Option.map_eq_some_iff.mp h
    obtain ⟨rfl, rfl⟩ := Prod.mk.inj heq
    exact .pump hpump
  | write succeeds =>
    obtain ⟨next, hwrite, heq⟩ := Option.map_eq_some_iff.mp h
    obtain ⟨rfl, rfl⟩ := Prod.mk.inj heq
    exact .write hwrite
  | wait => exact Conn.step_wait h

end Steps

end Devcroft.Keeper
