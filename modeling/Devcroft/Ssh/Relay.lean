import Mathlib.Algebra.GroupWithZero.Nat
import Mathlib.Data.List.ReduceOption
import Devcroft.Library.Funnel
import Devcroft.Ssh.Server

/-!
# What a session says over SSH

Two threads read what the child writes, a third waits for it, and all of them send to one task,
which tells the client. There is room for a few events between them. The client gets the output of both
streams in the order of each, the exit status only behind all of it, and then the end.
-/

namespace Devcroft.Ssh.Session

open Keeper Funneling Interleaving

/-- The threads of `relay_session_to_channel` that send. -/
inductive Thread where
  /-- The one that reads stdout, or stderr. -/
  | pump (stream : Stream)
  /-- The one that waits for the child. -/
  | waiter
  deriving DecidableEq

/-- `Event`. -/
inductive Event where
  | stdout (bytes : List UInt8)
  | stderr (bytes : List UInt8)
  | exit (status : ExitStatus)
  deriving DecidableEq

/-- What a pump makes of what it has read. -/
def output : Stream → List UInt8 → Event
  | .stdout => .stdout
  | .stderr => .stderr

/-- The exit status that is sent for that of a child. -/
def exitCode (status : ExitStatus) : UInt32 :=
  (status.code.getD ((status.signal.map (128 + ·)).getD 1)).toUInt32

/-- What the client is told. -/
inductive Message where
  | data (bytes : List UInt8)
  | extendedData (kind : UInt32) (bytes : List UInt8)
  | exitStatus (code : UInt32)
  | eof
  | close
  deriving DecidableEq

/-- What the task tells the client of an event. -/
def Event.message : Event → Message
  | stdout bytes => .data bytes
  -- extended data of type 1 is stderr
  | stderr bytes => .extendedData 1 bytes
  | exit status => .exitStatus (exitCode status)

/-- Where the task stands. -/
inductive Task where
  | receiving
  /-- It tells the client something. -/
  | calling (message : Message)
  /-- It has received everything, and sends `eof`. -/
  | ending
  /-- It sends `close`. -/
  | closing
  | closed
  deriving DecidableEq

/-- A session that is relayed to its channel. -/
structure Relay where
  funnel : Funnel Thread Event
  task : Task
  /-- Whether the connection is there. -/
  connected : Bool
  told : List Message

/-- The session has just been spawned. A pty has no stderr. -/
def Relay.start (pty : Bool) : Relay where
  funnel :=
    { senders := fun thread => if thread = .pump .stderr ∧ pty = true then .ended else .working
      queue := []
      receiving := true }
  task := .receiving
  connected := true
  told := []

/-- What happens. -/
inductive Act where
  /-- A read returns some bytes, or the end or an error. -/
  | read (stream : Stream) (chunk : Option (List UInt8))
  | send (thread : Thread)
  /-- `child.wait` returns. -/
  | wait (status : ExitStatus)
  | receive
  /-- A call to the connection returns. -/
  | answer
  /-- The connection is over: calls to it fail from now on. -/
  | disconnect
  /-- The task goes with its runtime. -/
  | drop
  deriving DecidableEq

/-- The room of the channel. -/
def CAPACITY : ℕ := 64

/-- The size of the buffer of `pump`. -/
def PUMP_BUFFER : ℕ := 8192

/-- Both pumps have ended. -/
def Relay.Joined (r : Relay) : Prop := ∀ stream, r.funnel.senders (.pump stream) = .ended

instance (r : Relay) : Decidable r.Joined :=
  decidable_of_iff (r.funnel.senders (.pump .stdout) = .ended ∧
      r.funnel.senders (.pump .stderr) = .ended)
    ⟨fun h stream => by cases stream; exacts [h.1, h.2], fun h => ⟨h _, h _⟩⟩

/-- The threads and the queue move. -/
def Relay.feed (r : Relay) (a : Funneling.Act Thread Event) : Option Relay :=
  (r.funnel.step CAPACITY a).map fun f => { r with funnel := f }

/-- A call to the connection. -/
def Relay.tell (r : Relay) (message : Message) (task : Task) : Relay :=
  { r with told := if r.connected then r.told ++ [message] else r.told, task := task }

/-- `rx.recv` returns. -/
def Relay.receive (r : Relay) : Option Relay :=
  match r.funnel.queue with
  | (_, event) :: _ => (r.feed .take).map fun r => { r with task := .calling event.message }
  | [] =>
    if r.Joined ∧ r.funnel.senders .waiter = .ended then some { r with task := .ending } else none

/-- One step. -/
def Relay.step (r : Relay) : Act → Option Relay
  | .read stream none => r.feed (.stop (.pump stream))
  | .read stream (some bytes) =>
    if bytes ≠ [] ∧ bytes.length ≤ PUMP_BUFFER then
      r.feed (.make (.pump stream) (output stream bytes))
    else none
  | .send thread => r.feed (.send thread (thread = .waiter))
  | .wait status => if r.Joined then r.feed (.make .waiter (.exit status)) else none
  | .receive => if r.funnel.receiving ∧ r.task = .receiving then r.receive else none
  | .answer =>
    if r.funnel.receiving then
      match r.task with
      | .calling message => some (r.tell message .receiving)
      | .ending => some (r.tell .eof .closing)
      | .closing => some (r.tell .close .closed)
      | _ => none
    else none
  | .disconnect => if r.connected then some { r with connected := false } else none
  | .drop => r.feed .drop

section Steps

/-- What the threads do with the answer to a read. -/
def readMove (stream : Stream) : Option (List UInt8) → Funneling.Act Thread Event
  | none => .stop (.pump stream)
  | some bytes => .make (.pump stream) (output stream bytes)

/-- What a step moves of the threads and the queue. -/
def Act.moves (r : Relay) : Act → Option (Funneling.Act Thread Event)
  | read stream chunk => some (readMove stream chunk)
  | send thread => some (.send thread (thread = .waiter))
  | wait status => some (.make .waiter (.exit status))
  | receive => if r.funnel.queue = [] then none else some .take
  | drop => some .drop
  | _ => none

/-- What has moved so far. -/
def flow (past : List (Relay × Act)) : List (Funnel Thread Event × Funneling.Act Thread Event) :=
  past.flatMap fun p => ((p.2.moves p.1).map fun a => (p.1.funnel, a)).toList

/-- What a step of the relay does. -/
inductive RelayStep (r : Relay) : Act → Relay → Prop
  | read {stream : Stream} {chunk : Option (List UInt8)} {f : Funnel Thread Event}
    (hstep : FunnelStep CAPACITY r.funnel (readMove stream chunk) f) :
    RelayStep r (.read stream chunk) { r with funnel := f }
  | send {thread : Thread} {f : Funnel Thread Event}
    (hstep : FunnelStep CAPACITY r.funnel (.send thread (thread = .waiter)) f) :
    RelayStep r (.send thread) { r with funnel := f }
  | wait {status : ExitStatus} {f : Funnel Thread Event} (hjoined : r.Joined)
    (hstep : FunnelStep CAPACITY r.funnel (.make .waiter (.exit status)) f) :
    RelayStep r (.wait status) { r with funnel := f }
  | receive {thread : Thread} {event : Event} {rest : List (Thread × Event)}
    (hreceiving : r.funnel.receiving = true) (htask : r.task = .receiving)
    (hqueue : r.funnel.queue = (thread, event) :: rest) :
    RelayStep r .receive
      { r with funnel := { r.funnel with queue := rest }, task := .calling event.message }
  | finish (hreceiving : r.funnel.receiving = true) (htask : r.task = .receiving)
    (hfinished : r.funnel.Finished) : RelayStep r .receive { r with task := .ending }
  | answer {message : Message} (hreceiving : r.funnel.receiving = true)
    (htask : r.task = .calling message) : RelayStep r .answer (r.tell message .receiving)
  | eof (hreceiving : r.funnel.receiving = true) (htask : r.task = .ending) :
    RelayStep r .answer (r.tell .eof .closing)
  | close (hreceiving : r.funnel.receiving = true) (htask : r.task = .closing) :
    RelayStep r .answer (r.tell .close .closed)
  | disconnect (hconnected : r.connected = true) :
    RelayStep r .disconnect { r with connected := false }
  | drop (hreceiving : r.funnel.receiving = true) :
    RelayStep r .drop { r with funnel := { r.funnel with queue := [], receiving := false } }

variable {r r' : Relay} {a : Act}

/-- A step of the threads and the queue. -/
theorem Relay.feed_eq_some {b : Funneling.Act Thread Event} (h : r.feed b = some r') :
    ∃ f, FunnelStep CAPACITY r.funnel b f ∧ r' = { r with funnel := f } := by
  obtain ⟨f, hf, heq⟩ := Option.map_eq_some_iff.mp h
  exact ⟨f, Funnel.step_cases hf, heq.symm⟩

/-- Both pumps have ended and so has the thread that waits. -/
theorem Relay.finished_of_joined (hqueue : r.funnel.queue = []) (hjoined : r.Joined)
    (hwaiter : r.funnel.senders .waiter = .ended) : r.funnel.Finished := by
  refine ⟨hqueue, fun thread => ?_⟩
  cases thread with
  | pump stream => exact hjoined stream
  | waiter => exact hwaiter

/-- Every step is one of these. -/
theorem Relay.step_cases (h : r.step a = some r') : RelayStep r a r' := by
  cases a with
  | read stream chunk =>
    cases chunk with
    | none =>
      obtain ⟨f, hf, rfl⟩ := feed_eq_some h
      exact .read hf
    | some bytes =>
      rw [step] at h
      split at h
      · obtain ⟨f, hf, rfl⟩ := feed_eq_some h
        exact .read hf
      · cases h
  | send thread =>
    obtain ⟨f, hf, rfl⟩ := feed_eq_some h
    exact .send hf
  | wait status =>
    rw [step] at h
    split at h
    · next hjoined =>
      obtain ⟨f, hf, rfl⟩ := feed_eq_some h
      exact .wait hjoined hf
    · cases h
  | receive =>
    rw [step] at h
    split at h
    · next hguard =>
      obtain ⟨hreceiving, htask⟩ := hguard
      unfold receive at h
      split at h
      · next thread event rest hqueue =>
        obtain ⟨r, hr, rfl⟩ := Option.map_eq_some_iff.mp h
        obtain ⟨f, hf, rfl⟩ := feed_eq_some hr
        cases hf with
        | take hqueue' =>
          rw [hqueue] at hqueue'
          cases hqueue'
          exact .receive hreceiving htask hqueue
      · next hqueue =>
        split at h
        · next hended =>
          cases h
          exact .finish hreceiving htask (finished_of_joined hqueue hended.1 hended.2)
        · cases h
    · cases h
  | answer =>
    rw [step] at h
    split at h
    · next hreceiving =>
      split at h
      · next message htask =>
        cases h
        exact .answer hreceiving htask
      · next htask =>
        cases h
        exact .eof hreceiving htask
      · next htask =>
        cases h
        exact .close hreceiving htask
      · cases h
    · cases h
  | disconnect =>
    rw [step] at h
    split at h
    · next hconnected =>
      cases h
      exact .disconnect hconnected
    · cases h
  | drop =>
    obtain ⟨f, hf, rfl⟩ := feed_eq_some h
    cases hf with
    | drop hreceiving => exact .drop hreceiving

theorem flow_append (past : List (Relay × Act)) :
    flow (past ++ [(r, a)]) =
      flow past ++ ((a.moves r).map fun b => (r.funnel, b)).toList := by
  simp [flow]

/-- The threads and the queue take a step of theirs, or none. -/
theorem RelayStep.funnel (h : RelayStep r a r') :
    (∃ b, a.moves r = some b ∧ FunnelStep CAPACITY r.funnel b r'.funnel) ∨
      a.moves r = none ∧ r'.funnel = r.funnel := by
  cases h with
  | read hstep => exact Or.inl ⟨_, rfl, hstep⟩
  | send hstep => exact Or.inl ⟨_, rfl, hstep⟩
  | wait hjoined hstep => exact Or.inl ⟨_, rfl, hstep⟩
  | receive hreceiving htask hqueue =>
    refine Or.inl ⟨.take, ?_, .take hqueue⟩
    rw [Act.moves, hqueue]
    rfl
  | finish hreceiving htask hfinished =>
    refine Or.inr ⟨?_, rfl⟩
    rw [Act.moves, if_pos hfinished.1]
  | answer | eof | close | disconnect => exact Or.inr ⟨rfl, rfl⟩
  | drop hreceiving => exact Or.inl ⟨_, rfl, .drop hreceiving⟩

/-- A thread that has ended does nothing more. -/
theorem RelayStep.ended (h : RelayStep r a r') {thread : Thread}
    (hended : r.funnel.senders thread = .ended) : r'.funnel.senders thread = .ended := by
  rcases h.funnel with ⟨b, -, hstep⟩ | ⟨-, heq⟩
  · exact hstep.ended hended
  · rw [heq, hended]

/-- A task that has gone does not come back. -/
theorem RelayStep.receiving (h : RelayStep r a r') (hthere : r'.funnel.receiving = true) :
    r.funnel.receiving = true := by
  rcases h.funnel with ⟨b, -, hstep⟩ | ⟨-, heq⟩
  · exact hstep.receiving hthere
  · exact heq ▸ hthere

end Steps

section Reading

/-- What a read of a stream returns. -/
def Act.chunk (stream : Stream) : Act → Option (Option (List UInt8))
  | read other chunk => if other = stream then some chunk else none
  | _ => none

/-- What the reads of a stream have returned so far: chunks, and `none` for the end or an error. -/
def reads (stream : Stream) (past : List (Relay × Act)) : List (Option (List UInt8)) :=
  past.flatMap fun p => (p.2.chunk stream).toList

/-- The status with which `child.wait` returns. -/
def Act.status : Act → Option ExitStatus
  | wait status => some status
  | _ => none

@[simp] theorem reads_append (stream : Stream) (past : List (Relay × Act)) (r : Relay) (a : Act) :
    reads stream (past ++ [(r, a)]) = reads stream past ++ (a.chunk stream).toList := by
  simp [reads]

/-- What a step makes of a read. -/
theorem makes_moves (stream : Stream) (r : Relay) (a : Act) :
    made (.pump stream) (((a.moves r).map fun b => (r.funnel, b)).toList) =
      (a.chunk stream).toList.reduceOption.map (output stream) := by
  cases a with
  | read other chunk =>
    by_cases h : other = stream
    · subst h
      cases chunk <;> simp [Act.moves, Act.chunk, readMove, Funneling.Act.makes, made]
    · cases chunk <;> simp [Act.moves, Act.chunk, readMove, Funneling.Act.makes, made, h]
  | receive =>
    rw [Act.moves]
    split <;> rfl
  | _ => rfl

/-- A pump makes an event of each chunk. -/
theorem made_pump (stream : Stream) (past : List (Relay × Act)) :
    made (.pump stream) (flow past) = (reads stream past).reduceOption.map (output stream) := by
  induction past with
  | nil => rfl
  | cons p past ih =>
    have hflow : flow (p :: past) =
        ((p.2.moves p.1).map fun a => (p.1.funnel, a)).toList ++ flow past := rfl
    have hreads : reads stream (p :: past) = (p.2.chunk stream).toList ++ reads stream past := rfl
    rw [hflow, hreads, made_append, ih, makes_moves, List.reduceOption_append, List.map_append]

/-- The thread that waits makes an event of the status. -/
theorem exists_status_of_made {event : Event} {past : List (Relay × Act)}
    (h : event ∈ made .waiter (flow past)) :
    ∃ p ∈ past, ∃ status, p.2 = .wait status ∧ event = .exit status := by
  obtain ⟨⟨f, b⟩, hb, hevent⟩ := List.mem_flatMap.mp h
  obtain ⟨⟨r, a⟩, ha, hmove⟩ := List.mem_flatMap.mp hb
  refine ⟨(r, a), ha, ?_⟩
  rw [Option.mem_toList, Option.map_eq_some_iff] at hmove
  obtain ⟨b', hmoves, heq⟩ := hmove
  cases heq
  cases a with
  | wait status =>
    cases hmoves
    exact ⟨status, rfl, List.mem_singleton.mp hevent⟩
  | read stream chunk =>
    cases hmoves
    cases chunk with
    | none => cases hevent
    | some bytes => cases hevent
  | send thread =>
    cases hmoves
    cases hevent
  | receive =>
    rw [Act.moves] at hmoves
    split at hmoves
    · cases hmoves
    · cases hmoves
      cases hevent
  | drop =>
    cases hmoves
    cases hevent
  | answer => cases hmoves
  | disconnect => cases hmoves

end Reading

section Telling

/-- A pty merges both streams into stdout. -/
def Has (pty : Bool) (stream : Stream) : Prop := stream = .stdout ∨ pty = false

/-- What the thread that waits sends comes last. -/
def Order (f : Funnel Thread Event) (sent : List (Thread × Event)) : Prop :=
  (f.senders .waiter ≠ .ended → of .waiter sent = []) ∧
    (f.senders .waiter = .ended →
      ∃ outs event, sent = outs ++ [(.waiter, event)] ∧ of .waiter outs = [])

/-- The exit status has been received, and everything else before it. -/
structure Whole (pty : Bool) (past : List (Relay × Act)) (r : Relay) (event : Event) : Prop where
  last : ∃ outs, taken (flow past) = outs ++ [(.waiter, event)] ∧ of .waiter outs = []
  joined : r.Joined
  all : ∀ stream, of (.pump stream) (taken (flow past)) = made (.pump stream) (flow past)
  ends : ∀ stream, Has pty stream → none ∈ reads stream past

/-- The messages for what has been received. -/
def messages (past : List (Relay × Act)) : List Message :=
  (taken (flow past)).map fun entry => entry.2.message

/-- The calls that have returned, of a task that has received these messages. -/
def Called (messages : List Message) : Task → List Message → Prop
  | .receiving, calls => calls = messages
  | .calling message, calls => calls ++ [message] = messages
  | .ending, calls => calls = messages
  | .closing, calls => calls = messages ++ [.eof]
  | .closed, calls => calls = messages ++ [.eof, .close]

/-- What holds of a relay after these steps. -/
structure Telling (pty : Bool) (past : List (Relay × Act)) (r : Relay) : Prop where
  carried : Carried (flow past) r.funnel
  joined : r.funnel.senders .waiter ≠ .working → r.Joined
  order : r.funnel.receiving = true → Order r.funnel (taken (flow past) ++ r.funnel.queue)
  ends : r.funnel.receiving = true → ∀ stream, r.funnel.senders (.pump stream) = .ended →
    Has pty stream → none ∈ reads stream past
  whole : ∀ event, (.waiter, event) ∈ taken (flow past) → Whole pty past r event
  told : ∃ calls, Called (messages past) r.task calls ∧ r.told <+: calls ∧
    (r.connected = true → r.told = calls)
  through : r.task = .ending ∨ r.task = .closing ∨ r.task = .closed →
    ∃ event, (.waiter, event) ∈ taken (flow past)

variable {pty : Bool} {past : List (Relay × Act)} {r r' : Relay} {a : Act}

theorem start_waiter (pty : Bool) : (Relay.start pty).funnel.senders .waiter = .working := by
  simp [Relay.start]

theorem telling_start : Telling pty [] (.start pty) where
  carried := by
    refine carried_nil (fun thread => ?_) rfl
    unfold Relay.start
    dsimp only
    split <;> rfl
  joined hwaiter := (hwaiter (start_waiter pty)).elim
  order _ := by
    refine ⟨fun _ => rfl, fun hended => ?_⟩
    cases (start_waiter pty).symm.trans hended
  ends _ stream hended hhas := by
    have hworking : (Relay.start pty).funnel.senders (.pump stream) = .working := by
      refine if_neg fun ⟨hstream, hpty⟩ => ?_
      rcases hhas with rfl | hno
      · cases hstream
      · cases hno.symm.trans hpty
    cases hworking.symm.trans hended
  whole _ h := nomatch h
  told := ⟨[], rfl, List.nil_prefix, fun _ => rfl⟩
  through h := by rcases h with h | h | h <;> cases h

/-- The messages stay on their way. -/
theorem Telling.carried_step (h : Telling pty past r) (hstep : RelayStep r a r') :
    Carried (flow (past ++ [(r, a)])) r'.funnel := by
  rw [flow_append]
  rcases hstep.funnel with ⟨b, hmoves, hfunnel⟩ | ⟨hmoves, heq⟩
  · rw [hmoves]
    exact h.carried.step hfunnel
  · rw [hmoves, heq]
    simpa using h.carried

/-- Only `receive` receives. -/
theorem taken_flow_of_ne (ha : a ≠ .receive) :
    taken (flow (past ++ [(r, a)])) = taken (flow past) := by
  rw [flow_append, taken_append]
  cases a with
  | receive => exact (ha rfl).elim
  | read stream chunk => cases chunk <;> simp [Act.moves, readMove, takes_of_ne]
  | send | wait | drop => simp [Act.moves, takes_of_ne]
  | answer | disconnect => simp [Act.moves]

theorem taken_flow_receive {thread : Thread} {event : Event} {rest : List (Thread × Event)}
    (hqueue : r.funnel.queue = (thread, event) :: rest) :
    taken (flow (past ++ [(r, .receive)])) = taken (flow past) ++ [(thread, event)] := by
  rw [flow_append, taken_append, Act.moves, hqueue]
  simp [takes, hqueue]

theorem taken_flow_finish (hqueue : r.funnel.queue = []) :
    taken (flow (past ++ [(r, .receive)])) = taken (flow past) := by
  rw [flow_append, taken_append, Act.moves, if_pos hqueue]
  simp

/-- The child is waited for only once both pumps have ended. -/
theorem Telling.joined_step (h : Telling pty past r) (hstep : RelayStep r a r')
    (hwaiter : r'.funnel.senders .waiter ≠ .working) : r'.Joined := by
  have hbefore : r.Joined := by
    by_cases hsame : r'.funnel.senders .waiter = r.funnel.senders .waiter
    · exact h.joined (hsame ▸ hwaiter)
    · cases hstep with
      | @read stream chunk f hfunnel =>
        refine (hsame (hfunnel.senders_of_ne ?_)).elim
        cases chunk <;> simp [readMove, Funneling.Act.of?]
      | @send thread f hfunnel =>
        by_cases hthread : thread = .waiter
        · subst hthread
          apply h.joined
          cases hfunnel with
          | send hholding | fail hholding => simp [hholding]
        · exact (hsame (hfunnel.senders_of_ne (by simp [Funneling.Act.of?, hthread]))).elim
      | wait hjoined hfunnel => exact hjoined
      | receive | finish | answer | eof | close | disconnect | drop => exact (hsame rfl).elim
  exact fun stream => hstep.ended (hbefore stream)

/-- The exit status stays the last of what is sent. -/
theorem Telling.order_step (h : Telling pty past r) (hstep : RelayStep r a r')
    (hreceiving' : r'.funnel.receiving = true) :
    Order r'.funnel (taken (flow (past ++ [(r, a)])) ++ r'.funnel.queue) := by
  cases hstep with
  | @read stream chunk f hfunnel =>
    have hsame : f.senders .waiter = r.funnel.senders .waiter := by
      refine hfunnel.senders_of_ne ?_
      cases chunk <;> simp [readMove, Funneling.Act.of?]
    rw [taken_flow_of_ne (by simp), Order, hsame]
    cases chunk with
    | none =>
      cases hfunnel with
      | stop => exact h.order hreceiving'
    | some bytes =>
      cases hfunnel with
      | make => exact h.order hreceiving'
  | @send thread f hfunnel =>
    rw [taken_flow_of_ne (by simp)]
    cases hfunnel with
    | @send _ event _ hholding hreceiving hroom =>
      have horder := h.order hreceiving
      dsimp only
      rw [← List.append_assoc]
      cases thread with
      | waiter =>
        refine ⟨fun hnot => (hnot (by simp)).elim, fun _ => ⟨_, event, rfl, horder.1 ?_⟩⟩
        simp [hholding]
      | pump stream =>
        have hworking : r.funnel.senders .waiter = .working := by
          by_contra hnot
          cases hholding.symm.trans (h.joined hnot stream)
        have hsame : (r.funnel.put (.pump stream) .working).senders .waiter = .working := by
          rw [Funnel.put_of_ne (by simp), hworking]
        refine ⟨fun _ => ?_, fun hended => ?_⟩
        · rw [of_append, horder.1 (by simp [hworking]), of_single]
          rfl
        · cases hsame.symm.trans hended
    | fail hholding hreceiving => cases hreceiving.symm.trans hreceiving'
  | @wait status f hjoined hfunnel =>
    rw [taken_flow_of_ne (by simp)]
    cases hfunnel with
    | make hworking =>
      refine ⟨fun _ => (h.order hreceiving').1 (by simp [hworking]), fun hended => ?_⟩
      rw [Funnel.put_self] at hended
      cases hended
  | @receive thread event rest hreceiving htask hqueue =>
    have horder := h.order hreceiving
    rw [taken_flow_receive hqueue, List.append_assoc]
    rwa [hqueue] at horder
  | finish hreceiving htask hfinished =>
    rw [taken_flow_finish hfinished.1]
    exact h.order hreceiving
  | answer | eof | close | disconnect =>
    rw [taken_flow_of_ne (by simp)]
    exact h.order hreceiving'
  | drop => cases hreceiving'

/-- A pump ends only where its stream does. -/
theorem Telling.ends_step (h : Telling pty past r) (hstep : RelayStep r a r')
    (hreceiving' : r'.funnel.receiving = true) (stream : Stream)
    (hended : r'.funnel.senders (.pump stream) = .ended) (hhas : Has pty stream) :
    none ∈ reads stream (past ++ [(r, a)]) := by
  rw [reads_append]
  by_cases hsame : r'.funnel.senders (.pump stream) = r.funnel.senders (.pump stream)
  · exact List.mem_append_left _
      (h.ends (hstep.receiving hreceiving') stream (hsame ▸ hended) hhas)
  · cases hstep with
    | @read other chunk f hfunnel =>
      by_cases hother : other = stream
      · subst hother
        cases chunk with
        | none => simp [Act.chunk]
        | some bytes =>
          cases hfunnel with
          | make hworking =>
            rw [Funnel.put_self] at hended
            cases hended
      · refine (hsame (hfunnel.senders_of_ne ?_)).elim
        cases chunk <;> simp [readMove, Funneling.Act.of?, hother]
    | @send thread f hfunnel =>
      by_cases hthread : thread = .pump stream
      · subst hthread
        cases hfunnel with
        | send hholding hreceiving hroom =>
          rw [show (decide (Thread.pump stream = .waiter)) = false from rfl] at hended
          simp at hended
        | fail hholding hreceiving => cases hreceiving.symm.trans hreceiving'
      · exact (hsame (hfunnel.senders_of_ne (by simp [Funneling.Act.of?, hthread]))).elim
    | wait hjoined hfunnel =>
      exact (hsame (hfunnel.senders_of_ne (by simp [Funneling.Act.of?]))).elim
    | receive | finish | answer | eof | close | disconnect | drop => exact (hsame rfl).elim

/-- As long as the task is there, the exit status comes behind everything else. -/
theorem whole_of_receiving {event : Event} (hcarried : Carried (flow past) r.funnel)
    (hjoined : r.funnel.senders .waiter ≠ .working → r.Joined)
    (horder : Order r.funnel (taken (flow past) ++ r.funnel.queue))
    (hends : ∀ stream, r.funnel.senders (.pump stream) = .ended → Has pty stream →
      none ∈ reads stream past)
    (hreceiving : r.funnel.receiving = true) (hmem : (.waiter, event) ∈ taken (flow past)) :
    Whole pty past r event := by
  have hended : r.funnel.senders .waiter = .ended := by
    by_contra hnot
    have hnone := horder.1 hnot
    rw [of_append, List.append_eq_nil_iff] at hnone
    exact absurd (mem_of_iff.mpr hmem) (hnone.1 ▸ List.not_mem_nil)
  obtain ⟨outs, event', heq, houts⟩ := horder.2 hended
  have hjoin := hjoined (by simp [hended])
  have hqueue : r.funnel.queue = [] := by
    by_contra hne
    obtain ⟨front, last, hlast⟩ := List.eq_nil_or_concat' r.funnel.queue |>.resolve_left hne
    rw [hlast, ← List.append_assoc] at heq
    have hfront := (List.append_inj' heq rfl).1
    have hin : (.waiter, event) ∈ outs := hfront ▸ List.mem_append_left _ hmem
    exact absurd (mem_of_iff.mpr hin) (houts ▸ List.not_mem_nil)
  rw [hqueue, List.append_nil] at heq
  have hevent : event = event' := by
    rw [heq, List.mem_append, List.mem_singleton] at hmem
    rcases hmem with hin | hlast
    · exact absurd (mem_of_iff.mpr hin) (houts ▸ List.not_mem_nil)
    · exact congrArg Prod.snd hlast
  subst hevent
  exact ⟨⟨outs, heq, houts⟩, hjoin,
    fun stream => hcarried.of_ended hreceiving hqueue (hjoin stream),
    fun stream => hends stream (hjoin stream)⟩

/-- Once the exit status has been received, nothing of the output is missing, and nothing more of it
will come. -/
theorem Whole.step {event : Event} (h : Whole pty past r event) (hstep : RelayStep r a r')
    (ha : a ≠ .receive) : Whole pty (past ++ [(r, a)]) r' event where
  last := by
    rw [taken_flow_of_ne ha]
    exact h.last
  joined stream := hstep.ended (h.joined stream)
  all stream := by
    rw [taken_flow_of_ne ha, h.all stream, flow_append, made_append]
    rcases hstep.funnel with ⟨b, hmoves, hfunnel⟩ | ⟨hmoves, heq⟩
    · rw [hmoves]
      simp [made, hfunnel.makes_of_ended (h.joined stream)]
    · rw [hmoves]
      exact (List.append_nil _).symm
  ends stream hhas := by
    rw [reads_append]
    exact List.mem_append_left _ (h.ends stream hhas)

/-- The exit status still comes behind everything else. -/
theorem Telling.whole_step (h : Telling pty past r) (hstep : RelayStep r a r') (event : Event)
    (hmem : (.waiter, event) ∈ taken (flow (past ++ [(r, a)]))) :
    Whole pty (past ++ [(r, a)]) r' event := by
  by_cases hreceiving' : r'.funnel.receiving = true
  · exact whole_of_receiving (h.carried_step hstep) (h.joined_step hstep)
      (h.order_step hstep hreceiving') (h.ends_step hstep hreceiving') hreceiving' hmem
  · have ha : a ≠ .receive := by
      rintro rfl
      cases hstep with
      | receive hreceiving | finish hreceiving => exact hreceiving' hreceiving
    rw [taken_flow_of_ne ha] at hmem
    exact (h.whole event hmem).step hstep ha

/-- What has been received, before a step that receives. -/
theorem messages_receive {thread : Thread} {event : Event} {rest : List (Thread × Event)}
    (hqueue : r.funnel.queue = (thread, event) :: rest) :
    messages (past ++ [(r, .receive)]) = messages past ++ [event.message] := by
  rw [messages, taken_flow_receive hqueue, List.map_append]
  rfl

theorem messages_of_ne (ha : a ≠ .receive) : messages (past ++ [(r, a)]) = messages past := by
  rw [messages, taken_flow_of_ne ha, messages]

/-- The client is told the first of what the task has called. -/
theorem isPrefix_tell {calls : List Message} {message : Message} {task : Task}
    (htakes : r.told <+: calls) (hall : r.connected = true → r.told = calls) :
    (r.tell message task).told <+: calls ++ [message] ∧
      ((r.tell message task).connected = true →
        (r.tell message task).told = calls ++ [message]) := by
  unfold Relay.tell
  dsimp only
  split
  · next hconnected =>
    rw [hall hconnected]
    exact ⟨List.prefix_refl _, fun _ => rfl⟩
  · next hnot =>
    exact ⟨htakes.trans (List.prefix_append _ _), fun hconnected => (hnot hconnected).elim⟩

/-- The client is told what has been received, in this order. -/
theorem Telling.told_step (h : Telling pty past r) (hstep : RelayStep r a r') :
    ∃ calls, Called (messages (past ++ [(r, a)])) r'.task calls ∧ r'.told <+: calls ∧
      (r'.connected = true → r'.told = calls) := by
  obtain ⟨calls, hcalled, htakes, hall⟩ := h.told
  cases hstep with
  | read | send | wait | drop =>
    rw [messages_of_ne (by simp)]
    exact ⟨calls, hcalled, htakes, hall⟩
  | disconnect =>
    rw [messages_of_ne (by simp)]
    exact ⟨calls, hcalled, htakes, nofun⟩
  | receive hreceiving htask hqueue =>
    refine ⟨calls, ?_, htakes, hall⟩
    rw [htask] at hcalled
    rw [messages_receive hqueue]
    exact congrArg (· ++ _) hcalled
  | finish hreceiving htask hfinished =>
    refine ⟨calls, ?_, htakes, hall⟩
    rw [htask] at hcalled
    rw [messages, taken_flow_finish hfinished.1]
    exact hcalled
  | @answer message hreceiving htask =>
    rw [messages_of_ne (by simp)]
    rw [htask] at hcalled
    exact ⟨calls ++ [message], hcalled, isPrefix_tell htakes hall⟩
  | eof hreceiving htask =>
    rw [messages_of_ne (by simp)]
    rw [htask] at hcalled
    refine ⟨calls ++ [.eof], ?_, isPrefix_tell htakes hall⟩
    exact congrArg (· ++ [.eof]) hcalled
  | close hreceiving htask =>
    rw [messages_of_ne (by simp)]
    rw [htask] at hcalled
    refine ⟨calls ++ [.close], ?_, isPrefix_tell htakes hall⟩
    exact (congrArg (· ++ [.close]) hcalled).trans (List.append_assoc _ _ _)

/-- The task ends only behind the exit status. -/
theorem Telling.through_step (h : Telling pty past r) (hstep : RelayStep r a r')
    (htask' : r'.task = .ending ∨ r'.task = .closing ∨ r'.task = .closed) :
    ∃ event, (.waiter, event) ∈ taken (flow (past ++ [(r, a)])) := by
  cases hstep with
  | read | send | wait | disconnect | drop =>
    rw [taken_flow_of_ne (by simp)]
    exact h.through htask'
  | receive => rcases htask' with htask' | htask' | htask' <;> cases htask'
  | finish hreceiving htask hfinished =>
    obtain ⟨outs, event, heq, -⟩ := (h.order hreceiving).2 (hfinished.2 .waiter)
    rw [hfinished.1, List.append_nil] at heq
    rw [taken_flow_finish hfinished.1, heq]
    exact ⟨event, List.mem_append_right _ List.mem_cons_self⟩
  | answer => rcases htask' with htask' | htask' | htask' <;> cases htask'
  | eof hreceiving htask =>
    rw [taken_flow_of_ne (by simp)]
    exact h.through (Or.inl htask)
  | close hreceiving htask =>
    rw [taken_flow_of_ne (by simp)]
    exact h.through (Or.inr (Or.inl htask))

/-- Every step keeps all of this. -/
theorem Telling.step (h : Telling pty past r) (hstep : RelayStep r a r') :
    Telling pty (past ++ [(r, a)]) r' :=
  ⟨h.carried_step hstep, h.joined_step hstep, h.order_step hstep, h.ends_step hstep,
    h.whole_step hstep, h.told_step hstep, h.through_step hstep⟩

end Telling

section Lasting

/-- How many steps a pump has left, if its stream has ended. -/
def pumpLeft : Sender Event → ℕ
  | .working => 1
  | .holding _ => 4
  | .ended => 0

/-- How many steps the thread that waits has left. -/
def waiterLeft : Sender Event → ℕ
  | .working => 4
  | .holding _ => 3
  | .ended => 0

/-- How many steps the task has left, if nothing more is sent. -/
def Task.left : Task → ℕ
  | receiving => 3
  | calling _ => 4
  | ending => 2
  | closing => 1
  | closed => 0

/-- How many steps a relay has left, if both streams have ended. -/
def Relay.left (r : Relay) : ℕ :=
  pumpLeft (r.funnel.senders (.pump .stdout)) + pumpLeft (r.funnel.senders (.pump .stderr)) +
    waiterLeft (r.funnel.senders .waiter) + 2 * r.funnel.queue.length + r.task.left +
    r.connected.toNat + r.funnel.receiving.toNat

/-- How many chunks a step reads. -/
def Act.reads : Act → ℕ
  | read _ (some _) => 1
  | _ => 0

/-- How many chunks have been read. -/
def chunks (past : List (Relay × Act)) : ℕ := (past.map fun p => p.2.reads).sum

variable {r r' : Relay} {a : Act}

/-- A step of a pump leaves less to do, if it does for the pump and the queue. -/
theorem left_of_pump {f : Funnel Thread Event} {n : ℕ} (stream : Stream) (sender : Sender Event)
    (hsenders : f.senders = (r.funnel.put (.pump stream) sender).senders)
    (hreceiving : f.receiving = r.funnel.receiving)
    (hless : pumpLeft sender + 2 * f.queue.length + 1 ≤
      pumpLeft (r.funnel.senders (.pump stream)) + 2 * r.funnel.queue.length + n) :
    ({ r with funnel := f } : Relay).left + 1 ≤ r.left + n := by
  simp only [Relay.left, hsenders, hreceiving, Funnel.put]
  cases stream <;> simp <;> omega

/-- A step of the thread that waits does likewise. -/
theorem left_of_waiter {f : Funnel Thread Event} {n : ℕ} (sender : Sender Event)
    (hsenders : f.senders = (r.funnel.put .waiter sender).senders)
    (hreceiving : f.receiving = r.funnel.receiving)
    (hless : waiterLeft sender + 2 * f.queue.length + 1 ≤
      waiterLeft (r.funnel.senders .waiter) + 2 * r.funnel.queue.length + n) :
    ({ r with funnel := f } : Relay).left + 1 ≤ r.left + n := by
  simp only [Relay.left, hsenders, hreceiving, Funnel.put]
  simp
  omega

/-- A call that returns. -/
theorem left_tell (message : Message) (task : Task) :
    (r.tell message task).left + r.task.left = r.left + task.left := by
  simp only [Relay.left, Relay.tell]
  omega

/-- Every step leaves less to do, but for four steps that a chunk brings. -/
theorem RelayStep.left (h : RelayStep r a r') : r'.left + 1 ≤ r.left + 4 * a.reads := by
  cases h with
  | @read stream chunk f hfunnel =>
    cases chunk with
    | none =>
      cases hfunnel with
      | stop hworking =>
        refine left_of_pump stream .ended rfl rfl ?_
        simp only [hworking, pumpLeft, Funnel.put_queue]
        omega
    | some bytes =>
      cases hfunnel with
      | make hworking =>
        refine left_of_pump stream (.holding (output stream bytes)) rfl rfl ?_
        simp only [hworking, pumpLeft, Act.reads, Funnel.put_queue]
        omega
  | @send thread f hfunnel =>
    cases thread with
    | pump stream =>
      cases hfunnel with
      | send hholding hreceiving hroom =>
        refine left_of_pump stream .working rfl rfl ?_
        simp only [hholding, pumpLeft, List.length_append, List.length_singleton]
        omega
      | fail hholding hreceiving =>
        refine left_of_pump stream .ended rfl rfl ?_
        simp only [hholding, pumpLeft, Funnel.put_queue]
        omega
    | waiter =>
      cases hfunnel with
      | send hholding hreceiving hroom =>
        refine left_of_waiter .ended (by simp) rfl ?_
        simp only [hholding, waiterLeft, List.length_append, List.length_singleton]
        omega
      | fail hholding hreceiving =>
        refine left_of_waiter .ended rfl rfl ?_
        simp only [hholding, waiterLeft, Funnel.put_queue]
        omega
  | @wait status f hjoined hfunnel =>
    cases hfunnel with
    | make hworking =>
      refine left_of_waiter (.holding (.exit status)) rfl rfl ?_
      simp only [hworking, waiterLeft, Funnel.put_queue]
      omega
  | receive hreceiving htask hqueue =>
    simp only [Relay.left, htask, hqueue, Task.left, Act.reads, List.length_cons]
    omega
  | finish hreceiving htask hfinished =>
    simp only [Relay.left, htask, Task.left, Act.reads]
    omega
  | @answer message hreceiving htask =>
    have := left_tell (r := r) message .receiving
    simp only [htask, Task.left] at this
    simp only [Act.reads]
    omega
  | eof hreceiving htask =>
    have := left_tell (r := r) .eof .closing
    simp only [htask, Task.left] at this
    simp only [Act.reads]
    omega
  | close hreceiving htask =>
    have := left_tell (r := r) .close .closed
    simp only [htask, Task.left] at this
    simp only [Act.reads]
    omega
  | disconnect hconnected =>
    simp only [Relay.left, hconnected, Act.reads, Bool.toNat_true, Bool.toNat_false]
    omega
  | drop hreceiving =>
    simp only [Relay.left, hreceiving, Act.reads, Bool.toNat_true, Bool.toNat_false,
      List.length_nil]
    omega

/-- A relay has taken no more steps than what has been read lets it take. -/
def Lasts (past : List (Relay × Act)) (r : Relay) : Prop :=
  past.length + r.left ≤ 4 * chunks past + 11

theorem lasts_start (pty : Bool) : Lasts [] (.start pty) := by
  unfold Lasts
  cases pty <;> decide

theorem Lasts.step {past : List (Relay × Act)} (h : Lasts past r) (hstep : RelayStep r a r') :
    Lasts (past ++ [(r, a)]) r' := by
  have hleft := hstep.left
  simp only [Lasts, chunks, List.length_append, List.map_append, List.sum_append,
    List.length_singleton, List.map_singleton, List.sum_singleton] at h ⊢
  omega

/-- What a relay waits for from outside: a stream, the child, or the connection. -/
def Relay.Waits (r : Relay) : Prop :=
  (∃ stream, r.funnel.senders (.pump stream) = .working) ∨
    (r.Joined ∧ r.funnel.senders .waiter = .working) ∨
      r.task ≠ .receiving ∧ r.task ≠ .closed

/-- A thread that has something in hand can send it to an empty queue. -/
theorem Relay.isSome_send {thread : Thread} {event : Event} (hqueue : r.funnel.queue = [])
    (hholding : r.funnel.senders thread = .holding event) : (r.step (.send thread)).isSome := by
  rw [step, feed, Option.isSome_map]
  apply Funnel.isSome_send hholding
  rw [hqueue]
  decide

/-- A relay that waits for nothing goes on by itself. -/
theorem Relay.moves (hreceiving : r.funnel.receiving = true) (hopen : r.task ≠ .closed)
    (hwaits : ¬ r.Waits) :
    (r.step .receive).isSome ∨ ∃ thread, (r.step (.send thread)).isSome := by
  have htask : r.task = .receiving :=
    by_contra fun hne => hwaits (Or.inr (Or.inr ⟨hne, hopen⟩))
  have hreceive : r.step .receive = r.receive := if_pos ⟨hreceiving, htask⟩
  by_cases hqueue : r.funnel.queue = []
  · by_cases hjoined : r.Joined
    · cases hwaiter : r.funnel.senders .waiter with
      | working => exact (hwaits (Or.inr (Or.inl ⟨hjoined, hwaiter⟩))).elim
      | holding event => exact Or.inr ⟨.waiter, isSome_send hqueue hwaiter⟩
      | ended =>
        left
        rw [hreceive, receive, hqueue]
        dsimp only
        rw [if_pos ⟨hjoined, hwaiter⟩]
        rfl
    · obtain ⟨stream, hstream⟩ := not_forall.mp hjoined
      cases hpump : r.funnel.senders (.pump stream) with
      | working => exact (hwaits (Or.inl ⟨stream, hpump⟩)).elim
      | holding event => exact Or.inr ⟨.pump stream, isSome_send hqueue hpump⟩
      | ended => exact (hstream hpump).elim
  · obtain ⟨⟨thread, event⟩, rest, hqueue⟩ := List.exists_cons_of_ne_nil hqueue
    left
    rw [hreceive, receive, hqueue]
    dsimp only
    rw [feed, Funnel.step, hqueue]
    rfl

end Lasting

section Hearing

/-- What a message carries of a stream. -/
def Message.bytes (stream : Stream) : Message → List UInt8
  | data bytes => if stream = .stdout then bytes else []
  | extendedData kind bytes => if stream = .stderr ∧ kind = 1 then bytes else []
  | _ => []

/-- What messages carry of a stream. -/
def heard (stream : Stream) (told : List Message) : List UInt8 :=
  told.flatMap (Message.bytes stream)

/-- What has been read of a stream so far. -/
def written (stream : Stream) (past : List (Relay × Act)) : List UInt8 :=
  (reads stream past).reduceOption.flatten

/-- Output of one of the streams. -/
def Message.isOutput : Message → Bool
  | data _ | extendedData _ _ => true
  | _ => false

variable {pty : Bool} {past : List (Relay × Act)} {r : Relay}

/-- What a pump has sent carries its stream, and nothing else does. -/
theorem heard_output (stream other : Stream) (bytes : List UInt8) :
    (output other bytes).message.bytes stream = if other = stream then bytes else [] := by
  cases other <;> cases stream <;> rfl

/-- What is received of a pump is an event of its stream. -/
theorem Telling.exists_output (h : Telling pty past r) {stream : Stream} {event : Event}
    (hmem : (.pump stream, event) ∈ taken (flow past)) : ∃ bytes, event = output stream bytes := by
  have hmade := (h.carried.begins (.pump stream)).subset (mem_of_iff.mpr hmem)
  rw [made_pump, List.mem_map] at hmade
  obtain ⟨bytes, -, heq⟩ := hmade
  exact ⟨bytes, heq.symm⟩

/-- What is received of the thread that waits is the status. -/
theorem Telling.exists_status (h : Telling pty past r) {event : Event}
    (hmem : (.waiter, event) ∈ taken (flow past)) :
    ∃ p ∈ past, ∃ status, p.2 = .wait status ∧ event = .exit status :=
  exists_status_of_made ((h.carried.begins .waiter).subset (mem_of_iff.mpr hmem))

/-- What the messages carry of a stream is what was received of its pump. -/
theorem Telling.heard_messages (h : Telling pty past r) (stream : Stream) :
    heard stream (messages past) =
      (of (.pump stream) (taken (flow past))).flatMap fun event => event.message.bytes stream := by
  have hall : ∀ entries : List (Thread × Event), entries ⊆ taken (flow past) →
      heard stream (entries.map fun entry => entry.2.message) =
        (of (.pump stream) entries).flatMap fun event => event.message.bytes stream := by
    intro entries hsub
    induction entries with
    | nil => rfl
    | cons entry rest ih =>
      obtain ⟨hmem, hrest⟩ := List.cons_subset.mp hsub
      have hsplit : of (.pump stream) (entry :: rest) =
          of (.pump stream) [entry] ++ of (.pump stream) rest := of_append _ [entry] rest
      rw [hsplit, List.flatMap_append, ← ih hrest, List.map_cons, heard, List.flatMap_cons, heard]
      congr 1
      obtain ⟨thread, event⟩ := entry
      cases thread with
      | waiter =>
        obtain ⟨-, -, status, -, rfl⟩ := h.exists_status hmem
        rfl
      | pump other =>
        obtain ⟨bytes, rfl⟩ := h.exists_output hmem
        rw [heard_output, of_single]
        by_cases heq : other = stream
        · subst heq
          simp [heard_output]
        · simp [heq]
  exact hall _ (List.Subset.refl _)

/-- What has been read of a stream, as events of its pump. -/
theorem flatMap_made (stream : Stream) (past : List (Relay × Act)) :
    ((made (.pump stream) (flow past)).flatMap fun event => event.message.bytes stream) =
      written stream past := by
  rw [made_pump, List.flatMap_map, written, List.flatten_eq_flatMap]
  congr 1
  funext bytes
  rw [heard_output, if_pos rfl]
  rfl

/-- The messages carry the first of what has been read. -/
theorem Telling.heard_messages_isPrefix (h : Telling pty past r) (stream : Stream) :
    heard stream (messages past) <+: written stream past := by
  rw [h.heard_messages, ← flatMap_made]
  obtain ⟨rest, hrest⟩ := h.carried.begins (.pump stream)
  rw [← hrest, List.flatMap_append]
  exact List.prefix_append _ _

theorem heard_append (stream : Stream) (told more : List Message) :
    heard stream (told ++ more) = heard stream told ++ heard stream more := List.flatMap_append

theorem heard_isPrefix (stream : Stream) {told calls : List Message} (h : told <+: calls) :
    heard stream told <+: heard stream calls := by
  obtain ⟨rest, rfl⟩ := h
  rw [heard_append]
  exact List.prefix_append _ _

/-- What the calls carry beyond the messages is nothing. -/
theorem Called.heard {messages calls : List Message} {task : Task} (h : Called messages task calls)
    (stream : Stream) : heard stream calls <+: heard stream messages := by
  cases task with
  | receiving | ending => exact h ▸ List.prefix_refl _
  | calling message => exact heard_isPrefix stream ⟨_, h⟩
  | closing | closed =>
    rw [show calls = _ from h, heard_append]
    exact (List.append_nil _).symm ▸ List.prefix_refl _

/-- Whoever is a first part of a list in two parts, but not of the first one, has all of that. -/
theorem exists_append_of_isPrefix {α : Type} {l a b : List α} (h : l <+: a ++ b)
    (hnot : ¬ l <+: a) : ∃ rest, l = a ++ rest ∧ rest <+: b := by
  rcases List.prefix_or_prefix_of_prefix h (List.prefix_append a b) with hl | ⟨rest, rfl⟩
  · exact (hnot hl).elim
  · exact ⟨rest, rfl, (List.prefix_append_right_inj a).mp h⟩

/-- The exit status is the last of the messages, and nothing of the output is missing. -/
theorem Telling.exit_last (h : Telling pty past r) {code : UInt32}
    (hmem : .exitStatus code ∈ messages past) :
    ∃ outs status event, messages past = outs ++ [.exitStatus code] ∧
      (∀ message ∈ outs, message.isOutput = true) ∧ (∃ p ∈ past, p.2 = .wait status) ∧
      code = exitCode status ∧ Whole pty past r event := by
  obtain ⟨⟨thread, event⟩, hentry, hcode⟩ := List.mem_map.mp hmem
  cases thread with
  | pump stream =>
    obtain ⟨bytes, rfl⟩ := h.exists_output hentry
    cases stream <;> cases hcode
  | waiter =>
    have hwhole := h.whole event hentry
    obtain ⟨p, hp, status, hstatus, rfl⟩ := h.exists_status hentry
    obtain ⟨outs, htaken, houts⟩ := hwhole.last
    refine ⟨outs.map fun entry => entry.2.message, status, _, ?_, ?_, ⟨p, hp, hstatus⟩,
      (Message.exitStatus.inj hcode).symm, hwhole⟩
    · rw [messages, htaken, List.map_append, ← hcode]
      rfl
    · intro message hmessage
      obtain ⟨⟨thread, event⟩, hin, rfl⟩ := List.mem_map.mp hmessage
      cases thread with
      | waiter => exact absurd (mem_of_iff.mpr hin) (houts ▸ List.not_mem_nil)
      | pump stream =>
        obtain ⟨bytes, rfl⟩ := h.exists_output (htaken ▸ List.mem_append_left _ hin)
        cases stream <;> rfl

/-- No message is an end. -/
theorem not_end_of_mem {message : Message} (hmem : message ∈ messages past) :
    message ≠ .eof ∧ message ≠ .close := by
  obtain ⟨⟨thread, event⟩, hentry, rfl⟩ := List.mem_map.mp hmem
  cases event <;> exact ⟨nofun, nofun⟩

/-- Whoever is told an end has been told the exit status. -/
theorem Telling.exit_of_end (h : Telling pty past r) (hend : .eof ∈ r.told ∨ .close ∈ r.told) :
    ∃ code, .exitStatus code ∈ r.told := by
  obtain ⟨calls, hcalled, htakes, -⟩ := h.told
  have hnot : ¬ r.told <+: messages past := by
    intro hle
    rcases hend with hend | hend
    · exact (not_end_of_mem (hle.subset hend)).1 rfl
    · exact (not_end_of_mem (hle.subset hend)).2 rfl
  have hends : ∃ rest, calls = messages past ++ rest ∧
      (r.task = .ending ∨ r.task = .closing ∨ r.task = .closed) := by
    cases htask : r.task with
    | receiving =>
      rw [htask] at hcalled
      exact (hnot (hcalled ▸ htakes)).elim
    | calling message =>
      rw [htask] at hcalled
      exact (hnot (htakes.trans ⟨_, hcalled⟩)).elim
    | ending =>
      rw [htask] at hcalled
      exact (hnot (hcalled ▸ htakes)).elim
    | closing =>
      rw [htask] at hcalled
      exact ⟨_, hcalled, by simp⟩
    | closed =>
      rw [htask] at hcalled
      exact ⟨_, hcalled, by simp⟩
  obtain ⟨rest, rfl, htask⟩ := hends
  obtain ⟨rest', htold, -⟩ := exists_append_of_isPrefix htakes hnot
  obtain ⟨event, hmem⟩ := h.through htask
  obtain ⟨-, -, status, -, rfl⟩ := h.exists_status hmem
  refine ⟨exitCode status, htold ▸ List.mem_append_left _ ?_⟩
  exact List.mem_map.mpr ⟨_, hmem, rfl⟩

/-- An exit status that the client is told comes behind all of the output. -/
theorem Telling.told_exit (h : Telling pty past r) {code : UInt32}
    (hmem : .exitStatus code ∈ r.told) :
    ∃ outs tail status, r.told = outs ++ .exitStatus code :: tail ∧
      (∀ message ∈ outs, message.isOutput = true) ∧ tail <+: [.eof, .close] ∧
      (∃ p ∈ past, p.2 = .wait status) ∧ code = exitCode status ∧
      ∀ stream, heard stream r.told = written stream past ∧
        (Has pty stream → none ∈ reads stream past) := by
  obtain ⟨calls, hcalled, htakes, -⟩ := h.told
  have hsplit : ∃ ends, ends <+: [.eof, .close] ∧
      (calls = messages past ++ ends ∨ ∃ message, calls ++ [message] = messages past) := by
    cases htask : r.task with
    | calling message =>
      rw [htask] at hcalled
      exact ⟨[], List.nil_prefix, Or.inr ⟨message, hcalled⟩⟩
    | receiving | ending =>
      rw [htask] at hcalled
      exact ⟨[], List.nil_prefix, Or.inl (hcalled.trans (List.append_nil _).symm)⟩
    | closing =>
      rw [htask] at hcalled
      exact ⟨[.eof], ⟨[.close], rfl⟩, Or.inl hcalled⟩
    | closed =>
      rw [htask] at hcalled
      exact ⟨[.eof, .close], List.prefix_refl _, Or.inl hcalled⟩
  obtain ⟨ends, hends, hcalls⟩ := hsplit
  have hin : .exitStatus code ∈ messages past := by
    have hcall := htakes.subset hmem
    rcases hcalls with rfl | ⟨message, heq⟩
    · rcases List.mem_append.mp hcall with hin | hin
      · exact hin
      · have := hends.subset hin
        simp at this
    · exact heq ▸ List.mem_append_left _ hcall
  obtain ⟨outs, status, event, hmessages, houts, hstatus, hcode, hwhole⟩ := h.exit_last hin
  have hnot : .exitStatus code ∉ outs := fun hout => by cases houts _ hout
  rcases hcalls with rfl | ⟨message, heq⟩
  · rw [hmessages, List.append_assoc] at htakes
    obtain ⟨rest, htold, hrest⟩ := exists_append_of_isPrefix htakes
      fun hle => hnot (hle.subset hmem)
    obtain ⟨tail, rfl, htail⟩ : ∃ tail, rest = .exitStatus code :: tail ∧ tail <+: ends := by
      cases rest with
      | nil =>
        rw [htold, List.append_nil] at hmem
        exact (hnot hmem).elim
      | cons message tail =>
        obtain ⟨rfl, htail⟩ := List.cons_prefix_cons.mp hrest
        exact ⟨tail, rfl, htail⟩
    refine ⟨outs, tail, status, htold, houts, htail.trans hends, hstatus, hcode,
      fun stream => ⟨?_, hwhole.ends stream⟩⟩
    have hsilent : heard stream tail = [] := by
      have hle := heard_isPrefix stream (htail.trans hends)
      exact List.prefix_nil.mp hle
    have hall : heard stream (messages past) = written stream past := by
      rw [h.heard_messages, hwhole.all stream, flatMap_made]
    have hlast : heard stream (.exitStatus code :: tail) = heard stream [.exitStatus code] :=
      (heard_append stream [_] tail).trans (by rw [hsilent, List.append_nil])
    rw [htold, heard_append, hlast, ← heard_append, ← hmessages, hall]
  · rw [hmessages] at heq
    have hcalls := (List.append_inj' heq rfl).1
    exact (hnot (hcalls ▸ htakes.subset hmem)).elim

/-- What an SSH client is told of a session, over every interleaving of the threads that read and
wait, the task and the connection: of each stream what comes first in it; the exit status of the
child only behind all of both streams, and nothing but the end behind it; and the end only behind
the exit status. A task that has closed the channel of a client that is still there has told all of
this. The threads never block each other: as long as the channel is not closed, the relay waits for
a stream, the child or the connection, or goes on by itself; and each chunk makes for four steps at
most. -/
theorem session_told (pty : Bool) (acts : List Act) :
    let past := steps Relay.step acts (.start pty)
    let r := exec Relay.step acts (.start pty)
    (∀ stream, heard stream r.told <+: written stream past) ∧
    (∀ code, .exitStatus code ∈ r.told →
      ∃ outs tail status, r.told = outs ++ .exitStatus code :: tail ∧
        (∀ message ∈ outs, message.isOutput = true) ∧ tail <+: [.eof, .close] ∧
        (∃ p ∈ past, p.2 = .wait status) ∧ code = exitCode status ∧
        ∀ stream, heard stream r.told = written stream past ∧
          (Has pty stream → none ∈ reads stream past)) ∧
    (.eof ∈ r.told ∨ .close ∈ r.told → ∃ code, .exitStatus code ∈ r.told) ∧
    (r.task = .closed → r.connected = true → .close ∈ r.told) ∧
    (r.funnel.receiving = true → r.task ≠ .closed →
      r.Waits ∨ (r.step .receive).isSome ∨ ∃ thread, (r.step (.send thread)).isSome) ∧
    past.length ≤ 4 * chunks past + 11 := by
  intro past r
  have htelling : Telling pty past r :=
    history (J := Telling pty) (G := fun _ _ => True)
      (fun _ _ _ _ h _ hstep => h.step (Relay.step_cases hstep)) telling_start (fun _ _ => trivial)
  have hlasts : Lasts past r :=
    history (J := Lasts) (G := fun _ _ => True)
      (fun _ _ _ _ h _ hstep => h.step (Relay.step_cases hstep)) (lasts_start pty)
      (fun _ _ => trivial)
  refine ⟨fun stream => ?_, fun code => htelling.told_exit, htelling.exit_of_end,
    fun htask hconnected => ?_, fun hreceiving hopen => ?_, ?_⟩
  · obtain ⟨calls, hcalled, htakes, -⟩ := htelling.told
    exact ((heard_isPrefix stream htakes).trans (hcalled.heard stream)).trans
      (htelling.heard_messages_isPrefix stream)
  · obtain ⟨calls, hcalled, -, hall⟩ := htelling.told
    rw [htask] at hcalled
    rw [hall hconnected, show calls = _ from hcalled]
    simp
  · by_cases hwaits : r.Waits
    · exact Or.inl hwaits
    · exact Or.inr (Relay.moves hreceiving hopen hwaits)
  · unfold Lasts at hlasts
    omega

end Hearing

end Devcroft.Ssh.Session
