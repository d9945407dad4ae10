import Devcroft.Exec.Client

/-!
# What a client sends

Once its session has begun, a client has a thread that reads stdin, one that waits for signals, and
one that writes the frames of both to the keeper. They go on while the keeper's own threads do. The
child is to get what the client has read, in this order, and the end of it only behind all of it.
-/

namespace Devcroft.Exec

open Keeper Interleaving

/-- `SIGWINCH`. -/
def SIGWINCH : ℕ := 28

/-- The frame for a signal that `sigwait` has returned, with the size of the terminal. -/
def forwarded (pty : Bool) (received : ℕ) (size : Option PtySize) : Option Frame :=
  if pty = true ∧ received = SIGWINCH then size.map .resize
  else if received = SIGINT then some (.signal .int)
  else if received = SIGTERM then some (.signal .term)
  else if received = SIGHUP then some (.signal .hup)
  else none

/-- The threads of `stream_session`. -/
structure Client where
  pty : Bool
  streaming : Bool
  /-- The thread of `spawn_stdin_pump` is running. -/
  pumping : Bool
  /-- The thread of `spawn_signal_forwarder` is running. -/
  forwarding : Bool
  /-- The frames that were given to the writer. -/
  channel : List Frame
  /-- The writer is running. -/
  receiving : Bool
  /-- The process has ended. -/
  left : Bool

/-- A client that has asked for its session. -/
def Client.start (pty : Bool) : Client := ⟨pty, false, false, false, [], true, false⟩

/-- What a client does. -/
inductive ClientAct where
  /-- It is told of its session, and starts the threads. -/
  | stream
  /-- A read of stdin returns some bytes, or the end or an error. -/
  | stdin (chunk : Option (List UInt8))
  | sigwait (received : ℕ) (size : Option PtySize)
  /-- The writer writes a frame, or fails to. -/
  | write (succeeds : Bool)
  | leave
  deriving DecidableEq

/-- The frame that a thread gives to the writer. -/
def ClientAct.gives (pty : Bool) : ClientAct → Option Frame
  | stdin none => some .stdinClosed
  | stdin (some bytes) => some (.stdin bytes)
  | sigwait received size => forwarded pty received size
  | _ => none

/-- `tx.send`. -/
def Client.send (c : Client) (frame : Frame) : Option Client :=
  if c.receiving then some { c with channel := c.channel ++ [frame] } else none

/-- A step of the client, with what it writes. -/
def Client.step (told : Bool) (c : Client) : ClientAct → Option (Client × List Frame)
  | .stream =>
    if told = true ∧ c.streaming = false then
      some ({ c with streaming := true, pumping := true, forwarding := true }, [])
    else none
  | .stdin none =>
    if c.pumping then
      some ({ (c.send .stdinClosed).getD c with pumping := false }, [])
    else none
  | .stdin (some bytes) =>
    if c.pumping = true ∧ 0 < bytes.length ∧ bytes.length ≤ 8192 then
      some ((c.send (.stdin bytes)).getD { c with pumping := false }, [])
    else none
  | .sigwait received size =>
    if c.forwarding then
      match forwarded c.pty received size with
      | none => some (c, [])
      | some frame => some ((c.send frame).getD { c with forwarding := false }, [])
    else none
  | .write succeeds =>
    match c.channel with
    | [] => none
    | frame :: rest =>
      if succeeds then some ({ c with channel := rest }, [frame])
      else some ({ c with channel := [], receiving := false }, [])
  | .leave => some ({ c with left := true }, [])

/-- A client and a keeper, with the frames between them. -/
structure Joint where
  client : Client
  wire : List Frame
  keeper : KeeperState

/-- What the one or the other does. -/
inductive JointAct where
  | client (a : ClientAct)
  | keeper (a : Act)
  deriving DecidableEq

/-- What the client's own connection does in a step. -/
def own (k : ℕ) : JointAct → Option ConnAct
  | .keeper (.conn k' a) => if k' = k then some a else none
  | _ => none

/-- The frame, or failure, that a connection reads. -/
def frameRead : ConnAct → Option (Option Frame)
  | .read frame _ _ => some frame
  | _ => none

/-- The client was told of its session. -/
def Joint.told (k : ℕ) (s : Joint) : Bool :=
  match (s.keeper.conns k).received with
  | .spawnOk _ :: _ => true
  | _ => false

/-- A step of the client, whose connection is the `k`-th, or of the keeper. -/
def Joint.step (env : KeeperEnv) (k : ℕ) (s : Joint) (a : JointAct) : Option Joint :=
  match a with
  | .client b =>
    if s.client.left then none
    else
      (s.client.step (s.told k) b).map fun (client, frames) =>
        { s with client := client, wire := s.wire ++ frames }
  | .keeper b =>
    match (own k a).bind frameRead, s.wire with
    | none, _ => (s.keeper.step env b).map fun keeper => { s with keeper := keeper }
    | some none, _ =>
      if s.client.left then (s.keeper.step env b).map fun keeper => { s with keeper := keeper }
      else none
    | some (some frame), first :: rest =>
      if frame = first then
        (s.keeper.step env b).map fun keeper => { s with wire := rest, keeper := keeper }
      else none
    | some (some _), [] => none

/-- A client that has written its request. -/
def Joint.start (pty : Bool) (req : SpawnRequest) : Joint :=
  ⟨.start pty, [.spawn req], .start⟩

section Sending

variable {told : Bool} {c c' : Client} {a : ClientAct} {frames : List Frame}

/-- What a step of the client can do. -/
inductive ClientStep (c : Client) : ClientAct → Client → List Frame → Prop where
  | stream (hfresh : c.streaming = false) :
      ClientStep c .stream { c with streaming := true, pumping := true, forwarding := true } []
  | input {bytes : List UInt8} (hpumping : c.pumping = true) (hreceiving : c.receiving = true) :
      ClientStep c (.stdin (some bytes)) { c with channel := c.channel ++ [.stdin bytes] } []
  | close (hpumping : c.pumping = true) (hreceiving : c.receiving = true) :
      ClientStep c (.stdin none)
        { c with channel := c.channel ++ [.stdinClosed], pumping := false } []
  | signal {received : ℕ} {size : Option PtySize} {frame : Frame}
      (hframe : forwarded c.pty received size = some frame) (hreceiving : c.receiving = true) :
      ClientStep c (.sigwait received size) { c with channel := c.channel ++ [frame] } []
  | ignore {received : ℕ} {size : Option PtySize}
      (hframe : forwarded c.pty received size = none) :
      ClientStep c (.sigwait received size) c []
  /-- A thread finds that the writer has ended. -/
  | refused {a : ClientAct} {pumping forwarding : Bool} (hgone : c.receiving = false)
      (hinput : (∃ chunk, a = .stdin chunk) → c.pumping = true ∧ pumping = false)
      (hpumping : pumping = true → c.pumping = true) :
      ClientStep c a { c with pumping := pumping, forwarding := forwarding } []
  | write {frame : Frame} {rest : List Frame} (hchannel : c.channel = frame :: rest) :
      ClientStep c (.write true) { c with channel := rest } [frame]
  | fail (hchannel : c.channel ≠ []) :
      ClientStep c (.write false) { c with channel := [], receiving := false } []
  | leave : ClientStep c .leave { c with left := true } []

theorem send_of_receiving {frame : Frame} (h : c.receiving = true) :
    c.send frame = some { c with channel := c.channel ++ [frame] } := if_pos h

theorem send_of_gone {frame : Frame} (h : c.receiving = false) : c.send frame = none := by
  rw [Client.send, h]
  rfl

/-- Every step of the client is one of these. -/
theorem Client.step_cases (h : c.step told a = some (c', frames)) : ClientStep c a c' frames := by
  cases a with
  | stream =>
    simp only [Client.step] at h
    split at h
    · next hstart =>
      obtain ⟨rfl, rfl⟩ := Prod.mk.inj (Option.some.inj h)
      exact .stream hstart.2
    · cases h
  | stdin chunk =>
    cases chunk with
    | none =>
      simp only [Client.step] at h
      split at h
      · next hpumping =>
        obtain ⟨rfl, rfl⟩ := Prod.mk.inj (Option.some.inj h)
        by_cases hreceiving : c.receiving = true
        · rw [send_of_receiving hreceiving]
          exact .close hpumping hreceiving
        · rw [send_of_gone (Bool.eq_false_iff.mpr hreceiving)]
          exact .refused (Bool.eq_false_iff.mpr hreceiving) (fun _ => ⟨hpumping, rfl⟩) nofun
      · cases h
    | some bytes =>
      simp only [Client.step] at h
      split at h
      · next hread =>
        obtain ⟨rfl, rfl⟩ := Prod.mk.inj (Option.some.inj h)
        by_cases hreceiving : c.receiving = true
        · rw [send_of_receiving hreceiving]
          exact .input hread.1 hreceiving
        · rw [send_of_gone (Bool.eq_false_iff.mpr hreceiving)]
          exact .refused (Bool.eq_false_iff.mpr hreceiving) (fun _ => ⟨hread.1, rfl⟩) nofun
      · cases h
  | sigwait received size =>
    simp only [Client.step] at h
    split at h
    · split at h
      · next hframe =>
        obtain ⟨rfl, rfl⟩ := Prod.mk.inj (Option.some.inj h)
        exact .ignore hframe
      · next frame hframe =>
        obtain ⟨rfl, rfl⟩ := Prod.mk.inj (Option.some.inj h)
        by_cases hreceiving : c.receiving = true
        · rw [send_of_receiving hreceiving]
          exact .signal hframe hreceiving
        · rw [send_of_gone (Bool.eq_false_iff.mpr hreceiving)]
          exact .refused (Bool.eq_false_iff.mpr hreceiving) (by rintro ⟨_, ⟨⟩⟩) id
    · cases h
  | write succeeds =>
    simp only [Client.step] at h
    split at h
    · cases h
    · next frame rest hchannel =>
      split at h
      · next hsucceeds =>
        obtain ⟨rfl, rfl⟩ := Prod.mk.inj (Option.some.inj h)
        subst hsucceeds
        exact .write hchannel
      · next hsucceeds =>
        obtain ⟨rfl, rfl⟩ := Prod.mk.inj (Option.some.inj h)
        obtain rfl := Bool.eq_false_iff.mpr hsucceeds
        exact .fail (by simp [hchannel])
  | leave =>
    obtain ⟨rfl, rfl⟩ := Prod.mk.inj (Option.some.inj h)
    exact .leave

/-- What was given to the writer, and what of it is on the wire or was read. -/
structure Queued (first : Frame) (given delivered : List Frame) (wire : List Frame) (c : Client) :
    Prop where
  order : c.receiving = true → delivered ++ wire ++ c.channel = first :: given
  begins : delivered ++ wire <+: first :: given
  idle : c.receiving = false → c.channel = []

/-- The order of the frames is kept by the client. -/
theorem Queued.step {first : Frame} {given delivered wire : List Frame}
    (hc : Queued first given delivered wire c) (h : ClientStep c a c' frames) :
    Queued first (given ++ (a.gives c.pty).toList) delivered (wire ++ frames) c' := by
  have hlater : delivered ++ wire <+: first :: (given ++ (a.gives c.pty).toList) :=
    hc.begins.trans (List.prefix_append (first :: given) _)
  have hadded : ∀ frame, a.gives c.pty = some frame → c.receiving = true →
      Queued first (given ++ (a.gives c.pty).toList) delivered (wire ++ [])
        { c with channel := c.channel ++ [frame] } := by
    intro frame hgives hreceiving
    refine ⟨fun _ => ?_, by rwa [List.append_nil], fun hgone => ?_⟩
    · rw [hgives, List.append_nil, ← List.append_assoc, hc.order hreceiving]
      rfl
    · cases hgone.symm.trans hreceiving
  cases h with
  | stream | leave =>
    simp only [ClientAct.gives, Option.toList_none, List.append_nil]
    exact ⟨hc.order, hc.begins, hc.idle⟩
  | input hpumping hreceiving => exact hadded _ rfl hreceiving
  | close hpumping hreceiving =>
    obtain ⟨horder, hbegins, hidle⟩ := hadded _ rfl hreceiving
    exact ⟨horder, hbegins, hidle⟩
  | signal hframe hreceiving => exact hadded _ hframe hreceiving
  | ignore hframe =>
    simp only [ClientAct.gives, hframe, Option.toList_none, List.append_nil]
    exact hc
  | refused hgone =>
    refine ⟨fun hreceiving => ?_, by rwa [List.append_nil], hc.idle⟩
    cases hreceiving.symm.trans hgone
  | @write frame rest hchannel =>
    simp only [ClientAct.gives, Option.toList_none, List.append_nil]
    have hreceiving : c.receiving = true := by
      by_contra hgone
      rw [hc.idle (Bool.eq_false_iff.mpr hgone)] at hchannel
      cases hchannel
    have horder := hc.order hreceiving
    rw [hchannel] at horder
    refine ⟨fun _ => ?_, ?_, fun hgone => ?_⟩
    · rw [← horder]
      simp
    · rw [← horder]
      exact ⟨rest, by simp⟩
    · cases hgone.symm.trans hreceiving
  | fail => exact ⟨nofun, by rwa [List.append_nil], fun _ => rfl⟩

/-- What a frame carries of stdin. -/
def inputOf : Frame → List UInt8
  | .stdin bytes => bytes
  | _ => []

theorem not_input_of_forwarded {pty : Bool} {received : ℕ} {size : Option PtySize} {frame : Frame}
    (h : forwarded pty received size = some frame) : frame ≠ .stdinClosed ∧ inputOf frame = [] := by
  unfold forwarded at h
  split at h
  · obtain ⟨size, -, rfl⟩ := Option.map_eq_some_iff.mp h
    exact ⟨nofun, rfl⟩
  · split at h
    · obtain rfl := Option.some.inj h
      exact ⟨nofun, rfl⟩
    · split at h
      · obtain rfl := Option.some.inj h
        exact ⟨nofun, rfl⟩
      · split at h
        · obtain rfl := Option.some.inj h
          exact ⟨nofun, rfl⟩
        · cases h

/-- Nothing of stdin was given behind its end. -/
def EndsInput (given : List Frame) : Prop :=
  ∀ before after, given = before ++ .stdinClosed :: after →
    .stdinClosed ∉ after ∧ after.flatMap inputOf = []

theorem EndsInput.append {given : List Frame} {frame : Frame} (h : EndsInput given)
    (hframe : .stdinClosed ∉ given ∨ frame ≠ .stdinClosed ∧ inputOf frame = []) :
    EndsInput (given ++ [frame]) := by
  intro before after hcut
  rcases after.eq_nil_or_concat with rfl | ⟨after, last, rfl⟩
  · exact ⟨by simp, rfl⟩
  · rw [List.concat_eq_append, ← List.cons_append, ← List.append_assoc] at hcut
    obtain ⟨hgiven, hlast⟩ := List.append_inj' hcut rfl
    obtain rfl := List.singleton_inj.mp hlast
    obtain ⟨hnone, hempty⟩ := h before after hgiven
    have hmem : Frame.stdinClosed ∈ given := by
      rw [hgiven]
      simp
    obtain ⟨hne, hinput⟩ := hframe.resolve_left fun hnot => hnot hmem
    rw [List.concat_eq_append]
    refine ⟨?_, by simp [hempty, hinput]⟩
    simp [hnone, Ne.symm hne]

/-- What the pump has given to the writer. -/
structure Pumped (given : List Frame) (c : Client) : Prop where
  running : c.pumping = true → .stdinClosed ∉ given
  fresh : c.streaming = false → c.pumping = false ∧ .stdinClosed ∉ given
  ends : EndsInput given

/-- The threads may end at any time. -/
theorem Pumped.stopped {given : List Frame} (hc : Pumped given c) {pumping : Bool}
    (hpumping : pumping = true → c.pumping = true) (forwarding : Bool) :
    Pumped given { c with pumping := pumping, forwarding := forwarding } := by
  refine ⟨fun hp => hc.running (hpumping hp), fun hfresh => ?_, hc.ends⟩
  obtain ⟨hnot, hnone⟩ := hc.fresh hfresh
  refine ⟨Bool.eq_false_iff.mpr fun hp => ?_, hnone⟩
  cases (hpumping hp).symm.trans hnot

/-- The pump gives the end of stdin last. -/
theorem Pumped.step {given : List Frame} (hc : Pumped given c) (h : ClientStep c a c' frames) :
    Pumped (given ++ (a.gives c.pty).toList) c' := by
  have hstreaming : c.pumping = true → c.streaming ≠ false := by
    intro hpumping hfresh
    cases hpumping.symm.trans (hc.fresh hfresh).1
  have hother : ∀ frame, frame ≠ .stdinClosed ∧ inputOf frame = [] →
      Pumped (given ++ [frame]) c := by
    rintro frame ⟨hne, hinput⟩
    refine ⟨fun hpumping => ?_, fun hfresh => ⟨(hc.fresh hfresh).1, ?_⟩,
      hc.ends.append (Or.inr ⟨hne, hinput⟩)⟩
    · simp [hc.running hpumping, Ne.symm hne]
    · simp [(hc.fresh hfresh).2, Ne.symm hne]
  cases h with
  | stream hfresh =>
    simp only [ClientAct.gives, Option.toList_none, List.append_nil]
    exact ⟨fun _ => (hc.fresh hfresh).2, nofun, hc.ends⟩
  | input hpumping =>
    refine ⟨fun _ => ?_, fun hfresh => (hstreaming hpumping hfresh).elim,
      hc.ends.append (Or.inl (hc.running hpumping))⟩
    simpa [ClientAct.gives] using hc.running hpumping
  | close hpumping =>
    exact ⟨nofun, fun hfresh => (hstreaming hpumping hfresh).elim,
      hc.ends.append (Or.inl (hc.running hpumping))⟩
  | signal hframe =>
    obtain ⟨hrunning, hfresh, hends⟩ := hother _ (not_input_of_forwarded hframe)
    rw [ClientAct.gives, hframe]
    exact ⟨hrunning, hfresh, hends⟩
  | ignore hframe =>
    simpa only [ClientAct.gives, hframe, Option.toList_none, List.append_nil] using hc
  | write | fail | leave =>
    simp only [ClientAct.gives, Option.toList_none, List.append_nil]
    exact ⟨hc.running, hc.fresh, hc.ends⟩
  | @refused a pumping forwarding _ hinput hpumping =>
    cases a with
    | stdin chunk =>
      obtain ⟨hbefore, rfl⟩ := hinput ⟨chunk, rfl⟩
      refine ⟨nofun, fun hfresh => (hstreaming hbefore hfresh).elim, ?_⟩
      cases chunk <;> exact hc.ends.append (Or.inl (hc.running hbefore))
    | sigwait received size =>
      rw [ClientAct.gives]
      cases hframe : forwarded c.pty received size with
      | none =>
        rw [Option.toList_none, List.append_nil]
        exact hc.stopped hpumping forwarding
      | some frame =>
        exact (hother frame (not_input_of_forwarded hframe)).stopped hpumping forwarding
    | _ =>
      simp only [ClientAct.gives, Option.toList_none, List.append_nil]
      exact hc.stopped hpumping forwarding

end Sending

section Reading

variable {k : ℕ} {req : SpawnRequest} {c c' : Conn} {sh sh' : Shared} {a : ConnAct}

/-- The frame that a connection reads, if it does. -/
def delivered (a : ConnAct) : List Frame := (frameRead a).join.toList

/-- What a connection writes to the stdin of its child. -/
def feeds (c : Conn) : ConnAct → List UInt8
  | .read (some (.stdin bytes)) _ true => if c.stdin then bytes else []
  | _ => []

/-- The stdin of the child does not take what is written. -/
def breaks (c : Conn) : ConnAct → Bool
  | .read (some (.stdin _)) _ takes => c.stdin && !takes
  | _ => false

/-- The signals that a connection sends to the group of its child. -/
def kills (c : Conn) : ConnAct → List (ℕ × SessionSignal)
  | .read (some (.signal sig)) _ _ => if c.phase = .reading then [(c.pgid, sig)] else []
  | _ => []

/-- The signal that a frame is for a group. -/
def signalTo (pgid : ℕ) : Frame → Option (ℕ × SessionSignal)
  | .signal sig => some (pgid, sig)
  | _ => none

/-- What a connection has done with what it has read: the frames, what it wrote to its child's
stdin, whether that failed, and the signals. -/
structure Done where
  frames : List Frame
  fed : List UInt8
  broken : Bool
  killed : List (ℕ × SessionSignal)

/-- With one more step. -/
def Done.step (d : Done) (c : Conn) (a : ConnAct) : Done :=
  ⟨d.frames ++ delivered a, d.fed ++ feeds c a, d.broken || breaks c a, d.killed ++ kills c a⟩

theorem eq_read {frame : Option Frame} (h : frameRead a = some frame) :
    ∃ uptime takes, a = .read frame uptime takes := by
  cases a with
  | read frame' uptime takes =>
    obtain rfl := Option.some.inj h
    exact ⟨uptime, takes, rfl⟩
  | _ => cases h

/-- A step that reads nothing. -/
theorem Done.step_of_not_read (d : Done) (c : Conn) (h : frameRead a = none) : d.step c a = d := by
  cases a with
  | read => cases h
  | _ => simp [Done.step, delivered, frameRead, feeds, breaks, kills]

/-- A connection that has no session yet. -/
structure Waiting (req : SpawnRequest) (d : Done) (c : Conn) : Prop where
  waiter : c.waiter = .notStarted
  stage : c.phase.stage ≠ .started
  frames : d.frames = [] ∧ (c.phase = .first ∨ c.phase = .returned) ∨
    d.frames = [.spawn req] ∧ c.request = req ∧ c.phase ≠ .first
  fed : d.fed = []
  broken : d.broken = false
  killed : d.killed = []

/-- A connection with a session has acted on all it has read behind the request. -/
structure Serving (req : SpawnRequest) (d : Done) (c : Conn) : Prop where
  waiter : c.waiter ≠ .notStarted
  stage : c.phase.stage = .started ∨ c.phase = .returned
  request : c.request = req
  frames : ∃ rest, d.frames = .spawn req :: rest ∧ d.killed = rest.filterMap (signalTo c.pgid) ∧
    d.fed <+: rest.flatMap inputOf ∧
    (d.broken = false → c.stdin = true → d.fed = rest.flatMap inputOf) ∧
    (d.broken = false → c.stdin = false →
      ∃ before after, rest = before ++ .stdinClosed :: after ∧ d.fed = before.flatMap inputOf)
  broken : d.broken = true → c.stdin = false

/-- What is known of a connection whose client asks for this. -/
def Fed (req : SpawnRequest) (d : Done) (c : Conn) : Prop := Waiting req d c ∨ Serving req d c

theorem fed_accepted : Fed req ⟨[], [], false, []⟩ .accepted :=
  Or.inl ⟨rfl, by decide, Or.inl ⟨rfl, Or.inl rfl⟩, rfl, rfl, rfl⟩

/-- A step of a connection with a session that leaves what it knows of its child. -/
theorem Serving.moved {d : Done} (h : Serving req d c) (hwaiter : c'.waiter ≠ .notStarted)
    (hstage : c'.phase.stage = .started ∨ c'.phase = .returned) (hrequest : c'.request = c.request)
    (hpgid : c'.pgid = c.pgid) (hstdin : c'.stdin = c.stdin) : Serving req d c' := by
  refine ⟨hwaiter, hstage, hrequest.trans h.request, ?_, fun hb => hstdin.trans (h.broken hb)⟩
  rw [hpgid, hstdin]
  exact h.frames

/-- What `tx.send` changes. -/
theorem send_eq (c : Conn) (frame : Frame) : ∃ sent, c.send frame = { c with sent := sent } := by
  unfold Conn.send
  split
  · exact ⟨_, rfl⟩
  · exact ⟨c.sent, rfl⟩

/-- A pump leaves what the thread of its connection knows. -/
theorem pump_eq {stream : Stream} {chunk : Option (List UInt8)}
    (h : c.pump stream chunk = some c') :
    ∃ pumps sent, c' = { c with pumps := pumps, sent := sent } := by
  unfold Conn.pump at h
  split at h
  · cases chunk with
    | none =>
      obtain rfl := Option.some.inj h
      exact ⟨_, c.sent, rfl⟩
    | some bytes =>
      obtain rfl := Option.some.inj h
      split
      · obtain ⟨sent, heq⟩ := send_eq c (stream.frame bytes)
        exact ⟨c.pumps, sent, heq⟩
      · exact ⟨_, c.sent, rfl⟩
  · cases h

theorem write_eq {succeeds : Bool} (h : c.write succeeds = some c') :
    ∃ written receiving, c' = { c with written := written, receiving := receiving } := by
  unfold Conn.write at h
  split at h
  · obtain rfl := Option.some.inj h
    split
    · exact ⟨_, c.receiving, rfl⟩
    · exact ⟨c.written, _, rfl⟩
  · cases h

/-- The first frame is the request. -/
theorem Waiting.first {d : Done} (h : Waiting req d c) (hphase : c.phase = .first)
    {frame : Option Frame} {uptime : ℕ} {takes : Bool}
    (hfirst : ∀ f, frame = some f → d.frames = [] → f = .spawn req) (registry : Registry) :
    Waiting req (d.step c (.read frame uptime takes)) (c.readFirst registry uptime frame) := by
  have hnone : d.frames = [] := by
    rcases h.frames with ⟨hnone, -⟩ | ⟨-, -, hnot⟩
    · exact hnone
    · exact (hnot hphase).elim
  cases frame with
  | none =>
    refine ⟨h.waiter, by simp [Conn.readFirst, Phase.stage], Or.inl ⟨?_, Or.inr rfl⟩, ?_, ?_, ?_⟩
    · simp [Done.step, delivered, frameRead, hnone]
    · simp [Done.step, feeds, h.fed]
    · simp [Done.step, breaks, h.broken]
    · simp [Done.step, kills, h.killed]
  | some f =>
    obtain rfl := hfirst f rfl hnone
    refine ⟨h.waiter, by simp [Conn.readFirst, Phase.stage],
      Or.inr ⟨?_, rfl, by simp [Conn.readFirst]⟩, ?_, ?_, ?_⟩
    · simp [Done.step, delivered, frameRead, hnone]
    · simp [Done.step, feeds, h.fed]
    · simp [Done.step, breaks, h.broken]
    · simp [Done.step, kills, h.killed]

/-- Before there is a session a connection reads nothing else. -/
theorem Waiting.step {d : Done} (h : Waiting req d c)
    (hfirst : ∀ f, frameRead a = some (some f) → d.frames = [] → f = .spawn req)
    (hstep : c.step k sh a = some (c', sh')) : Fed req (d.step c a) c' := by
  have hrequest : c.phase ≠ .first → c.phase ≠ .returned →
      d.frames = [.spawn req] ∧ c.request = req := by
    intro hnot hnot'
    rcases h.frames with ⟨-, hphase | hphase⟩ | ⟨hframes, hrequest, -⟩
    · exact (hnot hphase).elim
    · exact (hnot' hphase).elim
    · exact ⟨hframes, hrequest⟩
  cases hread : frameRead a with
  | some frame =>
    obtain ⟨uptime, takes, rfl⟩ := eq_read hread
    simp only [Conn.step] at hstep
    split at hstep
    · next hphase =>
      obtain ⟨rfl, -⟩ := Prod.mk.inj (Option.some.inj hstep)
      exact Or.inl (h.first hphase (fun f hf => hfirst f (congrArg some hf)) _)
    · next hphase => exact (h.stage (by rw [hphase]; rfl)).elim
    · cases hstep
  | none =>
    rw [Done.step_of_not_read d c hread]
    cases Conn.step_cases hstep with
    | accept | answer | hangUp | frame | signal => cases hread
    | spawnFails hphase =>
      obtain ⟨hframes, hreq⟩ := hrequest (by simp [hphase]) (by simp [hphase])
      obtain ⟨sent, heq⟩ := send_eq c (.spawnErr _)
      rw [heq]
      exact Or.inl ⟨h.waiter, by simp [Phase.stage], Or.inr ⟨hframes, hreq, by simp⟩, h.fed,
        h.broken, h.killed⟩
    | spawn hphase | number hphase | insert hphase | giveUp hphase =>
      obtain ⟨hframes, hreq⟩ := hrequest (by simp [hphase]) (by simp [hphase])
      exact Or.inl ⟨h.waiter, by simp [Phase.stage], Or.inr ⟨hframes, hreq, by simp⟩, h.fed,
        h.broken, h.killed⟩
    | announce hphase =>
      obtain ⟨hframes, hreq⟩ := hrequest (by simp [hphase]) (by simp [hphase])
      obtain ⟨sent, heq⟩ := send_eq c (.spawnOk c.sessionId)
      rw [heq]
      refine Or.inr ⟨by simp, Or.inl rfl, hreq,
        ⟨[], hframes, h.killed, ?_, fun _ _ => h.fed, ?_⟩, ?_⟩
      · rw [h.fed]
        exact List.nil_prefix
      · intro _ hclosed
        cases hclosed
      · intro hbroken
        cases hbroken.symm.trans h.broken
    | look hphase =>
      rcases hphase with hphase | hphase | hphase <;> exact (h.stage (by rw [hphase]; rfl)).elim
    | terminate hphase | kill hphase | join hphase => exact (h.stage (by rw [hphase]; rfl)).elim
    | pump hpump =>
      obtain ⟨pumps, sent, rfl⟩ := pump_eq hpump
      exact Or.inl ⟨h.waiter, h.stage, h.frames, h.fed, h.broken, h.killed⟩
    | write hwrite =>
      obtain ⟨written, receiving, rfl⟩ := write_eq hwrite
      exact Or.inl ⟨h.waiter, h.stage, h.frames, h.fed, h.broken, h.killed⟩
    | joinPumps hwaiter | reap hwaiter | remove hwaiter | report hwaiter =>
      cases h.waiter.symm.trans hwaiter

/-- A frame that says nothing of stdin. -/
theorem Serving.aside {d : Done} (h : Serving req d c) {frame : Frame} (hinput : inputOf frame = [])
    {killed : List (ℕ × SessionSignal)} (hkilled : killed = (signalTo c.pgid frame).toList) :
    Serving req ⟨d.frames ++ [frame], d.fed, d.broken, d.killed ++ killed⟩
      { c with phase := .checking } := by
  obtain ⟨rest, hframes, hbefore, hfed, hopen, hclosed⟩ := h.frames
  have hbytes : (rest ++ [frame]).flatMap inputOf = rest.flatMap inputOf := by
    simp [hinput]
  refine ⟨h.waiter, Or.inl rfl, h.request, ⟨rest ++ [frame], ?_, ?_, ?_, ?_, ?_⟩, h.broken⟩
  · rw [hframes]
    rfl
  · rw [hkilled, hbefore, List.filterMap_append]
    cases hsignal : signalTo c.pgid frame <;> simp [hsignal]
  · rwa [hbytes]
  · rwa [hbytes]
  · intro hbroken hstdin
    obtain ⟨before, after, rfl, heq⟩ := hclosed hbroken hstdin
    exact ⟨before, after ++ [frame], by simp, heq⟩

/-- A frame of input is written to the child as long as its stdin is open. -/
theorem Serving.input {d : Done} (h : Serving req d c) (bytes : List UInt8) (takes : Bool) :
    Serving req ⟨d.frames ++ [.stdin bytes], d.fed ++ (if c.stdin && takes then bytes else []),
        d.broken || (c.stdin && !takes), d.killed⟩
      { c with phase := .checking, stdin := c.stdin && takes } := by
  obtain ⟨rest, hframes, hkilled, hfed, hopen, hclosed⟩ := h.frames
  have hbytes : (rest ++ [Frame.stdin bytes]).flatMap inputOf = rest.flatMap inputOf ++ bytes := by
    simp [inputOf]
  have hsame : (rest ++ [Frame.stdin bytes]).filterMap (signalTo c.pgid) =
      rest.filterMap (signalTo c.pgid) := by
    simp [signalTo]
  have hpart : d.fed <+: (rest ++ [Frame.stdin bytes]).flatMap inputOf := by
    rw [hbytes]
    exact hfed.trans (List.prefix_append _ _)
  have hframes' :
      d.frames ++ [Frame.stdin bytes] = .spawn req :: (rest ++ [Frame.stdin bytes]) := by
    rw [hframes]
    rfl
  refine ⟨h.waiter, Or.inl rfl, h.request, ⟨_, hframes', hkilled.trans hsame.symm, ?_⟩, ?_⟩
  · cases hstdin : c.stdin with
    | false =>
      simp only [Bool.false_and, Bool.false_eq_true, if_false, List.append_nil, Bool.or_false]
      refine ⟨hpart, nofun, fun hbroken _ => ?_⟩
      obtain ⟨before, after, rfl, heq⟩ := hclosed hbroken hstdin
      exact ⟨before, after ++ [.stdin bytes], by simp, heq⟩
    | true =>
      have hwhole : d.broken = false := by
        by_contra hbroken
        cases hstdin.symm.trans (h.broken (by simpa using hbroken))
      cases takes with
      | false =>
        simp only [Bool.and_false, Bool.false_eq_true, if_false, List.append_nil, Bool.not_false,
          Bool.and_true, Bool.or_true]
        exact ⟨hpart, nofun, nofun⟩
      | true =>
        simp only [Bool.and_true, if_true]
        rw [hopen hwhole hstdin, hbytes]
        exact ⟨List.prefix_refl _, fun _ _ => rfl, fun _ => nofun⟩
  · intro hbroken
    cases hstdin : c.stdin with
    | false => rfl
    | true =>
      have hwhole : d.broken = false := by
        by_contra hbroken
        cases hstdin.symm.trans (h.broken (by simpa using hbroken))
      rw [hwhole, hstdin] at hbroken
      cases takes with
      | false => rfl
      | true => cases hbroken

/-- The end of input closes the stdin of the child. -/
theorem Serving.closed {d : Done} (h : Serving req d c) :
    Serving req ⟨d.frames ++ [.stdinClosed], d.fed, d.broken, d.killed⟩
      { c with phase := .checking, stdin := false } := by
  obtain ⟨rest, hframes, hkilled, hfed, hopen, hclosed⟩ := h.frames
  refine ⟨h.waiter, Or.inl rfl, h.request, ⟨rest ++ [.stdinClosed], ?_, ?_, ?_, fun _ => nofun, ?_⟩,
    fun _ => rfl⟩
  · rw [hframes]
    rfl
  · rw [hkilled]
    simp [signalTo]
  · simpa [inputOf] using hfed
  · intro hbroken _
    cases hstdin : c.stdin with
    | false =>
      obtain ⟨before, after, rfl, heq⟩ := hclosed hbroken hstdin
      exact ⟨before, after ++ [.stdinClosed], by simp, heq⟩
    | true => exact ⟨rest, [], rfl, hopen hbroken hstdin⟩

/-- A later frame is acted on. -/
theorem Serving.later {d : Done} (h : Serving req d c) (hphase : c.phase = .reading)
    (frame : Option Frame) (uptime : ℕ) (takes : Bool) (groups : List Group) :
    Serving req (d.step c (.read frame uptime takes)) (c.readLater groups takes frame).1 := by
  have hnone : ∀ f, inputOf f = [] → signalTo c.pgid f = none →
      Serving req ⟨d.frames ++ [f], d.fed, d.broken, d.killed⟩ { c with phase := .checking } := by
    intro f hinput hsignal
    have haside := h.aside hinput (hsignal ▸ rfl : ([] : List (ℕ × SessionSignal)) = _)
    rwa [List.append_nil] at haside
  cases frame with
  | none =>
    have hstep : d.step c (.read none uptime takes) = d := by
      simp [Done.step, delivered, frameRead, feeds, breaks, kills]
    rw [hstep]
    exact h.moved h.waiter (Or.inl rfl) rfl rfl rfl
  | some f =>
    cases f with
    | stdin bytes =>
      have hstep : d.step c (.read (some (.stdin bytes)) uptime takes) =
          ⟨d.frames ++ [.stdin bytes], d.fed ++ (if c.stdin && takes then bytes else []),
            d.broken || (c.stdin && !takes), d.killed⟩ := by
        cases takes <;> simp [Done.step, delivered, frameRead, feeds, breaks, kills]
      rw [hstep]
      exact h.input bytes takes
    | stdinClosed =>
      simpa [Done.step, delivered, frameRead, feeds, breaks, kills, Conn.readLater] using h.closed
    | signal sig =>
      have haside := h.aside (rfl : inputOf (.signal sig) = []) rfl
      simpa [Done.step, delivered, frameRead, feeds, breaks, kills, hphase, signalTo,
        Conn.readLater] using haside
    | _ =>
      simpa [Done.step, delivered, frameRead, feeds, breaks, kills, Conn.readLater] using
        hnone _ rfl rfl

/-- A connection with a session stays so. -/
theorem Serving.step {d : Done} (h : Serving req d c) (hstep : c.step k sh a = some (c', sh')) :
    Serving req (d.step c a) c' := by
  have hbefore : ∀ {P : Prop}, c.phase.stage ≠ .started → c.phase ≠ .returned → P :=
    fun hstage hphase => (h.stage.elim hstage hphase).elim
  cases hread : frameRead a with
  | some frame =>
    obtain ⟨uptime, takes, rfl⟩ := eq_read hread
    simp only [Conn.step] at hstep
    split at hstep
    · next hphase => exact hbefore (by rw [hphase]; decide) (by rw [hphase]; decide)
    · next hphase =>
      obtain ⟨rfl, -⟩ := Prod.mk.inj (Option.some.inj hstep)
      exact h.later hphase frame uptime takes sh.groups
    · cases hstep
  | none =>
    rw [Done.step_of_not_read d c hread]
    cases Conn.step_cases hstep with
    | accept | answer | hangUp | frame | signal => cases hread
    | spawnFails hphase | spawn hphase | number hphase | insert hphase | announce hphase
    | giveUp hphase => exact hbefore (by rw [hphase]; decide) (by rw [hphase]; decide)
    | look _ hnext =>
      refine h.moved h.waiter (Or.inl ?_) rfl rfl rfl
      rcases hnext with rfl | rfl | rfl | ⟨rfl | rfl, -⟩ <;> rfl
    | terminate | kill => exact h.moved h.waiter (Or.inl rfl) rfl rfl rfl
    | join => exact h.moved h.waiter (Or.inr rfl) rfl rfl rfl
    | pump hpump =>
      obtain ⟨pumps, sent, rfl⟩ := pump_eq hpump
      exact h.moved h.waiter h.stage rfl rfl rfl
    | write hwrite =>
      obtain ⟨written, receiving, rfl⟩ := write_eq hwrite
      exact h.moved h.waiter h.stage rfl rfl rfl
    | joinPumps | reap | remove => exact h.moved (by simp) h.stage rfl rfl rfl
    | @report status =>
      obtain ⟨sent, heq⟩ := send_eq c (.exit status)
      rw [heq]
      exact h.moved (by simp) h.stage rfl rfl rfl

end Reading

section Runs

variable {env : KeeperEnv} {k : ℕ} {req : SpawnRequest} {s next : Joint} {a : JointAct}
  {past : List (Joint × JointAct)}

/-- What the client's threads have given to its writer. -/
def given (past : List (Joint × JointAct)) : List Frame :=
  past.filterMap fun p =>
    match p.2 with
    | .client a => a.gives p.1.client.pty
    | .keeper _ => none

/-- What the reads of the client's stdin have returned. -/
def entered (past : List (Joint × JointAct)) : List (Option (List UInt8)) :=
  past.filterMap fun p =>
    match p.2 with
    | .client (.stdin chunk) => some chunk
    | _ => none

/-- What the client's connection has done. -/
def done (k : ℕ) (past : List (Joint × JointAct)) : Done :=
  past.foldl (fun d p => (own k p.2).elim d fun a => d.step (p.1.keeper.conns k) a)
    ⟨[], [], false, []⟩

theorem done_append (p : Joint × JointAct) : done k (past ++ [p]) =
    (own k p.2).elim (done k past) fun a => (done k past).step (p.1.keeper.conns k) a := by
  rw [done, List.foldl_append]
  rfl

theorem given_client (b : ClientAct) :
    given (past ++ [(s, .client b)]) = given past ++ (b.gives s.client.pty).toList := by
  rw [given, List.filterMap_append]
  cases h : b.gives s.client.pty <;> simp [given, h]

theorem given_keeper (b : Act) : given (past ++ [(s, .keeper b)]) = given past := by
  simp [given, List.filterMap_append]

/-- What a step of a client and a keeper can do. -/
inductive JointStep (env : KeeperEnv) (k : ℕ) (s : Joint) : JointAct → Joint → Prop where
  | client {b : ClientAct} {client : Client} {frames : List Frame}
      (h : ClientStep s.client b client frames) :
      JointStep env k s (.client b) { s with client := client, wire := s.wire ++ frames }
  | keeper {b : Act} {keeper : KeeperState}
      (hread : ∀ frame, (own k (.keeper b)).bind frameRead ≠ some (some frame))
      (h : s.keeper.step env b = some keeper) :
      JointStep env k s (.keeper b) { s with keeper := keeper }
  /-- The client's connection reads the next frame. -/
  | frame {b : Act} {frame : Frame} {rest : List Frame} {keeper : KeeperState}
      (hread : (own k (.keeper b)).bind frameRead = some (some frame))
      (hwire : s.wire = frame :: rest) (h : s.keeper.step env b = some keeper) :
      JointStep env k s (.keeper b) { s with wire := rest, keeper := keeper }

/-- Every step of a client and a keeper is one of these. -/
theorem Joint.step_cases (h : s.step env k a = some next) : JointStep env k s a next := by
  cases a with
  | client b =>
    simp only [Joint.step] at h
    split at h
    · cases h
    · obtain ⟨⟨client, frames⟩, hstep, rfl⟩ := Option.map_eq_some_iff.mp h
      exact .client (Client.step_cases hstep)
  | keeper b =>
    simp only [Joint.step] at h
    split at h
    · next hread =>
      obtain ⟨keeper, hstep, rfl⟩ := Option.map_eq_some_iff.mp h
      exact .keeper (fun frame hframe => nomatch hread.symm.trans hframe) hstep
    · next hread =>
      split at h
      · obtain ⟨keeper, hstep, rfl⟩ := Option.map_eq_some_iff.mp h
        exact .keeper (fun frame hframe => nomatch hread.symm.trans hframe) hstep
      · cases h
    · next frame first rest hread hwire =>
      split at h
      · next heq =>
        obtain ⟨keeper, hstep, rfl⟩ := Option.map_eq_some_iff.mp h
        subst heq
        exact .frame hread hwire hstep
      · cases h
    · cases h

/-- What a step of the keeper does with the client's connection. -/
theorem conn_step {keeper : KeeperState} {b : Act} (h : s.keeper.step env b = some keeper) :
    (own k (.keeper b) = none ∧ keeper.conns k = s.keeper.conns k) ∨
      ∃ a sh', own k (.keeper b) = some a ∧
        (s.keeper.conns k).step k s.keeper.shared a = some (keeper.conns k, sh') := by
  cases KeeperState.step_cases h with
  | @conn k' a c shared _ _ hconn =>
    by_cases hk : k' = k
    · subst hk
      refine Or.inr ⟨a, shared, if_pos rfl, ?_⟩
      dsimp only
      rw [Ssh.insertAt_self]
      exact hconn
    · exact Or.inl ⟨if_neg hk, Ssh.insertAt_of_ne (Ne.symm hk)⟩
  | ssh | child => exact Or.inl ⟨rfl, rfl⟩
  | main _ hmain => exact Or.inl ⟨rfl, congrFun hmain.aside.conns k⟩
  | handler _ hhandler => exact Or.inl ⟨rfl, congrFun hhandler.aside.conns k⟩

/-- What is known of a client and a keeper. -/
structure Linked (req : SpawnRequest) (k : ℕ) (past : List (Joint × JointAct)) (s : Joint) :
    Prop where
  queued : Queued (.spawn req) (given past) (done k past).frames s.wire s.client
  pumped : Pumped (given past) s.client
  fed : Fed req (done k past) (s.keeper.conns k)

theorem linked_start (pty : Bool) : Linked req k [] (.start pty req) :=
  ⟨⟨fun _ => rfl, List.prefix_refl _, nofun⟩, ⟨nofun, fun _ => ⟨rfl, by simp [given]⟩,
    fun before after h => by simp [given] at h⟩, fed_accepted⟩

/-- A connection that reads no frame has read the same. -/
theorem frames_of_none {d : Done} {c : Conn} {b : ConnAct}
    (h : ∀ frame, frameRead b ≠ some (some frame)) : (d.step c b).frames = d.frames := by
  have hnone : (frameRead b).join = none := by
    cases hread : frameRead b with
    | none => rfl
    | some frame =>
      cases frame with
      | none => rfl
      | some f => exact (h f hread).elim
  simp [Done.step, delivered, hnone]

/-- Every step keeps what is known. -/
theorem Linked.step (h : Linked req k past s) (hstep : s.step env k a = some next) :
    Linked req k (past ++ [(s, a)]) next := by
  cases Joint.step_cases hstep with
  | @client b client frames hclient =>
    have hdone : done k (past ++ [(s, .client b)]) = done k past := done_append _
    refine ⟨?_, ?_, ?_⟩
    · rw [given_client, hdone]
      exact h.queued.step hclient
    · rw [given_client]
      exact h.pumped.step hclient
    · rw [hdone]
      exact h.fed
  | @keeper b keeper hread hkeeper =>
    rcases conn_step (k := k) hkeeper with ⟨hown, hconn⟩ | ⟨act, sh', hown, hconn⟩
    · have hdone : done k (past ++ [(s, .keeper b)]) = done k past := by
        rw [done_append, hown]
        rfl
      refine ⟨?_, ?_, ?_⟩
      · rw [given_keeper, hdone]
        exact h.queued
      · rw [given_keeper]
        exact h.pumped
      · rw [hdone, hconn]
        exact h.fed
    · have hdone : done k (past ++ [(s, .keeper b)]) =
          (done k past).step (s.keeper.conns k) act := by
        rw [done_append, hown]
        rfl
      have hnone : ∀ frame, frameRead act ≠ some (some frame) := by
        intro frame hframe
        exact hread frame (by rw [hown]; exact hframe)
      refine ⟨?_, ?_, ?_⟩
      · rw [given_keeper, hdone, frames_of_none hnone]
        exact h.queued
      · rw [given_keeper]
        exact h.pumped
      · rw [hdone]
        rcases h.fed with hwaiting | hserving
        · exact hwaiting.step (fun f hf _ => (hnone f hf).elim) hconn
        · exact Or.inr (hserving.step hconn)
  | @frame b frame rest keeper hread hwire hkeeper =>
    rcases conn_step (k := k) hkeeper with ⟨hown, -⟩ | ⟨act, sh', hown, hconn⟩
    · rw [hown] at hread
      cases hread
    · rw [hown] at hread
      have hframe : frameRead act = some (some frame) := hread
      have hdone : done k (past ++ [(s, .keeper b)]) =
          (done k past).step (s.keeper.conns k) act := by
        rw [done_append, hown]
        rfl
      have hframes : ((done k past).step (s.keeper.conns k) act).frames =
          (done k past).frames ++ [frame] := by
        simp [Done.step, delivered, hframe]
      have hmoved : (done k past).frames ++ [frame] ++ rest = (done k past).frames ++ s.wire := by
        rw [hwire, List.append_assoc]
        rfl
      refine ⟨?_, ?_, ?_⟩
      · rw [given_keeper, hdone, hframes]
        refine ⟨fun hreceiving => ?_, ?_, h.queued.idle⟩
        · rw [hmoved]
          exact h.queued.order hreceiving
        · rw [hmoved]
          exact h.queued.begins
      · rw [given_keeper]
        exact h.pumped
      · rw [hdone]
        rcases h.fed with hwaiting | hserving
        · refine hwaiting.step (fun f hf hnone => ?_) hconn
          -- The request was written before anything else.
          obtain rfl := Option.some.inj (Option.some.inj (hf.symm.trans hframe))
          have hbegins := h.queued.begins
          rw [hnone, hwire, List.nil_append] at hbegins
          exact (List.cons_prefix_cons.mp hbegins).1
        · exact Or.inr (hserving.step hconn)

/-- What is given to the writer of input is what was read. -/
theorem input_given (past : List (Joint × JointAct)) :
    (given past).flatMap inputOf = (entered past).reduceOption.flatten ∧
      (.stdinClosed ∈ given past ↔ none ∈ entered past) := by
  induction past using List.reverseRecOn with
  | nil => simp [given, entered]
  | append_singleton past p ih =>
    obtain ⟨s, a⟩ := p
    obtain ⟨hbytes, hmem⟩ := ih
    cases a with
    | keeper b =>
      have hentered : entered (past ++ [(s, .keeper b)]) = entered past := by
        simp [entered, List.filterMap_append]
      rw [given_keeper, hentered]
      exact ⟨hbytes, hmem⟩
    | client b =>
      rw [given_client, List.flatMap_append, List.mem_append, hbytes, hmem]
      cases b with
      | stdin chunk =>
        have hentered :
            entered (past ++ [(s, .client (.stdin chunk))]) = entered past ++ [chunk] := by
          simp [entered, List.filterMap_append]
        rw [hentered, List.mem_append]
        cases chunk with
        | none => simp [ClientAct.gives, inputOf, List.reduceOption_append]
        | some bytes => simp [ClientAct.gives, inputOf, List.reduceOption_append]
      | sigwait received size =>
        have hentered :
            entered (past ++ [(s, .client (.sigwait received size))]) = entered past := by
          simp [entered, List.filterMap_append]
        rw [hentered, ClientAct.gives]
        cases hframe : forwarded s.client.pty received size with
        | none => simp
        | some frame =>
          obtain ⟨hne, hinput⟩ := not_input_of_forwarded hframe
          simp [hinput, Ne.symm hne]
      | _ => simp [ClientAct.gives, entered, List.filterMap_append]

/-- What the child of `devcroft exec` and `devcroft shell` gets, over every interleaving of the
client's threads, the keeper's and other clients: the session is the one that was asked for; its
stdin gets, in order and once, what the client has read; unless a write to it failed it ends only
when that of the client has ended, and behind all of it; and the signals that were caught are sent
to its group, each once and in order. What is not lost with the writer and not still on the way has
arrived. -/
theorem input_delivered (env : KeeperEnv) (k : ℕ) (pty : Bool) (req : SpawnRequest)
    (acts : List JointAct) :
    let taken := steps (Joint.step env k) acts (.start pty req)
    let s := Interleaving.exec (Joint.step env k) acts (.start pty req)
    let c := s.keeper.conns k
    let bytes := (entered taken).reduceOption.flatten
    let signals := (given taken).filterMap (signalTo c.pgid)
    (done k taken).frames <+: .spawn req :: given taken ∧ (done k taken).fed <+: bytes ∧
    (c.waiter ≠ .notStarted →
      c.request = req ∧ (done k taken).killed <+: signals ∧
      ((done k taken).broken = false → c.stdin = false →
        none ∈ entered taken ∧ (done k taken).fed = bytes) ∧
      (s.client.receiving = true → s.client.channel = [] → s.wire = [] →
        (done k taken).killed = signals ∧
          ((done k taken).broken = false → (done k taken).fed = bytes))) := by
  intro taken s c bytes signals
  have hlinked : Linked req k taken s :=
    history (J := Linked req k) (G := fun _ _ => True) (fun _ _ _ _ h _ hstep => h.step hstep)
      (linked_start pty) (fun _ _ => trivial)
  obtain ⟨hgiven, hmem⟩ := input_given taken
  have hframes : (done k taken).frames <+: .spawn req :: given taken :=
    (List.prefix_append _ _).trans hlinked.queued.begins
  rcases hlinked.fed with hwaiting | hserving
  · refine ⟨hframes, ?_, fun hwaiter => (hwaiter hwaiting.waiter).elim⟩
    rw [hwaiting.fed]
    exact List.nil_prefix
  · obtain ⟨rest, hrest, hkilled, hfed, hopen, hclosed⟩ := hserving.frames
    have hread : rest <+: given taken := by
      rw [hrest] at hframes
      exact (List.cons_prefix_cons.mp hframes).2
    obtain ⟨unread, hunread⟩ := hread
    have hall : rest.flatMap inputOf ++ unread.flatMap inputOf = bytes := by
      rw [← List.flatMap_append, hunread]
      exact hgiven
    have hend : (done k taken).broken = false → c.stdin = false →
        none ∈ entered taken ∧ (done k taken).fed = bytes := by
      intro hbroken hstdin
      obtain ⟨before, after, rfl, heq⟩ := hclosed hbroken hstdin
      have hcut : given taken = before ++ .stdinClosed :: (after ++ unread) := by
        rw [← hunread]
        simp
      obtain ⟨-, hnothing⟩ := hlinked.pumped.ends _ _ hcut
      refine ⟨hmem.mp (by rw [hcut]; simp), ?_⟩
      have hbytes : bytes = (given taken).flatMap inputOf := hgiven.symm
      rw [heq, hbytes, hcut, List.flatMap_append, List.flatMap_cons, hnothing]
      simp [inputOf]
    refine ⟨hframes, hfed.trans ⟨_, hall⟩, fun _ => ⟨hserving.request, ?_, hend, ?_⟩⟩
    · rw [hkilled]
      exact ⟨_, by rw [← List.filterMap_append, hunread]⟩
    · intro hreceiving hchannel hwire
      have horder := hlinked.queued.order hreceiving
      rw [hchannel, hwire, List.append_nil, List.append_nil, hrest] at horder
      have hwhole : rest = given taken := (List.cons.inj horder).2
      refine ⟨by rw [hkilled, hwhole], fun hbroken => ?_⟩
      cases hstdin : c.stdin with
      | false => exact (hend hbroken hstdin).2
      | true => rw [hopen hbroken hstdin, hwhole, hgiven]

/-- Two bytes, a signal and the end of stdin, of which the end is still on the way. -/
example :
    let acts : List JointAct :=
      [.keeper (.main (.startServices (.error ""))),
        .keeper (.conn 0 (.read (some (.spawn chattyRequest.spawnReq)) 0 true)),
        .keeper (.conn 0 (.spawn (.ok 100))), .keeper (.conn 0 (.proceed 0)),
        .keeper (.conn 0 (.proceed 0)), .keeper (.conn 0 (.proceed 0)),
        .keeper (.conn 0 (.write true)), .client .stream, .client (.stdin (some [1, 2])),
        .client (.sigwait SIGINT none), .client (.write true), .client (.stdin none),
        .client (.write true), .keeper (.conn 0 (.read (some (.stdin [1, 2])) 0 true)),
        .keeper (.conn 0 (.proceed 0)), .keeper (.conn 0 (.read (some (.signal .int)) 0 true)),
        .client (.write true)]
    let d := done 0 (steps (Joint.step quietEnv 0) acts (.start false chattyRequest.spawnReq))
    d.fed = [1, 2] ∧ d.killed = [(100, .int)] := by
  decide +kernel

end Runs

end Devcroft.Exec
