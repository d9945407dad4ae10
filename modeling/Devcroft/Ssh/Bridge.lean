import Devcroft.Library.Copying
import Devcroft.Lifecycle.Listing
import Devcroft.Lifecycle.StatePaths

/-!
# The bridge of the ssh client

An ssh client runs `devcroft proxy <name>.devcroft` and speaks to its stdin and stdout. The
process joins these to the ssh socket of the sandbox. One thread copies to the socket and then ends
it; the other copies to stdout, which only the end of the process ends.
-/

namespace Devcroft.Ssh.Proxy

open Conduit Lifecycle

/-- `relay`: reads of at most 8192 bytes, each flushed. -/
def relay : Manner := ⟨some 8192, true⟩

/-- `sandbox_name_from_host`. -/
def sandboxNameFromHost (host : String) : Except String String :=
  match (Text.stripSuffix ".devcroft" host).filter fun name => name ≠ "" with
  | some name => .ok name
  | none => .error ("'" ++ host ++ "' is not a <name>.devcroft host")

/-- `ProxyError`. -/
inductive ProxyError where
  | notRunning
  | connect (e : IoError)
  deriving DecidableEq

/-- What `proxy` depends on. -/
structure Host where
  homeVar : Option String
  machine : Status.Machine
  /-- What stands at the paths of a sandbox. -/
  sandbox : StatePaths → Status.Sandbox
  /-- `UnixStream::connect` to a path, and `try_clone`. -/
  connect : String → Except IoError Unit

/-- `proxy` up to its threads, with the socket that they copy from and to. -/
def proxy (host : Host) (sandboxName : String) : Except ProxyError String :=
  match StatePaths.new host.homeVar sandboxName with
  | .error e => .error (.connect (.other e))
  | .ok paths =>
    match Status.health host.machine (host.sandbox paths) with
    | .error e => .error (.connect e)
    | .ok (.healthy _) =>
      match host.connect paths.sshSocket with
      | .error e => .error (.connect e)
      | .ok () => .ok paths.sshSocket
    | .ok (.stale _) | .ok .none => .error .notRunning

/-- The process: `up` leads from stdin to the socket and `down` from the socket to stdout. -/
structure Bridge where
  stream : Duplex UInt8
  exited : Bool

/-- What happens to the process. -/
inductive BridgeAct where
  | stream (a : DuplexAct UInt8)
  /-- `to_socket` is joined, and the end of the process ends its stdout. -/
  | exit
  deriving DecidableEq

/-- What happens to the streams of the process. -/
def BridgeAct.moves : BridgeAct → DuplexAct UInt8
  | stream a => a
  | exit => .down (.hop 0 .shutdown)

/-- The process with its threads. -/
def Bridge.start : Bridge := ⟨.start [relay], false⟩

/-- The thread that copies to the socket is done. -/
def Bridge.joins (b : Bridge) : Bool := b.stream.up.hops.all fun hop => hop.copier.isShut

/-- The process after an action, if it is possible. -/
def Bridge.step (b : Bridge) : BridgeAct → Option Bridge
  | .stream (.down (.hop _ .shutdown)) => none
  | .stream a => (b.stream.step a).map fun stream => { b with stream := stream }
  | .exit =>
    if b.joins then
      (b.stream.step (.down (.hop 0 .shutdown))).map fun stream => ⟨stream, true⟩
    else none

/-- The process after some actions, if all of them are possible. -/
def Bridge.run (b : Bridge) (acts : List BridgeAct) : Option Bridge := acts.foldlM Bridge.step b

/-- A host is accepted when it is a nonempty name with the suffix. -/
theorem sandboxNameFromHost_eq_ok_iff {host name : String} :
    sandboxNameFromHost host = .ok name ↔ host = name ++ ".devcroft" ∧ name ≠ "" := by
  unfold sandboxNameFromHost
  have hname : (Text.stripSuffix ".devcroft" host).filter (fun name => name ≠ "") = some name ↔
      host = name ++ ".devcroft" ∧ name ≠ "" := by
    rw [Option.filter_eq_some_iff, Text.stripSuffix_eq_some_iff]
    simp
  rw [← hname]
  cases (Text.stripSuffix ".devcroft" host).filter fun name => name ≠ "" <;> simp

/-- The socket that is joined is the ssh socket of the sandbox of this name, with a healthy
keeper. -/
theorem proxy_eq_ok_iff {host : Host} {sandboxName socket : String} :
    proxy host sandboxName = .ok socket ↔
      ∃ paths pid, StatePaths.new host.homeVar sandboxName = .ok paths ∧
        Status.health host.machine (host.sandbox paths) = .ok (.healthy pid) ∧
        host.connect paths.sshSocket = .ok () ∧ socket = paths.sshSocket := by
  unfold proxy
  cases StatePaths.new host.homeVar sandboxName with
  | error e => simp
  | ok paths =>
    cases hhealth : Status.health host.machine (host.sandbox paths) with
    | error e => simp [hhealth]
    | ok health =>
      cases health with
      | healthy pid =>
        cases hconnect : host.connect paths.sshSocket <;> simp [hhealth, hconnect, eq_comm]
      | _ => simp [hhealth]

/-- The process after an action is one whose streams moved. -/
theorem Bridge.step_stream {b b' : Bridge} {a : BridgeAct} (h : b.step a = some b') :
    b.stream.step a.moves = some b'.stream ∧
      (a ≠ .exit ∧ (∀ i, a.moves ≠ .down (.hop i .shutdown)) ∧ b'.exited = b.exited ∨
        a = .exit ∧ b.joins = true ∧ b'.exited = true) := by
  unfold Bridge.step at h
  split at h
  · cases h
  · next a hshutdown =>
    obtain ⟨stream, hstep, rfl⟩ := Option.map_eq_some_iff.mp h
    exact ⟨hstep, Or.inl ⟨nofun, fun i hi => hshutdown i hi, rfl⟩⟩
  · split at h
    · next hjoins =>
      obtain ⟨stream, hstep, rfl⟩ := Option.map_eq_some_iff.mp h
      exact ⟨hstep, Or.inr ⟨rfl, hjoins, rfl⟩⟩
    · cases h

/-- The streams of the process are ended by its threads, stdout only as it exits, and then the
socket was ended before. -/
structure Bridge.Sound (b : Bridge) : Prop where
  up : ∃ q hop, b.stream.up = ⟨q, [hop]⟩ ∧ hop.leg.closed = hop.copier.isShut ∧
    (b.exited = true → hop.copier.isShut = true)
  down : ∃ q hop, b.stream.down = ⟨q, [hop]⟩ ∧ hop.leg.closed = hop.copier.isShut ∧
    hop.copier.isShut = b.exited

theorem Bridge.sound_start : Bridge.start.Sound :=
  ⟨⟨_, _, rfl, rfl, nofun⟩, ⟨_, _, rfl, rfl, rfl⟩⟩

/-- A thread that goes on ends what is behind it when it is done, and is done then. -/
theorem matched_step {q : Queue UInt8} {hop : Hop UInt8} {p' : Path UInt8} {a : PathAct UInt8}
    (h : (⟨q, [hop]⟩ : Path UInt8).step a = some p')
    (hmatched : hop.leg.closed = hop.copier.isShut) :
    ∃ q' hop', p' = ⟨q', [hop']⟩ ∧ hop'.leg.closed = hop'.copier.isShut ∧
      (hop'.copier.isShut = true ↔ hop.copier.isShut = true ∨ a = .hop 0 .shutdown) := by
  obtain ⟨q', hop', rfl, hthread⟩ := Path.step_single h
  refine ⟨q', hop', rfl, ?_⟩
  rcases hthread with ⟨b, rfl, hcopy⟩ | ⟨hnone, hcopier, hclosed⟩
  · obtain ⟨hrunning, hshut⟩ := hcopy.isShut
    refine ⟨hcopy.closed.2 hmatched, ?_⟩
    rw [hshut, hrunning]
    simp
  · rw [hcopier, hclosed]
    exact ⟨hmatched, by simp [hnone 0 .shutdown]⟩

/-- The process stays sound. -/
theorem Bridge.Sound.step {b b' : Bridge} {a : BridgeAct} (hb : b.Sound)
    (h : b.step a = some b') : b'.Sound := by
  obtain ⟨⟨q, hop, hup, hupMatched, hupShut⟩, ⟨r, last, hdown, hdownMatched, hdownShut⟩⟩ := hb
  obtain ⟨hmoves, hexit⟩ := step_stream h
  obtain ⟨stream', exited'⟩ := b'
  cases hmove : a.moves with
  | up x =>
    rw [hmove] at hmoves
    obtain ⟨up, hpath, rfl⟩ := Option.map_eq_some_iff.mp hmoves
    have hexited : exited' = b.exited := by
      rcases hexit with ⟨-, -, hsame⟩ | ⟨rfl, -⟩
      · exact hsame
      · cases hmove
    rw [hup] at hpath
    obtain ⟨q', hop', rfl, hmatched, hshut⟩ := matched_step hpath hupMatched
    subst hexited
    exact ⟨⟨q', hop', rfl, hmatched, fun he => hshut.mpr (Or.inl (hupShut he))⟩,
      ⟨r, last, hdown, hdownMatched, hdownShut⟩⟩
  | down x =>
    rw [hmove] at hmoves
    obtain ⟨down, hpath, rfl⟩ := Option.map_eq_some_iff.mp hmoves
    rw [hdown] at hpath
    obtain ⟨r', last', rfl, hmatched, hshut⟩ := matched_step hpath hdownMatched
    rcases hexit with ⟨-, hother, hsame⟩ | ⟨rfl, hjoins, hexited⟩
    · have hx : x ≠ .hop 0 .shutdown := by
        rintro rfl
        exact hother 0 hmove
      subst hsame
      refine ⟨⟨q, hop, hup, hupMatched, hupShut⟩, ⟨r', last', rfl, hmatched, ?_⟩⟩
      rw [← hdownShut, Bool.eq_iff_iff, hshut]
      simp [hx]
    · obtain rfl := DuplexAct.down.inj hmove
      have hjoined : hop.copier.isShut = true := by
        rw [Bridge.joins, hup] at hjoins
        simpa using hjoins
      subst hexited
      exact ⟨⟨q, hop, hup, hupMatched, fun _ => hjoined⟩,
        ⟨r', last', rfl, hmatched, hshut.mpr (Or.inr rfl)⟩⟩

/-- What happens in a run of the process happens to its streams, and it stays sound. -/
theorem Bridge.run_stream {b b' : Bridge} {acts : List BridgeAct} (h : b.run acts = some b')
    (hb : b.Sound) : b.stream.run (acts.map BridgeAct.moves) = some b'.stream ∧ b'.Sound := by
  induction acts generalizing b with
  | nil =>
    obtain rfl := Option.some.inj h
    exact ⟨rfl, hb⟩
  | cons a acts ih =>
    rw [Bridge.run, List.foldlM_cons] at h
    obtain ⟨d, hstep, hrun⟩ := Option.bind_eq_some_iff.mp h
    obtain ⟨hlater, hsound⟩ := ih hrun (hb.step hstep)
    refine ⟨?_, hsound⟩
    rw [Duplex.run, List.map_cons, List.foldlM_cons, (step_stream hstep).1]
    exact hlater

/-- A process that has exited stays so. -/
theorem Bridge.exited_run {b b' : Bridge} {acts : List BridgeAct} (h : b.run acts = some b')
    (hb : b.exited = true) : b'.exited = true := by
  induction acts generalizing b with
  | nil =>
    obtain rfl := Option.some.inj h
    exact hb
  | cons a acts ih =>
    rw [Bridge.run, List.foldlM_cons] at h
    obtain ⟨d, hstep, hrun⟩ := Option.bind_eq_some_iff.mp h
    rcases (step_stream hstep).2 with ⟨-, -, hsame⟩ | ⟨-, -, hexited⟩
    · exact ih hrun (hsame.trans hb)
    · exact ih hrun hexited

/-- The end of stdout is found only when the process has exited. -/
theorem Bridge.Sound.exited_of_eof {b b' : Bridge} {acts : List BridgeAct} (hb : b.Sound)
    (h : b.run acts = some b') (heof : .down .eof ∈ acts.map BridgeAct.moves) :
    b'.exited = true := by
  obtain ⟨a, hmem, ha⟩ := List.mem_map.mp heof
  obtain ⟨before, after, rfl⟩ := List.append_of_mem hmem
  rw [Bridge.run, List.foldlM_append] at h
  obtain ⟨d, hbefore, hrest⟩ := Option.bind_eq_some_iff.mp h
  have hd := (Bridge.run_stream hbefore hb).2
  refine exited_run hrest ?_
  rw [List.foldlM_cons] at hrest
  obtain ⟨d', hstep, -⟩ := Option.bind_eq_some_iff.mp hrest
  obtain ⟨hmoves, -⟩ := step_stream hstep
  rw [ha] at hmoves
  obtain ⟨down, hpath, -⟩ := Option.map_eq_some_iff.mp hmoves
  obtain ⟨r, last, hdown, hmatched, hshut⟩ := hd.down
  rw [hdown] at hpath
  obtain ⟨-, hclosed, -⟩ := Path.step_eof hpath
  rw [← hshut, ← hmatched]
  exact hclosed

/-- What an ssh client gets over `devcroft proxy`: whatever fails, the server and the client read a
first part of what the other has sent, and the client finds the end of it only once the process has
exited. A process in which no call fails exits only after both the client and the server have ended
what they send, and has then delivered all of it. -/
theorem bridged {acts : List BridgeAct} {b : Bridge} (h : Bridge.start.run acts = some b) :
    let up := (acts.map BridgeAct.moves).filterMap DuplexAct.upward
    let down := (acts.map BridgeAct.moves).filterMap DuplexAct.downward
    received up <+: sent up ∧ received down <+: sent down ∧ (.eof ∈ down → b.exited = true) ∧
    ((∀ a ∈ up, a.fails = false) →
      (.eof ∈ up → received up = sent up) ∧
      (b.exited = true → .close ∈ up ∧
        received up ++ (lastLeg b.stream.up.first b.stream.up.hops).held = sent up)) ∧
    ((∀ a ∈ down, a.fails = false) →
      (.eof ∈ down → received down = sent down) ∧
      (b.exited = true → .close ∈ down ∧
        received down ++ (lastLeg b.stream.down.first b.stream.down.hops).held = sent down)) := by
  intro up down
  obtain ⟨hstream, hsound⟩ := Bridge.run_stream h Bridge.sound_start
  obtain ⟨hup, hdown⟩ := Duplex.run_directions hstream
  have hupClosed : b.exited = true →
      (lastLeg b.stream.up.first b.stream.up.hops).closed = true := by
    intro hexited
    obtain ⟨q, hop, heq, hmatched, hshut⟩ := hsound.up
    rw [heq]
    exact hmatched.trans (hshut hexited)
  have hdownClosed : b.exited = true →
      (lastLeg b.stream.down.first b.stream.down.hops).closed = true := by
    intro hexited
    obtain ⟨r, last, heq, hmatched, hshut⟩ := hsound.down
    rw [heq]
    exact hmatched.trans (hshut.trans hexited)
  refine ⟨received_isPrefix hup, received_isPrefix hdown, fun heof => ?_, fun hfails => ⟨?_, ?_⟩,
    fun hfails => ⟨?_, ?_⟩⟩
  · refine Bridge.sound_start.exited_of_eof h ?_
    obtain ⟨a, hmem, ha⟩ := List.mem_filterMap.mp heof
    cases a with
    | up x => cases ha
    | down x =>
      obtain rfl := Option.some.inj ha
      exact hmem
  · exact received_of_eof hup hfails
  · intro hexited
    exact ⟨close_of_closed hup hfails (hupClosed hexited),
      received_of_closed hup hfails (hupClosed hexited)⟩
  · exact received_of_eof hdown hfails
  · intro hexited
    exact ⟨close_of_closed hdown hfails (hdownClosed hexited),
      received_of_closed hdown hfails (hdownClosed hexited)⟩

/-- A client that sends one byte and ends, and a server that only ends. -/
def briefSession : List BridgeAct :=
  ([.up (.send [1]), .up .close, .up (.hop 0 (.read [1])), .up (.hop 0 (.write 1)),
    .up (.hop 0 .flush), .up (.hop 0 .eof), .up (.hop 0 .shutdown), .down .close,
    .down (.hop 0 .eof)].map .stream) ++ [.exit, .stream (.down .eof)]

/-- The process exits from it. -/
theorem bridged_briefSession :
    ∃ b, Bridge.start.run briefSession = some b ∧ b.exited = true := by
  have hrun : (Bridge.start.run briefSession).isSome := by decide +kernel
  obtain ⟨b, hb⟩ := Option.isSome_iff_exists.mp hrun
  exact ⟨b, hb, (bridged hb).2.2.1 (by decide)⟩

end Devcroft.Ssh.Proxy
