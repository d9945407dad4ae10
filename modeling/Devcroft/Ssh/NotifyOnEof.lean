import Mathlib.Data.List.Basic
import Mathlib.Data.List.Count
import Mathlib.Tactic.Common

/-!
# The end of file that waits for the exit status

The stream that the SFTP server reads from withholds its end of file until the exit status of the
channel is sent. It is polled: the inner stream and the send each answer that they are ready or
that they are not yet, in any order, and what was begun in one poll is resumed in a later one.
-/

namespace Devcroft.Ssh.Notify

variable {ε α : Type}

/-- `Poll`. -/
inductive Poll (α : Type) where
  | pending
  | ready (value : α)
  deriving DecidableEq

/-- `ReadBuf`: its bytes never exceed its capacity. -/
structure ReadBuf where
  capacity : ℕ
  filled : List UInt8
  fits : filled.length ≤ capacity

/-- `ReadBuf::remaining`. -/
def ReadBuf.remaining (buf : ReadBuf) : ℕ :=
  buf.capacity - buf.filled.length

/-- `ReadBuf::put_slice`, which panics unless there is room. -/
def ReadBuf.putSlice (buf : ReadBuf) (bytes : List UInt8) (h : bytes.length ≤ buf.remaining) :
    ReadBuf where
  capacity := buf.capacity
  filled := buf.filled ++ bytes
  fits := by
    have hfits := buf.fits
    unfold ReadBuf.remaining at h
    rw [List.length_append]
    omega

/-- `ChannelId`. -/
abbrev ChannelId := UInt32

/-- A request that the send makes of the session. -/
inductive Request where
  | exitStatus (channel : ChannelId) (code : UInt32)
  | eof (channel : ChannelId)
  deriving DecidableEq

/-- The future of the send, at the request that it waits for. -/
inductive Send where
  | exitStatus (channel : ChannelId)
  | eof (channel : ChannelId)
  deriving DecidableEq

/-- `EofState`. -/
inductive EofState where
  | pending (channel : ChannelId)
  | sending (send : Send)
  | done
  deriving DecidableEq

/-- How the inner stream takes a poll: what it answers, and the bytes that it puts into the buffer.
That it only appends is the contract of `AsyncRead`. -/
structure Read (ε : Type) where
  result : Poll (Except ε Unit)
  bytes : List UInt8

/-- How the session takes polls of the two requests. -/
structure Answers where
  exitStatus : Poll (Except Unit Unit)
  eof : Poll (Except Unit Unit)

/-- A call of `poll_read` with a buffer that has room, and what the inner stream and the session do
if they are polled in it. -/
structure Call (ε : Type) where
  buf : ReadBuf
  notFull : 0 < buf.remaining
  inner : Read ε
  fits : inner.bytes.length ≤ buf.remaining
  answers : Answers

/-- What happens in a call. -/
inductive Event (ε : Type) where
  | read (room : ℕ) (inner : Read ε)
  | created (channel : ChannelId)
  | answered (request : Request) (answer : Poll (Except Unit Unit))

/-- What comes of a call. -/
structure Outcome (ε : Type) where
  events : List (Event ε)
  result : Poll (Except ε Unit)
  buf : ReadBuf
  onEof : EofState

/-- The last await of the send. What the session answers is ignored, and `none` means that the
future is ready. -/
def pollEof (channel : ChannelId) (answers : Answers) : List (Event ε) × Option Send :=
  match answers.eof with
  | .pending => ([.answered (.eof channel) .pending], some (.eof channel))
  | .ready answer => ([.answered (.eof channel) (.ready answer)], none)

/-- A poll of the send: what is awaited first is the exit status, with code 0. -/
def Send.poll : Send → Answers → List (Event ε) × Option Send
  | .exitStatus channel, answers =>
    match answers.exitStatus with
    | .pending => ([.answered (.exitStatus channel 0) .pending], some (.exitStatus channel))
    | .ready answer =>
      (.answered (.exitStatus channel 0) (.ready answer) :: (pollEof channel answers).1,
        (pollEof (ε := ε) channel answers).2)
  | .eof channel, answers => pollEof channel answers

/-- `Poll::Ready(Ok(()))`. -/
def Poll.isReadyOk : Poll (Except ε α) → Bool
  | .ready (.ok _) => true
  | _ => false

/-- The call that polled the send ends as the send does. -/
def settle (events : List (Event ε)) (buf : ReadBuf) : List (Event ε) × Option Send → Outcome ε
  | (polled, some send) => ⟨events ++ polled, .pending, buf, .sending send⟩
  | (polled, none) => ⟨events ++ polled, .ready (.ok ()), buf, .done⟩

/-- `NotifyOnEof::poll_read`. -/
def pollRead (onEof : EofState) (call : Call ε) : Outcome ε :=
  match onEof with
  | .sending send => settle [] call.buf (send.poll call.answers)
  | onEof =>
    let buf := call.buf.putSlice call.inner.bytes call.fits
    let read : Event ε := .read call.buf.remaining call.inner
    if call.inner.result.isReadyOk = true ∧ buf.filled.length = call.buf.filled.length then
      -- `replace` leaves `Done`, also where it finds `Done`
      match onEof with
      | .pending channel =>
        settle [read, .created channel] buf ((Send.exitStatus channel).poll call.answers)
      | _ => ⟨[read], call.inner.result, buf, .done⟩
    else ⟨[read], call.inner.result, buf, onEof⟩

/-- The state after a sequence of calls. -/
def after : EofState → List (Call ε) → EofState
  | onEof, [] => onEof
  | onEof, call :: rest => after (pollRead onEof call).onEof rest

/-- What happens in a sequence of calls. -/
def events : EofState → List (Call ε) → List (Event ε)
  | _, [] => []
  | onEof, call :: rest => (pollRead onEof call).events ++ events (pollRead onEof call).onEof rest

/-- The inner stream reports its end of file: it had room, and is ready with nothing. -/
def Event.IsEndOfFile : Event ε → Prop
  | .read room inner => 0 < room ∧ inner.result.isReadyOk = true ∧ inner.bytes = []
  | _ => False

def Event.IsRead : Event ε → Prop
  | .read _ _ => True
  | _ => False

def Event.isCreated : Event ε → Bool
  | .created _ => true
  | _ => false

/-- The last request of the send is answered. -/
def Event.IsResolved : Event ε → Prop
  | .answered (.eof _) (.ready _) => True
  | _ => False

/-- The bytes that are read from the inner stream. -/
def Event.bytes : Event ε → List UInt8
  | .read _ inner => inner.bytes
  | _ => []

/-- How often the send is created. -/
def creations (seen : List (Event ε)) : ℕ :=
  seen.countP Event.isCreated

/-- The send is resolved. -/
def Resolved (seen : List (Event ε)) : Prop :=
  ∃ e ∈ seen, e.IsResolved

/-- The request to send the exit status 0 is answered. -/
def StatusSent (channel : ChannelId) (seen : List (Event ε)) : Prop :=
  ∃ answer, .answered (.exitStatus channel 0) (.ready answer) ∈ seen

/-- The caller sees an end of file: it gave room, and gets a success without a byte. -/
def Call.EndsFile (call : Call ε) (outcome : Outcome ε) : Prop :=
  0 < call.buf.remaining ∧ outcome.result.isReadyOk = true ∧
    outcome.buf.filled = call.buf.filled

/-- The law of a call, after what was seen in the calls before. -/
structure Withheld (channel : ChannelId) (seen : List (Event ε)) (call : Call ε)
    (outcome : Outcome ε) : Prop where
  /-- The send is created at most once. -/
  once : creations (seen ++ outcome.events) ≤ 1
  /-- It is created after the inner stream reported its end of file. -/
  afterEnd : ∀ before target rest, outcome.events = before ++ .created target :: rest →
    ∃ e ∈ seen ++ before, e.IsEndOfFile
  /-- Once it is created and not resolved, the call does not read from the inner stream. -/
  unread : ∀ before rest, outcome.events = before ++ rest →
    creations (seen ++ before) ≠ 0 → ¬ Resolved (seen ++ before) → ∀ e ∈ rest, ¬ e.IsRead
  /-- A call that leaves it created and not resolved is pending, without a byte. -/
  waits : creations (seen ++ outcome.events) ≠ 0 → ¬ Resolved (seen ++ outcome.events) →
    outcome.result = .pending ∧ outcome.buf.filled = call.buf.filled
  /-- The caller sees an end of file only after the exit status is sent and the send resolved. -/
  afterSend : call.EndsFile outcome →
    StatusSent channel (seen ++ outcome.events) ∧ Resolved (seen ++ outcome.events)
  /-- Whatever else the inner stream answers is what the caller gets. -/
  through : ∀ room inner, .read room inner ∈ outcome.events →
    ¬ (Event.read room inner).IsEndOfFile →
    outcome.result = inner.result ∧ outcome.buf.filled = call.buf.filled ++ inner.bytes
  /-- The caller gets the bytes that are read from the inner stream, and no others. -/
  unchanged : outcome.buf.filled = call.buf.filled ++ outcome.events.flatMap Event.bytes

/-- The law of a sequence of calls: that of each of them. -/
def Withholds (channel : ChannelId) (calls : List (Call ε)) : Prop :=
  ∀ past call rest, calls = past ++ call :: rest →
    Withheld channel (events (.pending channel) past) call
      (pollRead (after (.pending channel) past) call)

/-! ## A poll of the send -/

/-- Where a send stands that was begun for a channel. -/
def Send.Reached (channel : ChannelId) (seen : List (Event ε)) : Send → Prop
  | .exitStatus target => target = channel
  | .eof target => target = channel ∧ StatusSent channel seen

/-- The last await is not ready, or it resolves the send. -/
theorem pollEof_cases (channel : ChannelId) (answers : Answers) :
    pollEof (ε := ε) channel answers =
        ([.answered (.eof channel) .pending], some (.eof channel)) ∨
      ∃ answer, pollEof (ε := ε) channel answers =
        ([.answered (.eof channel) (.ready answer)], none) := by
  unfold pollEof
  cases answers.eof with
  | pending => exact Or.inl rfl
  | ready answer => exact Or.inr ⟨answer, rfl⟩

/-- A poll of the send asks the session, and nothing else happens in it. -/
theorem Send.answered_of_mem_poll {send : Send} {answers : Answers} {e : Event ε}
    (he : e ∈ (send.poll answers).1) : ∃ request answer, e = .answered request answer := by
  have hlast (channel : ChannelId) (he : e ∈ (pollEof (ε := ε) channel answers).1) :
      ∃ request answer, e = .answered request answer := by
    rcases pollEof_cases (ε := ε) channel answers with h | ⟨answer, h⟩
    all_goals
      rw [h, List.mem_singleton] at he
      exact ⟨_, _, he⟩
  cases send with
  | exitStatus channel =>
    simp only [Send.poll] at he
    split at he
    · exact ⟨_, _, List.mem_singleton.mp he⟩
    · rcases List.mem_cons.mp he with he | he
      · exact ⟨_, _, he⟩
      · exact hlast channel he
  | eof channel => exact hlast channel he

theorem Send.creations_poll (send : Send) (answers : Answers) :
    creations (send.poll (ε := ε) answers).1 = 0 := by
  apply List.countP_eq_zero.mpr
  intro e he
  obtain ⟨request, answer, rfl⟩ := Send.answered_of_mem_poll he
  simp [Event.isCreated]

theorem Send.not_isRead_of_mem_poll {send : Send} {answers : Answers} {e : Event ε}
    (he : e ∈ (send.poll answers).1) : ¬ e.IsRead := by
  obtain ⟨request, answer, rfl⟩ := Send.answered_of_mem_poll he
  exact id

theorem Send.bytes_poll (send : Send) (answers : Answers) :
    (send.poll (ε := ε) answers).1.flatMap Event.bytes = [] := by
  apply List.flatMap_eq_nil_iff.mpr
  intro e he
  obtain ⟨request, answer, rfl⟩ := Send.answered_of_mem_poll he
  rfl

variable {channel : ChannelId} {seen : List (Event ε)} {send next : Send} {answers : Answers}

theorem StatusSent.append (h : StatusSent channel seen) (more : List (Event ε)) :
    StatusSent channel (seen ++ more) := by
  obtain ⟨answer, hmem⟩ := h
  exact ⟨answer, List.mem_append_left _ hmem⟩

theorem Resolved.append (h : Resolved seen) (more : List (Event ε)) :
    Resolved (seen ++ more) := by
  obtain ⟨e, hmem, he⟩ := h
  exact ⟨e, List.mem_append_left _ hmem, he⟩

/-- A send that is not ready stands at a request of its channel. -/
theorem Send.Reached.poll_some (hsend : send.Reached channel seen)
    (hnext : (send.poll (ε := ε) answers).2 = some next) :
    next.Reached channel (seen ++ (send.poll answers).1) := by
  have hlast (hnext : (pollEof (ε := ε) channel answers).2 = some next) : next = .eof channel := by
    rcases pollEof_cases (ε := ε) channel answers with h | ⟨answer, h⟩
    · rw [h] at hnext
      exact (Option.some.inj hnext).symm
    · rw [h] at hnext
      cases hnext
  cases send with
  | exitStatus target =>
    obtain rfl : target = channel := hsend
    simp only [Send.poll] at hnext ⊢
    split at hnext
    · obtain rfl := Option.some.inj hnext
      exact rfl
    · rename_i answer _
      obtain rfl := hlast hnext
      exact ⟨rfl, answer, by simp⟩
  | eof target =>
    obtain ⟨rfl, hstatus⟩ : target = channel ∧ StatusSent channel seen := hsend
    obtain rfl := hlast hnext
    exact ⟨rfl, hstatus.append _⟩

/-- A send that is ready has sent the exit status before, and is resolved. -/
theorem Send.Reached.poll_none (hsend : send.Reached channel seen)
    (hready : (send.poll (ε := ε) answers).2 = none) :
    StatusSent channel (seen ++ (send.poll answers).1) ∧
      Resolved (seen ++ (send.poll answers).1) := by
  have hlast (hready : (pollEof (ε := ε) channel answers).2 = none) :
      Resolved (pollEof (ε := ε) channel answers).1 := by
    rcases pollEof_cases (ε := ε) channel answers with h | ⟨answer, h⟩
    · rw [h] at hready
      cases hready
    · rw [h]
      exact ⟨_, List.mem_singleton_self _, trivial⟩
  cases send with
  | exitStatus target =>
    obtain rfl : target = channel := hsend
    simp only [Send.poll] at hready ⊢
    split at hready
    · cases hready
    · rename_i answer _
      obtain ⟨e, hmem, he⟩ := hlast hready
      exact ⟨⟨answer, by simp⟩, e, by simp [hmem], he⟩
  | eof target =>
    obtain ⟨rfl, hstatus⟩ : target = channel ∧ StatusSent channel seen := hsend
    obtain ⟨e, hmem, he⟩ := hlast hready
    exact ⟨hstatus.append _, e, List.mem_append_right _ hmem, he⟩

/-! ## A call -/

/-- The inner stream ends in a call: it is ready without a byte. -/
def Call.Ended (call : Call ε) : Prop :=
  call.inner.result.isReadyOk = true ∧ call.inner.bytes = []

/-- The buffer after the inner stream is polled. -/
def Call.readBuf (call : Call ε) : ReadBuf :=
  call.buf.putSlice call.inner.bytes call.fits

/-- The event of polling the inner stream. -/
def Call.read (call : Call ε) : Event ε :=
  .read call.buf.remaining call.inner

theorem Call.readBuf_filled (call : Call ε) :
    call.readBuf.filled = call.buf.filled ++ call.inner.bytes := by
  rfl

/-- What a call can come to: the send is resumed, or the inner stream is read and either its first
end of file begins the send or its answer is passed through. -/
inductive Polled (onEof : EofState) (call : Call ε) : Outcome ε → Prop where
  | resumed (send : Send) (h : onEof = .sending send) :
    Polled onEof call (settle [] call.buf (send.poll call.answers))
  | began (channel : ChannelId) (h : onEof = .pending channel) (hended : call.Ended) :
    Polled onEof call (settle [call.read, .created channel] call.readBuf
      ((Send.exitStatus channel).poll call.answers))
  | passed (hread : ∀ send, onEof ≠ .sending send)
      (hkept : ∀ channel, onEof = .pending channel → ¬ call.Ended) :
    Polled onEof call ⟨[call.read], call.inner.result, call.readBuf, onEof⟩

/-- The code's condition that nothing was filled says that the inner stream gave no byte. -/
theorem Call.ended_iff (call : Call ε) :
    call.inner.result.isReadyOk = true ∧ call.readBuf.filled.length = call.buf.filled.length ↔
      call.Ended := by
  rw [Call.readBuf_filled, List.length_append, Nat.add_eq_left, List.length_eq_zero_iff]
  exact Iff.rfl

theorem polled_pollRead (onEof : EofState) (call : Call ε) :
    Polled onEof call (pollRead onEof call) := by
  cases onEof with
  | sending send => exact .resumed send rfl
  | pending channel =>
    by_cases hended : call.Ended
    · have h : pollRead (.pending channel) call = settle [call.read, .created channel] call.readBuf
          ((Send.exitStatus channel).poll call.answers) := if_pos (call.ended_iff.mpr hended)
      rw [h]
      exact .began channel rfl hended
    · have h : pollRead (.pending channel) call =
          ⟨[call.read], call.inner.result, call.readBuf, .pending channel⟩ :=
        if_neg (mt call.ended_iff.mp hended)
      rw [h]
      exact .passed (fun _ => nofun) fun _ _ => hended
  | done =>
    have h : pollRead .done call = ⟨[call.read], call.inner.result, call.readBuf, .done⟩ :=
      ite_self _
    rw [h]
    exact .passed (fun _ => nofun) fun _ => nofun

/-! What happened in a call that polled the send, and how it ended. -/

theorem settle_events (base : List (Event ε)) (buf : ReadBuf)
    (polled : List (Event ε) × Option Send) :
    (settle base buf polled).events = base ++ polled.1 := by
  obtain ⟨polled, _ | send⟩ := polled <;> rfl

theorem settle_buf (base : List (Event ε)) (buf : ReadBuf)
    (polled : List (Event ε) × Option Send) : (settle base buf polled).buf = buf := by
  obtain ⟨polled, _ | send⟩ := polled <;> rfl

theorem settle_pending {base : List (Event ε)} {buf : ReadBuf}
    {polled : List (Event ε) × Option Send} {send : Send}
    (h : (settle base buf polled).onEof = .sending send) :
    (settle base buf polled).result = .pending := by
  obtain ⟨polled, _ | next⟩ := polled
  · cases h
  · rfl

theorem settle_done {base : List (Event ε)} {buf : ReadBuf}
    {polled : List (Event ε) × Option Send}
    (h : (settle base buf polled).result.isReadyOk = true) :
    (settle base buf polled).onEof = .done := by
  obtain ⟨polled, _ | next⟩ := polled
  · rfl
  · cases h

/-- The inner stream ends without filling the buffer. -/
theorem Call.Ended.readBuf_filled {call : Call ε} (hended : call.Ended) :
    call.readBuf.filled = call.buf.filled := by
  rw [Call.readBuf_filled, hended.2, List.append_nil]

/-! ## A sequence of calls -/

/-- What the state says about the calls so far. -/
def Kept (channel : ChannelId) (seen : List (Event ε)) : EofState → Prop
  | .pending target => target = channel ∧ creations seen = 0
  | .sending send => creations seen = 1 ∧ send.Reached channel seen
  | .done => creations seen = 1 ∧ StatusSent channel seen ∧ Resolved seen

variable {onEof : EofState} {call : Call ε} {outcome : Outcome ε}

theorem creations_append (seen more : List (Event ε)) :
    creations (seen ++ more) = creations seen + creations more := by
  exact List.countP_append

theorem Kept.creations_le (hkept : Kept channel seen onEof) : creations seen ≤ 1 := by
  cases onEof with
  | pending target =>
    have h : creations seen = 0 := hkept.2
    omega
  | sending send => exact Nat.le_of_eq hkept.1
  | done => exact Nat.le_of_eq hkept.1

/-- The send that is created and not resolved is the one that the state holds. -/
theorem Kept.sending (hkept : Kept channel seen onEof) (hcreated : creations seen ≠ 0)
    (hpending : ¬ Resolved seen) : ∃ send, onEof = .sending send := by
  cases onEof with
  | pending target => exact absurd hkept.2 hcreated
  | sending send => exact ⟨send, rfl⟩
  | done => exact absurd hkept.2.2 hpending

/-- What a poll of the send leaves is kept. -/
theorem kept_settle {base : List (Event ε)} {buf : ReadBuf}
    (hcreations : creations (seen ++ base) = 1) (hsend : send.Reached channel (seen ++ base)) :
    Kept channel (seen ++ (settle base buf (send.poll answers)).events)
      (settle base buf (send.poll answers)).onEof := by
  have hcount : creations (seen ++ base ++ (send.poll (ε := ε) answers).1) = 1 := by
    rw [creations_append, hcreations, Send.creations_poll]
  have hsome : ∀ next, (send.poll (ε := ε) answers).2 = some next →
      next.Reached channel (seen ++ base ++ (send.poll answers).1) := fun _ => hsend.poll_some
  have hnone : (send.poll (ε := ε) answers).2 = none →
      StatusSent channel (seen ++ base ++ (send.poll answers).1) ∧
        Resolved (seen ++ base ++ (send.poll answers).1) := hsend.poll_none
  generalize send.poll (ε := ε) answers = result at hcount hsome hnone ⊢
  obtain ⟨polled, next⟩ := result
  cases next with
  | some next =>
    change Kept channel (seen ++ (base ++ polled)) (.sending next)
    rw [← List.append_assoc]
    exact ⟨hcount, hsome next rfl⟩
  | none =>
    change Kept channel (seen ++ (base ++ polled)) .done
    rw [← List.append_assoc]
    exact ⟨hcount, hnone rfl⟩

/-- A call that only reads keeps what the state says. -/
theorem Kept.passed (hkept : Kept channel seen onEof) (call : Call ε)
    (hread : ∀ send, onEof ≠ .sending send) : Kept channel (seen ++ [call.read]) onEof := by
  have hcount : creations (seen ++ [call.read]) = creations seen := creations_append _ _
  cases onEof with
  | pending target => exact ⟨hkept.1, hcount.trans hkept.2⟩
  | sending send => exact absurd rfl (hread send)
  | done => exact ⟨hcount.trans hkept.1, hkept.2.1.append _, hkept.2.2.append _⟩

/-- A call keeps what the state says. -/
theorem Kept.polled (hkept : Kept channel seen onEof) (h : Polled onEof call outcome) :
    Kept channel (seen ++ outcome.events) outcome.onEof := by
  cases h with
  | resumed send h =>
    subst h
    apply kept_settle
    · rw [List.append_nil]
      exact hkept.1
    · rw [List.append_nil]
      exact hkept.2
  | began target h hended =>
    subst h
    obtain ⟨rfl, hcount⟩ := hkept
    apply kept_settle
    · rw [creations_append, hcount]
      rfl
    · exact rfl
  | passed hread => exact hkept.passed call hread

/-- The invariant of a run. -/
theorem kept_after (channel : ChannelId) (calls : List (Call ε)) :
    Kept channel (events (.pending channel) calls) (after (.pending channel) calls) := by
  have hrun : ∀ (calls : List (Call ε)) (seen : List (Event ε)) (onEof : EofState),
      Kept channel seen onEof → Kept channel (seen ++ events onEof calls) (after onEof calls) := by
    intro calls
    induction calls with
    | nil =>
      intro seen onEof hkept
      rw [events, List.append_nil]
      exact hkept
    | cons call rest ih =>
      intro seen onEof hkept
      rw [events, after, ← List.append_assoc]
      exact ih _ _ (hkept.polled (polled_pollRead onEof call))
  exact hrun calls [] (.pending channel) ⟨rfl, rfl⟩

/-! ## The law -/

/-- The inner stream is read at the beginning of a call, and not when the send is resumed. -/
theorem Polled.of_read (h : Polled onEof call outcome) {before rest : List (Event ε)}
    (hevents : outcome.events = before ++ rest) {e : Event ε} (he : e ∈ rest) (hread : e.IsRead) :
    before = [] ∧ ∀ send, onEof ≠ .sending send := by
  -- what is left after the first event holds no reading
  have hfirst (tail : List (Event ε)) (htail : ∀ d ∈ tail, ¬ d.IsRead)
      (hsplit : call.read :: tail = before ++ rest) : before = [] := by
    cases before with
    | nil => rfl
    | cons first more =>
      obtain ⟨-, rfl⟩ := List.cons.inj hsplit
      exact absurd hread (htail e (List.mem_append_right _ he))
  cases h with
  | resumed send h =>
    rw [settle_events, List.nil_append] at hevents
    have hmem : e ∈ (send.poll call.answers).1 := by
      rw [hevents]
      exact List.mem_append_right _ he
    exact absurd hread (Send.not_isRead_of_mem_poll hmem)
  | began target h hended =>
    constructor
    · rw [settle_events] at hevents
      apply hfirst _ _ hevents
      intro d hd
      rcases List.mem_cons.mp hd with rfl | hd
      · exact id
      · exact Send.not_isRead_of_mem_poll hd
    · rw [h]
      exact fun _ => nofun
  | passed hstate =>
    exact ⟨hfirst [] (fun _ => nofun) hevents, hstate⟩

/-- The send is created in a call whose reading reports the end of file. -/
theorem Polled.of_created (h : Polled onEof call outcome) {before rest : List (Event ε)}
    {target : ChannelId} (hevents : outcome.events = before ++ .created target :: rest) :
    ∃ e ∈ before, e.IsEndOfFile := by
  have hmem : .created target ∈ outcome.events := by
    rw [hevents]
    exact List.mem_append_right _ List.mem_cons_self
  cases h with
  | resumed send h =>
    rw [settle_events, List.nil_append] at hmem
    obtain ⟨request, answer, he⟩ := Send.answered_of_mem_poll hmem
    cases he
  | began channel h hended =>
    rw [settle_events] at hevents
    cases before with
    | nil => cases hevents
    | cons first more =>
      obtain ⟨hfirst, -⟩ := List.cons.inj hevents
      refine ⟨first, List.mem_cons_self, ?_⟩
      rw [← hfirst]
      exact ⟨call.notFull, hended⟩
  | passed => cases List.mem_singleton.mp hmem

/-- A call that leaves the send to be resumed is pending, without a byte. -/
theorem Polled.of_sending (h : Polled onEof call outcome)
    (hsending : outcome.onEof = .sending send) :
    outcome.result = .pending ∧ outcome.buf.filled = call.buf.filled := by
  cases h with
  | resumed send h =>
    rw [settle_buf]
    exact ⟨settle_pending hsending, rfl⟩
  | began target h hended =>
    rw [settle_buf]
    exact ⟨settle_pending hsending, hended.readBuf_filled⟩
  | passed hstate => exact absurd hsending (hstate send)

/-- A call in which the caller sees an end of file leaves the send done. -/
theorem Polled.of_endsFile (h : Polled onEof call outcome) (hend : call.EndsFile outcome) :
    outcome.onEof = .done := by
  obtain ⟨_, hresult, hfilled⟩ := hend
  cases h with
  | resumed send h => exact settle_done hresult
  | began target h hended => exact settle_done hresult
  | passed hstate hkept =>
    have hended : call.Ended := by
      refine ⟨hresult, ?_⟩
      rw [Call.readBuf_filled] at hfilled
      exact List.append_right_eq_self.mp hfilled
    cases onEof with
    | pending channel => exact absurd hended (hkept channel rfl)
    | sending send => exact absurd rfl (hstate send)
    | done => rfl

/-- An answer of the inner stream that is not its end of file is passed through. -/
theorem Polled.of_not_endOfFile (h : Polled onEof call outcome) {room : ℕ} {inner : Read ε}
    (hmem : .read room inner ∈ outcome.events) (hend : ¬ (Event.read room inner).IsEndOfFile) :
    outcome.result = inner.result ∧ outcome.buf.filled = call.buf.filled ++ inner.bytes := by
  cases h with
  | resumed send h =>
    rw [settle_events, List.nil_append] at hmem
    exact absurd trivial (Send.not_isRead_of_mem_poll hmem)
  | began target h hended =>
    rw [settle_events] at hmem
    rcases List.mem_append.mp hmem with hmem | hmem
    · rcases List.mem_cons.mp hmem with hread | hcreated
      · rw [hread] at hend
        exact absurd ⟨call.notFull, hended⟩ hend
      · cases List.mem_singleton.mp hcreated
    · exact absurd trivial (Send.not_isRead_of_mem_poll hmem)
  | passed =>
    obtain ⟨rfl, rfl⟩ := Event.read.inj (List.mem_singleton.mp hmem)
    exact ⟨rfl, call.readBuf_filled⟩

/-- A call appends to the buffer what it reads from the inner stream. -/
theorem Polled.filled (h : Polled onEof call outcome) :
    outcome.buf.filled = call.buf.filled ++ outcome.events.flatMap Event.bytes := by
  have hread : [call.read].flatMap Event.bytes = call.inner.bytes := List.append_nil _
  cases h with
  | resumed send h =>
    rw [settle_events, settle_buf, List.nil_append, Send.bytes_poll, List.append_nil]
  | began target h hended =>
    have hbase : [call.read, .created target].flatMap Event.bytes = [] := by
      rw [← hended.2, ← hread]
      rfl
    rw [settle_events, settle_buf, List.flatMap_append, hbase, Send.bytes_poll,
      hended.readBuf_filled]
    exact (List.append_nil _).symm
  | passed =>
    rw [hread]
    exact call.readBuf_filled

/-- A call obeys the law when the state before it tells what was seen. -/
theorem Kept.withheld (hkept : Kept channel seen onEof) (h : Polled onEof call outcome) :
    Withheld channel seen call outcome where
  once := (hkept.polled h).creations_le
  afterEnd before target rest hevents := by
    obtain ⟨e, hmem, hend⟩ := h.of_created hevents
    exact ⟨e, List.mem_append_right _ hmem, hend⟩
  unread before rest hevents hcreated hpending e he hread := by
    obtain ⟨rfl, hstate⟩ := h.of_read hevents he hread
    rw [List.append_nil] at hcreated hpending
    obtain ⟨send, hsending⟩ := hkept.sending hcreated hpending
    exact hstate send hsending
  waits hcreated hpending := by
    obtain ⟨send, hsending⟩ := (hkept.polled h).sending hcreated hpending
    exact h.of_sending hsending
  afterSend hend := by
    have hdone := hkept.polled h
    rw [h.of_endsFile hend] at hdone
    exact hdone.2
  through room inner hmem hend := h.of_not_endOfFile hmem hend
  unchanged := h.filled

/-- The end of file is withheld in every sequence of calls: the send is created at most once and
only after the inner stream reported its end of file, calls are pending without reading while the
send is, the caller sees an end of file only after the send is resolved, and everything else that
is read is passed through unchanged. -/
theorem pollRead_withholds (channel : ChannelId) (calls : List (Call ε)) :
    Withholds channel calls := by
  intro past call rest _
  exact (kept_after channel past).withheld (polled_pollRead _ call)

/-- The inner stream ends and the exit status is sent, but not yet the request behind it: the caller
waits, and the send goes on from there. -/
example :
    let call : Call Unit :=
      { buf := ⟨4, [], by decide⟩
        notFull := by decide
        inner := ⟨.ready (.ok ()), []⟩
        fits := by decide
        answers := ⟨.ready (.ok ()), .pending⟩ }
    (pollRead (.pending 3) call).result.isReadyOk = false ∧
      (pollRead (.pending 3) call).onEof = .sending (.eof 3) := by
  decide

end Devcroft.Ssh.Notify
