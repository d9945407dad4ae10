import Devcroft.Keeper.Protocol
import Devcroft.Library.Text
import Devcroft.Library.Utf8
import Devcroft.Library.Wire

/-!
# Frames on the wire

`read_frame` and `write_frame`: a tag, the length of the payload and the payload. What is
written delimits itself, so a peer reads back the frames that were sent and nothing more.
The structured payloads are given to `serde_json`, which is a parameter here.
-/

namespace Devcroft.Keeper

open Wire

/-- `MAX_FRAME_LEN`. -/
def MAX_FRAME_LEN : ℕ := 16 * 1024 * 1024

@[match_pattern] abbrev TAG_SPAWN : UInt8 := 1
@[match_pattern] abbrev TAG_SPAWN_OK : UInt8 := 2
@[match_pattern] abbrev TAG_SPAWN_ERR : UInt8 := 3
@[match_pattern] abbrev TAG_STDIN : UInt8 := 4
@[match_pattern] abbrev TAG_STDIN_CLOSED : UInt8 := 5
@[match_pattern] abbrev TAG_STDOUT : UInt8 := 6
@[match_pattern] abbrev TAG_STDERR : UInt8 := 7
@[match_pattern] abbrev TAG_RESIZE : UInt8 := 8
@[match_pattern] abbrev TAG_SIGNAL : UInt8 := 9
@[match_pattern] abbrev TAG_EXIT : UInt8 := 10
@[match_pattern] abbrev TAG_QUERY : UInt8 := 11
@[match_pattern] abbrev TAG_QUERY_RESULT : UInt8 := 12

/-- `SpawnOkPayload`. -/
structure SpawnOkPayload where
  sessionId : ℕ
  deriving DecidableEq

/-- `SpawnErrPayload`. -/
structure SpawnErrPayload where
  message : String
  deriving DecidableEq

/-- The `io::Error` of a frame. -/
inductive FrameError where
  | unexpectedEof
  | invalidData (message : String)
  | other (message : String)
  deriving DecidableEq

/-- What `serde_json` does with one type: `to_vec` and `from_slice`. -/
structure Codec (T : Type) where
  toVec : T → Except String (List UInt8)
  fromSlice : List UInt8 → Except String T

/-- `serde_json`, for the types of the structured payloads. -/
structure SerdeJson where
  spawnRequest : Codec SpawnRequest
  spawnOkPayload : Codec SpawnOkPayload
  spawnErrPayload : Codec SpawnErrPayload
  ptySize : Codec PtySize
  sessionSignal : Codec SessionSignal
  exitStatus : Codec ExitStatus
  queryResult : Codec QueryResult

variable {T : Type}

/-- What is said of a frame that is too long, by either side. -/
def tooLong (len : ℕ) : FrameError :=
  .invalidData s!"frame of {len} bytes exceeds max {MAX_FRAME_LEN}"

/-- `from_json`. -/
def fromJson (codec : Codec T) (payload : List UInt8) : OnBytes FrameError T :=
  match codec.fromSlice payload with
  | .ok value => pure value
  | .error e => fail (.invalidData e)

/-- The frame with this tag and this payload. -/
def frameOf (json : SerdeJson) (tag : UInt8) (payload : List UInt8) : OnBytes FrameError Frame :=
  match tag with
  | TAG_SPAWN => do return .spawn (← fromJson json.spawnRequest payload)
  | TAG_SPAWN_OK => do return .spawnOk (← fromJson json.spawnOkPayload payload).sessionId
  | TAG_SPAWN_ERR => do return .spawnErr (← fromJson json.spawnErrPayload payload).message
  | TAG_STDIN => return .stdin payload
  | TAG_STDIN_CLOSED => return .stdinClosed
  | TAG_STDOUT => return .stdout payload
  | TAG_STDERR => return .stderr payload
  | TAG_RESIZE => do return .resize (← fromJson json.ptySize payload)
  | TAG_SIGNAL => do return .signal (← fromJson json.sessionSignal payload)
  | TAG_EXIT => do return .exit (← fromJson json.exitStatus payload)
  | TAG_QUERY => return .query
  | TAG_QUERY_RESULT => do return .queryResult (← fromJson json.queryResult payload)
  | other => fail (.invalidData s!"unknown frame tag {other}")

/-- `read_frame`. -/
def readFrame (json : SerdeJson) : OnBytes FrameError Frame := do
  let tagBuf ← readExact .unexpectedEof 1
  let lenBuf ← readExact .unexpectedEof 4
  let len := ofBigEndian lenBuf
  if MAX_FRAME_LEN < len then
    fail (tooLong len)
  else
    let payload ← readExact .unexpectedEof len
    frameOf json (tagBuf.headD 0) payload

/-- `write_raw`. -/
def writeRaw (w : Sink FrameError) (tag : UInt8) (payload : List UInt8) :
    OnBytes FrameError Unit :=
  if MAX_FRAME_LEN < payload.length then
    fail (tooLong payload.length)
  else do
    w.writeAll [tag]
    w.writeAll (bigEndian 4 payload.length)
    w.writeAll payload
    w.flush

/-- `write_json`. -/
def writeJson (codec : Codec T) (w : Sink FrameError) (tag : UInt8) (value : T) :
    OnBytes FrameError Unit :=
  match codec.toVec value with
  | .ok payload => writeRaw w tag payload
  | .error e => fail (.invalidData e)

/-- `write_frame`. -/
def writeFrame (json : SerdeJson) (w : Sink FrameError) : Frame → OnBytes FrameError Unit
  | .spawn req => writeJson json.spawnRequest w TAG_SPAWN req
  | .spawnOk sessionId => writeJson json.spawnOkPayload w TAG_SPAWN_OK ⟨sessionId⟩
  | .spawnErr message => writeJson json.spawnErrPayload w TAG_SPAWN_ERR ⟨message⟩
  | .stdin bytes => writeRaw w TAG_STDIN bytes
  | .stdinClosed => writeRaw w TAG_STDIN_CLOSED []
  | .stdout bytes => writeRaw w TAG_STDOUT bytes
  | .stderr bytes => writeRaw w TAG_STDERR bytes
  | .resize size => writeJson json.ptySize w TAG_RESIZE size
  | .signal sig => writeJson json.sessionSignal w TAG_SIGNAL sig
  | .exit status => writeJson json.exitStatus w TAG_EXIT status
  | .query => writeRaw w TAG_QUERY []
  | .queryResult result => writeJson json.queryResult w TAG_QUERY_RESULT result

/-- The tag of a frame. -/
def Frame.tag : Frame → UInt8
  | spawn _ => TAG_SPAWN
  | spawnOk _ => TAG_SPAWN_OK
  | spawnErr _ => TAG_SPAWN_ERR
  | stdin _ => TAG_STDIN
  | stdinClosed => TAG_STDIN_CLOSED
  | stdout _ => TAG_STDOUT
  | stderr _ => TAG_STDERR
  | resize _ => TAG_RESIZE
  | signal _ => TAG_SIGNAL
  | exit _ => TAG_EXIT
  | query => TAG_QUERY
  | queryResult _ => TAG_QUERY_RESULT

/-- The payload of a frame, as far as it can be serialized. -/
def Frame.payload (json : SerdeJson) : Frame → Except String (List UInt8)
  | spawn req => json.spawnRequest.toVec req
  | spawnOk sessionId => json.spawnOkPayload.toVec ⟨sessionId⟩
  | spawnErr message => json.spawnErrPayload.toVec ⟨message⟩
  | stdin bytes | stdout bytes | stderr bytes => .ok bytes
  | stdinClosed | query => .ok []
  | resize size => json.ptySize.toVec size
  | signal sig => json.sessionSignal.toVec sig
  | exit status => json.exitStatus.toVec status
  | queryResult result => json.queryResult.toVec result

/-- `serde_json` reads this value back from what it made of it. -/
def Codec.RoundTrips (codec : Codec T) (value : T) : Prop :=
  ∀ text, codec.toVec value = .ok text → codec.fromSlice text = .ok value

/-- `serde_json` reads the structured payload of the frame back. -/
def Frame.RoundTrips (json : SerdeJson) : Frame → Prop
  | spawn req => json.spawnRequest.RoundTrips req
  | spawnOk sessionId => json.spawnOkPayload.RoundTrips ⟨sessionId⟩
  | spawnErr message => json.spawnErrPayload.RoundTrips ⟨message⟩
  | resize size => json.ptySize.RoundTrips size
  | signal sig => json.sessionSignal.RoundTrips sig
  | exit status => json.exitStatus.RoundTrips status
  | queryResult result => json.queryResult.RoundTrips result
  | _ => True

/-- The payload of the frame is within the limit. -/
def Frame.Fits (json : SerdeJson) (frame : Frame) : Prop :=
  ∃ payload, frame.payload json = .ok payload ∧ payload.length ≤ MAX_FRAME_LEN

/-- What `write_frame` writes of the frame to a vector. -/
def Frame.encoding (json : SerdeJson) (frame : Frame) : List UInt8 :=
  (writeFrame json Sink.vec frame []).2

section Writing

variable {json : SerdeJson} {frame : Frame} {payload : List UInt8}

/-- Every frame is written by the one routine, from its tag and its payload. -/
theorem writeFrame_eq_writeRaw (w : Sink FrameError) (h : frame.payload json = .ok payload) :
    writeFrame json w frame = writeRaw w frame.tag payload := by
  cases frame
  case stdin | stdout | stderr | stdinClosed | query =>
    obtain rfl := Except.ok.inj h
    rfl
  all_goals
    simp only [Frame.payload] at h
    simp only [writeFrame, writeJson, Frame.tag, h]

/-- A payload that fits is written to a vector in full, behind its tag and its length. -/
theorem writeRaw_vec {tag : UInt8} (h : payload.length ≤ MAX_FRAME_LEN) (written : List UInt8) :
    writeRaw Sink.vec tag payload written =
      (.ok (), written ++ ([tag] ++ (bigEndian 4 payload.length ++ payload))) := by
  unfold writeRaw
  rw [if_neg (by omega), bind_ok (Sink.vec_writeAll _ _), bind_ok (Sink.vec_writeAll _ _),
    bind_ok (Sink.vec_writeAll _ _), Sink.vec_flush]
  simp only [List.append_assoc]

/-- A payload that does not fit is refused before anything is written. -/
theorem writeRaw_tooLong {tag : UInt8} (h : MAX_FRAME_LEN < payload.length)
    (w : Sink FrameError) (written : List UInt8) :
    writeRaw w tag payload written = (.error (tooLong payload.length), written) := by
  unfold writeRaw
  rw [if_pos h]
  rfl

theorem writeFrame_vec (h : frame.payload json = .ok payload)
    (hle : payload.length ≤ MAX_FRAME_LEN) (written : List UInt8) :
    writeFrame json Sink.vec frame written =
      (.ok (), written ++ ([frame.tag] ++ (bigEndian 4 payload.length ++ payload))) := by
  rw [writeFrame_eq_writeRaw Sink.vec h, writeRaw_vec hle]

theorem encoding_eq (h : frame.payload json = .ok payload)
    (hle : payload.length ≤ MAX_FRAME_LEN) :
    frame.encoding json = [frame.tag] ++ (bigEndian 4 payload.length ++ payload) := by
  rw [Frame.encoding, writeFrame_vec h hle, List.nil_append]

end Writing

section Reading

/-- What `read_frame` does before it looks at the tag. -/
def readRaw : OnBytes FrameError (List UInt8 × List UInt8) := do
  let tagBuf ← readExact .unexpectedEof 1
  let lenBuf ← readExact .unexpectedEof 4
  if MAX_FRAME_LEN < ofBigEndian lenBuf then
    fail (tooLong (ofBigEndian lenBuf))
  else
    let payload ← readExact .unexpectedEof (ofBigEndian lenBuf)
    return (tagBuf, payload)

variable {json : SerdeJson} {frame : Frame} {payload : List UInt8}

theorem readFrame_eq (json : SerdeJson) :
    readFrame json = readRaw >>= fun raw => frameOf json (raw.1.headD 0) raw.2 := by
  unfold readFrame readRaw
  rw [bind_bind]
  congr 1
  funext tagBuf
  rw [bind_bind]
  congr 1
  funext lenBuf
  by_cases h : MAX_FRAME_LEN < ofBigEndian lenBuf
  · simp only [if_pos h]
    rfl
  · simp only [if_neg h, bind_bind]
    rfl

theorem local_readRaw : Local readRaw := by
  refine (local_exact _ _).bind fun tagBuf => (local_exact _ _).bind fun lenBuf => ?_
  split
  · exact local_fail _
  · exact (local_exact _ _).bind fun payload => local_pure _

/-- The length that is written is the length that is read. -/
theorem ofBigEndian_length (h : payload.length ≤ MAX_FRAME_LEN) :
    ofBigEndian (bigEndian 4 payload.length) = payload.length := by
  have hlt : payload.length < 256 ^ 4 := lt_of_le_of_lt h (by decide)
  rw [ofBigEndian_bigEndian, Nat.mod_eq_of_lt hlt]

theorem reads_readRaw (tag : UInt8) (h : payload.length ≤ MAX_FRAME_LEN) :
    Reads readRaw ([tag] ++ (bigEndian 4 payload.length ++ payload)) ([tag], payload) := by
  have hlen := ofBigEndian_length h
  refine (reads_exact _ [tag]).bind ?_
  have hlength := reads_exact FrameError.unexpectedEof (bigEndian 4 payload.length)
  rw [length_bigEndian] at hlength
  refine hlength.bind ?_
  rw [hlen, if_neg (by omega)]
  have hpayload := (reads_exact FrameError.unexpectedEof payload).bind
    (f := fun payload => pure ([tag], payload)) (reads_pure _)
  rwa [List.append_nil] at hpayload

theorem fromJson_roundTrips {codec : Codec T} {value : T} (h : codec.RoundTrips value)
    {text : List UInt8} (htext : codec.toVec value = .ok text) :
    fromJson codec text = pure value := by
  simp only [fromJson, h text htext]

/-- The tag and the payload of a frame give it back. -/
theorem reads_frameOf (h : frame.RoundTrips json) (hpayload : frame.payload json = .ok payload) :
    Reads (frameOf json frame.tag payload) [] frame := by
  cases frame
  case stdin | stdout | stderr | stdinClosed | query =>
    obtain rfl := Except.ok.inj hpayload
    exact reads_pure _
  all_goals
    intro rest
    simp only [Frame.tag, frameOf, fromJson_roundTrips h hpayload]
    rfl

/-- `read_frame` reads a frame that was written. -/
theorem reads_readFrame (hfits : frame.Fits json) (h : frame.RoundTrips json) :
    Reads (readFrame json) (frame.encoding json) frame := by
  obtain ⟨payload, hpayload, hle⟩ := hfits
  rw [readFrame_eq, encoding_eq hpayload hle]
  have hraw := (reads_readRaw frame.tag hle).bind
    (f := fun raw => frameOf json (raw.1.headD 0) raw.2) (reads_frameOf h hpayload)
  rwa [List.append_nil] at hraw

/-- A frame that is cut short cannot be read. -/
theorem readFrame_strictPrefix (hfits : frame.Fits json) {piece : List UInt8}
    (hpiece : piece <+: frame.encoding json) (hne : piece ≠ frame.encoding json) :
    ∃ e left, readFrame json piece = (.error e, left) := by
  obtain ⟨payload, hpayload, hle⟩ := hfits
  rw [encoding_eq hpayload hle] at hpiece hne
  obtain ⟨e, left, hraw⟩ :=
    local_readRaw.strictPrefix (reads_readRaw frame.tag hle) hpiece hne
  exact ⟨e, left, by rw [readFrame_eq, bind_error hraw]⟩

/-- A header that announces too much is refused before any of the payload is read. -/
theorem readFrame_tooLong (tag : UInt8) {lenBuf : List UInt8} (hlenBuf : lenBuf.length = 4)
    (h : MAX_FRAME_LEN < ofBigEndian lenBuf) (rest : List UInt8) :
    readFrame json ([tag] ++ (lenBuf ++ rest)) = (.error (tooLong (ofBigEndian lenBuf)), rest) := by
  have htag : readExact FrameError.unexpectedEof 1 ([tag] ++ (lenBuf ++ rest)) =
      (.ok [tag], lenBuf ++ rest) := reads_exact _ [tag] _
  have hlen := reads_exact FrameError.unexpectedEof lenBuf rest
  rw [hlenBuf] at hlen
  unfold readFrame
  rw [bind_ok htag, bind_ok hlen]
  simp only [if_pos h]
  rfl

end Reading

/-- The frame codec: what holds of `write_frame` and `read_frame` together. -/
structure SelfDelimiting (json : SerdeJson) : Prop where
  /-- A frame that fits is written in full. -/
  writes : ∀ frame written, Frame.Fits json frame →
    writeFrame json Sink.vec frame written = (.ok (), written ++ frame.encoding json)
  /-- Frames that were written one after the other are read back, and what follows is left. -/
  readsBack : ∀ (frames : List Frame) (rest : List UInt8),
    (∀ frame ∈ frames, frame.Fits json ∧ frame.RoundTrips json) →
    readMany (readFrame json) frames.length (frames.flatMap (Frame.encoding json) ++ rest) =
      (.ok frames, rest)
  /-- A strict prefix of a frame is refused. -/
  refusesPrefix : ∀ frame piece, Frame.Fits json frame → piece <+: frame.encoding json →
    piece ≠ frame.encoding json → ∃ e left, readFrame json piece = (.error e, left)
  /-- A header that announces too much is refused, and the payload is left. -/
  refusesLength : ∀ tag lenBuf rest, lenBuf.length = 4 → MAX_FRAME_LEN < ofBigEndian lenBuf →
    readFrame json ([tag] ++ (lenBuf ++ rest)) = (.error (tooLong (ofBigEndian lenBuf)), rest)
  /-- A payload that is too long is refused, and nothing is written. -/
  refusesPayload : ∀ w frame payload written, Frame.payload json frame = .ok payload →
    MAX_FRAME_LEN < payload.length →
    writeFrame json w frame written = (.error (tooLong payload.length), written)

/-- The frames of the control socket delimit themselves, whatever `serde_json` makes of the
structured payloads, as long as it reads them back. -/
theorem selfDelimiting (json : SerdeJson) : SelfDelimiting json where
  writes frame written hfits := by
    obtain ⟨payload, hpayload, hle⟩ := hfits
    rw [writeFrame_vec hpayload hle, encoding_eq hpayload hle]
  readsBack frames rest h := by
    have hpieces : ∀ piece ∈ frames.map fun frame => (frame.encoding json, frame),
        Reads (readFrame json) piece.1 piece.2 := by
      intro piece hpiece
      obtain ⟨frame, hframe, rfl⟩ := List.mem_map.mp hpiece
      exact reads_readFrame (h frame hframe).1 (h frame hframe).2
    have hmany := reads_many hpieces rest
    simpa [List.flatMap_map, Function.comp_def] using hmany
  refusesPrefix frame piece hfits hpiece hne := readFrame_strictPrefix hfits hpiece hne
  refusesLength tag lenBuf rest hlenBuf h := readFrame_tooLong tag hlenBuf h rest
  refusesPayload w frame payload written hpayload h := by
    rw [writeFrame_eq_writeRaw w hpayload, writeRaw_tooLong h]

/-- A codec that knows one value. -/
def Codec.only [DecidableEq T] (value : T) (text : String) : Codec T where
  toVec v := if v = value then .ok (Utf8.encode text) else .error "unknown value"
  fromSlice bytes := if bytes = Utf8.encode text then .ok value else .error "unknown text"

theorem Codec.roundTrips_only [DecidableEq T] (value : T) (text : String) :
    (Codec.only value text).RoundTrips value := by
  intro bytes h
  obtain rfl : Utf8.encode text = bytes := Except.ok.inj ((if_pos rfl).symm.trans h)
  exact if_pos rfl

/-- What `serde_json` does with the values of one session. -/
def sampleJson : SerdeJson where
  spawnRequest := .only ⟨"zig", [], "/proj", [], none⟩
    "\x7b\"cmd\":\"zig\",\"args\":[],\"cwd\":\"/proj\",\"env\":\x7b\x7d,\"pty\":null\x7d"
  spawnOkPayload := .only ⟨42⟩ "\x7b\"session_id\":42\x7d"
  spawnErrPayload := .only ⟨"no such file"⟩ "\x7b\"message\":\"no such file\"\x7d"
  ptySize := .only ⟨40, 120⟩ "\x7b\"rows\":40,\"cols\":120\x7d"
  sessionSignal := .only .int "\"Int\""
  exitStatus := .only ⟨some 0, none⟩ "\x7b\"code\":0,\"signal\":null\x7d"
  queryResult := .only ⟨3600, []⟩ "\x7b\"uptime_secs\":3600,\"sessions\":[]\x7d"

/-- A session's frames, and two bytes after them. -/
theorem selfDelimiting_session :
    readMany (readFrame sampleJson) 3
      (([.spawnOk 42, .stdout [0, 159, 1, 255], .exit ⟨some 0, none⟩] : List Frame).flatMap
        (Frame.encoding sampleJson) ++ [7, 7]) =
      (.ok [.spawnOk 42, .stdout [0, 159, 1, 255], .exit ⟨some 0, none⟩], [7, 7]) := by
  refine (selfDelimiting sampleJson).readsBack
    [.spawnOk 42, .stdout [0, 159, 1, 255], .exit ⟨some 0, none⟩] [7, 7] ?_
  intro frame hframe
  simp only [List.mem_cons, List.not_mem_nil, or_false] at hframe
  rcases hframe with rfl | rfl | rfl
  · exact ⟨⟨_, rfl, by decide⟩, Codec.roundTrips_only _ _⟩
  · exact ⟨⟨_, rfl, by decide⟩, trivial⟩
  · exact ⟨⟨_, rfl, by decide⟩, Codec.roundTrips_only _ _⟩

end Devcroft.Keeper
