import Devcroft.Library.Utf8

/-!
# Buffered reading of a byte source

A source answers `read` calls one at a time; how its bytes are cut into reads is
up to the environment. A buffered reader takes one read at a time into its buffer
and hands out delimited pieces. The results below say which piece it hands out, a
function of the bytes alone, and which bytes it is left holding, which depends on
where the reads were cut.
-/

namespace Buffered

/-- The size of the reader's buffer, the most that one `read` returns. -/
def bufferSize : ℕ := 8192

/-- What one successful `read` returned. -/
structure Chunk where
  /-- The bytes read. -/
  bytes : List UInt8
  /-- A read of no bytes is the end of the source, not a chunk. -/
  nonempty : bytes ≠ []
  /-- No read returns more than the buffer holds. -/
  bounded : bytes.length ≤ bufferSize
  deriving DecidableEq

/-- What a `read` returns once no bytes are left. -/
inductive Ending where
  /-- A clean end: `read` returns zero bytes. -/
  | eof
  /-- `read` fails with this `errno`. -/
  | failed (errno : ℕ)
  deriving DecidableEq

/-- A byte source, given by the reads that it answers in order. -/
structure Source where
  /-- The reads that return bytes. -/
  chunks : List Chunk
  /-- What every later read returns. -/
  ending : Ending
  deriving DecidableEq

/-- The bytes of a sequence of reads. -/
def flat (chunks : List Chunk) : List UInt8 := chunks.flatMap Chunk.bytes

@[simp] theorem flat_nil : flat [] = [] := rfl

@[simp] theorem flat_cons (c : Chunk) (cs : List Chunk) : flat (c :: cs) = c.bytes ++ flat cs := rfl

@[simp] theorem flat_append (cs ds : List Chunk) : flat (cs ++ ds) = flat cs ++ flat ds := by
  simp [flat]

/-- All bytes that a source gives. -/
def Source.bytes (s : Source) : List UInt8 := flat s.chunks

/-- `BufReader`: bytes already read from the source and not yet handed out, and the source. -/
structure Reader where
  /-- Bytes read ahead. -/
  buffer : List UInt8
  /-- The source behind the buffer. -/
  source : Source
  deriving DecidableEq

/-- `BufReader::new`. -/
def Reader.new (s : Source) : Reader := ⟨[], s⟩

/-- All bytes a reader has still to hand out. -/
def Reader.bytes (r : Reader) : List UInt8 := r.buffer ++ r.source.bytes

/-- The piece up to and with the first delimiter, if there is one. -/
def upTo (delim : UInt8) : List UInt8 → Option (List UInt8)
  | [] => none
  | b :: bs => if b = delim then some [b] else (upTo delim bs).map (b :: ·)

/-- The piece that a delimited read of at most `limit` bytes hands out. -/
def piece (delim : UInt8) (limit : ℕ) (bytes : List UInt8) : List UInt8 :=
  (upTo delim (bytes.take limit)).getD (bytes.take limit)

/-- `reader.take(limit).read_until(delim)`: serve from the buffer, refill it with the next read
when it runs out before the delimiter and before the limit. -/
def readUntil (delim : UInt8) (ending : Ending) (chunks : List Chunk) (limit : ℕ)
    (buffer : List UInt8) : Except ℕ (List UInt8 × Reader) :=
  match upTo delim (buffer.take limit) with
  | some line => .ok (line, ⟨buffer.drop line.length, ⟨chunks, ending⟩⟩)
  | none =>
    if limit ≤ buffer.length then .ok (buffer.take limit, ⟨buffer.drop limit, ⟨chunks, ending⟩⟩)
    else
      match chunks with
      | [] =>
        match ending with
        | .eof => .ok (buffer, ⟨[], ⟨[], ending⟩⟩)
        | .failed errno => .error errno
      | c :: cs =>
        match readUntil delim ending cs (limit - buffer.length) c.bytes with
        | .ok (rest, r) => .ok (buffer ++ rest, r)
        | .error errno => .error errno

/-- `reader.take(limit).read_until(delim)` on a reader. -/
def Reader.readUntil (r : Reader) (delim : UInt8) (limit : ℕ) :
    Except ℕ (List UInt8 × Reader) :=
  Buffered.readUntil delim r.source.ending r.source.chunks limit r.buffer

/-- The piece up to a delimiter is a nonempty prefix. -/
theorem upTo_isPrefix {delim : UInt8} {bytes line : List UInt8} (h : upTo delim bytes = some line) :
    line ≠ [] ∧ line <+: bytes := by
  induction bytes generalizing line with
  | nil => cases h
  | cons b bs ih =>
    unfold upTo at h
    split at h
    · obtain rfl := Option.some.inj h
      exact ⟨by simp, bs, rfl⟩
    · obtain ⟨tail, htail, rfl⟩ := Option.map_eq_some_iff.mp h
      exact ⟨by simp, List.cons_prefix_cons.mpr ⟨rfl, (ih htail).2⟩⟩

/-- A delimiter that is found stays found when more bytes follow. -/
theorem upTo_append_of_some {delim : UInt8} {bytes line : List UInt8}
    (h : upTo delim bytes = some line) (more : List UInt8) :
    upTo delim (bytes ++ more) = some line := by
  induction bytes generalizing line with
  | nil => cases h
  | cons b bs ih =>
    unfold upTo at h
    rw [List.cons_append, upTo]
    split at h
    · next hb => rw [if_pos hb, h]
    · next hb =>
      obtain ⟨tail, htail, rfl⟩ := Option.map_eq_some_iff.mp h
      rw [if_neg hb, ih htail, Option.map_some]

/-- The piece up to a delimiter is its own. -/
theorem upTo_self {delim : UInt8} {bytes line : List UInt8} (h : upTo delim bytes = some line) :
    upTo delim line = some line := by
  induction bytes generalizing line with
  | nil => cases h
  | cons b bs ih =>
    unfold upTo at h
    split at h
    · next hb =>
      obtain rfl := Option.some.inj h
      rw [upTo, if_pos hb]
    · next hb =>
      obtain ⟨tail, htail, rfl⟩ := Option.map_eq_some_iff.mp h
      rw [upTo, if_neg hb, ih htail, Option.map_some]

/-- Bytes without the delimiter are passed over. -/
theorem upTo_append_of_none {delim : UInt8} {bytes : List UInt8} (h : upTo delim bytes = none)
    (more : List UInt8) : upTo delim (bytes ++ more) = (upTo delim more).map (bytes ++ ·) := by
  induction bytes with
  | nil => simp
  | cons b bs ih =>
    unfold upTo at h
    split at h
    · cases h
    · next hb =>
      rw [List.cons_append, upTo, if_neg hb, ih (Option.map_eq_none_iff.mp h), Option.map_map]
      rfl

/-- The piece up to a delimiter has the delimiter nowhere but at its end. -/
theorem not_mem_dropLast_of_upTo {delim : UInt8} {bytes line : List UInt8}
    (h : upTo delim bytes = some line) : delim ∉ line.dropLast := by
  induction bytes generalizing line with
  | nil => cases h
  | cons b bs ih =>
    unfold upTo at h
    split at h
    · obtain rfl := Option.some.inj h
      simp
    · next hb =>
      obtain ⟨tail, htail, rfl⟩ := Option.map_eq_some_iff.mp h
      have hne := (upTo_isPrefix htail).1
      rw [List.dropLast_cons_of_ne_nil hne, List.mem_cons, not_or]
      exact ⟨fun he => hb he.symm, ih htail⟩

/-- Without a delimiter up to it, a byte list does not contain it. -/
theorem not_mem_of_upTo_eq_none {delim : UInt8} {bytes : List UInt8}
    (h : upTo delim bytes = none) : delim ∉ bytes := by
  induction bytes with
  | nil => simp
  | cons b bs ih =>
    unfold upTo at h
    split at h
    · cases h
    · next hb =>
      rw [List.mem_cons, not_or]
      exact ⟨fun he => hb he.symm, ih (Option.map_eq_none_iff.mp h)⟩

/-- A piece has the delimiter nowhere but at its end. -/
theorem not_mem_dropLast_piece (delim : UInt8) (limit : ℕ) (bytes : List UInt8) :
    delim ∉ (piece delim limit bytes).dropLast := by
  unfold piece
  cases h : upTo delim (bytes.take limit) with
  | none => exact fun hm => not_mem_of_upTo_eq_none h (List.dropLast_subset _ hm)
  | some line => exact not_mem_dropLast_of_upTo h

/-- A piece is a prefix of the bytes and within the limit. -/
theorem piece_isPrefix (delim : UInt8) (limit : ℕ) (bytes : List UInt8) :
    piece delim limit bytes <+: bytes.take limit := by
  unfold piece
  cases h : upTo delim (bytes.take limit) with
  | none => exact List.prefix_rfl
  | some line => exact (upTo_isPrefix h).2

/-- A piece is never longer than the limit. -/
theorem piece_length_le (delim : UInt8) (limit : ℕ) (bytes : List UInt8) :
    (piece delim limit bytes).length ≤ limit :=
  Nat.le_trans (piece_isPrefix delim limit bytes).length_le (List.length_take_le _ _)

/-- A nonempty piece is found wherever there are bytes and room for one. -/
theorem piece_ne_nil {delim : UInt8} {limit : ℕ} {bytes : List UInt8} (hlimit : 0 < limit)
    (hbytes : bytes ≠ []) : piece delim limit bytes ≠ [] := by
  unfold piece
  cases h : upTo delim (bytes.take limit) with
  | none => simp [hbytes]; omega
  | some line => exact (upTo_isPrefix h).1

/-- A piece that runs past the bytes at hand is those bytes and the piece of what follows. -/
theorem piece_append {delim : UInt8} {limit : ℕ} {bytes : List UInt8}
    (hnone : upTo delim bytes = none) (hlimit : bytes.length < limit) (more : List UInt8) :
    piece delim limit (bytes ++ more) = bytes ++ piece delim (limit - bytes.length) more := by
  have htake : bytes.take limit = bytes := List.take_of_length_le (by omega)
  rw [piece, piece, List.take_append, htake, upTo_append_of_none hnone]
  cases upTo delim (more.take (limit - bytes.length)) <;> simp

/-- The three ways a delimited read succeeds: from the buffer alone, with the buffer as the last
piece of an ended source, or by taking the whole buffer and going on with the next read. -/
theorem readUntil_cases {delim : UInt8} {ending : Ending} {chunks : List Chunk} {limit : ℕ}
    {buffer line : List UInt8} {r : Reader}
    (h : readUntil delim ending chunks limit buffer = .ok (line, r)) :
    (r = ⟨buffer.drop line.length, ⟨chunks, ending⟩⟩ ∧ line <+: buffer ∧
      ∀ more, piece delim limit (buffer ++ more) = line) ∨
    (chunks = [] ∧ line = buffer ∧ r = ⟨[], ⟨[], ending⟩⟩ ∧ upTo delim buffer = none ∧
      buffer.length < limit) ∨
    (∃ c cs rest, chunks = c :: cs ∧ upTo delim buffer = none ∧ buffer.length < limit ∧
      line = buffer ++ rest ∧
      readUntil delim ending cs (limit - buffer.length) c.bytes = .ok (rest, r)) := by
  unfold readUntil at h
  cases hup : upTo delim (buffer.take limit) with
  | some found =>
    simp only [hup, Except.ok.injEq, Prod.mk.injEq] at h
    obtain ⟨rfl, rfl⟩ := h
    refine Or.inl ⟨rfl, (upTo_isPrefix hup).2.trans (List.take_prefix _ _), fun more => ?_⟩
    rw [piece, List.take_append, upTo_append_of_some hup, Option.getD_some]
  | none =>
    simp only [hup] at h
    split at h
    · next hlimit =>
      simp only [Except.ok.injEq, Prod.mk.injEq] at h
      obtain ⟨rfl, rfl⟩ := h
      refine Or.inl ⟨by rw [List.length_take_of_le hlimit], List.take_prefix _ _, fun more => ?_⟩
      rw [piece, List.take_append_of_le_length hlimit, hup, Option.getD_none]
    · next hlimit =>
      rw [List.take_of_length_le (by omega)] at hup
      cases chunks with
      | nil =>
        cases ending with
        | eof =>
          simp only [Except.ok.injEq, Prod.mk.injEq] at h
          exact Or.inr (Or.inl ⟨rfl, h.1.symm, h.2.symm, hup, by omega⟩)
        | failed errno => simp at h
      | cons c cs =>
        cases hrec : readUntil delim ending cs (limit - buffer.length) c.bytes with
        | error errno => simp [hrec] at h
        | ok out =>
          simp only [hrec, Except.ok.injEq, Prod.mk.injEq] at h
          exact Or.inr (Or.inr ⟨c, cs, out.1, rfl, hup, by omega, h.1.symm, by rw [hrec, ← h.2]⟩)

/-- A delimited read hands out the piece of all bytes ahead, however they are cut into reads, and
takes nothing else from them. -/
theorem readUntil_eq_piece {delim : UInt8} {ending : Ending} {chunks : List Chunk} {limit : ℕ}
    {buffer line : List UInt8} {r : Reader}
    (h : readUntil delim ending chunks limit buffer = .ok (line, r)) :
    line = piece delim limit (buffer ++ flat chunks) ∧ line ++ r.bytes = buffer ++ flat chunks := by
  induction chunks generalizing limit buffer line with
  | nil =>
    rcases readUntil_cases h with ⟨rfl, ⟨tail, rfl⟩, hpiece⟩ | ⟨-, rfl, rfl, hup, hlimit⟩ |
      ⟨c, cs, rest, hnil, -⟩
    · exact ⟨(hpiece _).symm, by simp [Reader.bytes, Source.bytes]⟩
    · refine ⟨?_, by simp [Reader.bytes, Source.bytes]⟩
      rw [flat_nil, piece_append hup hlimit]
      simp [piece, upTo]
    · cases hnil
  | cons c cs ih =>
    rcases readUntil_cases h with ⟨rfl, ⟨tail, rfl⟩, hpiece⟩ | ⟨hnil, -⟩ |
      ⟨c', cs', rest, hcons, hup, hlimit, rfl, hrec⟩
    · exact ⟨(hpiece _).symm, by simp [Reader.bytes, Source.bytes]⟩
    · cases hnil
    · obtain ⟨rfl, rfl⟩ := List.cons.inj hcons
      obtain ⟨hpiece, hbytes⟩ := ih hrec
      rw [flat_cons, List.append_assoc, hbytes, hpiece, piece_append hup hlimit]
      exact ⟨rfl, rfl⟩

/-- A delimited read fails only for want of bytes. -/
theorem readUntil_isOk (delim : UInt8) (ending : Ending) {chunks : List Chunk} {limit : ℕ}
    {buffer : List UInt8} (h : limit ≤ (buffer ++ flat chunks).length) :
    ∃ line r, readUntil delim ending chunks limit buffer = .ok (line, r) := by
  induction chunks generalizing limit buffer with
  | nil =>
    rw [flat_nil, List.append_nil] at h
    unfold readUntil
    split
    · exact ⟨_, _, rfl⟩
    · rw [if_pos h]
      exact ⟨_, _, rfl⟩
  | cons c cs ih =>
    rw [flat_cons, List.length_append] at h
    unfold readUntil
    split
    · exact ⟨_, _, rfl⟩
    · split
      · exact ⟨_, _, rfl⟩
      · have hrest : limit - buffer.length ≤ (c.bytes ++ flat cs).length := by omega
        obtain ⟨line, r, hread⟩ := ih hrest
        simp only [hread]
        exact ⟨_, _, rfl⟩

/-- A delimited read hands out less than it may, and no delimiter, only at a clean end. -/
theorem readUntil_eof {delim : UInt8} {ending : Ending} {chunks : List Chunk} {limit : ℕ}
    {buffer line : List UInt8} {r : Reader}
    (h : readUntil delim ending chunks limit buffer = .ok (line, r)) (hshort : line.length < limit)
    (hline : upTo delim line = none) : ending = .eof ∧ r.bytes = [] := by
  induction chunks generalizing limit buffer line with
  | nil =>
    unfold readUntil at h
    split at h
    · next found hfound =>
      obtain ⟨rfl, -⟩ := Prod.mk.inj (Except.ok.inj h)
      rw [upTo_self hfound] at hline
      cases hline
    · split at h
      · next hlimit =>
        obtain ⟨rfl, -⟩ := Prod.mk.inj (Except.ok.inj h)
        rw [List.length_take_of_le hlimit] at hshort
        omega
      · cases ending with
        | eof =>
          obtain ⟨-, rfl⟩ := Prod.mk.inj (Except.ok.inj h)
          exact ⟨rfl, rfl⟩
        | failed errno => cases h
  | cons c cs ih =>
    unfold readUntil at h
    split at h
    · next found hfound =>
      obtain ⟨rfl, -⟩ := Prod.mk.inj (Except.ok.inj h)
      rw [upTo_self hfound] at hline
      cases hline
    · next hnone =>
      split at h
      · next hlimit =>
        obtain ⟨rfl, -⟩ := Prod.mk.inj (Except.ok.inj h)
        rw [List.length_take_of_le hlimit] at hshort
        omega
      · next hlimit =>
        cases hrec : readUntil delim ending cs (limit - buffer.length) c.bytes with
        | error errno =>
          simp only [hrec] at h
          cases h
        | ok result =>
          obtain ⟨rest, r'⟩ := result
          simp only [hrec] at h
          obtain ⟨rfl, rfl⟩ := Prod.mk.inj (Except.ok.inj h)
          rw [List.take_of_length_le (by omega)] at hnone
          rw [upTo_append_of_none hnone] at hline
          rw [List.length_append] at hshort
          exact ih hrec (by omega) (Option.map_eq_none_iff.mp hline)

/-- Where a delimited read leaves the reader: still in the bytes it had buffered, or inside a later
read of which it handed out at least one byte. -/
theorem readUntil_position {delim : UInt8} {ending : Ending} {chunks : List Chunk} {limit : ℕ}
    {buffer line : List UInt8} {r : Reader}
    (h : readUntil delim ending chunks limit buffer = .ok (line, r)) :
    (r.source.chunks = chunks ∧ buffer = line ++ r.buffer) ∨
    ∃ before c, chunks = before ++ c :: r.source.chunks ∧
      (buffer ++ flat before).length < line.length ∧
      buffer ++ flat before ++ c.bytes = line ++ r.buffer := by
  induction chunks generalizing limit buffer line with
  | nil =>
    rcases readUntil_cases h with ⟨rfl, ⟨tail, rfl⟩, -⟩ | ⟨-, rfl, rfl, -⟩ | ⟨c, cs, rest, hnil, -⟩
    · exact Or.inl ⟨rfl, by simp⟩
    · exact Or.inl ⟨rfl, by simp⟩
    · cases hnil
  | cons c cs ih =>
    rcases readUntil_cases h with ⟨rfl, ⟨tail, rfl⟩, -⟩ | ⟨hnil, -⟩ |
      ⟨c', cs', rest, hcons, hup, hlimit, rfl, hrec⟩
    · exact Or.inl ⟨rfl, by simp⟩
    · cases hnil
    · obtain ⟨rfl, rfl⟩ := List.cons.inj hcons
      have hrest : rest ≠ [] := by
        rw [(readUntil_eq_piece hrec).1]
        exact piece_ne_nil (by omega) (by simp [c.nonempty])
      right
      rcases ih hrec with ⟨hsource, hbuffer⟩ | ⟨before, d, hchunks, hlength, hbuffer⟩
      · refine ⟨[], c, by rw [hsource]; rfl, ?_, by simp [hbuffer]⟩
        simpa using List.length_pos_iff.mpr hrest
      · refine ⟨c :: before, d, by rw [hchunks]; rfl, ?_, ?_⟩
        · simp only [flat_cons, List.length_append] at hlength ⊢
          omega
        · simpa [List.append_assoc] using congrArg (buffer ++ ·) hbuffer

/-- A reader that has handed out `taken` of a source: it stands before the first read, or inside
the last read that it made, of which it has handed out at least one byte. -/
def Reader.At (start : Source) (taken : List UInt8) (r : Reader) : Prop :=
  r.source.ending = start.ending ∧
  ((taken = [] ∧ r.buffer = [] ∧ r.source.chunks = start.chunks) ∨
    ∃ before c, start.chunks = before ++ c :: r.source.chunks ∧
      (flat before).length < taken.length ∧ flat before ++ c.bytes = taken ++ r.buffer)

/-- A new reader has handed out nothing. -/
theorem Reader.at_new (s : Source) : (Reader.new s).At s [] := ⟨rfl, Or.inl ⟨rfl, rfl, rfl⟩⟩

/-- A delimited read does not change how the source ends. -/
theorem readUntil_ending {delim : UInt8} {ending : Ending} {chunks : List Chunk} {limit : ℕ}
    {buffer line : List UInt8} {r : Reader}
    (h : readUntil delim ending chunks limit buffer = .ok (line, r)) :
    r.source.ending = ending := by
  induction chunks generalizing limit buffer line with
  | nil =>
    rcases readUntil_cases h with ⟨rfl, -⟩ | ⟨-, -, rfl, -⟩ | ⟨c, cs, rest, hnil, -⟩
    · rfl
    · rfl
    · cases hnil
  | cons c cs ih =>
    rcases readUntil_cases h with ⟨rfl, -⟩ | ⟨hnil, -⟩ | ⟨c', cs', rest, hcons, -, -, -, hrec⟩
    · rfl
    · cases hnil
    · obtain ⟨rfl, rfl⟩ := List.cons.inj hcons
      exact ih hrec

/-- A delimited read moves the position of the reader by the piece it hands out. -/
theorem Reader.At.readUntil {start : Source} {taken line : List UInt8} {r r' : Reader}
    {delim : UInt8} {limit : ℕ} (hat : r.At start taken)
    (h : r.readUntil delim limit = .ok (line, r')) : r'.At start (taken ++ line) := by
  obtain ⟨hending, hplace⟩ := hat
  refine ⟨(readUntil_ending h).trans hending, ?_⟩
  rcases readUntil_position h with ⟨hsource, hbuffer⟩ | ⟨before, c, hchunks, hlength, hbuffer⟩
  · rcases hplace with ⟨htaken, hempty, hstart⟩ | ⟨before, c, hstart, hlength, hbytes⟩
    · rw [hempty] at hbuffer
      obtain ⟨hline, hbuf⟩ := List.append_eq_nil_iff.mp hbuffer.symm
      exact Or.inl ⟨by simp [htaken, hline], hbuf, hsource.trans hstart⟩
    · refine Or.inr ⟨before, c, by rw [hsource]; exact hstart, ?_, ?_⟩
      · rw [List.length_append]
        omega
      · rw [hbytes, hbuffer, List.append_assoc]
  · right
    rcases hplace with ⟨htaken, hempty, hstart⟩ | ⟨before₀, c₀, hstart, hlength₀, hbytes⟩
    · refine ⟨before, c, by rw [← hstart, hchunks], ?_, ?_⟩
      · simpa [htaken, hempty] using hlength
      · simpa [htaken, hempty] using hbuffer
    · refine ⟨before₀ ++ c₀ :: before, c, by rw [hstart, hchunks]; simp, ?_, ?_⟩
      · have hlen := congrArg List.length hbytes
        simp only [flat_append, flat_cons, List.length_append] at hlen hlength ⊢
        omega
      · calc flat (before₀ ++ c₀ :: before) ++ c.bytes
            = (flat before₀ ++ c₀.bytes) ++ (flat before ++ c.bytes) := by simp
          _ = taken ++ (r.buffer ++ flat before ++ c.bytes) := by rw [hbytes]; simp
          _ = taken ++ line ++ r'.buffer := by rw [hbuffer, List.append_assoc]

/-- What a reader handed out and what it still has are together all bytes of the source. -/
theorem Reader.At.bytes {start : Source} {taken : List UInt8} {r : Reader}
    (h : r.At start taken) : taken ++ r.bytes = start.bytes := by
  obtain ⟨-, ⟨rfl, hempty, hstart⟩ | ⟨before, c, hstart, -, hbytes⟩⟩ := h
  · simp [Reader.bytes, Source.bytes, hempty, hstart]
  · rw [Reader.bytes, ← List.append_assoc, ← hbytes, Source.bytes, Source.bytes, hstart]
    simp

/-- A position in the bytes of a source at which one of its reads ends. -/
def Source.EndsReadAt (s : Source) (n : ℕ) : Prop := ∃ k, (flat (s.chunks.take k)).length = n

/-- A reader holds no bytes back exactly when what it handed out ends where a read ended. -/
theorem Reader.At.buffer_eq_nil_iff {start : Source} {taken : List UInt8} {r : Reader}
    (h : r.At start taken) : r.buffer = [] ↔ start.EndsReadAt taken.length := by
  obtain ⟨-, ⟨rfl, hempty, -⟩ | ⟨before, c, hstart, hlength, hbytes⟩⟩ := h
  · exact ⟨fun _ => ⟨0, rfl⟩, fun _ => hempty⟩
  · have hlen := congrArg List.length hbytes
    simp only [List.length_append] at hlen
    constructor
    · intro hnil
      refine ⟨(before ++ [c]).length, ?_⟩
      have hsplit : start.chunks = (before ++ [c]) ++ r.source.chunks := by simp [hstart]
      rw [hsplit, List.take_left]
      simpa [hnil] using hlen
    · rintro ⟨k, hk⟩
      -- A prefix of the reads is at most `before` or at least `before` and `c`.
      rw [hstart, List.take_append] at hk
      rcases Nat.lt_or_ge before.length k with hlt | hge
      · obtain ⟨j, hj⟩ := Nat.exists_eq_add_of_lt hlt
        rw [show k - before.length = j + 1 by omega, List.take_of_length_le (by omega)] at hk
        simp only [List.take_succ_cons, flat_append, flat_cons, List.length_append] at hk
        exact List.length_eq_zero_iff.mp (by omega)
      · rw [show k - before.length = 0 by omega, List.take_zero, List.append_nil] at hk
        have hle : (flat (before.take k)).length ≤ (flat before).length := by
          have hcut := congrArg (fun cs => (flat cs).length) (List.take_append_drop k before)
          simp only [flat_append, List.length_append] at hcut
          omega
        omega

/-- What a delimited read hands out, and all that is left of the bytes. -/
def handedOut (result : Except ℕ (List UInt8 × Reader)) : Except ℕ (List UInt8 × List UInt8) :=
  result.map fun p => (p.1, p.2.bytes)

/-- A delimited read passes over bytes without the delimiter. -/
theorem handedOut_readUntil_append {delim : UInt8} (ending : Ending) {limit : ℕ}
    {bytes : List UInt8} (hnone : upTo delim bytes = none) (hlimit : bytes.length < limit)
    (more : List UInt8) :
    handedOut (readUntil delim ending [] limit (bytes ++ more)) =
      (handedOut (readUntil delim ending [] (limit - bytes.length) more)).map fun p =>
        (bytes ++ p.1, p.2) := by
  have htake : bytes.take limit = bytes := List.take_of_length_le (by omega)
  unfold readUntil
  rw [List.take_append, htake, upTo_append_of_none hnone]
  cases hmore : upTo delim (more.take (limit - bytes.length)) with
  | some line =>
    simp [handedOut, Except.map, Reader.bytes, Source.bytes, List.drop_append]
  | none =>
    simp only [Option.map_none, List.length_append]
    by_cases hle : limit ≤ bytes.length + more.length
    · rw [if_pos hle, if_pos (by omega)]
      have hdrop : bytes.drop limit = [] := List.drop_of_length_le (by omega)
      simp [handedOut, Except.map, Reader.bytes, Source.bytes, List.drop_append, hdrop]
    · rw [if_neg hle, if_neg (by omega)]
      cases ending with
      | eof => simp [handedOut, Except.map, Reader.bytes, Source.bytes]
      | failed errno => rfl

/-- A delimited read depends on the bytes ahead and on how the source ends, not on the reads in
which they come. -/
theorem handedOut_readUntil (delim : UInt8) (ending : Ending) (chunks : List Chunk) (limit : ℕ)
    (buffer : List UInt8) :
    handedOut (readUntil delim ending chunks limit buffer) =
      handedOut (readUntil delim ending [] limit (buffer ++ flat chunks)) := by
  induction chunks generalizing limit buffer with
  | nil => rw [flat_nil, List.append_nil]
  | cons c cs ih =>
    rw [readUntil]
    split
    · next line hline =>
      have htake : upTo delim ((buffer ++ flat (c :: cs)).take limit) = some line := by
        rw [List.take_append]
        exact upTo_append_of_some hline _
      have hle := (upTo_isPrefix hline).2.length_le
      rw [readUntil.eq_def delim ending [], htake]
      have hlength : line.length ≤ buffer.length := by
        rw [List.length_take] at hle
        omega
      simp [handedOut, Except.map, Reader.bytes, Source.bytes,
        List.drop_append_of_le_length hlength]
    · next hnone =>
      split
      · next hlimit =>
        rw [readUntil.eq_def delim ending [], List.take_append_of_le_length hlimit, hnone]
        dsimp only
        rw [if_pos (by rw [List.length_append]; omega)]
        simp [handedOut, Except.map, Reader.bytes, Source.bytes,
          List.drop_append_of_le_length hlimit]
      · next hlimit =>
        rw [List.take_of_length_le (by omega)] at hnone
        rw [flat_cons, handedOut_readUntil_append ending hnone (by omega), ← ih]
        cases readUntil delim ending cs (limit - buffer.length) c.bytes <;> rfl

end Buffered
