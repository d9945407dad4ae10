import Devcroft.Proxy.Forwarding

/-!
# The head of a request stream

Reading the head of a request is bounded and exact: never more than the size limit is
read of a client's bytes, however many lines it sends, and what is read of a request
that is accepted is its head, to the first blank line.
-/

namespace Devcroft.Proxy

open Buffered

/-- The head of a stream has an end: the stream has one, or nothing that follows belongs to it. -/
def HeadEnds (bytes : List UInt8) (ending : Ending) : Prop :=
  ending = .eof ∨ ∀ more, headerLines (bytes ++ more) = headerLines bytes

/-- A line that was read, and what is still ahead, are the bytes that were ahead. -/
theorem readCappedLine_bytes {strerror : ℕ → String} {reader : Reader} {budget : ℕ}
    {line : CappedLine} (h : readCappedLine strerror reader budget = .ok line) :
    Utf8.encode line.out ++ line.reader.bytes = reader.bytes ∧
    line.reader.source.ending = reader.source.ending := by
  obtain ⟨-, hread, -⟩ := readCappedLine_spec h
  exact ⟨(readUntil_eq_piece hread).2, readUntil_ending hread⟩

/-- A line that was read has an end: its newline, or the end of the stream. -/
theorem readCappedLine_ends {strerror : ℕ → String} {reader : Reader} {budget : ℕ}
    {line : CappedLine} (h : readCappedLine strerror reader budget = .ok line) :
    reader.source.ending = .eof ∨
    ∀ more, lineOf (reader.bytes ++ more) = lineOf reader.bytes := by
  rcases readCappedLine_cases h with hup | ⟨-, -, heof⟩
  · right
    intro more
    rw [lineOf_eq, lineOf_eq, upTo_append_of_some hup more, hup]
    rfl
  · exact Or.inl heof

/-- Where the lines of a head end. -/
theorem headerLines_of_stop {bytes : List UInt8}
    (h : lineOf bytes = [] ∨ isBlank (lineOf bytes) = true) : headerLines bytes = lineOf bytes := by
  rw [headerLines, if_pos h]

/-- Where they go on. -/
theorem headerLines_of_go {bytes : List UInt8}
    (h : ¬(lineOf bytes = [] ∨ isBlank (lineOf bytes) = true)) :
    headerLines bytes = lineOf bytes ++ headerLines (bytes.drop (lineOf bytes).length) := by
  rw [headerLines, if_neg h]

/-- A head that stops after its first line ends where that does. -/
theorem HeadEnds.of_stop {bytes : List UInt8} {ending : Ending}
    (hstop : lineOf bytes = [] ∨ isBlank (lineOf bytes) = true)
    (hline : ending = .eof ∨ ∀ more, lineOf (bytes ++ more) = lineOf bytes) :
    HeadEnds bytes ending := by
  rcases hline with heof | hline
  · exact Or.inl heof
  · right
    intro more
    rw [headerLines_of_stop hstop, headerLines_of_stop (by rw [hline]; exact hstop), hline]

/-- A head that goes on after its first line ends where the rest of it does. -/
theorem HeadEnds.cons {bytes : List UInt8} {ending : Ending}
    (hgo : ¬(lineOf bytes = [] ∨ isBlank (lineOf bytes) = true))
    (hline : ending = .eof ∨ ∀ more, lineOf (bytes ++ more) = lineOf bytes)
    (h : HeadEnds (bytes.drop (lineOf bytes).length) ending) : HeadEnds bytes ending := by
  rcases hline with heof | hline
  · exact Or.inl heof
  · rcases h with heof | hrest
    · exact Or.inl heof
    · right
      intro more
      have hle := (lineOf_isPrefix bytes).length_le
      rw [headerLines_of_go hgo, headerLines_of_go (by rw [hline]; exact hgo), hline,
        List.drop_append_of_le_length hle, hrest]

/-- The header loop stops after the head of the bytes ahead, and within its budget. -/
theorem readHeaders_ends {strerror : ℕ → String} {reader reader' : Reader} {budget : ℕ}
    {head head' : Head} (h : readHeaders strerror reader budget head = .ok (head', reader')) :
    (headerLines reader.bytes).length ≤ budget ∧ HeadEnds reader.bytes reader.source.ending := by
  fun_induction readHeaders strerror reader budget head with
  | case1 reader budget head e hread => cases h
  | case2 reader budget head line hread hend =>
    obtain ⟨-, -, hn, hle, -, -⟩ := readCappedLine_spec hread
    obtain ⟨hline, -⟩ := readCappedLine_eq_lineOf hread
    have hstop := (readCappedLine_stops_iff hread).mp hend
    refine ⟨?_, HeadEnds.of_stop hstop (readCappedLine_ends hread)⟩
    rw [headerLines_of_stop hstop, ← hline]
    omega
  | case3 reader budget head line hread hend ih =>
    obtain ⟨hpos, -, hn, hle, hbudget, -⟩ := readCappedLine_spec hread
    obtain ⟨hline, hrest⟩ := readCappedLine_eq_lineOf hread
    obtain ⟨-, hending⟩ := readCappedLine_bytes hread
    have hgo := mt (readCappedLine_stops_iff hread).mpr hend
    obtain ⟨hlength, hends⟩ := ih h
    rw [hrest] at hlength hends
    rw [hending] at hends
    constructor
    · rw [headerLines_of_go hgo, List.length_append, ← hline]
      rw [← hline] at hlength
      omega
    · exact HeadEnds.cons hgo (readCappedLine_ends hread) hends

/-- A request whose target is not missing does not begin with a blank line. -/
theorem isBlank_of_splitn {text method targetStr : String} {rest : List String}
    (h : Text.splitn ' ' 3 (Text.trimEnd text) = method :: targetStr :: rest) :
    isBlank (Utf8.encode text) = false := by
  rw [isBlank, Utf8.decode_encode]
  refine decide_eq_false fun hempty => ?_
  rw [hempty, show Text.splitn ' ' 3 "" = [""] by decide] at h
  cases h

/-- The first line of an accepted request does not end its head. -/
theorem first_goes_on {strerror : ℕ → String} {client : Client} {line : CappedLine}
    {method targetStr : String} {rest : List String}
    (hline : readCappedLine strerror (Reader.new client.source) MAX_HEADER_BYTES = .ok line)
    (hne : line.n ≠ 0)
    (hpieces : Text.splitn ' ' 3 (Text.trimEnd line.out) = method :: targetStr :: rest) :
    ¬(lineOf client.source.bytes = [] ∨ isBlank (lineOf client.source.bytes) = true) := by
  obtain ⟨-, -, hn, -⟩ := readCappedLine_spec hline
  have hfirst : Utf8.encode line.out = lineOf client.source.bytes :=
    (readCappedLine_eq_lineOf hline).1
  rw [← hfirst, isBlank_of_splitn hpieces, ← List.length_eq_zero_iff, ← hn]
  simpa using hne

/-- A stream from which a request is read, or nothing, has a head that ends within the limit. -/
theorem readTarget_ends {strerror : ℕ → String} {client : Client}
    {result : Option (Target × Reader)} (h : readTarget strerror client = .ok result) :
    (headerLines client.source.bytes).length ≤ MAX_HEADER_BYTES ∧
    HeadEnds client.source.bytes client.source.ending := by
  cases result with
  | none =>
    obtain ⟨line, hline, hzero⟩ := readTarget_eq_none h
    obtain ⟨-, -, hn, -⟩ := readCappedLine_spec hline
    obtain ⟨hfirst, -⟩ := readCappedLine_eq_lineOf hline
    change _ = lineOf client.source.bytes at hfirst
    have hnil : lineOf client.source.bytes = [] := by
      rw [← hfirst, ← List.length_eq_zero_iff, ← hn, hzero]
    refine ⟨?_, HeadEnds.of_stop (Or.inl hnil) (readCappedLine_ends hline)⟩
    rw [headerLines_of_stop (Or.inl hnil), hnil]
    exact Nat.zero_le _
  | some result =>
    obtain ⟨target, reader⟩ := result
    obtain ⟨line, method, targetStr, rest, head, hline, hne, hpieces, hheaders, -⟩ :=
      readTarget_eq_some h
    obtain ⟨-, -, hn, hle, hbudget, -⟩ := readCappedLine_spec hline
    obtain ⟨hfirst, hrest⟩ := readCappedLine_eq_lineOf hline
    obtain ⟨-, hending⟩ := readCappedLine_bytes hline
    obtain ⟨hlength, hends⟩ := readHeaders_ends hheaders
    have hnew : (Reader.new client.source).bytes = client.source.bytes := rfl
    rw [hnew] at hfirst hrest
    rw [hrest] at hlength hends
    rw [hending] at hends
    have hgo := first_goes_on hline hne hpieces
    constructor
    · rw [headerLines_of_go hgo, List.length_append, ← hfirst]
      rw [← hfirst] at hlength
      omega
    · exact HeadEnds.cons hgo (readCappedLine_ends hline) hends

/-- The head of an accepted request is the lines of its stream to the first blank one. -/
theorem readTarget_headerLines {strerror : ℕ → String} {client : Client} {target : Target}
    {reader : Reader} (h : readTarget strerror client = .ok (some (target, reader))) :
    target.headerBytes = headerLines client.source.bytes := by
  obtain ⟨line, method, targetStr, rest, head, hline, hne, hpieces, -, -⟩ := readTarget_eq_some h
  rw [(readTarget_head h).1, requestHead, headerLines_of_go (first_goes_on hline hne hpieces)]

/-- Two readers have the same bytes ahead of them, as far as a budget goes. -/
def Agree (budget : ℕ) (r r' : Reader) : Prop :=
  r.bytes.take budget = r'.bytes.take budget ∧ budget ≤ r.bytes.length ∧ budget ≤ r'.bytes.length

/-- A line read within a budget depends on the bytes within it. -/
theorem Agree.readCappedLine {budget : ℕ} {r r' : Reader} (h : Agree budget r r')
    (strerror : ℕ → String) :
    (∃ e, Proxy.readCappedLine strerror r budget = .error e ∧
      Proxy.readCappedLine strerror r' budget = .error e) ∨
    ∃ line line', Proxy.readCappedLine strerror r budget = .ok line ∧
      Proxy.readCappedLine strerror r' budget = .ok line' ∧ line.out = line'.out ∧
      line.n = line'.n ∧ line.budget = line'.budget ∧
        Agree line.budget line.reader line'.reader := by
  obtain ⟨hsame, hlong, hlong'⟩ := h
  obtain ⟨bytes, q, hread⟩ := readUntil_isOk Utf8.newline r.source.ending hlong
  obtain ⟨bytes', q', hread'⟩ := readUntil_isOk Utf8.newline r'.source.ending hlong'
  obtain ⟨hpiece, hbytes⟩ := readUntil_eq_piece hread
  obtain ⟨hpiece', hbytes'⟩ := readUntil_eq_piece hread'
  change bytes = piece _ _ r.bytes at hpiece
  change bytes' = piece _ _ r'.bytes at hpiece'
  change bytes ++ q.bytes = r.bytes at hbytes
  change bytes' ++ q'.bytes = r'.bytes at hbytes'
  change r.readUntil _ _ = _ at hread
  change r'.readUntil _ _ = _ at hread'
  obtain rfl : bytes' = bytes := by rw [hpiece', hpiece, piece, piece, hsame]
  by_cases hzero : budget = 0
  · left
    rw [Proxy.readCappedLine, Proxy.readCappedLine, if_pos hzero, if_pos hzero]
    exact ⟨_, rfl, rfl⟩
  · cases hdecode : Utf8.decode bytes' with
    | none =>
      left
      simp only [Proxy.readCappedLine, readLine, if_neg hzero, hread, hread', hdecode]
      exact ⟨_, rfl, rfl⟩
    | some out =>
      by_cases hlast : bytes'.length = budget ∧ out.toList.getLast? ≠ some '\n'
      · left
        simp only [Proxy.readCappedLine, readLine, if_neg hzero, hread, hread', hdecode,
          if_pos hlast]
        exact ⟨_, rfl, rfl⟩
      · right
        simp only [Proxy.readCappedLine, readLine, if_neg hzero, hread, hread', hdecode,
          if_neg hlast]
        refine ⟨_, _, rfl, rfl, rfl, rfl, rfl, ?_⟩
        rw [← hbytes, List.length_append] at hlong
        rw [← hbytes', List.length_append] at hlong'
        rw [← hbytes, ← hbytes', List.take_append, List.take_append] at hsame
        exact ⟨List.append_cancel_left hsame, by simp only; omega, by simp only; omega⟩

/-- The header loop fails with the first line that does. -/
theorem readHeaders_of_error {strerror : ℕ → String} {budget : ℕ} {r : Reader} {e : IoError}
    (h : readCappedLine strerror r budget = .error e) (head : Head) :
    readHeaders strerror r budget head = .error e := by
  rw [readHeaders]
  split
  · next e' he =>
    rw [h] at he
    rw [Except.error.inj he]
  · next line hline =>
    rw [h] at hline
    cases hline

/-- The header loop stops or goes on after a line. -/
theorem readHeaders_of_ok {strerror : ℕ → String} {budget : ℕ} {r : Reader} {line : CappedLine}
    (h : readCappedLine strerror r budget = .ok line) (head : Head) :
    readHeaders strerror r budget head =
      if line.n = 0 ∨ Text.trimEnd line.out = "" then .ok (head.addBytes line.out, line.reader)
      else readHeaders strerror line.reader line.budget
        ((head.addBytes line.out).addHeader line.out) := by
  rw [readHeaders]
  split
  · next e he =>
    rw [h] at he
    cases he
  · next line' hline =>
    rw [h] at hline
    obtain rfl := Except.ok.inj hline
    rfl

/-- The header loop depends on the bytes within its budget. -/
theorem Agree.readHeaders {budget : ℕ} {r r' : Reader} (h : Agree budget r r')
    (strerror : ℕ → String) (head : Head) :
    (Proxy.readHeaders strerror r budget head).map Prod.fst =
      (Proxy.readHeaders strerror r' budget head).map Prod.fst := by
  fun_induction Proxy.readHeaders strerror r budget head generalizing r' with
  | case1 r budget head e hread =>
    obtain ⟨e', he, he'⟩ | ⟨line, line', hline, -⟩ := h.readCappedLine strerror
    · rw [hread] at he
      rw [readHeaders_of_error he', Except.error.inj he]
    · rw [hread] at hline
      cases hline
  | case2 r budget head line hread hend =>
    obtain ⟨e', he, -⟩ | ⟨line₀, line', hline, hline', hout, hn, -⟩ :=
      h.readCappedLine strerror
    · rw [hread] at he
      cases he
    · rw [hread] at hline
      obtain rfl := Except.ok.inj hline
      rw [readHeaders_of_ok hline', if_pos (by rw [← hout, ← hn]; exact hend), hout]
      rfl
  | case3 r budget head line hread hend ih =>
    obtain ⟨e', he, -⟩ | ⟨line₀, line', hline, hline', hout, hn, hbudget, hagree⟩ :=
      h.readCappedLine strerror
    · rw [hread] at he
      cases he
    · rw [hread] at hline
      obtain rfl := Except.ok.inj hline
      rw [readHeaders_of_ok hline', if_neg (by rw [← hout, ← hn]; exact hend), ← hout, ← hbudget]
      exact ih hagree

/-- What is read of a client depends on the bytes within the limit. -/
theorem readTarget_congr {strerror : ℕ → String} {client client' : Client}
    (hdup : client.dupErrno = client'.dupErrno)
    (hlong : MAX_HEADER_BYTES ≤ client.source.bytes.length)
    (hlong' : MAX_HEADER_BYTES ≤ client'.source.bytes.length)
    (hsame : client.source.bytes.take MAX_HEADER_BYTES =
      client'.source.bytes.take MAX_HEADER_BYTES) :
    (readTarget strerror client).map (Option.map Prod.fst) =
      (readTarget strerror client').map (Option.map Prod.fst) := by
  have hagree : Agree MAX_HEADER_BYTES (Reader.new client.source) (Reader.new client'.source) :=
    ⟨hsame, hlong, hlong'⟩
  unfold readTarget
  rw [← hdup]
  cases client.dupErrno with
  | some errno => rfl
  | none =>
    obtain ⟨e, he, he'⟩ | ⟨line, line', hline, hline', hout, hn, hbudget, hrest⟩ :=
      hagree.readCappedLine strerror
    · simp only [he, he']
    · simp only [hline, hline', ← hout, ← hn, ← hbudget]
      split
      · rfl
      · split
        · next method targetStr rest hpieces =>
          have hheaders := hrest.readHeaders strerror ⟨Utf8.encode line.out, none, none⟩
          revert hheaders
          generalize readHeaders strerror line.reader _ _ = headers
          generalize readHeaders strerror line'.reader _ _ = headers'
          intro hheaders
          cases headers with
          | error e =>
            cases headers' with
            | error e' => rw [Except.error.inj hheaders]
            | ok result' => cases hheaders
          | ok result =>
            cases headers' with
            | error e' => cases hheaders
            | ok result' =>
              have hhead : result.1 = result'.1 := Except.ok.inj hheaders
              simp only [hhead]
              cases targetOf method targetStr result'.1 with
              | error e => rfl
              | ok target => rfl
        · rfl

/-- The lines read in a row of a client, with the reader and the budget that they leave. -/
inductive LinesRead (strerror : ℕ → String) (source : Source) : List UInt8 → Reader → ℕ → Prop where
  | start : LinesRead strerror source [] (Reader.new source) MAX_HEADER_BYTES
  | line {taken : List UInt8} {reader : Reader} {budget : ℕ} {line : CappedLine}
      (before : LinesRead strerror source taken reader budget)
      (read : readCappedLine strerror reader budget = .ok line) :
      LinesRead strerror source (taken ++ Utf8.encode line.out) line.reader line.budget

/-- The budget is what the lines have left of the limit. -/
theorem LinesRead.spent {strerror : ℕ → String} {source : Source} {taken : List UInt8}
    {reader : Reader} {budget : ℕ} (h : LinesRead strerror source taken reader budget) :
    taken.length + budget = MAX_HEADER_BYTES ∧ taken ++ reader.bytes = source.bytes := by
  induction h with
  | start => exact ⟨Nat.zero_add _, rfl⟩
  | line before read ih =>
    obtain ⟨hspent, hbytes⟩ := ih
    obtain ⟨-, -, hn, hle, hbudget, -⟩ := readCappedLine_spec read
    obtain ⟨hahead, -⟩ := readCappedLine_bytes read
    constructor
    · rw [List.length_append, ← hn, hbudget]
      omega
    · rw [List.append_assoc, hahead, hbytes]

/-- No line is longer than its limit. -/
theorem readLine_le {strerror : ℕ → String} {reader reader' : Reader} {limit n : ℕ} {out : String}
    (h : readLine strerror reader limit = .ok (out, n, reader')) : n ≤ limit := by
  unfold readLine at h
  split at h
  · cases h
  · next bytes q hread =>
    split at h
    · cases h
    · next text hdecode =>
      obtain ⟨-, hn⟩ := Prod.mk.inj (Except.ok.inj h)
      obtain ⟨rfl, -⟩ := Prod.mk.inj hn
      rw [(readUntil_eq_piece hread).1]
      exact piece_length_le _ _ _

/-- Reading a head is bounded and exact: however many lines are read, they and the budget are the
limit and no line exceeds the budget; what comes of a client depends on the bytes within the limit;
a head that does not end within it is refused; and an accepted request is the head of its stream. -/
theorem readTarget_exact (strerror : ℕ → String) (client : Client) :
    (∀ taken reader budget, LinesRead strerror client.source taken reader budget →
      taken.length + budget = MAX_HEADER_BYTES ∧ taken ++ reader.bytes = client.source.bytes ∧
      ∀ out n reader', readLine strerror reader budget = .ok (out, n, reader') → n ≤ budget) ∧
    (∀ client' : Client, client.dupErrno = client'.dupErrno →
      MAX_HEADER_BYTES ≤ client.source.bytes.length →
      MAX_HEADER_BYTES ≤ client'.source.bytes.length →
      client.source.bytes.take MAX_HEADER_BYTES = client'.source.bytes.take MAX_HEADER_BYTES →
      (readTarget strerror client).map (Option.map Prod.fst) =
        (readTarget strerror client').map (Option.map Prod.fst)) ∧
    (¬((headerLines client.source.bytes).length ≤ MAX_HEADER_BYTES ∧
        HeadEnds client.source.bytes client.source.ending) →
      ∃ e, readTarget strerror client = .error e) ∧
    ∀ target reader, readTarget strerror client = .ok (some (target, reader)) →
      target.headerBytes = headerLines client.source.bytes ∧
      target.headerBytes ++ reader.bytes = client.source.bytes := by
  refine ⟨fun taken reader budget h => ?_, fun client' => readTarget_congr, fun h => ?_,
    fun target reader h => ?_⟩
  · obtain ⟨hspent, hbytes⟩ := h.spent
    exact ⟨hspent, hbytes, fun out n reader' hread => readLine_le hread⟩
  · cases hresult : readTarget strerror client with
    | error e => exact ⟨e, rfl⟩
    | ok result => exact (h (readTarget_ends hresult)).elim
  · exact ⟨readTarget_headerLines h, (readTarget_head h).2.bytes⟩

/-- A request that came in one read with a part of its body. -/
def getWithBody : Client where
  source :=
    ⟨[⟨Utf8.encode "GET http://h/ HTTP/1.1\r\nA: b\r\n\r\nbody", by decide, by decide⟩], .eof⟩
  dupErrno := none

/-- Its head ends where its body begins. -/
theorem readTarget_exact_get :
    headerLines getWithBody.source.bytes =
      Utf8.encode "GET http://h/ HTTP/1.1\r\nA: b\r\n\r\n" := by
  have hread : readTarget (fun _ => "") getWithBody =
      .ok (some (⟨false, "h", 80, Utf8.encode "GET http://h/ HTTP/1.1\r\nA: b\r\n\r\n", none⟩,
        ⟨Utf8.encode "body", ⟨[], .eof⟩⟩)) := by decide +kernel
  exact ((readTarget_exact _ _).2.2.2 _ _ hread).1.symm

end Devcroft.Proxy
