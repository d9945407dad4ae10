import Devcroft.Proxy.Mediation

/-!
# Forwarding the client's bytes

What the upstream socket receives, compared with what the client sent. The head of a
request is a function of the bytes alone; how much of the rest arrives depends on how
the stream was cut into reads, because the bytes that the reader of the head had read
ahead are dropped with it.
-/

namespace Devcroft.Proxy

open Buffered

/-- The first line of a byte stream, newline included; all of it when it has none. -/
def lineOf (bytes : List UInt8) : List UInt8 := piece Utf8.newline bytes.length bytes

/-- A line of nothing but whitespace. -/
def isBlank (line : List UInt8) : Bool :=
  match Utf8.decode line with
  | none => false
  | some text => Text.trimEnd text = ""

theorem lineOf_isPrefix (bytes : List UInt8) : lineOf bytes <+: bytes := by
  simpa [lineOf] using piece_isPrefix Utf8.newline bytes.length bytes

/-- The lines up to and with the first blank one, or the end of the stream. -/
def headerLines (bytes : List UInt8) : List UInt8 :=
  if lineOf bytes = [] ∨ isBlank (lineOf bytes) then lineOf bytes
  else lineOf bytes ++ headerLines (bytes.drop (lineOf bytes).length)
termination_by bytes.length
decreasing_by
  next h =>
  have hne : lineOf bytes ≠ [] := fun he => h (Or.inl he)
  have hpos := List.length_pos_iff.mpr hne
  have hle := (lineOf_isPrefix bytes).length_le
  rw [List.length_drop]
  omega

/-- The head of a request: its first line, then the header lines with the blank line that ends
them. -/
def requestHead (bytes : List UInt8) : List UInt8 :=
  lineOf bytes ++ headerLines (bytes.drop (lineOf bytes).length)

/-- A line within the budget ends with the first newline ahead, or is all of an ended stream. -/
theorem readCappedLine_cases {strerror : ℕ → String} {reader : Reader} {budget : ℕ}
    {line : CappedLine} (h : readCappedLine strerror reader budget = .ok line) :
    upTo Utf8.newline reader.bytes = some (Utf8.encode line.out) ∨
    (upTo Utf8.newline reader.bytes = none ∧ Utf8.encode line.out = reader.bytes ∧
      reader.source.ending = .eof) := by
  obtain ⟨-, hread, hn, hle, -, hfull⟩ := readCappedLine_spec h
  obtain ⟨hpiece, hbytes⟩ := readUntil_eq_piece hread
  change _ = reader.bytes at hbytes
  change _ = piece Utf8.newline budget reader.bytes at hpiece
  unfold piece at hpiece
  cases hup : upTo Utf8.newline (reader.bytes.take budget) with
  | some found =>
    have hfound := upTo_append_of_some hup (reader.bytes.drop budget)
    rw [List.take_append_drop] at hfound
    rw [hup, Option.getD_some] at hpiece
    exact Or.inl (by rw [hfound, hpiece])
  | none =>
    rw [hup, Option.getD_none] at hpiece
    rw [← hpiece] at hup
    have hshort : line.n < budget := by
      refine Nat.lt_of_le_of_ne hle fun hall => not_mem_of_upTo_eq_none hup ?_
      obtain ⟨start, hstart⟩ := List.getLast?_eq_some_iff.mp (hfull hall)
      have htext : line.out = String.ofList start ++ "\n" := Text.ext (by simp [hstart])
      rw [htext, Utf8.encode_append]
      exact List.mem_append_right _ (by decide)
    obtain ⟨hending, hrest⟩ := readUntil_eof hread (by omega) hup
    rw [hrest, List.append_nil] at hbytes
    exact Or.inr ⟨hbytes ▸ hup, hbytes, hending⟩

/-- The first line is what stands up to the first newline, if there is one. -/
theorem lineOf_eq (bytes : List UInt8) : lineOf bytes = (upTo Utf8.newline bytes).getD bytes := by
  rw [lineOf, piece, List.take_length]

/-- A line within the budget is a whole line of the stream. -/
theorem readCappedLine_eq_lineOf {strerror : ℕ → String} {reader : Reader} {budget : ℕ}
    {line : CappedLine} (h : readCappedLine strerror reader budget = .ok line) :
    Utf8.encode line.out = lineOf reader.bytes ∧
      line.reader.bytes = reader.bytes.drop (lineOf reader.bytes).length := by
  have hline : Utf8.encode line.out = lineOf reader.bytes := by
    rw [lineOf_eq]
    rcases readCappedLine_cases h with hup | ⟨hup, hall, -⟩
    · rw [hup, Option.getD_some]
    · rw [hup, hall, Option.getD_none]
  obtain ⟨-, hread, -⟩ := readCappedLine_spec h
  have hbytes : _ = reader.bytes := (readUntil_eq_piece hread).2
  refine ⟨hline, ?_⟩
  rw [← hline, ← hbytes, List.drop_left]

/-- The header loop ends at an empty line, as the bytes say. -/
theorem readCappedLine_stops_iff {strerror : ℕ → String} {reader : Reader} {budget : ℕ}
    {line : CappedLine} (h : readCappedLine strerror reader budget = .ok line) :
    (line.n = 0 ∨ Text.trimEnd line.out = "") ↔
      (lineOf reader.bytes = [] ∨ isBlank (lineOf reader.bytes) = true) := by
  obtain ⟨hline, -⟩ := readCappedLine_eq_lineOf h
  obtain ⟨-, -, hn, -⟩ := readCappedLine_spec h
  rw [← hline, hn, List.length_eq_zero_iff]
  simp [isBlank]

/-- The header loop collects the header lines of the stream. -/
theorem readHeaders_headerBytes {strerror : ℕ → String} {reader reader' : Reader} {budget : ℕ}
    {head head' : Head} (h : readHeaders strerror reader budget head = .ok (head', reader')) :
    head'.headerBytes = head.headerBytes ++ headerLines reader.bytes := by
  fun_induction readHeaders strerror reader budget head with
  | case1 reader budget head e hread => cases h
  | case2 reader budget head line hread hend =>
    simp only [Except.ok.injEq, Prod.mk.injEq] at h
    obtain ⟨rfl, -⟩ := h
    obtain ⟨hline, -⟩ := readCappedLine_eq_lineOf hread
    have hstop := (readCappedLine_stops_iff hread).mp hend
    rw [Head.headerBytes_addBytes, hline, headerLines, if_pos hstop]
  | case3 reader budget head line hread hend ih =>
    obtain ⟨hline, hrest⟩ := readCappedLine_eq_lineOf hread
    have hgo := mt (readCappedLine_stops_iff hread).mpr hend
    rw [ih h, Head.headerBytes_addHeader, Head.headerBytes_addBytes, hline, hrest,
      List.append_assoc, headerLines.eq_def reader.bytes, if_neg hgo]

/-- The forwarded head is the head of the client's stream, and the reader stands right after it. -/
theorem readTarget_head {strerror : ℕ → String} {client : Client} {target : Target}
    {reader : Reader} (h : readTarget strerror client = .ok (some (target, reader))) :
    target.headerBytes = requestHead client.source.bytes ∧
      reader.At client.source target.headerBytes := by
  obtain ⟨line, method, targetStr, rest, head, hline, -, -, hheaders, htarget⟩ :=
    readTarget_eq_some h
  have hbytes : target.headerBytes = head.headerBytes := by
    unfold targetOf at htarget
    split at htarget
    · split at htarget
      · cases htarget
      · exact (Except.ok.inj htarget) ▸ rfl
    · split at htarget
      · cases htarget
      · split at htarget
        · cases htarget
        · exact (Except.ok.inj htarget) ▸ rfl
  obtain ⟨hfirst, hrest⟩ := readCappedLine_eq_lineOf hline
  constructor
  · rw [hbytes, readHeaders_headerBytes hheaders, hfirst, hrest, requestHead]
    rfl
  · rw [hbytes]
    refine readHeaders_invariant (fun head reader => reader.At client.source head.headerBytes)
      ?_ ?_ ?_ hheaders
    · intro head reader budget line hread hat
      exact hat.readUntil (readCappedLine_spec hread).2.1
    · intro head reader line _ hat
      rwa [Head.headerBytes_addHeader]
    · exact (Reader.at_new client.source).readUntil (readCappedLine_spec hline).2.1

/-- A sink takes these bytes without writing failing. -/
def Sink.Takes (s : Sink) (bytes : List UInt8) : Prop :=
  ∀ room, s.room = some room → bytes.length ≤ room

/-- Writing succeeds exactly for what the sink takes, and then all of it arrives. -/
theorem Sink.writeAll_of_takes {s : Sink} {bytes : List UInt8} (h : s.Takes bytes) :
    ∃ s', s.writeAll bytes = (bytes, some s') ∧
      ∀ more, s'.Takes more ↔ s.Takes (bytes ++ more) := by
  obtain ⟨room⟩ := s
  cases room with
  | none => exact ⟨⟨none⟩, rfl, fun more => by simp [Sink.Takes]⟩
  | some room =>
    have hle : bytes.length ≤ room := h room rfl
    refine ⟨⟨some (room - bytes.length)⟩,
      by simp [Sink.writeAll, hle, List.take_of_length_le hle], fun more => ?_⟩
    simp [Sink.Takes]
    omega

/-- What a sink does not take arrives cut off. -/
theorem Sink.writeAll_of_not_takes {s : Sink} {bytes : List UInt8} (h : ¬s.Takes bytes) :
    (s.writeAll bytes).2 = none ∧ (s.writeAll bytes).1.length < bytes.length := by
  obtain ⟨room⟩ := s
  cases room with
  | none => exact (h fun room hroom => by cases hroom).elim
  | some room =>
    have hlt : room < bytes.length := by
      by_contra hle
      exact h fun room' hroom => by
        obtain rfl := Option.some.inj hroom
        omega
    constructor
    · simp [Sink.writeAll]
      omega
    · simp [Sink.writeAll]
      omega

/-- The bytes that the upstream socket receives. -/
def received (events : List Event) : List UInt8 :=
  events.flatMap fun
    | .toUpstream bytes => bytes
    | _ => []

/-- A request that was accepted and allowed, and whose upstream was reached. -/
structure Env.Accepts (env : Env) (client : Client) (target : Target) : Prop where
  /-- The request was parsed. -/
  parsed : ∃ reader, readTarget env.strerror client = .ok (some (target, reader))
  /-- It carried the token. -/
  isAuthorized : authorized env.base64Decode target.proxyAuth env.token = true
  /-- The filter allowed its host. -/
  isAllowed : (env.checkHost target.host (env.resolved target)).isAllowed = true
  /-- A dial succeeded. -/
  isConnected : (env.dial target.port 0 (env.resolved target)).2 = true

/-- What the client sent after the head of its request. -/
def Client.afterHead (client : Client) : List UInt8 :=
  client.source.bytes.drop (requestHead client.source.bytes).length

/-- The upstream socket receives the head, for plain HTTP only, and then exactly what the client
sent after it. -/
def Delivered (env : Env) (client : Client) (target : Target) : Prop :=
  received (env.handleConnection client) =
    (if target.isConnect then [] else requestHead client.source.bytes) ++ client.afterHead

/-- The sockets hold out for what has to be written to them. -/
def Env.Carries (env : Env) (isConnect : Bool) (head rest : List UInt8) : Prop :=
  if isConnect then
    rest = [] ∨
      (env.canSplice = true ∧ env.client.Takes (Utf8.encode established) ∧ env.upstream.Takes rest)
  else
    env.upstream.Takes head ∧
      (rest = [] ∨ (env.canSplice = true ∧ env.upstream.Takes (head ++ rest)))

@[simp] theorem received_append (xs ys : List Event) :
    received (xs ++ ys) = received xs ++ received ys := by
  simp [received]

private theorem received_dial (env : Env) (port : UInt16) (n : ℕ) (ips : List IpAddr) :
    received (env.dial port n ips).1 = [] := by
  induction ips generalizing n with
  | nil => rfl
  | cons ip ips ih =>
    unfold Env.dial
    split
    · rfl
    · exact ih (n + 1)

/-- `splice` delivers what is left in the socket, and nothing that was read from it before. -/
theorem received_splice_iff (env : Env) (upstream client : Sink) (fromClient : Source)
    (readAhead : List UInt8) :
    received (env.splice upstream client fromClient) = readAhead ++ fromClient.bytes ↔
      readAhead = [] ∧ (fromClient.bytes = [] ∨
        (env.canSplice = true ∧ upstream.Takes fromClient.bytes)) := by
  unfold Env.splice
  by_cases hsplice : env.canSplice = true
  · rw [if_pos hsplice]
    by_cases htakes : upstream.Takes fromClient.bytes
    · obtain ⟨s', hwrite, -⟩ := Sink.writeAll_of_takes htakes
      simp [received, hwrite, hsplice, htakes]
    · obtain ⟨-, hlt⟩ := Sink.writeAll_of_not_takes htakes
      have hne : fromClient.bytes ≠ [] := by
        intro hnil
        exact htakes fun room _ => by simp [hnil]
      simp only [htakes, hne, and_false, or_self, iff_false]
      intro heq
      have := congrArg List.length heq
      simp [received] at this
      omega
  · rw [if_neg hsplice]
    simp [received, hsplice]

/-- The tunnel delivers what it should exactly when nothing was read ahead and the sockets hold
out. -/
theorem received_tunnel_iff (env : Env) (target : Target) (fromClient : Source)
    (readAhead : List UInt8) :
    received (env.tunnel target fromClient) =
        (if target.isConnect then [] else target.headerBytes) ++
          (readAhead ++ fromClient.bytes) ↔
      readAhead = [] ∧
        env.Carries target.isConnect target.headerBytes (readAhead ++ fromClient.bytes) := by
  unfold Env.tunnel Env.Carries
  cases target.isConnect with
  | true =>
    simp only [↓reduceIte, List.nil_append]
    by_cases htakes : env.client.Takes (Utf8.encode established)
    · obtain ⟨client, hwrite, -⟩ := Sink.writeAll_of_takes htakes
      rw [hwrite]
      dsimp only
      have hreceived : ∀ events, received (.toClient (Utf8.encode established) :: events) =
          received events := fun _ => rfl
      rw [hreceived, received_splice_iff]
      constructor
      · rintro ⟨rfl, h⟩
        exact ⟨rfl, h.imp id fun h => ⟨h.1, htakes, h.2⟩⟩
      · rintro ⟨rfl, h⟩
        exact ⟨rfl, h.imp id fun h => ⟨h.1, h.2.2⟩⟩
    · obtain ⟨hnone, -⟩ := Sink.writeAll_of_not_takes htakes
      obtain ⟨sent, hwrite⟩ : ∃ sent, env.client.writeAll (Utf8.encode established) =
          (sent, none) := ⟨_, Prod.ext rfl hnone⟩
      rw [hwrite]
      simp only [received, List.flatMap_cons, List.flatMap_nil, List.append_nil]
      constructor
      · intro h
        obtain ⟨hahead, hrest⟩ := List.append_eq_nil_iff.mp h.symm
        exact ⟨hahead, Or.inl (by rw [hahead, hrest]; rfl)⟩
      · rintro ⟨hahead, hrest | ⟨-, h, -⟩⟩
        · exact hrest.symm
        · exact (htakes h).elim
  | false =>
    simp only [Bool.false_eq_true, ↓reduceIte]
    by_cases htakes : env.upstream.Takes target.headerBytes
    · obtain ⟨upstream, hwrite, hmore⟩ := Sink.writeAll_of_takes htakes
      rw [hwrite]
      dsimp only
      have hreceived : ∀ events, received (.toUpstream target.headerBytes :: events) =
          target.headerBytes ++ received events := fun _ => rfl
      rw [hreceived, List.append_right_inj, received_splice_iff]
      constructor
      · rintro ⟨rfl, h⟩
        exact ⟨rfl, htakes, h.imp id fun h => ⟨h.1, (hmore _).mp h.2⟩⟩
      · rintro ⟨rfl, -, h⟩
        exact ⟨rfl, h.imp id fun h => ⟨h.1, (hmore _).mpr h.2⟩⟩
    · obtain ⟨hnone, hlt⟩ := Sink.writeAll_of_not_takes htakes
      obtain ⟨sent, hwrite⟩ : ∃ sent, env.upstream.writeAll target.headerBytes =
          (sent, none) := ⟨_, Prod.ext rfl hnone⟩
      rw [hwrite] at hlt ⊢
      dsimp only at hlt
      simp only [received, List.flatMap_cons, List.flatMap_nil, List.append_nil]
      constructor
      · intro h
        have := congrArg List.length h
        rw [List.length_append] at this
        omega
      · rintro ⟨-, h, -⟩
        exact (htakes h).elim

/-- What the upstream socket receives of an accepted request comes from the tunnel alone. -/
theorem Env.Accepts.received_eq {env : Env} {client : Client} {target : Target} {reader : Reader}
    (h : env.Accepts client target)
    (hparsed : readTarget env.strerror client = .ok (some (target, reader))) :
    received (env.handleConnection client) = received (env.tunnel target reader.source) := by
  obtain ⟨-, hauthorized, hallowed, hconnected⟩ := h
  obtain ⟨dials, hdial⟩ : ∃ dials, env.dial target.port 0 (env.resolved target) =
      (dials, true) := ⟨_, Prod.ext rfl hconnected⟩
  have hdials := received_dial env target.port 0 (env.resolved target)
  rw [hdial] at hdials
  unfold Env.handleConnection Env.decideHost
  simp only [hparsed, hauthorized, hallowed, hdial, if_true]
  change received (dials ++ logLine _ :: env.tunnel target reader.source) = _
  rw [received_append, hdials]
  rfl

/-- Exactly when the proxy loses no client bytes: the read of the socket that returned the end of
the head returned nothing after it, and the sockets hold out. -/
theorem delivered_iff {env : Env} {client : Client} {target : Target}
    (h : env.Accepts client target) :
    Delivered env client target ↔
      client.source.EndsReadAt (requestHead client.source.bytes).length ∧
        env.Carries target.isConnect (requestHead client.source.bytes) client.afterHead := by
  obtain ⟨reader, hparsed⟩ := h.parsed
  obtain ⟨hhead, hat⟩ := readTarget_head hparsed
  have hafter : client.afterHead = reader.buffer ++ reader.source.bytes := by
    have hbytes := hat.bytes
    rw [hhead] at hbytes
    have hdrop := congrArg (List.drop (requestHead client.source.bytes).length) hbytes
    rw [List.drop_left] at hdrop
    exact hdrop.symm
  rw [Delivered, h.received_eq hparsed, hafter, ← hhead, received_tunnel_iff, hat.buffer_eq_nil_iff]

/-- What the sample request asks for. -/
def sampleTarget : Target :=
  ⟨true, "example.com", 443, Utf8.encode sampleHead, some "Basic c2VjcmV0Og=="⟩

/-- A client whose first bytes for the tunnel arrive together with the head. -/
def hastyClient : Client where
  source := ⟨[⟨Utf8.encode (sampleHead ++ "hi"), by decide, by decide⟩], .eof⟩
  dupErrno := none

theorem sampleHead_ne_nil : Utf8.encode sampleHead ≠ [] := by decide

theorem sampleHead_length_le : (Utf8.encode sampleHead).length ≤ bufferSize := by decide

/-- A client whose first bytes for the tunnel arrive in a read of their own. -/
def patientClient : Client where
  source := ⟨[⟨Utf8.encode sampleHead, sampleHead_ne_nil, sampleHead_length_le⟩,
    ⟨Utf8.encode "hi", by decide, by decide⟩], .eof⟩
  dupErrno := none

/-- The tunnel bytes that arrive in their own read are delivered. -/
theorem delivered_iff_patient : Delivered sampleEnv patientClient sampleTarget := by
  have haccepts : sampleEnv.Accepts patientClient sampleTarget :=
    ⟨⟨⟨[], ⟨[⟨Utf8.encode "hi", by decide, by decide⟩], .eof⟩⟩, by decide +kernel⟩,
      by decide +kernel, by decide +kernel, by decide +kernel⟩
  refine (delivered_iff haccepts).mpr ⟨⟨1, by decide +kernel⟩, ?_⟩
  simp [Env.Carries, Sink.Takes, sampleTarget, sampleEnv]

/-- The same bytes are lost when they arrive together with the head: the upstream socket receives
nothing at all. -/
theorem not_delivered_hasty :
    sampleEnv.Accepts hastyClient sampleTarget ∧
      hastyClient.afterHead = Utf8.encode "hi" ∧
      received (sampleEnv.handleConnection hastyClient) = [] ∧
      ¬Delivered sampleEnv hastyClient sampleTarget := by
  have hafter : hastyClient.afterHead = Utf8.encode "hi" := by decide +kernel
  have hnothing : received (sampleEnv.handleConnection hastyClient) = [] := by decide +kernel
  refine ⟨⟨⟨⟨Utf8.encode "hi", ⟨[], .eof⟩⟩, by decide +kernel⟩, by decide +kernel,
    by decide +kernel, by decide +kernel⟩, hafter, hnothing, fun hdelivered => ?_⟩
  rw [Delivered, hnothing, hafter] at hdelivered
  revert hdelivered
  decide

end Devcroft.Proxy
