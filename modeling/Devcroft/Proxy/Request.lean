import Devcroft.Library.Buffered

/-!
# Reading one proxy request

`read_target` of the egress proxy: the request line and the headers are read line by
line through a buffered reader under a size limit, and the dial target is taken from
the `CONNECT` authority, the absolute URI or the `Host` header. `authorized` checks the
credential that came with them.
-/

namespace Devcroft.Proxy

open Buffered

/-- Bytes read for the request line and the headers before giving up. -/
def MAX_HEADER_BYTES : ℕ := 64 * 1024

/-- The kinds of `io::Error` that reading a request can return. -/
inductive ErrorKind where
  /-- `ErrorKind::InvalidData`. -/
  | invalidData
  /-- An operating system error. -/
  | os (errno : ℕ)
  deriving DecidableEq

/-- `io::Error`: its kind and what it displays as. -/
structure IoError where
  /-- What `kind()` returns. -/
  kind : ErrorKind
  /-- What the error is formatted as. -/
  text : String
  deriving DecidableEq

/-- An `io::Error` of kind `InvalidData`. -/
def invalidData (text : String) : IoError := ⟨.invalidData, text⟩

/-- A failed system call; `strerror` is the platform's table of messages. -/
def osError (strerror : ℕ → String) (errno : ℕ) : IoError :=
  ⟨.os errno, strerror errno ++ " (os error " ++ Nat.repr errno ++ ")"⟩

/-- A line that was read, with what is left to read from and the budget left for it. -/
structure CappedLine where
  /-- The line, its newline included. -/
  out : String
  /-- How many bytes it took. -/
  n : ℕ
  /-- The reader after it. -/
  reader : Reader
  /-- The bytes still allowed for the head. -/
  budget : ℕ

/-- `BufRead::read_line` under a limit: the bytes up to a newline, which must be UTF-8. -/
def readLine (strerror : ℕ → String) (reader : Reader) (limit : ℕ) :
    Except IoError (String × ℕ × Reader) :=
  match reader.readUntil Utf8.newline limit with
  | .error errno => .error (osError strerror errno)
  | .ok (bytes, reader) =>
    match Utf8.decode bytes with
    | none => .error (invalidData "stream did not contain valid UTF-8")
    | some out => .ok (out, bytes.length, reader)

/-- `read_capped_line`: one line within the budget left for the whole head. -/
def readCappedLine (strerror : ℕ → String) (reader : Reader) (budget : ℕ) :
    Except IoError CappedLine :=
  if budget = 0 then .error (invalidData "request headers exceed the size limit")
  else
    match readLine strerror reader budget with
    | .error e => .error ⟨e.kind, "reading request: " ++ e.text⟩
    | .ok (out, n, reader) =>
      if n = budget ∧ out.toList.getLast? ≠ some '\n' then
        .error (invalidData "request line exceeds the header size limit")
      else .ok ⟨out, n, reader, budget - n⟩

/-- Everything a successful `read_capped_line` says: the line is the next piece of the bytes ahead,
and the reader and the budget have moved past it. -/
theorem readCappedLine_spec {strerror : ℕ → String} {reader : Reader} {budget : ℕ}
    {line : CappedLine} (h : readCappedLine strerror reader budget = .ok line) :
    0 < budget ∧
    reader.readUntil Utf8.newline budget = .ok (Utf8.encode line.out, line.reader) ∧
    line.n = (Utf8.encode line.out).length ∧
    line.n ≤ budget ∧ line.budget = budget - line.n ∧
    (line.n = budget → line.out.toList.getLast? = some '\n') := by
  unfold readCappedLine readLine at h
  split at h
  · cases h
  · next hbudget =>
    cases hread : reader.readUntil Utf8.newline budget with
    | error errno => simp [hread] at h
    | ok result =>
      obtain ⟨bytes, reader'⟩ := result
      cases hdecode : Utf8.decode bytes with
      | none => simp [hread, hdecode] at h
      | some out =>
        simp only [hread, hdecode] at h
        split at h
        · cases h
        · next hlast =>
          obtain rfl := Except.ok.inj h
          have hle : bytes.length ≤ budget := by
            rw [(readUntil_eq_piece hread).1]
            exact piece_length_le _ _ _
          rw [Utf8.encode_of_decode hdecode]
          exact ⟨by omega, rfl, rfl, hle, rfl, fun hn => by_contra fun hne => hlast ⟨hn, hne⟩⟩

/-- What the header loop has collected. -/
structure Head where
  /-- The bytes of the request line and the headers so far, forwarded for plain HTTP. -/
  headerBytes : List UInt8
  /-- The last `Host` header. -/
  hostHeader : Option String
  /-- The last `Proxy-Authorization` header. -/
  proxyAuth : Option String
  deriving DecidableEq

/-- Record one header line. -/
def Head.addHeader (head : Head) (line : String) : Head :=
  match Text.splitOnce ':' line with
  | none => head
  | some (name, value) =>
    if Text.eqIgnoreAsciiCase (Text.trim name) "host" then
      { head with hostHeader := some (Text.trim value) }
    else if Text.eqIgnoreAsciiCase (Text.trim name) "proxy-authorization" then
      { head with proxyAuth := some (Text.trim value) }
    else head

/-- Append a line to the bytes that are forwarded. -/
def Head.addBytes (head : Head) (line : String) : Head :=
  { head with headerBytes := head.headerBytes ++ Utf8.encode line }

@[simp] theorem Head.headerBytes_addBytes (head : Head) (line : String) :
    (head.addBytes line).headerBytes = head.headerBytes ++ Utf8.encode line := rfl

@[simp] theorem Head.headerBytes_addHeader (head : Head) (line : String) :
    (head.addHeader line).headerBytes = head.headerBytes := by
  unfold Head.addHeader
  split
  · rfl
  · split
    · rfl
    · split <;> rfl

/-- The header loop of `read_target`: lines up to and with the blank one, or the end of the
stream. -/
def readHeaders (strerror : ℕ → String) (reader : Reader) (budget : ℕ) (head : Head) :
    Except IoError (Head × Reader) :=
  match hline : readCappedLine strerror reader budget with
  | .error e => .error e
  | .ok line =>
    if line.n = 0 ∨ Text.trimEnd line.out = "" then .ok (head.addBytes line.out, line.reader)
    else readHeaders strerror line.reader line.budget ((head.addBytes line.out).addHeader line.out)
termination_by budget
decreasing_by
  obtain ⟨hpos, -, -, -, hbudget, -⟩ := readCappedLine_spec hline
  omega

/-- One decoded request. -/
structure Target where
  /-- Whether the method is `CONNECT`. -/
  isConnect : Bool
  /-- The host to reach. -/
  host : String
  /-- The port to reach. -/
  port : UInt16
  /-- The exact bytes of the head, forwarded for plain HTTP. -/
  headerBytes : List UInt8
  /-- The raw `Proxy-Authorization` value, if the client sent one. -/
  proxyAuth : Option String
  deriving DecidableEq

/-- `split_host_port`: `host:port` or a bare host, a bracketed IPv6 address included. -/
def splitHostPort (authority : String) (defaultPort : UInt16) :
    Except IoError (String × UInt16) :=
  let bad := invalidData "invalid host:port"
  match Text.stripPrefix "[" authority with
  | some rest =>
    match Text.splitOnce ']' rest with
    | none => .error bad
    | some (host, rest) =>
      match Text.stripPrefix ":" rest with
      | some p =>
        match Text.parseU16 p with
        | some port => .ok (host, port)
        | none => .error bad
      | none => .ok (host, defaultPort)
  | none =>
    match Text.rsplitOnce ':' authority with
    | some (host, p) =>
      if host ≠ "" then
        match Text.parseU16 p with
        | some port => .ok (host, port)
        | none => .error bad
      else .ok (authority, defaultPort)
    | none => .ok (authority, defaultPort)

/-- The authority of a request that is not `CONNECT`: from the absolute URI, else from `Host`. -/
def authorityOf (targetStr : String) (hostHeader : Option String) : Except IoError String :=
  match (Text.stripPrefix "http://" targetStr).or (Text.stripPrefix "https://" targetStr) with
  | some rest => .ok (Text.splitFirst (fun c => c = '/' || c = '?') rest)
  | none =>
    match hostHeader with
    | some host => .ok host
    | none => .error (invalidData "origin-form request with no Host header")

/-- The target of a request whose head has been read. -/
def targetOf (method targetStr : String) (head : Head) : Except IoError Target :=
  if Text.eqIgnoreAsciiCase method "CONNECT" then
    match splitHostPort targetStr 443 with
    | .error e => .error e
    | .ok (host, port) => .ok ⟨true, host, port, head.headerBytes, head.proxyAuth⟩
  else
    match authorityOf targetStr head.hostHeader with
    | .error e => .error e
    | .ok authority =>
      match splitHostPort authority 80 with
      | .error e => .error e
      | .ok (host, port) => .ok ⟨false, host, port, head.headerBytes, head.proxyAuth⟩

/-- The client's side of a connection. -/
structure Client where
  /-- What reading from the socket returns. -/
  source : Source
  /-- Why `try_clone` of the socket fails, if it does. -/
  dupErrno : Option ℕ

/-- `read_target`. With the target it returns the reader it read through, which the caller never
sees: only the socket behind it is used again. -/
def readTarget (strerror : ℕ → String) (client : Client) :
    Except IoError (Option (Target × Reader)) :=
  match client.dupErrno with
  | some errno => .error (osError strerror errno)
  | none =>
    match readCappedLine strerror (Reader.new client.source) MAX_HEADER_BYTES with
    | .error e => .error e
    | .ok line =>
      if line.n = 0 then .ok none
      else
        match Text.splitn ' ' 3 (Text.trimEnd line.out) with
        | method :: targetStr :: _ =>
          match readHeaders strerror line.reader line.budget ⟨Utf8.encode line.out, none, none⟩ with
          | .error e => .error e
          | .ok (head, reader) =>
            match targetOf method targetStr head with
            | .error e => .error e
            | .ok target => .ok (some (target, reader))
        | _ => .error (invalidData "missing request target")

/-- `constant_time_eq`. -/
def constantTimeEq (a b : List UInt8) : Bool :=
  if a.length ≠ b.length then false
  else (a.zip b).foldl (fun acc (x, y) => acc ||| (x ^^^ y)) 0 = 0

/-- `authorized`: a `Basic` credential whose user name is the token. `base64Decode` is the standard
decoder of the `base64` crate. -/
def authorized (base64Decode : String → Option (List UInt8)) (header : Option String)
    (token : String) : Bool :=
  match header with
  | none => false
  | some header =>
    match Text.stripPrefix "Basic " header with
    | none => false
    | some encoded =>
      match base64Decode (Text.trim encoded) with
      | none => false
      | some decoded =>
        match Utf8.decode decoded with
        | none => false
        | some decoded =>
          constantTimeEq (Utf8.encode (Text.splitFirst (· = ':') decoded)) (Utf8.encode token)

end Devcroft.Proxy
