import Devcroft.Proxy.Request

/-!
# Handling one proxy connection

`handle_connection` of the egress proxy as the list of its effects: the name
lookup, every dial, the log records, and the bytes that the client and the
upstream socket receive. The host filter, name resolution and the network are
parameters.
-/

namespace Devcroft.Proxy

open Buffered

/-- `IpAddr`. -/
inductive IpAddr where
  /-- A version 4 address. -/
  | v4 (bits : BitVec 32)
  /-- A version 6 address. -/
  | v6 (bits : BitVec 128)
  deriving DecidableEq

/-- The address of a client; the proxy listens on `127.0.0.1`, so it has version 4. -/
structure SocketAddrV4 where
  /-- The four octets of the address. -/
  octets : UInt8 × UInt8 × UInt8 × UInt8
  /-- The port. -/
  port : UInt16

/-- `SocketAddrV4` as it is displayed. -/
def SocketAddrV4.display (a : SocketAddrV4) : String :=
  Nat.repr a.octets.1.toNat ++ "." ++ Nat.repr a.octets.2.1.toNat ++ "." ++
    Nat.repr a.octets.2.2.1.toNat ++ "." ++ Nat.repr a.octets.2.2.2.toNat ++ ":" ++
    Nat.repr a.port.toNat

/-- `nono::FilterResult`. -/
structure FilterResult where
  /-- Whether the host may be reached. -/
  isAllowed : Bool
  /-- Why not. -/
  reason : String

/-- One side of a connection as something to write to. -/
structure Sink where
  /-- How many bytes it takes before writing fails; `none` when writing never fails. -/
  room : Option ℕ
  deriving DecidableEq

/-- `write_all`: the bytes that arrive, and the sink afterwards unless writing failed. -/
def Sink.writeAll (s : Sink) (bytes : List UInt8) : List UInt8 × Option Sink :=
  match s.room with
  | none => (bytes, some s)
  | some room =>
    (bytes.take room, if bytes.length ≤ room then some ⟨some (room - bytes.length)⟩ else none)

/-- What surrounds one connection. -/
structure Env where
  /-- The messages of system errors. -/
  strerror : ℕ → String
  /-- The standard base64 decoder. -/
  base64Decode : String → Option (List UInt8)
  /-- `HostFilter::check_host`. -/
  checkHost : String → List IpAddr → FilterResult
  /-- `to_socket_addrs`: the addresses of a host, `none` when the lookup fails. -/
  lookup : String → UInt16 → Option (List IpAddr)
  /-- Whether the dial with this number, to this address and port, succeeds. -/
  connect : ℕ → IpAddr → UInt16 → Bool
  /-- The session token. -/
  token : String
  /-- The client's address, when the socket knows it. -/
  peer : Option SocketAddrV4
  /-- The client socket as something to write to. -/
  client : Sink
  /-- The upstream socket as something to write to. -/
  upstream : Sink
  /-- What the upstream socket sends back. -/
  answer : Source
  /-- Whether both sockets can be duplicated for the two copies of `splice`. -/
  canSplice : Bool

/-- An effect of handling a connection. -/
inductive Event where
  /-- A name lookup. -/
  | lookup (host : String) (port : UInt16)
  /-- An attempt to connect, and whether it succeeded. -/
  | dial (ip : IpAddr) (port : UInt16) (connected : Bool)
  /-- A record appended to the log in one write. -/
  | log (record : String)
  /-- Bytes that the client receives. -/
  | toClient (bytes : List UInt8)
  /-- Bytes that the upstream socket receives. -/
  | toUpstream (bytes : List UInt8)
  deriving DecidableEq

/-- `log_line`: one record, ended by a newline. -/
def logLine (line : String) : Event := .log (line ++ "\n")

/-- The client's address as it is logged. -/
def Env.peerText (env : Env) : String :=
  match env.peer with
  | some a => a.display
  | none => "unknown"

/-- The response of `write_auth_required`. -/
def authRequired (isConnect : Bool) : String :=
  let detail := "devcroft: proxy authentication required"
  if isConnect then
    "HTTP/1.1 407 Proxy Authentication Required\r\n" ++
      "Proxy-Authenticate: Basic realm=\"devcroft\"\r\n" ++
      "Connection: close\r\n\r\n" ++ detail ++ "\r\n"
  else
    "HTTP/1.1 407 Proxy Authentication Required\r\n" ++
      "Proxy-Authenticate: Basic realm=\"devcroft\"\r\n" ++
      "Content-Type: text/plain\r\nConnection: close\r\nContent-Length: " ++
      Nat.repr (Utf8.encode detail).length ++ "\r\n\r\n" ++ detail

/-- The response of `write_refusal`. -/
def refusal (isConnect : Bool) (detail : String) : String :=
  if isConnect then
    "HTTP/1.1 502 Bad Gateway\r\nConnection: close\r\n\r\n" ++ detail ++ "\r\n"
  else
    "HTTP/1.1 502 Bad Gateway\r\nContent-Type: text/plain\r\nConnection: close\r\n" ++
      "Content-Length: " ++ Nat.repr (Utf8.encode detail).length ++ "\r\n\r\n" ++ detail

/-- The `200` that opens a tunnel. -/
def established : String := "HTTP/1.1 200 Connection Established\r\n\r\n"

/-- Write a text to the client. -/
def Env.reply (env : Env) (text : String) : Event :=
  .toClient (env.client.writeAll (Utf8.encode text)).1

/-- The addresses that `handle_connection` resolves a target to; a failed lookup gives none. -/
def Env.resolved (env : Env) (target : Target) : List IpAddr :=
  (env.lookup target.host target.port).getD []

/-- The dial loop: addresses in turn until one connects. -/
def Env.dial (env : Env) (port : UInt16) : ℕ → List IpAddr → List Event × Bool
  | _, [] => ([], false)
  | n, ip :: ips =>
    if env.connect n ip port then ([.dial ip port true], true)
    else
      let (events, connected) := env.dial port (n + 1) ips
      (.dial ip port false :: events, connected)

/-- `splice`: copy the client's socket to the upstream one and back until either side ends. -/
def Env.splice (env : Env) (upstream client : Sink) (fromClient : Source) : List Event :=
  if env.canSplice then
    [.toUpstream (upstream.writeAll fromClient.bytes).1,
      .toClient (client.writeAll env.answer.bytes).1]
  else []

/-- The end of `handle_connection`, once a dial succeeded: the tunnel's `200` or the forwarded
head, then `splice` from the client's socket. -/
def Env.tunnel (env : Env) (target : Target) (fromClient : Source) : List Event :=
  if target.isConnect then
    match env.client.writeAll (Utf8.encode established) with
    | (received, none) => [.toClient received]
    | (received, some client) => .toClient received :: env.splice env.upstream client fromClient
  else
    match env.upstream.writeAll target.headerBytes with
    | (received, none) => [.toUpstream received]
    | (received, some upstream) =>
      .toUpstream received :: env.splice upstream env.client fromClient

/-- The host and port fields of a log record. -/
def Target.fields (target : Target) : String :=
  " host=" ++ target.host ++ " port=" ++ Nat.repr target.port.toNat

/-- `handle_connection` from the filter decision on. -/
def Env.decideHost (env : Env) (target : Target) (fromClient : Source) : List Event :=
  let resolved := env.resolved target
  let decision := env.checkHost target.host resolved
  if decision.isAllowed then
    match env.dial target.port 0 resolved with
    | (dials, true) =>
      dials ++ logLine ("allow peer=" ++ env.peerText ++ target.fields) ::
        env.tunnel target fromClient
    | (dials, false) =>
      dials ++
        [logLine ("refuse peer=" ++ env.peerText ++ target.fields ++ " reason=connect-failed"),
          env.reply (refusal target.isConnect ("could not connect to " ++ target.host))]
  else
    [logLine ("refuse peer=" ++ env.peerText ++ target.fields ++ " reason=" ++ decision.reason),
      env.reply (refusal target.isConnect
        ("devcroft: egress denied for " ++ target.host ++ ": " ++ decision.reason))]

/-- `handle_connection`. -/
def Env.handleConnection (env : Env) (client : Client) : List Event :=
  match readTarget env.strerror client with
  | .ok none => []
  | .error e =>
    [logLine ("refuse peer=" ++ env.peerText ++ " reason=malformed-request detail=" ++ e.text),
      env.reply (refusal true "malformed request")]
  | .ok (some (target, reader)) =>
    if authorized env.base64Decode target.proxyAuth env.token then
      .lookup target.host target.port :: env.decideHost target reader.source
    else
      [logLine ("refuse peer=" ++ env.peerText ++ " reason=unauthenticated"),
        env.reply (authRequired target.isConnect)]

/-- The two listeners of the proxy process. -/
inductive Listener where
  /-- The loopback listener. -/
  | tcp
  /-- The unix listener, bridged to the loopback one. -/
  | unix
  deriving DecidableEq

/-- The connections `handle_connection` sees, with their effects, for a client's byte stream on a
listener: `bridge_unix_to_tcp` opens a loopback connection and copies bytes into it, in reads of
its own and for as long as both ends live. -/
inductive Served (env : Env) : Listener → Source → Option Client → List Event → Prop where
  /-- A loopback client is handled directly. -/
  | accepted (client : Client) :
      Served env .tcp client.source (some client) (env.handleConnection client)
  /-- The bridge could not connect. -/
  | unbridged (stream : Source) : Served env .unix stream none []
  /-- The bridge copied a first part of the stream. -/
  | bridged (stream : Source) (client : Client) (copied : client.source.bytes <+: stream.bytes) :
      Served env .unix stream (some client) (env.handleConnection client)

end Devcroft.Proxy
