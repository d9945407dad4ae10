import Devcroft.Proxy.Lines
import Devcroft.Proxy.Server

/-!
# Complete mediation

Whatever bytes a client sends, on either listener, the proxy dials only addresses that
the host filter has just allowed, for a request that carried the session token, and it
leaves exactly one record of one line for each request.
-/

namespace Devcroft.Proxy

open Buffered

/-- The records that a list of effects appends to the log. -/
def records (events : List Event) : List String :=
  events.filterMap fun
    | .log record => some record
    | _ => none

@[simp] theorem records_append (xs ys : List Event) :
    records (xs ++ ys) = records xs ++ records ys := by
  simp [records]

@[simp] theorem records_cons_logLine (line : String) (events : List Event) :
    records (logLine line :: events) = (line ++ "\n") :: records events := rfl

/-- The verdict of a record is its first word. -/
def verdict (record : String) : String := Text.splitFirst (· = ' ') record

/-- A record of one line: a newline at its end and nowhere else. -/
def OneLine (record : String) : Prop := ∃ line, record = line ++ "\n" ∧ '\n' ∉ line.toList

/-- Some dial among the effects succeeded. -/
def Connected (events : List Event) : Prop := ∃ ip port, Event.dial ip port true ∈ events

/-- Every dial among the effects goes to one of these addresses, at this port. -/
def DialsOnly (ips : List IpAddr) (port : UInt16) (events : List Event) : Prop :=
  ∀ ip p connected, Event.dial ip p connected ∈ events → ip ∈ ips ∧ p = port

private theorem digits_clean (n : ℕ) : '\n' ∉ Nat.toDigits 10 n :=
  fun hmem => absurd (Nat.isDigit_of_mem_toDigits (by omega) (by omega) hmem) (by decide)

private theorem peerText_clean (env : Env) : '\n' ∉ env.peerText.toList := by
  unfold Env.peerText
  split
  · simp [SocketAddrV4.display, digits_clean]
  · decide

private theorem fields_clean {target : Target} (h : '\n' ∉ target.host.toList) :
    '\n' ∉ target.fields.toList := by
  simp [Target.fields, h, digits_clean]

private theorem verdict_allow (rest : String) : verdict ("allow peer=" ++ rest) = "allow" := by
  simp [verdict, Text.splitFirst, String.toList_append]

private theorem verdict_refuse (rest : String) : verdict ("refuse peer=" ++ rest) = "refuse" := by
  simp [verdict, Text.splitFirst, String.toList_append]

/-- The dial loop only dials, only addresses of its list at its port, and reports success exactly
when one of its dials succeeded. -/
theorem Env.dial_spec (env : Env) (port : UInt16) (n : ℕ) (ips : List IpAddr) :
    records (env.dial port n ips).1 = [] ∧ DialsOnly ips port (env.dial port n ips).1 ∧
    ((env.dial port n ips).2 = true ↔ Connected (env.dial port n ips).1) := by
  induction ips generalizing n with
  | nil =>
    refine ⟨rfl, fun _ _ _ h => (List.not_mem_nil h).elim, ?_⟩
    simp [Env.dial, Connected]
  | cons ip ips ih =>
    unfold Env.dial
    split
    · refine ⟨rfl, ?_, ?_⟩
      · intro ip' p connected hmem
        obtain ⟨rfl, rfl, -⟩ := Event.dial.inj (List.mem_singleton.mp hmem)
        exact ⟨List.mem_cons_self, rfl⟩
      · exact ⟨fun _ => ⟨ip, port, List.mem_singleton_self _⟩, fun _ => rfl⟩
    · obtain ⟨hrecords, hdials, hconnected⟩ := ih (n + 1)
      refine ⟨hrecords, ?_, ?_⟩
      · intro ip' p connected hmem
        rcases List.mem_cons.mp hmem with heq | hmem
        · obtain ⟨rfl, rfl, -⟩ := Event.dial.inj heq
          exact ⟨List.mem_cons_self, rfl⟩
        · obtain ⟨hip, hp⟩ := hdials _ _ _ hmem
          exact ⟨List.mem_cons_of_mem _ hip, hp⟩
      · simpa [Connected] using hconnected

/-- The tunnel itself writes no record and dials nothing. -/
theorem Env.tunnel_silent (env : Env) (target : Target) (fromClient : Source) :
    records (env.tunnel target fromClient) = [] ∧
    ∀ ip port connected, Event.dial ip port connected ∉ env.tunnel target fromClient := by
  have hsplice : ∀ upstream client, records (env.splice upstream client fromClient) = [] ∧
      ∀ ip port connected,
        Event.dial ip port connected ∉ env.splice upstream client fromClient := by
    intro upstream client
    unfold Env.splice
    split <;> simp [records]
  unfold Env.tunnel
  split
  · split
    · simp [records]
    · next received client hwrite =>
      simpa [records] using hsplice env.upstream client
  · split
    · simp [records]
    · next received upstream hwrite =>
      simpa [records] using hsplice upstream env.client

/-- From the filter decision on: every dial is to a resolved address that the filter allowed, and
the one record says whether a dial succeeded. -/
theorem Env.decideHost_spec (env : Env) (target : Target) (fromClient : Source)
    (hreason : ∀ host ips, '\n' ∉ (env.checkHost host ips).reason.toList)
    (hhost : '\n' ∉ target.host.toList) :
    (∀ ip port connected, Event.dial ip port connected ∈ env.decideHost target fromClient →
      (env.checkHost target.host (env.resolved target)).isAllowed = true) ∧
    DialsOnly (env.resolved target) target.port (env.decideHost target fromClient) ∧
    ∃ record, records (env.decideHost target fromClient) = [record] ∧ OneLine record ∧
      (verdict record = "allow" ↔ Connected (env.decideHost target fromClient)) := by
  obtain ⟨hrecords, hdials, hconnected⟩ := env.dial_spec target.port 0 (env.resolved target)
  obtain ⟨htunnelRecords, htunnelDials⟩ := env.tunnel_silent target fromClient
  have hpeer := peerText_clean env
  have hfields := fields_clean hhost
  unfold Env.decideHost
  dsimp only
  split
  · next hallowed =>
    refine ⟨fun _ _ _ _ => hallowed, ?_⟩
    split
    · next dials hdial =>
      simp only [hdial] at hrecords hdials hconnected
      obtain ⟨ip, port, hmem⟩ := hconnected.mp trivial
      refine ⟨?_, "allow peer=" ++ env.peerText ++ target.fields ++ "\n", ?_,
        ⟨_, rfl, by simp [hpeer, hfields]⟩, ?_⟩
      · intro ip' p connected hmem'
        simp only [List.mem_append, List.mem_cons, logLine, reduceCtorEq,
          htunnelDials, or_false] at hmem'
        exact hdials _ _ _ hmem'
      · rw [records_append, records_cons_logLine, hrecords, htunnelRecords]
        rfl
      · refine ⟨fun _ => ⟨ip, port, List.mem_append_left _ hmem⟩, fun _ => ?_⟩
        simp only [String.append_assoc]
        exact verdict_allow _
    · next dials hdial =>
      simp only [hdial] at hrecords hdials hconnected
      refine ⟨?_, "refuse peer=" ++ env.peerText ++ target.fields ++ " reason=connect-failed" ++ "\n",
        ?_, ⟨_, rfl, by simp [hpeer, hfields]⟩, ?_⟩
      · intro ip' p connected hmem'
        simp only [List.mem_append, List.mem_cons, logLine, Env.reply, reduceCtorEq,
          List.not_mem_nil, or_false] at hmem'
        exact hdials _ _ _ hmem'
      · rw [records_append, records_cons_logLine, hrecords]
        rfl
      · simp only [String.append_assoc]
        rw [verdict_refuse]
        refine ⟨fun habsurd => absurd habsurd (by decide), fun ⟨ip, port, hmem⟩ => ?_⟩
        simp only [List.mem_append, List.mem_cons, logLine, Env.reply, reduceCtorEq,
          List.not_mem_nil, or_false] at hmem
        exact absurd (hconnected.mpr ⟨ip, port, hmem⟩) (by decide)
  · refine ⟨fun _ _ _ hmem => ?_, fun _ _ _ hmem => ?_, _, rfl,
      ⟨_, rfl, by simp [hpeer, hfields, hreason]⟩, ?_⟩
    · simp [logLine, Env.reply] at hmem
    · simp [logLine, Env.reply] at hmem
    · simp only [String.append_assoc]
      rw [verdict_refuse]
      refine ⟨fun habsurd => absurd habsurd (by decide), fun ⟨ip, port, hmem⟩ => ?_⟩
      simp [logLine, Env.reply] at hmem

/-- The head of the client's request was read to its end, or refused for what it holds; neither
the client nor the system cut it off. -/
def FullyRead (strerror : ℕ → String) (client : Client) : Prop :=
  match readTarget strerror client with
  | .ok none => False
  | .ok (some _) => True
  | .error e => e.kind = .invalidData

/-- The mediation of one connection by its effects. -/
structure Mediated (env : Env) (client : Client) (events : List Event) : Prop where
  /-- A dial follows a parsed and authorized request that the filter allowed, and goes to an
  address that was checked, at the port of the request. -/
  dial_checked : ∀ ip port connected, Event.dial ip port connected ∈ events →
    ∃ target reader, readTarget env.strerror client = .ok (some (target, reader)) ∧
      authorized env.base64Decode target.proxyAuth env.token = true ∧
      (env.checkHost target.host (env.resolved target)).isAllowed = true ∧
      ip ∈ env.resolved target ∧ port = target.port
  /-- A request that is not authorized is answered `407`, without a lookup or a dial. -/
  unauthorized : ∀ target reader, readTarget env.strerror client = .ok (some (target, reader)) →
    authorized env.base64Decode target.proxyAuth env.token = false →
    (∀ host port, Event.lookup host port ∉ events) ∧
    (∀ ip port connected, Event.dial ip port connected ∉ events) ∧
    ∃ line, events = [logLine line, env.reply (authRequired target.isConnect)]
  /-- Every request leaves one record, whose verdict is `allow` when a dial succeeded and `refuse`
  otherwise. -/
  one_record : readTarget env.strerror client ≠ .ok none → ∃ record, records events = [record] ∧
    (verdict record = "allow" ↔ Connected events) ∧ (FullyRead env.strerror client → OneLine record)

/-- `handle_connection` mediates whatever the client sends and however it arrives. -/
theorem Env.handleConnection_mediated (env : Env)
    (hreason : ∀ host ips, '\n' ∉ (env.checkHost host ips).reason.toList) (client : Client) :
    Mediated env client (env.handleConnection client) := by
  have hpeer := peerText_clean env
  unfold Env.handleConnection
  cases htarget : readTarget env.strerror client with
  | error e =>
    refine ⟨fun _ _ _ hmem => ?_, fun _ _ h _ => ?_, fun _ => ⟨_, rfl, ?_, fun hread => ?_⟩⟩
    · simp [logLine, Env.reply] at hmem
    · rw [htarget] at h
      cases h
    · simp only [String.append_assoc]
      rw [verdict_refuse]
      refine ⟨fun habsurd => absurd habsurd (by decide), fun ⟨ip, port, hmem⟩ => ?_⟩
      simp [logLine, Env.reply] at hmem
    · have hclean : '\n' ∉ e.text.toList :=
        readTarget_error htarget (by simpa [FullyRead, htarget] using hread)
      exact ⟨_, rfl, by simp [hpeer, hclean]⟩
  | ok result =>
    cases result with
    | none =>
      refine ⟨fun _ _ _ hmem => (List.not_mem_nil hmem).elim, fun _ _ h _ => ?_,
        fun h => (h htarget).elim⟩
      rw [htarget] at h
      cases h
    | some parsed =>
      obtain ⟨target, reader⟩ := parsed
      dsimp only
      split
      · next hauthorized =>
        obtain ⟨hallowed, hdials, record, hrecord, hline, hverdict⟩ :=
          env.decideHost_spec target reader.source hreason (readTarget_host htarget)
        refine ⟨fun ip port connected hmem => ?_, fun target' reader' h hnot => ?_, fun _ =>
          ⟨record, hrecord, ?_, fun _ => hline⟩⟩
        · have hmem : Event.dial ip port connected ∈ env.decideHost target reader.source := by
            simpa using hmem
          exact ⟨target, reader, htarget, hauthorized, hallowed _ _ _ hmem, hdials _ _ _ hmem⟩
        · rw [htarget] at h
          simp only [Except.ok.injEq, Option.some.injEq, Prod.mk.injEq] at h
          rw [← h.1, hauthorized] at hnot
          cases hnot
        · simpa [Connected] using hverdict
      · refine ⟨fun _ _ _ hmem => ?_, fun target' reader' h _ => ?_, fun _ =>
          ⟨_, rfl, ?_, fun _ => ⟨_, rfl, by simp [hpeer]⟩⟩⟩
        · simp [logLine, Env.reply] at hmem
        · rw [htarget] at h
          simp only [Except.ok.injEq, Option.some.injEq, Prod.mk.injEq] at h
          exact ⟨by simp [logLine, Env.reply], by simp [logLine, Env.reply], _, by rw [← h.1]⟩
        · simp only [String.append_assoc]
          rw [verdict_refuse]
          refine ⟨fun habsurd => absurd habsurd (by decide), fun ⟨ip, port, hmem⟩ => ?_⟩
          simp [logLine, Env.reply] at hmem

/-- Complete mediation on both listeners: a client that reaches `handle_connection` is mediated,
and one that the bridge dropped has no effect at all. -/
theorem served_mediated (env : Env)
    (hreason : ∀ host ips, '\n' ∉ (env.checkHost host ips).reason.toList)
    {listener : Listener} {stream : Source} {client : Option Client} {events : List Event}
    (hserved : Served env listener stream client events) :
    match client with
    | none => events = []
    | some client => Mediated env client events := by
  cases hserved with
  | accepted client => exact env.handleConnection_mediated hreason client
  | unbridged => rfl
  | bridged _ client _ => exact env.handleConnection_mediated hreason client

/-- A proxy whose token is `secret`, with a filter that allows one host and an upstream that
answers. -/
def sampleEnv : Env where
  strerror _ := ""
  base64Decode s := if s = "c2VjcmV0Og==" then some (Utf8.encode "secret:") else none
  checkHost host _ := if host = "example.com" then ⟨true, ""⟩ else ⟨false, "not in network.allow"⟩
  lookup _ _ := some [.v4 1]
  connect _ _ _ := true
  token := "secret"
  peer := some ⟨(127, 0, 0, 1), 40000⟩
  client := ⟨none⟩
  upstream := ⟨none⟩
  answer := ⟨[], .eof⟩
  canSplice := true

/-- The head of an authorized `CONNECT` request. -/
def sampleHead : String :=
  "CONNECT example.com:443 HTTP/1.1\r\nProxy-Authorization: Basic c2VjcmV0Og==\r\n\r\n"

/-- A client that sends the head of its request on its own. -/
def sampleClient : Client where
  source := ⟨[⟨Utf8.encode sampleHead, by decide, by decide⟩], .eof⟩
  dupErrno := none

/-- The authorized request of the sample client, on the loopback listener. -/
theorem served_mediated_sample :
    Mediated sampleEnv sampleClient (sampleEnv.handleConnection sampleClient) ∧
      records (sampleEnv.handleConnection sampleClient) =
        ["allow peer=127.0.0.1:40000 host=example.com port=443\n"] := by
  refine ⟨served_mediated sampleEnv ?_ (.accepted sampleClient), by decide +kernel⟩
  intro host ips
  unfold sampleEnv
  dsimp only
  split <;> decide

end Devcroft.Proxy
