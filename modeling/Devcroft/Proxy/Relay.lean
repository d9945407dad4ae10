import Devcroft.Library.Copying
import Devcroft.Proxy.Head
import Devcroft.Proxy.Mediation

/-!
# The way out of a network namespace

A sandbox with a network namespace of its own has no route to the loopback of the host.
`relay_to_host_proxy` accepts in the namespace and copies to a unix socket, and
`bridge_unix_to_tcp` copies from there to the port of the proxy. Neither looks at what it
copies: the proxy decides about a request that came this way as about one that came directly.
-/

namespace Devcroft.Proxy

open Buffered Conduit

/-- How `io::copy` copies. -/
def ioCopy : Manner := ⟨none, false⟩

section Deciding

/-- Two readers have the same ahead of them, in whatever reads it comes. -/
def Alike (r r' : Reader) : Prop := r.bytes = r'.bytes ∧ r.source.ending = r'.source.ending

/-- The same line is read of what is alike. -/
theorem Alike.readUntil {r r' : Reader} (h : Alike r r') (delim : UInt8) (limit : ℕ) :
    (∃ errno, r.readUntil delim limit = .error errno ∧ r'.readUntil delim limit = .error errno) ∨
    ∃ line q q', r.readUntil delim limit = .ok (line, q) ∧
      r'.readUntil delim limit = .ok (line, q') ∧ Alike q q' := by
  have hsame : handedOut (r.readUntil delim limit) = handedOut (r'.readUntil delim limit) := by
    unfold Reader.readUntil
    rw [handedOut_readUntil, handedOut_readUntil _ _ _ _ r'.buffer, h.2]
    exact congrArg (fun bytes => handedOut (Buffered.readUntil _ _ _ _ bytes)) h.1
  cases hread : r.readUntil delim limit with
  | error errno =>
    cases hread' : r'.readUntil delim limit with
    | error errno' =>
      rw [hread, hread'] at hsame
      exact Or.inl ⟨errno, rfl, congrArg _ (Except.error.inj hsame).symm⟩
    | ok result' =>
      rw [hread, hread'] at hsame
      cases hsame
  | ok result =>
    cases hread' : r'.readUntil delim limit with
    | error errno' =>
      rw [hread, hread'] at hsame
      cases hsame
    | ok result' =>
      obtain ⟨line, q⟩ := result
      obtain ⟨line', q'⟩ := result'
      rw [hread, hread'] at hsame
      obtain ⟨hline, hbytes⟩ := Prod.mk.inj (Except.ok.inj hsame)
      obtain rfl : line = line' := hline
      refine Or.inr ⟨line, q, q', rfl, rfl, hbytes, ?_⟩
      rw [readUntil_ending hread, readUntil_ending hread', h.2]

/-- A capped line is read alike. -/
theorem Alike.readCappedLine {r r' : Reader} (h : Alike r r') (strerror : ℕ → String)
    (budget : ℕ) :
    (∃ e, Proxy.readCappedLine strerror r budget = .error e ∧
      Proxy.readCappedLine strerror r' budget = .error e) ∨
    ∃ line line', Proxy.readCappedLine strerror r budget = .ok line ∧
      Proxy.readCappedLine strerror r' budget = .ok line' ∧ line.out = line'.out ∧
      line.n = line'.n ∧ line.budget = line'.budget ∧ Alike line.reader line'.reader := by
  by_cases hzero : budget = 0
  · left
    rw [Proxy.readCappedLine, Proxy.readCappedLine, if_pos hzero, if_pos hzero]
    exact ⟨_, rfl, rfl⟩
  · obtain ⟨errno, hread, hread'⟩ | ⟨bytes, q, q', hread, hread', halike⟩ :=
      h.readUntil Utf8.newline budget
    · left
      simp only [Proxy.readCappedLine, readLine, if_neg hzero, hread, hread']
      exact ⟨_, rfl, rfl⟩
    · cases hdecode : Utf8.decode bytes with
      | none =>
        left
        simp only [Proxy.readCappedLine, readLine, if_neg hzero, hread, hread', hdecode]
        exact ⟨_, rfl, rfl⟩
      | some out =>
        by_cases hlast : bytes.length = budget ∧ out.toList.getLast? ≠ some '\n'
        · left
          simp only [Proxy.readCappedLine, readLine, if_neg hzero, hread, hread', hdecode,
            if_pos hlast]
          exact ⟨_, rfl, rfl⟩
        · right
          simp only [Proxy.readCappedLine, readLine, if_neg hzero, hread, hread', hdecode,
            if_neg hlast]
          exact ⟨_, _, rfl, rfl, rfl, rfl, rfl, halike⟩

/-- The headers are read alike. -/
theorem Alike.readHeaders {r r' : Reader} (h : Alike r r') (strerror : ℕ → String) (budget : ℕ)
    (head : Head) :
    (Proxy.readHeaders strerror r budget head).map Prod.fst =
      (Proxy.readHeaders strerror r' budget head).map Prod.fst := by
  fun_induction Proxy.readHeaders strerror r budget head generalizing r' with
  | case1 r budget head e hread =>
    obtain ⟨e', he, he'⟩ | ⟨line, line', hline, -⟩ := h.readCappedLine strerror budget
    · rw [hread] at he
      rw [readHeaders_of_error he', Except.error.inj he]
    · rw [hread] at hline
      cases hline
  | case2 r budget head line hread hend =>
    obtain ⟨e', he, -⟩ | ⟨line₀, line', hline, hline', hout, hn, -⟩ :=
      h.readCappedLine strerror budget
    · rw [hread] at he
      cases he
    · rw [hread] at hline
      obtain rfl := Except.ok.inj hline
      rw [readHeaders_of_ok hline', if_pos (by rw [← hout, ← hn]; exact hend), hout]
      rfl
  | case3 r budget head line hread hend ih =>
    obtain ⟨e', he, -⟩ | ⟨line₀, line', hline, hline', hout, hn, hbudget, halike⟩ :=
      h.readCappedLine strerror budget
    · rw [hread] at he
      cases he
    · rw [hread] at hline
      obtain rfl := Except.ok.inj hline
      rw [readHeaders_of_ok hline', if_neg (by rw [← hout, ← hn]; exact hend), ← hout, ← hbudget]
      exact ih halike

/-- Two clients send the same, and end it in the same way. -/
structure SendSame (client client' : Client) : Prop where
  bytes : client.source.bytes = client'.source.bytes
  ending : client.source.ending = client'.source.ending
  dupErrno : client.dupErrno = client'.dupErrno

/-- What is read of a client depends on what it sends, not on how it is cut into reads. -/
theorem SendSame.readTarget {client client' : Client} (h : SendSame client client')
    (strerror : ℕ → String) :
    (Proxy.readTarget strerror client).map (Option.map Prod.fst) =
      (Proxy.readTarget strerror client').map (Option.map Prod.fst) := by
  have halike : Alike (Reader.new client.source) (Reader.new client'.source) := ⟨h.bytes, h.ending⟩
  unfold Proxy.readTarget
  rw [← h.dupErrno]
  cases client.dupErrno with
  | some errno => rfl
  | none =>
    obtain ⟨e, he, he'⟩ | ⟨line, line', hline, hline', hout, hn, hbudget, hrest⟩ :=
      halike.readCappedLine strerror MAX_HEADER_BYTES
    · simp only [he, he']
    · simp only [hline, hline', ← hout, ← hn, ← hbudget]
      split
      · rfl
      · split
        · next method targetStr rest hpieces =>
          have hheaders := hrest.readHeaders strerror line.budget ⟨Utf8.encode line.out, none, none⟩
          revert hheaders
          generalize Proxy.readHeaders strerror line.reader _ _ = headers
          generalize Proxy.readHeaders strerror line'.reader _ _ = headers'
          intro hheaders
          match headers, headers', hheaders with
          | .error e, .error e', hheaders => rw [Except.error.inj hheaders]
          | .ok result, .ok result', hheaders =>
            have hhead : result.1 = result'.1 := Except.ok.inj hheaders
            simp only [hhead]
            cases targetOf method targetStr result'.1 <;> rfl
        · rfl

/-- An effect is a part of the decision about a connection, not of what is passed on. -/
def Event.decides : Event → Bool
  | lookup _ _ | dial _ _ _ | log _ => true
  | toClient _ | toUpstream _ => false

/-- The decision about a connection: what is looked up, dialled and logged. -/
def decisions (events : List Event) : List Event := events.filter Event.decides

theorem decisions_tunnel (env : Env) (target : Target) (fromClient : Source) :
    decisions (env.tunnel target fromClient) = [] := by
  have hsplice : ∀ upstream client, decisions (env.splice upstream client fromClient) = [] := by
    intro upstream client
    unfold Env.splice
    split <;> rfl
  unfold Env.tunnel
  split
  · split
    · rfl
    · exact hsplice _ _
  · split
    · rfl
    · exact hsplice _ _

/-- What is decided about a target does not depend on what is still to be read of the client. -/
theorem decisions_decideHost (env : Env) (target : Target) (source source' : Source) :
    decisions (env.decideHost target source) = decisions (env.decideHost target source') := by
  unfold Env.decideHost
  dsimp only
  split
  · split
    · simp only [decisions, List.filter_append, List.filter_cons]
      have htunnel := decisions_tunnel env target
      simp only [decisions] at htunnel
      rw [htunnel, htunnel]
    · rfl
  · rfl

/-- The decision about a connection depends on what the client sends, not on how it is cut into
reads. -/
theorem SendSame.decisions {client client' : Client} (h : SendSame client client') (env : Env) :
    decisions (env.handleConnection client) = decisions (env.handleConnection client') := by
  have htarget := h.readTarget env.strerror
  unfold Env.handleConnection
  revert htarget
  generalize Proxy.readTarget env.strerror client = result
  generalize Proxy.readTarget env.strerror client' = result'
  intro htarget
  rcases result with e | _ | ⟨target, reader⟩ <;> rcases result' with e' | _ | ⟨target', reader'⟩ <;>
    simp only [Except.map, Option.map, reduceCtorEq, Except.error.injEq, Except.ok.injEq,
      Option.some.injEq] at htarget
  · rw [htarget]
  · rfl
  · subst htarget
    dsimp only
    split
    · exact congrArg (_ :: ·) (decisions_decideHost env target reader.source reader'.source)
    · rfl

end Deciding

/-- What a client in a network namespace of its own gets of the proxy: whatever fails on the way,
each side reads a first part of what the other has sent; and if nothing fails, the connection looks
from its ends like a direct one, who finds the end of it has read everything, and the proxy decides
as it would about a client that connects to it directly and sends the same. -/
theorem relayed_decided {acts : List (DuplexAct UInt8)} {c : Duplex UInt8}
    (h : (Duplex.start [ioCopy, ioCopy]).run acts = some c) :
    let up := acts.filterMap DuplexAct.upward
    let down := acts.filterMap DuplexAct.downward
    Conduit.received up <+: Conduit.sent up ∧ Conduit.received down <+: Conduit.sent down ∧
    ((∀ a ∈ up, a.fails = false) →
      ((Path.start []).run (up.filter fun a => a.seen.isSome)).isSome ∧
      (.eof ∈ up → Conduit.received up = Conduit.sent up ∧
        ∀ (env : Env) (relayed direct : Client),
          relayed.source.bytes = Conduit.received up → direct.source.bytes = Conduit.sent up →
          relayed.source.ending = direct.source.ending → relayed.dupErrno = direct.dupErrno →
          decisions (env.handleConnection relayed) = decisions (env.handleConnection direct))) ∧
    ((∀ a ∈ down, a.fails = false) →
      ((Path.start []).run (down.filter fun a => a.seen.isSome)).isSome ∧
      (.eof ∈ down → Conduit.received down = Conduit.sent down)) := by
  intro up down
  obtain ⟨hup, hdown⟩ := Duplex.run_directions h
  refine ⟨Conduit.received_isPrefix hup, Conduit.received_isPrefix hdown,
    fun hfails => ⟨Path.run_seen hup hfails, fun heof => ?_⟩,
    fun hfails => ⟨Path.run_seen hdown hfails, received_of_eof hdown hfails⟩⟩
  have hall := received_of_eof hup hfails heof
  refine ⟨hall, fun env relayed direct hrelayed hdirect hending hdup => ?_⟩
  exact SendSame.decisions ⟨by rw [hrelayed, hdirect, hall], hending, hdup⟩ env

/-- A request in two parts. -/
def requestParts : List UInt8 × List UInt8 :=
  (Utf8.encode "CONNECT h:443 ", Utf8.encode "HTTP/1.1\r\n\r\n")

/-- It is sent at once, and comes to the proxy in two reads. -/
def relayedRequest : List (DuplexAct UInt8) :=
  [.send (requestParts.1 ++ requestParts.2), .close, .hop 0 (.read requestParts.1),
    .hop 0 (.write requestParts.1.length), .hop 1 (.read requestParts.1),
    .hop 1 (.write requestParts.1.length), .receive requestParts.1, .hop 0 (.read requestParts.2),
    .hop 0 (.write requestParts.2.length), .hop 0 .eof, .hop 0 .shutdown,
    .hop 1 (.read requestParts.2), .hop 1 (.write requestParts.2.length), .hop 1 .eof,
    .receive requestParts.2, .hop 1 .shutdown, .eof].map .up

/-- The proxy decides about it as about one that comes in one read. -/
theorem relayed_decided_request :
    decisions (sampleEnv.handleConnection
        ⟨⟨[⟨requestParts.1, by decide, by decide⟩, ⟨requestParts.2, by decide, by decide⟩], .eof⟩,
          none⟩) =
      decisions (sampleEnv.handleConnection
        ⟨⟨[⟨requestParts.1 ++ requestParts.2, by decide, by decide⟩], .eof⟩, none⟩) := by
  have hrun : ((Duplex.start [ioCopy, ioCopy]).run relayedRequest).isSome := by decide +kernel
  obtain ⟨c, hc⟩ := Option.isSome_iff_exists.mp hrun
  refine (((relayed_decided hc).2.2.1 ?_).2 ?_).2 sampleEnv _ _ ?_ ?_ rfl rfl
  · decide +kernel
  · decide +kernel
  · decide +kernel
  · decide +kernel

end Devcroft.Proxy
