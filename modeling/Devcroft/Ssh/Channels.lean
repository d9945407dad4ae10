import Devcroft.Keeper.Consistency
import Devcroft.Library.Interleaving

/-!
# The channels of an SSH connection

The handler records the process group that it spawns on a channel under the number of
the channel, and forgets the record that was there. Which groups can still be signalled
when their channel is closed, and what a client can put into their environment.
-/

namespace Devcroft.Ssh

open Keeper Interleaving

/-- The channel on which a request starts a session. -/
def Call.sessionChannel : Call → Option ℕ
  | shellRequest channel => some channel
  | execRequest channel _ => some channel
  | _ => none

/-- Whether the handler replies to a request. -/
def Call.replies : Call → Bool
  | ptyRequest .. => true
  | envRequest .. => true
  | shellRequest _ => true
  | execRequest .. => true
  | subsystemRequest .. => true
  | _ => false

/-- The environment that a session on a channel would be started with. -/
def SshConn.pendingEnv (c : SshConn) (channel : ℕ) : List (String × String) :=
  ((c.pending channel).getD .default).env

/-- The sessions that were started on a channel since it was last closed, after another call. -/
def Call.note (c : SshConn) (channel : ℕ) (reply : Reply) (sessions : List ℕ) (request : Call) :
    List ℕ :=
  if request = .channelClose channel then []
  else if request.sessionChannel = some channel ∧ reply.pid.isSome = true then c.spawned :: sessions
  else sessions

/-- The sessions after another step of the keeper. -/
def noteStep (k channel : ℕ) (sessions : List ℕ) (p : KeeperState × Act) : List ℕ :=
  match p.2 with
  | .ssh k' (.call request reply) =>
    if k' = k then request.note (p.1.ssh k) channel reply sessions else sessions
  | _ => sessions

/-- The sessions that a connection has started on a channel since it was last closed. -/
def openSessions (k channel : ℕ) (past : List (KeeperState × Act)) : List ℕ :=
  past.foldl (noteStep k channel) []

@[simp] theorem openSessions_append (k channel : ℕ) (past : List (KeeperState × Act))
    (p : KeeperState × Act) :
    openSessions k channel (past ++ [p]) = noteStep k channel (openSessions k channel past) p := by
  rw [openSessions, List.foldl_append, ← openSessions]
  rfl

/-- A process group is recorded for the channel, so that closing the channel signals it. -/
def SshConn.Records (c : SshConn) (channel session : ℕ) (g : Group) : Prop :=
  ∃ a, c.active channel = some a ∧ a.session = session ∧ a.pgid = g.pgid

/-- The session recorded for a channel still runs. -/
def Occupied (k : ℕ) (s : KeeperState) (channel : ℕ) : Prop :=
  ∃ a, (s.ssh k).active channel = some a ∧
    ∃ g ∈ s.shared.groups, g.origin = .ssh k a.session ∧ g.running

/-- A step that forgets no group that runs: a session is not started on a channel whose recorded
session still runs, and is answered; and the connection does not end, by a reply that cannot be sent
or by itself, while one runs. -/
def KeepsRecords (k : ℕ) (s : KeeperState) : Act → Prop
  | .ssh k' (.call request reply) => k' = k →
    (∀ channel, request.sessionChannel = some channel → reply.pid.isSome = true →
      ¬Occupied k s channel ∧ reply.sent = true) ∧
    (request.replies = true → reply.sent = false → ∀ channel, ¬Occupied k s channel)
  | .ssh k' .disconnect => k' = k → ∀ channel, ¬Occupied k s channel
  | _ => True

instance (k : ℕ) (s : KeeperState) (channel : ℕ) : Decidable (Occupied k s channel) :=
  match h : (s.ssh k).active channel with
  | none => .isFalse fun ⟨_, ha, _⟩ => by rw [h] at ha; cases ha
  | some a => decidable_of_iff (∃ g ∈ s.shared.groups, g.origin = .ssh k a.session ∧ g.running)
      ⟨fun hg => ⟨a, h, hg⟩, fun ⟨_, ha, hg⟩ => by rw [h] at ha; cases ha; exact hg⟩

/-- A step that can be seen to forget none: every reply is sent, and a session is started on a
channel that is free. -/
def Careful (k : ℕ) (s : KeeperState) : Act → Prop
  | .ssh _ (.call request reply) =>
    reply.sent = true ∧ ∀ channel ∈ request.sessionChannel, ¬Occupied k s channel
  | .ssh _ .disconnect => False
  | _ => True

instance (k : ℕ) (s : KeeperState) (a : Act) : Decidable (Careful k s a) := by
  unfold Careful
  split <;> infer_instance

theorem Careful.keepsRecords {k : ℕ} {s : KeeperState} {a : Act} (h : Careful k s a) :
    KeepsRecords k s a := by
  unfold KeepsRecords
  split
  · next request reply =>
    intro _
    constructor
    · intro channel hchannel _
      exact ⟨h.2 channel hchannel, h.1⟩
    · intro _ hsent
      rw [h.1] at hsent
      cases hsent
  · exact h.elim
  · trivial

/-- A variable that a client may set and that it sent on a channel. -/
def Sent (k : ℕ) (past : List (KeeperState × Act)) (channel : ℕ) (entry : String × String) : Prop :=
  (entry.1 = "TERM" ∨ entry.1 = "LANG" ∨ ∃ rest, entry.1 = "LC_" ++ rest) ∧
  ∃ p ∈ past, ∃ reply, p.2 = .ssh k (.call (.envRequest channel entry.1 entry.2) reply)

/-- A session was started by a request on a channel, with variables that were sent on it before. -/
def StartedWith (k : ℕ) (past : List (KeeperState × Act)) (session : ℕ)
    (vars : List (String × String)) : Prop :=
  ∃ before s request reply after channel,
    past = before ++ (s, .ssh k (.call request reply)) :: after ∧
    request.sessionChannel = some channel ∧ reply.pid.isSome = true ∧
    (s.ssh k).spawned = session ∧ ∀ entry ∈ vars, Sent k before channel entry

/-- What a call of the handler does with what is recorded for the channels. -/
inductive SshConn.CallStep (k : ℕ) (c : SshConn) (groups : List Group) (request : Call)
    (reply : Reply) (c' : SshConn) (groups' : List Group) : Prop
  | keeps (note : ∀ channel sessions, request.note c channel reply sessions = sessions)
      (spawned : c'.spawned = c.spawned)
      (active : ∀ channel a, c.active channel = some a →
        ∃ a', c'.active channel = some a' ∧ a'.session = a.session ∧ a'.pgid = a.pgid)
      (groups : groups' = groups)
  | ends (note : ∀ channel sessions, request.note c channel reply sessions = sessions)
      (replies : request.replies = true) (sent : reply.sent = false)
      (spawned : c'.spawned = c.spawned) (groups : groups' = groups)
  | closes (channel : ℕ) (request_eq : request = .channelClose channel)
      (spawned : c'.spawned = c.spawned)
      (active : ∀ channel', channel' ≠ channel → c'.active channel' = c.active channel')
      (groups : groups' = groups ∨ ∃ target, groups' = kill target SIGTERM groups)
  | starts (channel pid : ℕ) (req : SpawnRequest) (session : request.sessionChannel = some channel)
      (reply_pid : reply.pid = some pid) (env : req.env = c.pendingEnv channel)
      (spawned : c'.spawned = c.spawned + 1)
      (active : reply.sent = true →
        (∃ a, c'.active channel = some a ∧ a.session = c.spawned ∧ a.pgid = pid) ∧
        ∀ channel', channel' ≠ channel → c'.active channel' = c.active channel')
      (groups : spawnGroup pid (.ssh k c.spawned) req groups = some groups')

section Calls

variable {k : ℕ} {env : ServerEnv} {c c' : SshConn} {groups groups' : List Group} {reply : Reply}
  {request : Call}

/-- A request that starts nothing and closes nothing changes nothing about the sessions. -/
theorem Call.note_of_none (h : request.sessionChannel = none ∨ reply.pid = none)
    (hclose : ∀ channel, request ≠ .channelClose channel) (channel : ℕ) (sessions : List ℕ) :
    request.note c channel reply sessions = sessions := by
  rw [Call.note, if_neg (hclose channel), if_neg]
  rintro ⟨hchannel, hpid⟩
  rcases h with h | h
  · rw [h] at hchannel
    cases hchannel
  · rw [h] at hpid
    cases hpid

/-- Closing a channel closes its sessions. -/
theorem Call.note_channelClose (closed channel : ℕ) (sessions : List ℕ) :
    (Call.channelClose closed).note c channel reply sessions =
      if channel = closed then [] else sessions := by
  by_cases h : channel = closed
  · rw [Call.note, if_pos (congrArg _ h.symm), if_pos h]
  · rw [Call.note, if_neg fun heq => h (Call.channelClose.inj heq).symm, if_neg h]
    exact if_neg fun hstart => by cases hstart.1

/-- A session that is started is open on its channel. -/
theorem Call.note_started {started : ℕ} (hchannel : request.sessionChannel = some started)
    (hpid : reply.pid.isSome = true) (channel : ℕ) (sessions : List ℕ) :
    request.note c channel reply sessions =
      if channel = started then c.spawned :: sessions else sessions := by
  have hclose : request ≠ .channelClose channel := by
    rintro rfl
    cases hchannel
  rw [Call.note, if_neg hclose, hchannel]
  by_cases h : channel = started
  · rw [if_pos h, if_pos ⟨congrArg some h.symm, hpid⟩]
  · rw [if_neg h, if_neg fun hstart => h (Option.some.inj hstart.1).symm]

/-- A reply to such a request, which may end the connection. -/
theorem SshConn.replied_step (h : request.sessionChannel = none ∨ reply.pid = none)
    (hclose : ∀ channel, request ≠ .channelClose channel) (hreplies : request.replies = true)
    (hspawned : c'.spawned = c.spawned) (hactive : c'.active = c.active) :
    c.CallStep k groups request reply (c'.replied reply) groups := by
  unfold SshConn.replied
  split
  · refine .keeps (Call.note_of_none h hclose) hspawned (fun channel a ha => ?_) rfl
    exact ⟨a, by rw [hactive]; exact ha, rfl, rfl⟩
  · next hsent =>
    exact .ends (Call.note_of_none h hclose) hreplies (by simpa using hsent) hspawned rfl

/-- What starting a session does. -/
theorem SshConn.startSession_step {channel : ℕ} {cmd : String} {args : List String}
    (hchannel : request.sessionChannel = some channel) (hreplies : request.replies = true)
    (hclose : ∀ channel, request ≠ .channelClose channel)
    (h : c.startSession k env channel cmd args reply groups = some (c', groups')) :
    c.CallStep k groups request reply c' groups' := by
  unfold SshConn.startSession at h
  dsimp only at h
  split at h
  · next hpid =>
    obtain ⟨rfl, rfl⟩ := Prod.mk.inj (Option.some.inj h)
    exact SshConn.replied_step (Or.inr hpid) hclose hreplies rfl rfl
  · next pid hpid =>
    obtain ⟨spawned, hspawn, heq⟩ := Option.map_eq_some_iff.mp h
    split at heq
    · obtain ⟨rfl, rfl⟩ := Prod.mk.inj heq
      refine .starts channel pid _ hchannel hpid rfl rfl
        (fun _ => ⟨?_, fun channel' hne => ?_⟩) hspawn
      · exact ⟨_, insertAt_self _ _ _, rfl, rfl⟩
      · exact insertAt_of_ne hne
    · next hsent =>
      obtain ⟨rfl, rfl⟩ := Prod.mk.inj heq
      exact .starts channel pid _ hchannel hpid rfl rfl (fun h => (hsent h).elim) hspawn

/-- Changing what a record holds beside its session and process group. -/
theorem SshConn.edited_step {channel : ℕ} {f : ActiveSession → ActiveSession}
    (hf : ∀ a, (f a).session = a.session ∧ (f a).pgid = a.pgid)
    (hnote : ∀ channel sessions, request.note c channel reply sessions = sessions)
    (h : (match c.active channel with
      | none => some (c, groups)
      | some active =>
        some ({ c with active := insertAt c.active channel (some (f active)) }, groups)) =
      some (c', groups')) : c.CallStep k groups request reply c' groups' := by
  split at h
  · obtain ⟨rfl, rfl⟩ := Prod.mk.inj (Option.some.inj h)
    exact .keeps hnote rfl (fun _ a ha => ⟨a, ha, rfl, rfl⟩) rfl
  · next active hactive =>
    obtain ⟨rfl, rfl⟩ := Prod.mk.inj (Option.some.inj h)
    refine .keeps hnote rfl (fun channel' a ha => ?_) rfl
    by_cases hne : channel' = channel
    · subst hne
      rw [hactive] at ha
      obtain rfl := Option.some.inj ha
      exact ⟨f active, insertAt_self _ _ _, hf active⟩
    · exact ⟨a, (insertAt_of_ne hne).trans ha, rfl, rfl⟩

/-- Every call of the handler is one of these. -/
theorem SshConn.call_cases (h : c.call k env reply groups request = some (c', groups')) :
    c.CallStep k groups request reply c' groups' := by
  cases request with
  | channelOpenSession channel =>
    obtain ⟨rfl, rfl⟩ := Prod.mk.inj (Option.some.inj h)
    exact .keeps (Call.note_of_none (Or.inl rfl) (by simp)) rfl
      (fun _ a ha => ⟨a, ha, rfl, rfl⟩) rfl
  | ptyRequest channel colWidth rowHeight =>
    obtain ⟨rfl, rfl⟩ := Prod.mk.inj (Option.some.inj h)
    exact SshConn.replied_step (Or.inl rfl) (by simp) rfl rfl rfl
  | envRequest channel name value =>
    simp only [SshConn.call] at h
    split at h
    · obtain ⟨rfl, rfl⟩ := Prod.mk.inj (Option.some.inj h)
      exact SshConn.replied_step (Or.inl rfl) (by simp) rfl rfl rfl
    · obtain ⟨rfl, rfl⟩ := Prod.mk.inj (Option.some.inj h)
      exact SshConn.replied_step (Or.inl rfl) (by simp) rfl rfl rfl
  | shellRequest channel => exact SshConn.startSession_step rfl rfl (by simp) h
  | execRequest channel command => exact SshConn.startSession_step rfl rfl (by simp) h
  | windowChangeRequest channel colWidth rowHeight =>
    exact SshConn.edited_step (f := fun active => { active with
      pty := active.pty.map fun _ => ⟨rowHeight.toUInt16, colWidth.toUInt16⟩ })
      (fun _ => ⟨rfl, rfl⟩) (Call.note_of_none (Or.inl rfl) (by simp)) h
  | data channel bytes =>
    exact SshConn.edited_step
      (f := fun active => { active with stdin := active.stdin && reply.stdinTakes })
      (fun _ => ⟨rfl, rfl⟩) (Call.note_of_none (Or.inl rfl) (by simp)) h
  | channelEof channel =>
    exact SshConn.edited_step (f := fun active => { active with stdin := false })
      (fun _ => ⟨rfl, rfl⟩) (Call.note_of_none (Or.inl rfl) (by simp)) h
  | channelClose channel =>
    have hclosed := Option.some.inj h
    unfold SshConn.channelClose at hclosed
    split at hclosed
    · obtain ⟨rfl, rfl⟩ := Prod.mk.inj hclosed
      exact .closes channel rfl rfl (fun _ hne => insertAt_of_ne hne) (Or.inl rfl)
    · obtain ⟨rfl, rfl⟩ := Prod.mk.inj hclosed
      exact .closes channel rfl rfl (fun _ hne => insertAt_of_ne hne) (Or.inr ⟨_, rfl⟩)
  | subsystemRequest channel name =>
    simp only [SshConn.call] at h
    split at h
    · obtain ⟨rfl, rfl⟩ := Prod.mk.inj (Option.some.inj h)
      exact SshConn.replied_step (Or.inl rfl) (by simp) rfl rfl rfl
    · obtain ⟨rfl, rfl⟩ := Prod.mk.inj (Option.some.inj h)
      exact SshConn.replied_step (Or.inl rfl) (by simp) rfl rfl rfl

section Pending

variable {channel ch : ℕ} {entry : String × String}

/-- What is pending for the channels where it is replaced for one. -/
theorem SshConn.pendingEnv_of_insertAt {pending : Option PendingChannel}
    (h : c'.pending = insertAt c.pending ch pending) (channel : ℕ) : c'.pendingEnv channel =
      if channel = ch then (pending.getD .default).env else c.pendingEnv channel := by
  unfold SshConn.pendingEnv
  rw [h]
  by_cases hch : channel = ch
  · rw [if_pos hch, hch, insertAt_self]
  · rw [if_neg hch, insertAt_of_ne hch]

/-- Where it is removed for one. -/
theorem SshConn.mem_pendingEnv_of_removed (h : c'.pending = insertAt c.pending ch none)
    (hentry : entry ∈ c'.pendingEnv channel) : entry ∈ c.pendingEnv channel := by
  rw [SshConn.pendingEnv_of_insertAt h] at hentry
  split at hentry
  · cases hentry
  · exact hentry

/-- A reply that cannot be sent ends the connection, with all that is pending. -/
theorem SshConn.mem_pendingEnv_of_replied (hentry : entry ∈ (c'.replied reply).pendingEnv channel) :
    entry ∈ c'.pendingEnv channel := by
  unfold SshConn.replied at hentry
  split at hentry
  · exact hentry
  · cases hentry

theorem SshConn.startSession_pendingEnv {cmd : String} {args : List String}
    (h : c.startSession k env ch cmd args reply groups = some (c', groups'))
    (hentry : entry ∈ c'.pendingEnv channel) : entry ∈ c.pendingEnv channel := by
  unfold SshConn.startSession at h
  dsimp only at h
  split at h
  · obtain ⟨rfl, rfl⟩ := Prod.mk.inj (Option.some.inj h)
    exact SshConn.mem_pendingEnv_of_removed rfl (SshConn.mem_pendingEnv_of_replied hentry)
  · obtain ⟨spawned, -, heq⟩ := Option.map_eq_some_iff.mp h
    split at heq
    · obtain ⟨rfl, rfl⟩ := Prod.mk.inj heq
      exact SshConn.mem_pendingEnv_of_removed rfl hentry
    · obtain ⟨rfl, rfl⟩ := Prod.mk.inj heq
      cases hentry

theorem SshConn.edited_pendingEnv {f : ActiveSession → ActiveSession}
    (h : (match c.active ch with
      | none => some (c, groups)
      | some active => some ({ c with active := insertAt c.active ch (some (f active)) }, groups)) =
        some (c', groups'))
    (hentry : entry ∈ c'.pendingEnv channel) : entry ∈ c.pendingEnv channel := by
  split at h
  · obtain ⟨rfl, rfl⟩ := Prod.mk.inj (Option.some.inj h)
    exact hentry
  · obtain ⟨rfl, rfl⟩ := Prod.mk.inj (Option.some.inj h)
    exact hentry

/-- What is pending for a channel after a call was pending before, or is a variable that the call
brings. -/
theorem SshConn.call_pendingEnv (h : c.call k env reply groups request = some (c', groups'))
    (hentry : entry ∈ c'.pendingEnv channel) : entry ∈ c.pendingEnv channel ∨
      (request = .envRequest channel entry.1 entry.2 ∧ envAllowed entry.1 = true) := by
  cases request with
  | channelOpenSession ch =>
    obtain ⟨rfl, rfl⟩ := Prod.mk.inj (Option.some.inj h)
    exact Or.inl hentry
  | ptyRequest ch colWidth rowHeight =>
    obtain ⟨rfl, rfl⟩ := Prod.mk.inj (Option.some.inj h)
    have hmem := SshConn.mem_pendingEnv_of_replied hentry
    rw [SshConn.pendingEnv_of_insertAt rfl] at hmem
    left
    split at hmem
    · next hch => exact hch ▸ hmem
    · exact hmem
  | envRequest ch name value =>
    simp only [SshConn.call] at h
    split at h
    · next hallowed =>
      obtain ⟨rfl, rfl⟩ := Prod.mk.inj (Option.some.inj h)
      have hmem := SshConn.mem_pendingEnv_of_replied hentry
      rw [SshConn.pendingEnv_of_insertAt rfl] at hmem
      split at hmem
      · next hch =>
        subst hch
        rcases List.mem_append.mp hmem with hmem | hmem
        · exact Or.inl (List.mem_filter.mp hmem).1
        · obtain rfl := List.mem_singleton.mp hmem
          exact Or.inr ⟨rfl, hallowed⟩
      · exact Or.inl hmem
    · obtain ⟨rfl, rfl⟩ := Prod.mk.inj (Option.some.inj h)
      exact Or.inl (SshConn.mem_pendingEnv_of_replied hentry)
  | shellRequest ch => exact Or.inl (SshConn.startSession_pendingEnv h hentry)
  | execRequest ch command => exact Or.inl (SshConn.startSession_pendingEnv h hentry)
  | windowChangeRequest ch colWidth rowHeight =>
    exact Or.inl (SshConn.edited_pendingEnv (f := fun active => { active with
      pty := active.pty.map fun _ => ⟨rowHeight.toUInt16, colWidth.toUInt16⟩ }) h hentry)
  | data ch bytes =>
    exact Or.inl (SshConn.edited_pendingEnv
      (f := fun active => { active with stdin := active.stdin && reply.stdinTakes }) h hentry)
  | channelEof ch =>
    exact Or.inl (SshConn.edited_pendingEnv
      (f := fun active => { active with stdin := false }) h hentry)
  | channelClose ch =>
    have hclosed := Option.some.inj h
    unfold SshConn.channelClose at hclosed
    left
    split at hclosed
    · obtain ⟨rfl, rfl⟩ := Prod.mk.inj hclosed
      exact SshConn.mem_pendingEnv_of_removed rfl hentry
    · obtain ⟨rfl, rfl⟩ := Prod.mk.inj hclosed
      exact SshConn.mem_pendingEnv_of_removed rfl hentry
  | subsystemRequest ch name =>
    simp only [SshConn.call] at h
    left
    split at h
    · obtain ⟨rfl, rfl⟩ := Prod.mk.inj (Option.some.inj h)
      have hmem := SshConn.mem_pendingEnv_of_replied hentry
      exact hmem
    · obtain ⟨rfl, rfl⟩ := Prod.mk.inj (Option.some.inj h)
      exact SshConn.mem_pendingEnv_of_replied hentry

end Pending

end Calls

section Groups

/-- The sessions of the `k`-th connection have their groups from before, with the same request, and
none runs again. -/
def Inherits (k : ℕ) (groups groups' : List Group) : Prop :=
  ∀ g' ∈ groups', ∀ session, g'.origin = .ssh k session → ∃ g ∈ groups,
    g.origin = .ssh k session ∧ g.pgid = g'.pgid ∧ g.request = g'.request ∧ (g'.running → g.running)

variable {k : ℕ} {groups groups' : List Group}

theorem inherits_of_eq (h : groups' = groups) : Inherits k groups groups' := by
  subst h
  exact fun g hg session ho => ⟨g, hg, ho, rfl, rfl, id⟩

/-- Changing the groups one by one. -/
theorem inherits_map {f : Group → Group} (hpgid : ∀ g, (f g).pgid = g.pgid)
    (horigin : ∀ g, (f g).origin = g.origin) (hrequest : ∀ g, (f g).request = g.request)
    (hrunning : ∀ g, (f g).running → g.running) : Inherits k groups (groups.map f) := by
  intro g' hg' session ho
  obtain ⟨g, hg, rfl⟩ := List.mem_map.mp hg'
  rw [horigin] at ho
  exact ⟨g, hg, ho, (hpgid g).symm, (hrequest g).symm, hrunning g⟩

theorem Group.killed_request (target : ℤ) (g : Group) : (g.killed target).request = g.request := by
  unfold Group.killed
  split
  · rfl
  · split <;> rfl

theorem Group.after_request (g : Group) (e : ChildEvent) : (g.after e).request = g.request := by
  cases e with
  | exits status => simp only [Group.after]; split <;> rfl
  | forks => simp only [Group.after]; split <;> rfl
  | otherExits => rfl

theorem inherits_kill (target : ℤ) (sig : ℕ) : Inherits k groups (kill target sig groups) := by
  unfold kill
  split
  · exact inherits_map (Group.killed_pgid target) (Group.killed_origin target)
      (Group.killed_request target) fun _ => Group.running_of_killed
  · exact inherits_of_eq rfl

theorem inherits_childEvent (o : Origin) (e : ChildEvent) :
    Inherits k groups (childEvent o e groups) := by
  apply inherits_map
  · intro g
    split
    · exact g.after_pgid e
    · rfl
  · intro g
    split
    · exact g.after_origin e
    · rfl
  · intro g
    split
    · exact Group.after_request g e
    · rfl
  · intro g h
    split at h
    · exact Group.running_of_after h
    · exact h

theorem inherits_reap {o : Origin} {status : ExitStatus}
    (h : reap o groups = some (status, groups')) : Inherits k groups groups' := by
  rw [reap_eq_some h]
  apply inherits_map
  · intro g
    split <;> rfl
  · intro g
    split <;> rfl
  · intro g
    split <;> rfl
  · intro g h
    split at h
    · rcases h with h | h
      · cases h
      · exact Or.inr h
    · exact h

theorem inherits_spawnGroup {pid : ℕ} {o : Origin} {req : SpawnRequest}
    (h : spawnGroup pid o req groups = some groups') (ho : ∀ session, o ≠ .ssh k session) :
    Inherits k groups groups' := by
  rw [spawnGroup_eq_some h]
  intro g' hg' session horigin
  rcases List.mem_append.mp hg' with hg' | hg'
  · exact ⟨g', hg', horigin, rfl, rfl, id⟩
  · obtain rfl := List.mem_singleton.mp hg'
    exact (ho session horigin).elim

end Groups

section Steps

variable {k : ℕ} {env : KeeperEnv} {s next : KeeperState} {a : Act}

/-- A step of a connection of the control socket starts no session of an SSH connection. -/
theorem Conn.Moves.inherits {k' : ℕ} {c c' : Conn} {sh sh' : Shared}
    (h : c.Moves k' sh c' sh') : Inherits k sh.groups sh'.groups := by
  cases h with
  | stays _ _ _ _ hshared => exact inherits_of_eq (congrArg Shared.groups hshared)
  | returns _ _ _ _ hshared => exact inherits_of_eq (congrArg Shared.groups hshared)
  | spawns _ _ _ _ hgroups => exact inherits_spawnGroup hgroups (by simp)
  | numbers _ _ _ _ _ _ hgroups => exact inherits_of_eq hgroups
  | inserts _ _ _ _ _ _ _ _ hgroups => exact inherits_of_eq hgroups
  | starts _ _ _ _ _ hshared => exact inherits_of_eq (congrArg Shared.groups hshared)
  | givesUp _ _ _ _ _ hgroups => exact inherits_of_eq hgroups
  | signals sig _ _ _ _ _ _ hgroups =>
    rw [hgroups]
    exact inherits_kill _ _
  | joinsPumps _ _ _ _ _ hshared => exact inherits_of_eq (congrArg Shared.groups hshared)
  | waits status _ _ _ _ _ _ hgroups => exact inherits_reap hgroups
  | removes status _ _ _ _ _ _ hgroups => exact inherits_of_eq hgroups
  | reports status _ _ _ _ _ hshared => exact inherits_of_eq (congrArg Shared.groups hshared)

/-- Nor does a step of another SSH connection. -/
theorem SshConn.Moves.inherits {k' : ℕ} {c c' : SshConn} {groups groups' : List Group}
    (h : c.Moves k' groups c' groups') (hk : k' ≠ k) : Inherits k groups groups' := by
  cases h with
  | stays _ _ _ hgroups => exact inherits_of_eq hgroups
  | spawns pid req _ _ _ hgroups => exact inherits_spawnGroup hgroups (by simp [hk])
  | signals target sig _ _ _ hgroups =>
    rw [hgroups]
    exact inherits_kill _ _
  | joinsPumps _ _ _ _ _ hgroups => exact inherits_of_eq hgroups
  | waits _ status _ _ _ _ hgroups => exact inherits_reap hgroups

/-- Nor does what is not a step of a connection. -/
theorem inherits_aside (h : Aside s next) : Inherits k s.shared.groups next.shared.groups := by
  rcases h.groups with h | ⟨target, sig, h⟩ | ⟨origin, e, h⟩ | ⟨pid, req, h⟩
  · exact inherits_of_eq h
  · rw [h]
    exact inherits_kill target sig
  · rw [h]
    exact inherits_childEvent origin e
  · exact inherits_spawnGroup h (by simp)

/-- Nor does a task that waits for a child. -/
theorem SshConn.task_channels {c c' : SshConn} {session : ℕ} {groups groups' : List Group}
    (h : c.task k session groups = some (c', groups')) : c'.active = c.active ∧
      c'.pending = c.pending ∧ c'.spawned = c.spawned ∧ Inherits k groups groups' := by
  unfold SshConn.task at h
  split at h
  · obtain ⟨rfl, rfl⟩ := Prod.mk.inj (Option.some.inj h)
    exact ⟨rfl, rfl, rfl, inherits_of_eq rfl⟩
  · obtain ⟨⟨status, reaped⟩, hreap, heq⟩ := Option.map_eq_some_iff.mp h
    obtain ⟨rfl, rfl⟩ := Prod.mk.inj heq
    exact ⟨rfl, rfl, rfl, inherits_reap hreap⟩
  · cases h

/-- What a step means for the `k`-th connection: a call of its handler, the end of it, or nothing
that its sessions are started or recorded by. -/
inductive ChannelStep (k : ℕ) (env : KeeperEnv) (s : KeeperState) : Act → KeeperState → Prop
  | call (request : Call) (reply : Reply) {next : KeeperState}
      (call_eq : (s.ssh k).call k env.ssh reply s.shared.groups request =
        some (next.ssh k, next.shared.groups)) :
      ChannelStep k env s (.ssh k (.call request reply)) next
  | disconnect {next : KeeperState} (conn : next.ssh k = (s.ssh k).dropped)
      (groups : next.shared.groups = s.shared.groups) :
      ChannelStep k env s (.ssh k .disconnect) next
  | other {a : Act} {next : KeeperState}
    (not_call : ∀ request reply, a ≠ .ssh k (.call request reply))
      (active : (next.ssh k).active = (s.ssh k).active)
      (pending : (next.ssh k).pending = (s.ssh k).pending)
      (spawned : (next.ssh k).spawned = (s.ssh k).spawned)
      (groups : Inherits k s.shared.groups next.shared.groups) : ChannelStep k env s a next

/-- Every step of the keeper is one of these. -/
theorem channelStep (h : s.step env a = some next) : ChannelStep k env s a next := by
  have haside : Aside s next → (∀ k b, a ≠ .ssh k b) → ChannelStep k env s a next := by
    intro h ha
    exact .other (fun _ _ => ha _ _) (by rw [h.ssh]) (by rw [h.ssh]) (by rw [h.ssh])
      (inherits_aside h)
  cases KeeperState.step_cases h with
  | conn _ _ hstep =>
    exact .other (by simp) rfl rfl rfl (Conn.Moves.inherits (Conn.step_moves hstep))
  | @ssh k' b c groups _ _ hstep =>
    by_cases hk : k' = k
    · subst hk
      cases b with
      | call request reply =>
        simp only [SshConn.step] at hstep
        split at hstep
        · refine .call request reply ?_
          dsimp only
          rw [insertAt_self]
          exact hstep
        · cases hstep
      | task session =>
        obtain ⟨hactive, hpending, hspawned, hgroups⟩ := SshConn.task_channels hstep
        have hself : insertAt s.ssh k' c k' = c := insertAt_self _ _ _
        refine .other (by simp) ?_ ?_ ?_ hgroups
        · exact (congrArg SshConn.active hself).trans hactive
        · exact (congrArg SshConn.pending hself).trans hpending
        · exact (congrArg SshConn.spawned hself).trans hspawned
      | disconnect =>
        simp only [SshConn.step] at hstep
        split at hstep
        · obtain ⟨rfl, rfl⟩ := Prod.mk.inj (Option.some.inj hstep)
          exact .disconnect (insertAt_self _ _ _) rfl
        · cases hstep
    · have hsame : insertAt s.ssh k' c k = s.ssh k := insertAt_of_ne (Ne.symm hk)
      refine .other (by simp [hk]) ?_ ?_ ?_ (SshConn.Moves.inherits (SshConn.step_moves hstep) hk)
      · exact congrArg SshConn.active hsame
      · exact congrArg SshConn.pending hsame
      · exact congrArg SshConn.spawned hsame
  | child => exact haside (aside_step h (by simp) (by simp)) (by simp)
  | main _ hstep => exact haside hstep.aside (by simp)
  | handler _ hstep => exact haside hstep.aside (by simp)

end Steps

/-- What was sent stays sent. -/
theorem Sent.append {k : ℕ} {past : List (KeeperState × Act)} {channel : ℕ}
    {entry : String × String}
    (h : Sent k past channel entry) (p : KeeperState × Act) :
    Sent k (past ++ [p]) channel entry := by
  obtain ⟨hname, q, hq, hreply⟩ := h
  exact ⟨hname, q, List.mem_append_left _ hq, hreply⟩

/-- A name that is allowed. -/
theorem envAllowed_iff {name : String} : envAllowed name = true ↔
    name = "TERM" ∨ name = "LANG" ∨ ∃ rest, name = "LC_" ++ rest := by
  unfold envAllowed
  rw [Bool.or_eq_true, Bool.or_eq_true, decide_eq_true_eq, decide_eq_true_eq, or_assoc,
    Text.startsWith_iff]

theorem StartedWith.append {k : ℕ} {past : List (KeeperState × Act)} {session : ℕ}
    {vars : List (String × String)} (h : StartedWith k past session vars) (p : KeeperState × Act) :
    StartedWith k (past ++ [p]) session vars := by
  obtain ⟨before, s, request, reply, after, channel, rfl, hstarted⟩ := h
  exact ⟨before, s, request, reply, after ++ [p], channel, by simp, hstarted⟩

/-- What is pending was sent, and what the sessions were started with was sent before that. -/
structure Requested (k : ℕ) (past : List (KeeperState × Act)) (s : KeeperState) : Prop where
  pending : ∀ channel, ∀ entry ∈ (s.ssh k).pendingEnv channel, Sent k past channel entry
  started : ∀ g ∈ s.shared.groups, ∀ session, g.origin = .ssh k session →
    StartedWith k past session g.request.env

/-- The groups that run of the sessions that are open on a channel are recorded for it. -/
structure Recorded (k : ℕ) (past : List (KeeperState × Act)) (s : KeeperState) : Prop where
  numbered : ∀ channel, ∀ session ∈ openSessions k channel past, session < (s.ssh k).spawned
  records : ∀ channel, ∀ session ∈ openSessions k channel past, ∀ g ∈ s.shared.groups,
    g.origin = .ssh k session → g.running → (s.ssh k).Records channel session g

section Runs

variable {k : ℕ} {env : KeeperEnv} {past : List (KeeperState × Act)} {s next : KeeperState}
    {a : Act}

/-- Every step keeps what is known of the requests. -/
theorem Requested.step (hr : Requested k past s) (h : s.step env a = some next) :
    Requested k (past ++ [(s, a)]) next := by
  have hinherits : Inherits k s.shared.groups next.shared.groups → ∀ g ∈ next.shared.groups,
      ∀ session, g.origin = .ssh k session →
        StartedWith k (past ++ [(s, a)]) session g.request.env := by
    intro hinherits g' hg' session ho
    obtain ⟨g, hg, ho, -, hrequest, -⟩ := hinherits g' hg' session ho
    rw [← hrequest]
    exact (hr.started g hg session ho).append _
  cases channelStep (k := k) h with
  | call request reply hcall =>
    constructor
    · intro channel entry hentry
      rcases SshConn.call_pendingEnv hcall hentry with hentry | ⟨rfl, hallowed⟩
      · exact (hr.pending channel entry hentry).append _
      · refine ⟨envAllowed_iff.mp hallowed, _, List.mem_append_right _ List.mem_cons_self, ?_⟩
        exact ⟨reply, rfl⟩
    · cases SshConn.call_cases hcall with
      | keeps _ _ _ hgroups => exact hinherits (inherits_of_eq hgroups)
      | ends _ _ _ _ hgroups => exact hinherits (inherits_of_eq hgroups)
      | closes channel _ _ _ hgroups =>
        rcases hgroups with hgroups | ⟨target, hgroups⟩
        · exact hinherits (inherits_of_eq hgroups)
        · rw [hgroups] at hinherits ⊢
          exact hinherits (inherits_kill _ _)
      | starts channel pid req hchannel hpid henv _ _ hgroups =>
        intro g hg session ho
        rw [spawnGroup_eq_some hgroups] at hg
        rcases List.mem_append.mp hg with hg | hg
        · exact (hr.started g hg session ho).append _
        · obtain rfl := List.mem_singleton.mp hg
          obtain ⟨-, rfl⟩ := Origin.ssh.inj ho
          refine ⟨past, s, request, reply, [], channel, rfl, hchannel, by rw [hpid]; rfl, rfl, ?_⟩
          intro entry hentry
          rw [henv] at hentry
          exact hr.pending channel entry hentry
  | disconnect hconn hgroups =>
    refine ⟨fun channel entry hentry => ?_, hinherits (inherits_of_eq hgroups)⟩
    rw [hconn] at hentry
    cases hentry
  | other _ _ hpending _ hgroups =>
    refine ⟨fun channel entry hentry => ?_, hinherits hgroups⟩
    unfold SshConn.pendingEnv at hentry
    rw [hpending] at hentry
    exact (hr.pending channel entry hentry).append _

/-- A session that stays open keeps its record. -/
theorem Recorded.kept (hr : Recorded k past s) {channel session : ℕ}
    (hopen : session ∈ openSessions k channel past) {c : SshConn} {groups : List Group}
    (hactive : ∀ a, (s.ssh k).active channel = some a →
      ∃ a', c.active channel = some a' ∧ a'.session = a.session ∧ a'.pgid = a.pgid)
    (hgroups : ∀ g' ∈ groups, g'.origin = .ssh k session → ∃ g ∈ s.shared.groups,
      g.origin = .ssh k session ∧ g.pgid = g'.pgid ∧ (g'.running → g.running)) :
    ∀ g ∈ groups, g.origin = .ssh k session → g.running → c.Records channel session g := by
  intro g' hg' ho hrunning
  obtain ⟨g, hg, ho, hpgid, hback⟩ := hgroups g' hg' ho
  obtain ⟨a, ha, hsession, hrecorded⟩ := hr.records channel session hopen g hg ho (hback hrunning)
  obtain ⟨a', ha', hsession', hpgid'⟩ := hactive a ha
  exact ⟨a', ha', hsession'.trans hsession, (hpgid'.trans hrecorded).trans hpgid⟩

/-- A running group of an open session occupies the channel. -/
theorem Recorded.occupied (hr : Recorded k past s) {channel session : ℕ}
    (hopen : session ∈ openSessions k channel past) {g : Group} (hg : g ∈ s.shared.groups)
    (ho : g.origin = .ssh k session) (hrunning : g.running) : Occupied k s channel := by
  obtain ⟨a, ha, hsession, -⟩ := hr.records channel session hopen g hg ho hrunning
  exact ⟨a, ha, g, hg, hsession ▸ ho, hrunning⟩

/-- What is no call of the handler opens no session and closes none. -/
theorem noteStep_other (h : ∀ request reply, a ≠ .ssh k (.call request reply)) (channel : ℕ)
    (sessions : List ℕ) : noteStep k channel sessions (s, a) = sessions := by
  unfold noteStep
  split
  · next k' request reply ha =>
    split
    · next hk => exact (h request reply (hk ▸ ha)).elim
    · rfl
  · rfl

theorem noteStep_call (request : Call) (reply : Reply) (channel : ℕ) (sessions : List ℕ) :
    noteStep k channel sessions (s, .ssh k (.call request reply)) =
      request.note (s.ssh k) channel reply sessions := if_pos rfl

/-- A step after which the same sessions are open. -/
theorem Recorded.of_same (hr : Recorded k past s) {p : KeeperState × Act}
    (hnote : ∀ channel sessions, noteStep k channel sessions p = sessions)
    (hspawned : (next.ssh k).spawned = (s.ssh k).spawned)
    (hrecords : ∀ channel, ∀ session ∈ openSessions k channel past, ∀ g ∈ next.shared.groups,
      g.origin = .ssh k session → g.running → (next.ssh k).Records channel session g) :
    Recorded k (past ++ [p]) next where
  numbered channel session hopen := by
    rw [openSessions_append, hnote] at hopen
    rw [hspawned]
    exact hr.numbered channel session hopen
  records channel session hopen := by
    rw [openSessions_append, hnote] at hopen
    exact hrecords channel session hopen

/-- Closing a channel forgets the sessions of this channel only. -/
theorem Recorded.closes (hr : Recorded k past s) {closed : ℕ} {reply : Reply}
    (hspawned : (next.ssh k).spawned = (s.ssh k).spawned)
    (hactive : ∀ channel, channel ≠ closed →
      (next.ssh k).active channel = (s.ssh k).active channel)
    (hgroups : next.shared.groups = s.shared.groups ∨
      ∃ target, next.shared.groups = kill target SIGTERM s.shared.groups) :
    Recorded k (past ++ [(s, .ssh k (.call (.channelClose closed) reply))]) next := by
  have hinherits : Inherits k s.shared.groups next.shared.groups := by
    rcases hgroups with hgroups | ⟨target, hgroups⟩
    · exact inherits_of_eq hgroups
    · rw [hgroups]
      exact inherits_kill _ _
  have hopen : ∀ channel, ∀ session ∈ openSessions k channel
      (past ++ [(s, .ssh k (.call (.channelClose closed) reply))]),
      channel ≠ closed ∧ session ∈ openSessions k channel past := by
    intro channel session hopen
    rw [openSessions_append, noteStep_call, Call.note_channelClose] at hopen
    split at hopen
    · cases hopen
    · next hne => exact ⟨hne, hopen⟩
  constructor
  · intro channel session hnow
    rw [hspawned]
    exact hr.numbered channel session (hopen channel session hnow).2
  · intro channel session hnow
    obtain ⟨hne, hbefore⟩ := hopen channel session hnow
    refine hr.kept hbefore (fun a ha => ⟨a, (hactive channel hne).trans ha, rfl, rfl⟩) ?_
    intro g' hg' ho
    obtain ⟨g, hg, ho, hpgid, -, hback⟩ := hinherits g' hg' session ho
    exact ⟨g, hg, ho, hpgid, hback⟩

/-- A session that is started on a free channel is recorded for it. -/
theorem Recorded.starts (hr : Recorded k past s) (hs : Consistent s) {request : Call}
    {reply : Reply}
    {started pid : ℕ} {req : SpawnRequest} (hchannel : request.sessionChannel = some started)
    (hpid : reply.pid = some pid) (hspawned : (next.ssh k).spawned = (s.ssh k).spawned + 1)
    (hfree : ¬Occupied k s started)
    (hnew :
      ∃ a, (next.ssh k).active started = some a ∧ a.session = (s.ssh k).spawned ∧ a.pgid = pid)
    (hothers : ∀ channel, channel ≠ started →
      (next.ssh k).active channel = (s.ssh k).active channel)
    (hgroups : spawnGroup pid (.ssh k (s.ssh k).spawned) req s.shared.groups =
      some next.shared.groups) :
    Recorded k (past ++ [(s, .ssh k (.call request reply))]) next := by
  obtain ⟨a, ha, hsession, hpgid⟩ := hnew
  have hgroups := spawnGroup_eq_some hgroups
  have hopen : ∀ channel, openSessions k channel (past ++ [(s, .ssh k (.call request reply))]) =
      if channel = started then (s.ssh k).spawned :: openSessions k channel past
      else openSessions k channel past := by
    intro channel
    rw [openSessions_append, noteStep_call, Call.note_started hchannel (by rw [hpid]; rfl)]
  -- A session from before is not the new one.
  have hbefore : ∀ channel, ∀ session ∈ openSessions k channel past,
      ∀ g ∈ next.shared.groups, g.origin = .ssh k session → g ∈ s.shared.groups := by
    intro channel session hmem g hg ho
    rw [hgroups] at hg
    rcases List.mem_append.mp hg with hg | hg
    · exact hg
    · obtain rfl := List.mem_singleton.mp hg
      obtain ⟨-, rfl⟩ := Origin.ssh.inj ho
      exact (Nat.lt_irrefl _ (hr.numbered channel _ hmem)).elim
  have hold : ∀ channel, ∀ session ∈ openSessions k channel past, ∀ g ∈ next.shared.groups,
      g.origin = .ssh k session → g.running → (next.ssh k).Records channel session g := by
    intro channel session hmem g hg ho hrunning
    have hg := hbefore channel session hmem g hg ho
    by_cases hne : channel = started
    · subst hne
      exact (hfree (hr.occupied hmem hg ho hrunning)).elim
    · refine hr.kept hmem (fun a ha => ⟨a, (hothers channel hne).trans ha, rfl, rfl⟩) ?_ g hg ho
        hrunning
      exact fun g hg ho => ⟨g, hg, ho, rfl, id⟩
  constructor
  · intro channel session hnow
    rw [hopen] at hnow
    rw [hspawned]
    split at hnow
    · rcases List.mem_cons.mp hnow with rfl | hnow
      · omega
      · exact Nat.lt_succ_of_lt (hr.numbered channel session hnow)
    · exact Nat.lt_succ_of_lt (hr.numbered channel session hnow)
  · intro channel session hnow
    rw [hopen] at hnow
    split at hnow
    · next heq =>
      rcases List.mem_cons.mp hnow with rfl | hnow
      · -- The only group of the new session is the one that was spawned for it.
        intro g hg ho hrunning
        rw [hgroups] at hg
        rcases List.mem_append.mp hg with hg | hg
        · exact (Nat.lt_irrefl _ ((hs.ssh k).spawned _ g hg ho)).elim
        · obtain rfl := List.mem_singleton.mp hg
          exact ⟨a, heq ▸ ha, hsession, hpgid⟩
      · exact hold channel session hnow
    · exact hold channel session hnow

/-- A guarded step keeps the records. -/
theorem Recorded.step (hr : Recorded k past s) (hs : Consistent s) (hguard : KeepsRecords k s a)
    (h : s.step env a = some next) : Recorded k (past ++ [(s, a)]) next := by
  cases channelStep (k := k) h with
  | call request reply hcall =>
    have hguard := hguard rfl
    cases SshConn.call_cases hcall with
    | keeps hnote hspawned hactive hgroups =>
      refine hr.of_same (fun channel sessions => ?_) hspawned fun channel session hopen => ?_
      · rw [noteStep_call, hnote]
      · refine hr.kept hopen (hactive channel) ?_
        rw [hgroups]
        exact fun g hg ho => ⟨g, hg, ho, rfl, id⟩
    | ends hnote hreplies hsent hspawned hgroups =>
      -- No session that is open runs.
      refine hr.of_same (fun channel sessions => ?_) hspawned fun channel session hopen => ?_
      · rw [noteStep_call, hnote]
      · intro g hg ho hrunning
        rw [hgroups] at hg
        exact (hguard.2 hreplies hsent channel (hr.occupied hopen hg ho hrunning)).elim
    | closes closed hrequest hspawned hactive hgroups =>
      subst hrequest
      exact hr.closes hspawned hactive hgroups
    | starts started pid req hchannel hpid _ hspawned hactive hgroups =>
      obtain ⟨hfree, hsent⟩ := hguard.1 started hchannel (by rw [hpid]; rfl)
      obtain ⟨hnew, hothers⟩ := hactive hsent
      exact hr.starts hs hchannel hpid hspawned hfree hnew hothers hgroups
  | disconnect hconn hgroups =>
    refine hr.of_same (noteStep_other (by simp)) (by rw [hconn]; rfl)
      fun channel session hopen => ?_
    intro g hg ho hrunning
    rw [hgroups] at hg
    exact (hguard rfl channel (hr.occupied hopen hg ho hrunning)).elim
  | other hother hactive _ hspawned hgroups =>
    refine hr.of_same (noteStep_other hother) hspawned fun channel session hopen => ?_
    refine hr.kept hopen (fun a ha => ⟨a, by rw [hactive]; exact ha, rfl, rfl⟩) fun g' hg' ho => ?_
    obtain ⟨g, hg, ho, hpgid, -, hback⟩ := hgroups g' hg' session ho
    exact ⟨g, hg, ho, hpgid, hback⟩

/-- At the start nothing was requested. -/
theorem requested_start : Requested k [] .start where
  pending _ _ h := by cases h
  started _ h := by cases h

/-- At the start no session is open. -/
theorem recorded_start : Recorded k [] .start where
  numbered _ _ h := by cases h
  records _ _ h := by cases h

/-- In every run, the environment of every session holds only variables that may be set and that
were sent on its channel before; and if no step forgets a running group, every group that runs of a
session that is open on a channel is recorded for the channel. -/
theorem channels_kept (k : ℕ) (env : KeeperEnv) (acts : List Act) :
    (∀ g ∈ (exec (KeeperState.step env) acts .start).shared.groups, ∀ session,
      g.origin = .ssh k session →
        StartedWith k (steps (KeeperState.step env) acts .start) session g.request.env) ∧
    (Guarded (KeepsRecords k) (steps (KeeperState.step env) acts .start) →
      ∀ channel, ∀ session ∈ openSessions k channel (steps (KeeperState.step env) acts .start),
        ∀ g ∈ (exec (KeeperState.step env) acts .start).shared.groups,
          g.origin = .ssh k session → g.running →
            ((exec (KeeperState.step env) acts .start).ssh k).Records channel session g) := by
  constructor
  · have hstep : ∀ past s a next, Requested k past s → True → KeeperState.step env s a = some next →
        Requested k (past ++ [(s, a)]) next := fun past s a next hr _ h => hr.step h
    exact (history (G := fun _ _ => True) hstep requested_start (fun _ _ => trivial)).started
  · intro hguard
    have hstep : ∀ past s a next, Consistent s ∧ Recorded k past s → KeepsRecords k s a →
        KeeperState.step env s a = some next →
          Consistent next ∧ Recorded k (past ++ [(s, a)]) next :=
      fun past s a next hJ hG h => ⟨hJ.1.step h, hJ.2.step hJ.1 hG h⟩
    exact (history hstep ⟨consistent_start, recorded_start⟩ hguard).2.records

end Runs

/-- A keeper without services. -/
def bareEnv : KeeperEnv := ⟨false, none, none, ⟨none, none⟩⟩

/-- A client opens a channel, asks for a language and starts a command. -/
def firstExec : List Act :=
  [.main (.startServices (.error "")), .ssh 0 (.call (.channelOpenSession 0) ⟨true, none, true⟩),
    .ssh 0 (.call (.envRequest 0 "LANG" "C") ⟨true, none, true⟩),
    .ssh 0 (.call (.execRequest 0 "sleep 1000") ⟨true, some 100, true⟩)]

/-- It starts another one on the channel. -/
def secondExec : Act := .ssh 0 (.call (.execRequest 0 "true") ⟨true, some 200, true⟩)

/-- It waits until the first one has exited. -/
def execAfterExit : List Act :=
  firstExec ++ [.child (.ssh 0 0) (.exits ⟨some 0, none⟩), secondExec]

/-- Then the group of the second one is recorded. -/
theorem channels_kept_exec :
    1 ∈ openSessions 0 0 (steps (KeeperState.step bareEnv) execAfterExit .start) ∧
      ∃ g ∈ (exec (KeeperState.step bareEnv) execAfterExit .start).shared.groups, g.running ∧
        ((exec (KeeperState.step bareEnv) execAfterExit .start).ssh 0).Records 0 1 g := by
  have hopen : 1 ∈ openSessions 0 0 (steps (KeeperState.step bareEnv) execAfterExit .start) := by
    decide +kernel
  have hguard : Guarded (Careful 0) (steps (KeeperState.step bareEnv) execAfterExit .start) := by
    decide +kernel
  have hgroup : ∃ g ∈ (exec (KeeperState.step bareEnv) execAfterExit .start).shared.groups,
      g.origin = .ssh 0 1 ∧ g.running := by decide +kernel
  obtain ⟨g, hg, ho, hrunning⟩ := hgroup
  have hrecords := (channels_kept 0 bareEnv execAfterExit).2 fun p hp => (hguard p hp).keepsRecords
  exact ⟨hopen, g, hg, hrunning, hrecords 0 1 hopen g hg ho hrunning⟩

/-- While the first one runs, a second one takes its record, though the channel was never closed. -/
theorem not_channels_kept_exec :
    0 ∈ openSessions 0 0
        (steps (KeeperState.step bareEnv) (firstExec ++ [secondExec]) .start) ∧
      ∃ g ∈ (exec (KeeperState.step bareEnv) (firstExec ++ [secondExec]) .start).shared.groups,
        g.origin = .ssh 0 0 ∧ g.running ∧
          ∀ a ∈ ((exec (KeeperState.step bareEnv) (firstExec ++ [secondExec]) .start).ssh 0).active 0,
            a.pgid ≠ g.pgid := by
  decide +kernel

end Devcroft.Ssh
