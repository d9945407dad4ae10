import Devcroft.Keeper.Confinement
import Devcroft.Ssh.Channels

/-!
# What a keeper starts, and with what

Every process group of a keeper is started for somebody: for the first frame on the control socket,
for a request on a channel of an SSH connection, or for the services of the project. What it is
started with is what was asked for there, and for the rest what the keeper itself was started with.
-/

namespace Devcroft.Ssh

open Environ Keeper

/-- The channel that a call is about. -/
def Call.channel : Call → ℕ
  | channelOpenSession channel | ptyRequest channel _ _ | envRequest channel _ _
  | shellRequest channel | execRequest channel _ | windowChangeRequest channel _ _
  | data channel _ | channelEof channel | channelClose channel | subsystemRequest channel _ =>
    channel

/-- The calls that take what was asked for on a channel, or drop it. -/
def Call.settles : Call → Bool
  | shellRequest _ | execRequest _ _ | channelClose _ => true
  | _ => false

/-- The arguments of the shell that a call asks for. -/
def Call.starts : Call → Option (List String)
  | shellRequest _ => some []
  | execRequest _ command => some ["-c", command]
  | _ => none

/-- The variable that a call asks for, if it is one of those that a client may set. -/
def Call.sets : Call → Option (String × String)
  | envRequest _ name value => if envAllowed name then some (name, value) else none
  | _ => none

/-- The terminal that a call asks for, with the sizes as far as they fit. -/
def Call.terminal : Call → Option PtySize
  | ptyRequest _ colWidth rowHeight => some ⟨rowHeight.toUInt16, colWidth.toUInt16⟩
  | _ => none

/-- What was asked for on a channel, after another call. -/
def Call.noted (channel : ℕ) (calls : List Call) (request : Call) : List Call :=
  if request.channel = channel then if request.settles then [] else calls ++ [request] else calls

/-- What is pending for a channel is what these calls ask for: the last value of each variable, and
the last terminal. -/
structure Represents (calls : List Call) (p : PendingChannel) : Prop where
  vars : ∀ key, lastValue key p.env = lastValue key (calls.filterMap Call.sets)
  pty : p.pty = (calls.filterMap Call.terminal).getLast?

/-- What a call changes about what is pending for its channel. -/
def Call.onto (p : PendingChannel) : Call → PendingChannel
  | ptyRequest _ colWidth rowHeight =>
    { p with pty := some ⟨rowHeight.toUInt16, colWidth.toUInt16⟩ }
  | envRequest _ name value =>
    if envAllowed name then
      { p with env := (p.env.filter fun entry => entry.1 ≠ name) ++ [(name, value)] }
    else p
  | _ => p

section Pending

variable {k : ℕ} {env : ServerEnv} {c c' : SshConn} {groups groups' : List Group} {reply : Reply}
  {request : Call} {channel : ℕ}

theorem represents_default : Represents [] .default := ⟨fun _ => rfl, rfl⟩

/-- A variable that is asked for takes the place of one of that name. -/
theorem Call.lastValue_onto (p : PendingChannel) (request : Call) (key : String) :
    lastValue key (request.onto p).env =
      (lastValue key request.sets.toList).or (lastValue key p.env) := by
  cases request with
  | envRequest channel name value =>
    by_cases hallowed : envAllowed name = true
    · simp only [Call.onto, Call.sets, hallowed, if_true, Option.toList_some]
      rw [lastValue_append, lastValue_singleton]
      by_cases hkey : key = name
      · rw [if_pos hkey, Option.some_or, Option.some_or]
      · rw [if_neg hkey, Option.none_or, Option.none_or, lastValue_filter hkey]
    · simp only [Call.onto, Call.sets, hallowed]
      rfl
  | _ => rfl

/-- So does a terminal. -/
theorem Call.pty_onto (p : PendingChannel) (request : Call) :
    (request.onto p).pty = request.terminal.or p.pty := by
  cases request with
  | envRequest channel name value =>
    simp only [Call.onto]
    split <;> rfl
  | _ => rfl

theorem filterMap_singleton {α β : Type} (f : α → Option β) (a : α) :
    [a].filterMap f = (f a).toList := by
  cases h : f a <;> simp [h]

/-- A call more is asked for, and is noted. -/
theorem Represents.onto {calls : List Call} {p : PendingChannel} (h : Represents calls p)
    (request : Call) : Represents (calls ++ [request]) (request.onto p) where
  vars key := by
    rw [Call.lastValue_onto, h.vars, List.filterMap_append, filterMap_singleton, lastValue_append]
  pty := by
    rw [Call.pty_onto, h.pty, List.filterMap_append, filterMap_singleton, List.getLast?_append]
    cases request.terminal <;> rfl

/-- What is pending for a channel. -/
def SshConn.pendingOn (c : SshConn) (channel : ℕ) : PendingChannel :=
  (c.pending channel).getD .default

/-- Replacing it for one channel. -/
theorem SshConn.pendingOn_of_insertAt {ch : ℕ} {pending : Option PendingChannel}
    (h : c'.pending = insertAt c.pending ch pending) (channel : ℕ) :
    c'.pendingOn channel = if ch = channel then pending.getD .default else c.pendingOn channel := by
  unfold SshConn.pendingOn
  rw [h]
  by_cases hch : ch = channel
  · rw [if_pos hch, hch, insertAt_self]
  · rw [if_neg hch, insertAt_of_ne fun heq => hch heq.symm]

/-- Removing it for one. -/
theorem SshConn.pendingOn_of_removed {ch : ℕ} (h : c'.pending = insertAt c.pending ch none)
    (channel : ℕ) :
    c'.pendingOn channel = if ch = channel then .default else c.pendingOn channel :=
  SshConn.pendingOn_of_insertAt h channel

/-- A connection that is still there has replied. -/
theorem SshConn.replied_of_connected (h : (c.replied reply).connected = true) :
    c.replied reply = c := by
  unfold SshConn.replied at h ⊢
  split at h
  · next hsent => rw [if_pos hsent]
  · cases h

/-- A session that is started takes what is pending for its channel, and so does one that cannot
be. -/
theorem SshConn.startSession_pendingOn {ch : ℕ} {cmd : String} {args : List String}
    (h : c.startSession k env ch cmd args reply groups = some (c', groups'))
    (hconnected : c'.connected = true) (channel : ℕ) :
    c'.pendingOn channel = if ch = channel then .default else c.pendingOn channel := by
  unfold SshConn.startSession at h
  dsimp only at h
  split at h
  · obtain ⟨rfl, rfl⟩ := Prod.mk.inj (Option.some.inj h)
    rw [SshConn.replied_of_connected hconnected]
    exact SshConn.pendingOn_of_removed rfl channel
  · obtain ⟨spawned, -, heq⟩ := Option.map_eq_some_iff.mp h
    split at heq
    · obtain ⟨rfl, rfl⟩ := Prod.mk.inj heq
      exact SshConn.pendingOn_of_removed rfl channel
    · obtain ⟨rfl, rfl⟩ := Prod.mk.inj heq
      cases hconnected

theorem SshConn.edited_pendingOn {ch : ℕ} {f : ActiveSession → ActiveSession}
    (h : (match c.active ch with
      | none => some (c, groups)
      | some active => some ({ c with active := insertAt c.active ch (some (f active)) }, groups)) =
        some (c', groups')) (channel : ℕ) : c'.pendingOn channel = c.pendingOn channel := by
  split at h
  · obtain ⟨rfl, rfl⟩ := Prod.mk.inj (Option.some.inj h)
    rfl
  · obtain ⟨rfl, rfl⟩ := Prod.mk.inj (Option.some.inj h)
    rfl

/-- What is pending for a channel after a call, on a connection that is still there. -/
theorem SshConn.call_pendingOn (h : c.call k env reply groups request = some (c', groups'))
    (hconnected : c'.connected = true) (channel : ℕ) : c'.pendingOn channel =
      if request.channel = channel then
        if request.settles then .default else request.onto (c.pendingOn channel)
      else c.pendingOn channel := by
  cases request with
  | channelOpenSession ch =>
    obtain ⟨rfl, rfl⟩ := Prod.mk.inj (Option.some.inj h)
    simp [Call.settles, Call.onto, SshConn.pendingOn]
  | ptyRequest ch colWidth rowHeight =>
    obtain ⟨rfl, rfl⟩ := Prod.mk.inj (Option.some.inj h)
    rw [SshConn.replied_of_connected hconnected, SshConn.pendingOn_of_insertAt rfl]
    split
    · next hch =>
      subst hch
      simp [Call.channel, Call.settles, Call.onto, SshConn.pendingOn]
    · next hch => rw [Call.channel, if_neg hch]
  | envRequest ch name value =>
    simp only [SshConn.call] at h
    split at h
    · next hallowed =>
      obtain ⟨rfl, rfl⟩ := Prod.mk.inj (Option.some.inj h)
      rw [SshConn.replied_of_connected hconnected, SshConn.pendingOn_of_insertAt rfl]
      split
      · next hch =>
        subst hch
        simp [Call.channel, Call.settles, Call.onto, SshConn.pendingOn, hallowed]
      · next hch => rw [Call.channel, if_neg hch]
    · next hallowed =>
      obtain ⟨rfl, rfl⟩ := Prod.mk.inj (Option.some.inj h)
      rw [SshConn.replied_of_connected hconnected]
      simp [Call.settles, Call.onto, hallowed]
  | shellRequest ch => exact SshConn.startSession_pendingOn h hconnected channel
  | execRequest ch command => exact SshConn.startSession_pendingOn h hconnected channel
  | windowChangeRequest ch colWidth rowHeight =>
    have hsame := SshConn.edited_pendingOn (f := fun active => { active with
      pty := active.pty.map fun _ => ⟨rowHeight.toUInt16, colWidth.toUInt16⟩ }) h channel
    simp [Call.settles, Call.onto, hsame]
  | data ch bytes =>
    have hsame := SshConn.edited_pendingOn
      (f := fun active => { active with stdin := active.stdin && reply.stdinTakes }) h channel
    simp [Call.settles, Call.onto, hsame]
  | channelEof ch =>
    have hsame := SshConn.edited_pendingOn
      (f := fun active => { active with stdin := false }) h channel
    simp [Call.settles, Call.onto, hsame]
  | channelClose ch =>
    have hclosed := Option.some.inj h
    unfold SshConn.channelClose at hclosed
    split at hclosed
    · obtain ⟨rfl, rfl⟩ := Prod.mk.inj hclosed
      exact SshConn.pendingOn_of_removed rfl channel
    · obtain ⟨rfl, rfl⟩ := Prod.mk.inj hclosed
      exact SshConn.pendingOn_of_removed rfl channel
  | subsystemRequest ch name =>
    simp only [SshConn.call] at h
    split at h
    · obtain ⟨rfl, rfl⟩ := Prod.mk.inj (Option.some.inj h)
      rw [SshConn.replied_of_connected hconnected]
      simp [Call.settles, Call.onto, SshConn.pendingOn]
    · obtain ⟨rfl, rfl⟩ := Prod.mk.inj (Option.some.inj h)
      rw [SshConn.replied_of_connected hconnected]
      simp [Call.settles, Call.onto]

/-- So it is what was asked for on the channel. -/
theorem SshConn.call_represents (h : c.call k env reply groups request = some (c', groups'))
    (hconnected : c'.connected = true) {calls : List Call}
    (hcalls : Represents calls (c.pendingOn channel)) :
    Represents (request.noted channel calls) (c'.pendingOn channel) := by
  rw [SshConn.call_pendingOn h hconnected, Call.noted]
  split
  · split
    · exact represents_default
    · exact hcalls.onto request
  · exact hcalls

end Pending

end Devcroft.Ssh

namespace Devcroft.Keeper

open Environ hiding Call
open Interleaving Lifecycle Ssh

section Groups

variable {groups groups' : List Group}

/-- The groups are those from before, for the same origins and with the same requests. -/
def Carried (groups groups' : List Group) : Prop :=
  ∀ g' ∈ groups', ∃ g ∈ groups, g.origin = g'.origin ∧ g.request = g'.request

theorem carried_of_eq (h : groups' = groups) : Carried groups groups' := by
  subst h
  exact fun g hg => ⟨g, hg, rfl, rfl⟩

/-- Changing the groups one by one. -/
theorem carried_map {f : Group → Group} (horigin : ∀ g, (f g).origin = g.origin)
    (hrequest : ∀ g, (f g).request = g.request) : Carried groups (groups.map f) := by
  intro g' hg'
  obtain ⟨g, hg, rfl⟩ := List.mem_map.mp hg'
  exact ⟨g, hg, (horigin g).symm, (hrequest g).symm⟩

theorem carried_kill (target : ℤ) (sig : ℕ) : Carried groups (kill target sig groups) := by
  unfold kill
  split
  · exact carried_map (Group.killed_origin target) (Group.killed_request target)
  · exact carried_of_eq rfl

theorem carried_childEvent (o : Origin) (e : ChildEvent) :
    Carried groups (childEvent o e groups) := by
  refine carried_map (fun g => ?_) fun g => ?_
  · split
    · exact g.after_origin e
    · rfl
  · split
    · exact Group.after_request g e
    · rfl

theorem carried_reap {o : Origin} {status : ExitStatus}
    (h : reap o groups = some (status, groups')) : Carried groups groups' := by
  rw [reap_eq_some h]
  refine carried_map (fun g => ?_) fun g => ?_
  · split <;> rfl
  · split <;> rfl

/-- The groups are those from before and one that was started for an origin, with a request. -/
def Adds (o : Origin) (req : SpawnRequest) (groups groups' : List Group) : Prop :=
  ∀ g' ∈ groups', (∃ g ∈ groups, g.origin = g'.origin ∧ g.request = g'.request) ∨
    (g'.origin = o ∧ g'.request = req)

theorem adds_spawnGroup {pid : ℕ} {o : Origin} {req : SpawnRequest}
    (h : spawnGroup pid o req groups = some groups') : Adds o req groups groups' := by
  rw [spawnGroup_eq_some h]
  intro g' hg'
  rcases List.mem_append.mp hg' with hg' | hg'
  · exact Or.inl ⟨g', hg', rfl, rfl⟩
  · obtain rfl := List.mem_singleton.mp hg'
    exact Or.inr ⟨rfl, rfl⟩

end Groups

section Starting

variable {k : ℕ} {env : ServerEnv} {c c' : SshConn} {groups groups' : List Group} {reply : Reply}
  {request : Ssh.Call}

/-- What is spawned for a channel. -/
def sshRequest (env : ServerEnv) (pending : PendingChannel) (args : List String) : SpawnRequest :=
  ⟨sessionShell env, args, env.cwd.getD "/", pending.env, pending.pty⟩

theorem startSession_adds {channel : ℕ} {args : List String}
    (h : c.startSession k env channel (sessionShell env) args reply groups = some (c', groups')) :
    Carried groups groups' ∨
      Adds (.ssh k c.spawned) (sshRequest env (c.pendingOn channel) args) groups groups' := by
  unfold SshConn.startSession at h
  dsimp only at h
  split at h
  · obtain ⟨rfl, rfl⟩ := Prod.mk.inj (Option.some.inj h)
    exact Or.inl (carried_of_eq rfl)
  · obtain ⟨spawned, hspawn, heq⟩ := Option.map_eq_some_iff.mp h
    split at heq
    · obtain ⟨rfl, rfl⟩ := Prod.mk.inj heq
      exact Or.inr (adds_spawnGroup hspawn)
    · obtain ⟨rfl, rfl⟩ := Prod.mk.inj heq
      exact Or.inr (adds_spawnGroup hspawn)

/-- A call starts nothing but what it asks for. -/
theorem call_adds (h : c.call k env reply groups request = some (c', groups')) :
    Carried groups groups' ∨ ∃ args, request.starts = some args ∧
      Adds (.ssh k c.spawned) (sshRequest env (c.pendingOn request.channel) args) groups
        groups' := by
  cases hstarts : request.starts with
  | none =>
    left
    cases SshConn.call_cases h with
    | keeps _ _ _ hgroups => exact carried_of_eq hgroups
    | ends _ _ _ _ hgroups => exact carried_of_eq hgroups
    | closes channel _ _ _ hgroups =>
      rcases hgroups with hgroups | ⟨target, hgroups⟩
      · exact carried_of_eq hgroups
      · rw [hgroups]
        exact carried_kill _ _
    | starts channel pid req hchannel =>
      cases request with
      | shellRequest ch => cases hstarts
      | execRequest ch command => cases hstarts
      | _ => cases hchannel
  | some args =>
    refine Or.imp_right (fun hadds => ⟨args, rfl, hadds⟩) ?_
    cases request with
    | shellRequest ch =>
      obtain rfl := Option.some.inj hstarts
      exact startSession_adds h
    | execRequest ch command =>
      obtain rfl := Option.some.inj hstarts
      exact startSession_adds h
    | _ => cases hstarts

/-- A connection of the control socket starts nothing but its first frame. -/
theorem conn_adds {c c' : Conn} {sh sh' : Shared} {a : ConnAct}
    (h : c.step k sh a = some (c', sh')) : Carried sh.groups sh'.groups ∨
      (c.phase = .spawning ∧ Adds (.control k) c.request sh.groups sh'.groups) := by
  cases Conn.step_moves h with
  | stays _ _ _ _ hshared => exact Or.inl (carried_of_eq (congrArg Shared.groups hshared))
  | returns _ _ _ _ hshared => exact Or.inl (carried_of_eq (congrArg Shared.groups hshared))
  | spawns hphase _ _ _ hgroups => exact Or.inr ⟨hphase, adds_spawnGroup hgroups⟩
  | numbers _ _ _ _ _ _ hgroups => exact Or.inl (carried_of_eq hgroups)
  | inserts _ _ _ _ _ _ _ _ hgroups => exact Or.inl (carried_of_eq hgroups)
  | starts _ _ _ _ _ hshared => exact Or.inl (carried_of_eq (congrArg Shared.groups hshared))
  | givesUp _ _ _ _ _ hgroups => exact Or.inl (carried_of_eq hgroups)
  | signals sig _ _ _ _ _ _ hgroups =>
    rw [hgroups]
    exact Or.inl (carried_kill _ _)
  | joinsPumps _ _ _ _ _ hshared => exact Or.inl (carried_of_eq (congrArg Shared.groups hshared))
  | waits status _ _ _ _ _ _ hgroups => exact Or.inl (carried_reap hgroups)
  | removes status _ _ _ _ _ _ hgroups => exact Or.inl (carried_of_eq hgroups)
  | reports status _ _ _ _ _ hshared =>
    exact Or.inl (carried_of_eq (congrArg Shared.groups hshared))

/-- A task of an SSH connection starts nothing. -/
theorem task_carried {session : ℕ} (h : c.task k session groups = some (c', groups')) :
    Carried groups groups' := by
  unfold SshConn.task at h
  split at h
  · obtain ⟨rfl, rfl⟩ := Prod.mk.inj (Option.some.inj h)
    exact carried_of_eq rfl
  · obtain ⟨⟨status, reaped⟩, hreap, heq⟩ := Option.map_eq_some_iff.mp h
    obtain ⟨rfl, rfl⟩ := Prod.mk.inj heq
    exact carried_reap hreap
  · cases h

end Starting

section History

/-- The first frame that a connection of the control socket reads, if it does. -/
def firstFrame (k : ℕ) (past : List (KeeperState × Act)) : Option (Option Frame) :=
  past.findSome? fun p =>
    match p.2 with
    | .conn k' (.read frame _ _) => if k' = k then some frame else none
    | _ => none

/-- What the client of an SSH connection has asked for on a channel, after another step. -/
def noteCall (k channel : ℕ) (calls : List Ssh.Call) (p : KeeperState × Act) : List Ssh.Call :=
  match p.2 with
  | .ssh k' (.call request _) => if k' = k then request.noted channel calls else calls
  | _ => calls

/-- What it has asked for since it last started something there or closed the channel. -/
def requestsOn (k channel : ℕ) (past : List (KeeperState × Act)) : List Ssh.Call :=
  past.foldl (noteCall k channel) []

/-- What a session of an SSH connection is to be: the shell of the sandbox, in the keeper's
directory, with the terminal and the variables that were last asked for on its channel. -/
structure SshSession (env : ServerEnv) (k : ℕ) (past : List (KeeperState × Act))
    (request : Ssh.Call) (req : SpawnRequest) : Prop where
  cmd : req.cmd = sessionShell env
  args : request.starts = some req.args
  cwd : req.cwd = env.cwd.getD "/"
  pty : req.pty = ((requestsOn k request.channel past).filterMap Ssh.Call.terminal).getLast?
  vars : ∀ key, lastValue key req.env =
    lastValue key ((requestsOn k request.channel past).filterMap Ssh.Call.sets)

/-- What was asked for, for each origin. -/
inductive StartedFor (env : KeeperEnv) (past : List (KeeperState × Act)) :
    Origin → SpawnRequest → Prop
  | control {k : ℕ} {req : SpawnRequest} (asked : firstFrame k past = some (some (.spawn req))) :
      StartedFor env past (.control k) req
  | ssh {k : ℕ} {req : SpawnRequest} {before after : List (KeeperState × Act)} {s : KeeperState}
      {request : Ssh.Call} {reply : Reply}
      (past_eq : past = before ++ (s, .ssh k (.call request reply)) :: after)
      (asked : SshSession env.ssh k before request req) :
      StartedFor env past (.ssh k (s.ssh k).spawned) req
  | services (asked : env.startServices = true) :
      StartedFor env past .services (servicesRequest env)

/-- A connection waits for its first frame, or is about to spawn what it was asked for. -/
structure Listening (k : ℕ) (past : List (KeeperState × Act)) (c : Conn) : Prop where
  first : c.phase = .first → firstFrame k past = none
  spawning : c.phase = .spawning → firstFrame k past = some (some (.spawn c.request))

/-- Everything was asked for. -/
structure Traced (env : KeeperEnv) (past : List (KeeperState × Act)) (s : KeeperState) :
    Prop where
  listening : ∀ k, Listening k past (s.conns k)
  asking : ∀ k, (s.ssh k).connected = true → ∀ channel,
    Represents (requestsOn k channel past) ((s.ssh k).pendingOn channel)
  groups : ∀ g ∈ s.shared.groups, StartedFor env past g.origin g.request

variable {k : ℕ} {env : KeeperEnv} {past : List (KeeperState × Act)} {s next : KeeperState}
  {a : Act}

theorem firstFrame_append (k : ℕ) (past : List (KeeperState × Act)) (p : KeeperState × Act) :
    firstFrame k (past ++ [p]) = (firstFrame k past).or (firstFrame k [p]) := by
  rw [firstFrame, List.findSome?_append]
  rfl

theorem requestsOn_append (k channel : ℕ) (past : List (KeeperState × Act))
    (p : KeeperState × Act) :
    requestsOn k channel (past ++ [p]) = noteCall k channel (requestsOn k channel past) p := by
  rw [requestsOn, List.foldl_append]
  rfl

/-- What was asked for stays asked for. -/
theorem StartedFor.later {o : Origin} {req : SpawnRequest} (h : StartedFor env past o req)
    (p : KeeperState × Act) : StartedFor env (past ++ [p]) o req := by
  cases h with
  | control hasked =>
    refine .control ?_
    rw [firstFrame_append, hasked, Option.some_or]
  | @ssh k _ before after s request reply hpast hasked =>
    have hlater : past ++ [p] = before ++ (s, .ssh k (.call request reply)) :: (after ++ [p]) := by
      rw [hpast, List.append_assoc, List.cons_append]
    exact .ssh hlater hasked
  | services hasked => exact .services hasked

/-- A connection that reads nothing first. -/
theorem Listening.later {c : Conn} (h : Listening k past c) {p : KeeperState × Act}
    (hp : firstFrame k [p] = none) : Listening k (past ++ [p]) c := by
  have hsame : firstFrame k (past ++ [p]) = firstFrame k past := by
    rw [firstFrame_append, hp, Option.or_none]
  exact ⟨fun hphase => hsame.trans (h.first hphase), fun hphase => hsame.trans (h.spawning hphase)⟩

theorem send_request (c : Conn) (frame : Frame) : (c.send frame).request = c.request := by
  unfold Conn.send
  split <;> rfl

/-- A step of the connection. -/
theorem Listening.step {c c' : Conn} {sh sh' : Shared} {a : ConnAct} (h : Listening k past c)
    (hstep : c.step k sh a = some (c', sh')) : Listening k (past ++ [(s, .conn k a)]) c' := by
  -- Where it is past its first frame, or its phase and request stay, there is nothing to show.
  have hpast : ∀ {c' : Conn}, c'.phase ≠ .first → c'.phase ≠ .spawning →
      Listening k (past ++ [(s, .conn k a)]) c' := fun hfirst hspawning =>
    ⟨fun hphase => (hfirst hphase).elim, fun hphase => (hspawning hphase).elim⟩
  have hsame : ∀ {c' : Conn}, c'.phase = c.phase → c'.request = c.request →
      firstFrame k [(s, .conn k a)] = none → Listening k (past ++ [(s, .conn k a)]) c' := by
    intro c' hphase hrequest hframe
    have hlater := h.later hframe
    refine ⟨fun hfirst => hlater.first (hphase ▸ hfirst), fun hspawning => ?_⟩
    rw [hrequest]
    exact hlater.spawning (hphase ▸ hspawning)
  cases Conn.step_cases hstep with
  | accept hphase =>
    refine ⟨fun hfirst => (nomatch hfirst), fun _ => ?_⟩
    rw [firstFrame_append, h.first hphase, Option.none_or]
    simp [firstFrame]
  | answer out hphase => exact hpast (by simp) (by simp)
  | hangUp hphase => exact hpast (by simp) (by simp)
  | frame stdin _ _ hnext => rcases hnext with rfl | rfl <;> exact hpast (by simp) (by simp)
  | spawnFails => exact hpast (by simp) (by simp)
  | look _ hnext =>
    rcases hnext with rfl | rfl | rfl | ⟨rfl | rfl, -⟩ <;> exact hpast (by simp) (by simp)
  | pump hpump =>
    unfold Conn.pump at hpump
    split at hpump
    · split at hpump
      · obtain rfl := Option.some.inj hpump
        exact hsame rfl rfl rfl
      · obtain rfl := Option.some.inj hpump
        split
        · exact hsame (Conn.send_phase _ _) (send_request _ _) rfl
        · exact hsame rfl rfl rfl
    · cases hpump
  | write hwrite =>
    unfold Conn.write at hwrite
    split at hwrite
    · obtain rfl := Option.some.inj hwrite
      split <;> exact hsame rfl rfl rfl
    · cases hwrite
  | report => exact hsame (Conn.send_phase _ _) (send_request _ _) rfl
  | _ => first | exact hsame rfl rfl rfl | exact hpast (by simp) (by simp)

/-- A step that starts nothing. -/
theorem Traced.carried (h : Traced env past s) {groups : List Group}
    (hgroups : Carried s.shared.groups groups) (p : KeeperState × Act) :
    ∀ g ∈ groups, StartedFor env (past ++ [p]) g.origin g.request := by
  intro g' hg'
  obtain ⟨g, hg, ho, hreq⟩ := hgroups g' hg'
  rw [← ho, ← hreq]
  exact (h.groups g hg).later p

/-- A step that starts what was asked for. -/
theorem Traced.adds (h : Traced env past s) {groups : List Group} {o : Origin}
    {req : SpawnRequest} (hgroups : Adds o req s.shared.groups groups) {p : KeeperState × Act}
    (hstarted : StartedFor env (past ++ [p]) o req) :
    ∀ g ∈ groups, StartedFor env (past ++ [p]) g.origin g.request := by
  intro g' hg'
  rcases hgroups g' hg' with ⟨g, hg, ho, hreq⟩ | ⟨ho, hreq⟩
  · rw [← ho, ← hreq]
    exact (h.groups g hg).later p
  · rw [ho, hreq]
    exact hstarted

/-- What a call asks for on a channel is what is spawned for it. -/
theorem Traced.session (h : Traced env past s) (hconnected : (s.ssh k).connected = true)
    {request : Ssh.Call} {args : List String} (hstarts : request.starts = some args) :
    SshSession env.ssh k past request
      (sshRequest env.ssh ((s.ssh k).pendingOn request.channel) args) where
  cmd := rfl
  args := hstarts
  cwd := rfl
  pty := (h.asking k hconnected request.channel).pty
  vars := (h.asking k hconnected request.channel).vars

/-- Actions of others do not concern a channel. -/
theorem noteCall_other {channel : ℕ} {calls : List Ssh.Call}
    (h : ∀ request reply, a ≠ .ssh k (.call request reply)) :
    noteCall k channel calls (s, a) = calls := by
  unfold noteCall
  split
  · next k' request reply heq =>
    split
    · next hk => exact (h request reply (hk ▸ heq)).elim
    · rfl
  · rfl

theorem noteCall_own (channel : ℕ) (calls : List Ssh.Call) (request : Ssh.Call) (reply : Reply) :
    noteCall k channel calls (s, .ssh k (.call request reply)) = request.noted channel calls :=
  if_pos rfl

theorem firstFrame_other (h : ∀ b, a ≠ .conn k b) : firstFrame k [(s, a)] = none := by
  unfold firstFrame
  rw [List.findSome?_cons, List.findSome?_nil]
  cases a with
  | conn k' b =>
    have hk : k' ≠ k := fun heq => h b (heq ▸ rfl)
    cases b <;> simp [hk]
  | _ => rfl

/-- A step of an SSH connection. -/
theorem Traced.ssh (h : Traced env past s) {k : ℕ} {a : SshAct} {c : SshConn}
    {groups : List Group} (hstep : (s.ssh k).step k env.ssh s.shared.groups a = some (c, groups)) :
    Traced env (past ++ [(s, .ssh k a)])
      { s with shared := { s.shared with groups := groups }, ssh := insertAt s.ssh k c } := by
  have hlistening : ∀ j, Listening j (past ++ [(s, .ssh k a)]) (s.conns j) := fun j =>
    (h.listening j).later (firstFrame_other (by simp))
  -- The channels of the other connections are not concerned.
  have hasking : (c.connected = true → ∀ channel,
      Represents (requestsOn k channel (past ++ [(s, .ssh k a)])) (c.pendingOn channel)) →
      ∀ j, (insertAt s.ssh k c j).connected = true → ∀ channel,
        Represents (requestsOn j channel (past ++ [(s, .ssh k a)]))
          ((insertAt s.ssh k c j).pendingOn channel) := by
    intro hown j hconnected channel
    by_cases hj : j = k
    · subst hj
      rw [insertAt_self] at hconnected ⊢
      exact hown hconnected channel
    · rw [insertAt_of_ne hj] at hconnected ⊢
      rw [requestsOn_append, noteCall_other fun _ _ heq => hj (Act.ssh.inj heq).1.symm]
      exact h.asking j hconnected channel
  cases a with
  | call request reply =>
    simp only [SshConn.step] at hstep
    split at hstep
    · next hconnected =>
      refine ⟨hlistening, hasking fun hstill channel => ?_, ?_⟩
      · rw [requestsOn_append, noteCall_own]
        exact SshConn.call_represents hstep hstill (h.asking k hconnected channel)
      · rcases call_adds hstep with hcarried | ⟨args, hstarts, hadds⟩
        · exact h.carried hcarried _
        · have hlast : past ++ [(s, .ssh k (.call request reply))] =
              past ++ (s, .ssh k (.call request reply)) :: [] := rfl
          exact h.adds hadds (.ssh hlast (h.session hconnected hstarts))
    · cases hstep
  | task session =>
    obtain ⟨-, hpending, -, -⟩ := SshConn.task_channels hstep
    refine ⟨hlistening, hasking fun hstill channel => ?_, h.carried (task_carried hstep) _⟩
    have hconnected : (s.ssh k).connected = true := by
      simp only [SshConn.step, SshConn.task] at hstep
      split at hstep
      · obtain ⟨rfl, rfl⟩ := Prod.mk.inj (Option.some.inj hstep)
        exact hstill
      · obtain ⟨⟨status, reaped⟩, -, heq⟩ := Option.map_eq_some_iff.mp hstep
        obtain ⟨rfl, rfl⟩ := Prod.mk.inj heq
        exact hstill
      · cases hstep
    rw [requestsOn_append, noteCall_other (by simp), SshConn.pendingOn, hpending]
    exact h.asking k hconnected channel
  | disconnect =>
    simp only [SshConn.step] at hstep
    split at hstep
    · obtain ⟨rfl, rfl⟩ := Prod.mk.inj (Option.some.inj hstep)
      refine ⟨hlistening, hasking fun hconnected => ?_, h.carried (carried_of_eq rfl) _⟩
      cases hconnected
    · cases hstep

/-- A step that is not one of a connection. -/
theorem Traced.aside (h : Traced env past s) (haside : Aside s next)
    (ha : (∀ k b, a ≠ .conn k b) ∧ ∀ k b, a ≠ .ssh k b)
    (hgroups : ∀ g ∈ next.shared.groups, StartedFor env (past ++ [(s, a)]) g.origin g.request) :
    Traced env (past ++ [(s, a)]) next where
  listening k := by
    rw [haside.conns]
    exact (h.listening k).later (firstFrame_other (ha.1 k))
  asking k := by
    rw [haside.ssh]
    intro hconnected channel
    rw [requestsOn_append, noteCall_other fun _ _ => ha.2 k _]
    exact h.asking k hconnected channel
  groups := hgroups

/-- Every step starts only what was asked for. -/
theorem Traced.step (h : Traced env past s) (hstep : s.step env a = some next) :
    Traced env (past ++ [(s, a)]) next := by
  cases KeeperState.step_cases hstep with
  | @conn k a c shared _ _ hconn =>
    refine ⟨fun j => ?_, fun j hconnected channel => ?_, ?_⟩
    · by_cases hj : j = k
      · subst hj
        dsimp only
        rw [insertAt_self]
        exact (h.listening j).step hconn
      · dsimp only
        rw [insertAt_of_ne hj]
        exact (h.listening j).later (firstFrame_other fun _ heq => hj (Act.conn.inj heq).1.symm)
    · rw [requestsOn_append, noteCall_other (by simp)]
      exact h.asking j hconnected channel
    · rcases conn_adds hconn with hcarried | ⟨hphase, hadds⟩
      · exact h.carried hcarried _
      · exact h.adds hadds ((StartedFor.control ((h.listening k).spawning hphase)).later _)
  | ssh _ _ hssh => exact h.ssh hssh
  | child =>
    refine h.aside (aside_step hstep (by simp) (by simp)) ⟨by simp, by simp⟩ ?_
    exact h.carried (carried_childEvent _ _) _
  | main _ hmain =>
    refine h.aside hmain.aside ⟨by simp, by simp⟩ ?_
    cases hmain with
    | spawn _ hstart hspawn =>
      exact h.adds (adds_spawnGroup hspawn) (.services hstart)
    | _ => exact h.carried (carried_of_eq rfl) _
  | handler _ hhandler =>
    refine h.aside hhandler.aside ⟨by simp, by simp⟩ ?_
    cases hhandler with
    | @terminate _ target => exact h.carried (carried_kill target SIGTERM) _
    | @kill target => exact h.carried (carried_kill target SIGKILL) _
    | _ => exact h.carried (carried_of_eq rfl) _

/-- A keeper that has just started has started nothing. -/
theorem traced_start : Traced env [] .start where
  listening _ := ⟨fun _ => rfl, nofun⟩
  asking _ _ _ := represents_default
  groups _ h := by cases h

/-- In every run, at any time, a keeper has started only what it was asked for. -/
theorem traced_run (env : KeeperEnv) (acts : List Act) :
    Traced env (steps (KeeperState.step env) acts .start)
        (exec (KeeperState.step env) acts .start) ∧
      ∀ p ∈ steps (KeeperState.step env) acts .start, ∀ g ∈ p.1.shared.groups,
        StartedFor env (steps (KeeperState.step env) acts .start) g.origin g.request := by
  refine history (G := fun _ _ => True) (J := fun past s => Traced env past s ∧
    ∀ p ∈ past, ∀ g ∈ p.1.shared.groups, StartedFor env past g.origin g.request)
    (fun past s a next h _ hstep => ⟨h.1.step hstep, fun p hp g hg => ?_⟩)
    ⟨traced_start, fun _ hp => (List.not_mem_nil hp).elim⟩ fun _ _ => trivial
  rcases List.mem_append.mp hp with hp | hp
  · exact (h.2 p hp g hg).later _
  · rw [List.mem_singleton.mp hp] at hg
    exact (h.1.groups g hg).later _

/-- What was started for a connection of the control socket is what its first frame asks for. -/
theorem request_of_asked {acts : List Act} {req : SpawnRequest}
    (hasked : firstFrame k (steps (KeeperState.step env) acts .start) = some (some (.spawn req)))
    {p : KeeperState × Act} (hp : p ∈ steps (KeeperState.step env) acts .start) {g : Group}
    (hg : g ∈ p.1.shared.groups) (horigin : g.origin = .control k) : g.request = req := by
  have hstarted := (traced_run env acts).2 p hp g hg
  rw [horigin] at hstarted
  cases hstarted with
  | control hfirst =>
    have hframe := Option.some.inj (Option.some.inj (hfirst.symm.trans hasked))
    exact Frame.spawn.inj hframe

end History

section Environment

/-- The variables of what a group runs, where the keeper has these. -/
def Group.vars (g : Group) (vars : Vars) : Vars := inherit vars (overlay g.request.env [])

/-- Those that were asked for come before the keeper's. -/
theorem Group.getElem?_vars (g : Group) (vars : Vars) (key : String) :
    (g.vars vars)[key]? = (lastValue key g.request.env).or vars[key]? := by
  rw [Group.vars, getElem?_overlay, if_neg List.not_mem_nil]

/-- What `up` means a keeper to read, in a current directory. -/
def servedWith (launch : Launch) (cwd : Option String) : KeeperEnv :=
  ⟨launch.services.isSome, some launch.projectRoot, some (launch.services.getD ""),
    ⟨some launch.shell, cwd⟩⟩

/-- It does. -/
theorem keeperEnvOf_environ (launch : Launch) (ssh : SshHandoff)
    (toJson : Policy.CapabilityPlan → String) (ambient : Vars) (cwd : Option String) :
    keeperEnvOf (Control.read (launch.environ ssh toJson ambient)) cwd = servedWith launch cwd := by
  rw [read_environ]
  unfold keeperEnvOf servedWith Launch.control
  cases launch.services <;> simp

/-- A variable that no client may set is none of those that one has asked for. -/
theorem SshSession.lastValue_eq_none {env : ServerEnv} {k : ℕ} {past : List (KeeperState × Act)}
    {request : Ssh.Call} {req : SpawnRequest} (h : SshSession env k past request req) {key : String}
    (hkey : envAllowed key = false) : lastValue key req.env = none := by
  rw [h.vars, lastValue_eq_none_iff]
  intro hmem
  obtain ⟨⟨name, value⟩, hentry, rfl⟩ := List.mem_map.mp hmem
  obtain ⟨call, -, hsets⟩ := List.mem_filterMap.mp hentry
  cases call with
  | envRequest channel name' value' =>
    simp only [Ssh.Call.sets] at hsets
    split at hsets
    · next hallowed =>
      obtain ⟨rfl, rfl⟩ := Prod.mk.inj (Option.some.inj hsets)
      cases hkey.symm.trans hallowed
    · cases hsets
  | _ => cases hsets

theorem StartedFor.lastValue_eq_none {env : KeeperEnv} {past : List (KeeperState × Act)}
    {o : Origin} {req : SpawnRequest} (h : StartedFor env past o req) {k session : ℕ}
    (ho : o = .ssh k session) {key : String} (hkey : envAllowed key = false) :
    lastValue key req.env = none := by
  cases h with
  | control => cases ho
  | ssh _ hasked => exact hasked.lastValue_eq_none hkey
  | services => cases ho

/-- What a keeper starts in any run, it starts for what was asked for on the control socket or on a
channel of an SSH connection, or for the services, and with the variables that were asked for there
before its own, of which the manifest's come before the provider's and these before the caller's.
Over SSH, no client can set one that is not allowed. -/
theorem sessions_started (input : UpInput) (root exe : String) (resolution : Resolution)
    (shell : ResolvedShell) (compiled : Policy.CompiledPolicy) (proxy : Option (UInt16 × String))
    (services isolated : Bool) (ssh : SshHandoff) (toJson : Policy.CapabilityPlan → String)
    (ambient : Vars) (cwd : Option String) (acts : List Act) :
    let launch := keeperLaunch input root exe resolution shell compiled proxy services isolated
    let vars := launch.environ ssh toJson ambient
    let env := keeperEnvOf (Control.read vars) cwd
    let inherited := fun key => (launch.controlVariable ssh toJson key).or
      (sessionVariable input resolution proxy ambient key)
    env = servedWith launch cwd ∧
    ∀ g ∈ (exec (KeeperState.step env) acts .start).shared.groups,
      StartedFor env (steps (KeeperState.step env) acts .start) g.origin g.request ∧
      (∀ key, (g.vars vars)[key]? = (lastValue key g.request.env).or (inherited key)) ∧
      ∀ k session, g.origin = .ssh k session → ∀ key, envAllowed key = false →
        (g.vars vars)[key]? = inherited key := by
  intro launch vars env inherited
  have hinherited : ∀ key, vars[key]? = inherited key := getElem?_environ ssh toJson ambient
  have hvars : ∀ (g : Group) key,
      (g.vars vars)[key]? = (lastValue key g.request.env).or (inherited key) := by
    intro g key
    rw [Group.getElem?_vars, hinherited]
  have htraced := (traced_run env acts).1
  refine ⟨keeperEnvOf_environ launch ssh toJson ambient cwd, fun g hg => ?_⟩
  have hstarted := htraced.groups g hg
  refine ⟨hstarted, hvars g, fun k session ho key hkey => ?_⟩
  rw [hvars, hstarted.lastValue_eq_none ho hkey, Option.none_or]

end Environment

section Terminal

/-- A sandbox without services. -/
def terminalLaunch : Launch :=
  keeperLaunch (sampleInput []) "/home/u/.local/share/devcroft/p" "/opt/devcroft/devcroft"
    ⟨[("PATH", "/nix/store/s/bin")], [], ["/nix/store"], none, .declared [], false⟩
    ⟨"/nix/store/b/bin/sh", none⟩ (Policy.compile .linux (sampleInput []).manifest) none false false

/-- What the caller of `up` has. -/
def terminalVars : Vars := Std.TreeMap.ofList [("TERM", "dumb"), ("PATH", "/home/u/bin")]

/-- A client asks for a terminal and for another `PATH`, and runs a command. -/
def terminalSession : List Act :=
  [.main (.startServices (.ok 50)),
    .ssh 0 (.call (.channelOpenSession 0) ⟨true, none, true⟩),
    .ssh 0 (.call (.envRequest 0 "TERM" "xterm") ⟨true, none, true⟩),
    .ssh 0 (.call (.envRequest 0 "PATH" "/tmp") ⟨true, none, true⟩),
    .ssh 0 (.call (.execRequest 0 "make") ⟨true, some 100, true⟩)]

/-- It gets the terminal, and the `PATH` of the provider. -/
theorem sessions_started_terminal :
    ∃ g ∈ (exec (KeeperState.step (servedWith terminalLaunch none)) terminalSession
        .start).shared.groups, g.request.args = ["-c", "make"] ∧
      (g.vars (terminalLaunch.environ ⟨"host key", "client key"⟩ planJson terminalVars))["PATH"]? =
        some "/nix/store/s/bin" ∧
      (g.vars (terminalLaunch.environ ⟨"host key", "client key"⟩ planJson terminalVars))["TERM"]? =
        some "xterm" := by
  obtain ⟨henv, hall⟩ := sessions_started (sampleInput []) "/home/u/.local/share/devcroft/p"
    "/opt/devcroft/devcroft"
    ⟨[("PATH", "/nix/store/s/bin")], [], ["/nix/store"], none, .declared [], false⟩
    ⟨"/nix/store/b/bin/sh", none⟩ (Policy.compile .linux (sampleInput []).manifest) none false false
    ⟨"host key", "client key"⟩ planJson terminalVars none terminalSession
  dsimp only at henv hall
  rw [henv] at hall
  have hgroup : ∃ g ∈ (exec (KeeperState.step (servedWith terminalLaunch none)) terminalSession
      .start).shared.groups, g.origin = .ssh 0 0 ∧ g.request.args = ["-c", "make"] ∧
        lastValue "TERM" g.request.env = some "xterm" := by decide +kernel
  have hpath : terminalLaunch.controlVariable ⟨"host key", "client key"⟩ planJson "PATH" = none ∧
      sessionVariable (sampleInput []) ⟨[("PATH", "/nix/store/s/bin")], [], ["/nix/store"], none,
        .declared [], false⟩ none terminalVars "PATH" = some "/nix/store/s/bin" := by decide +kernel
  obtain ⟨g, hg, ho, hargs, hterm⟩ := hgroup
  obtain ⟨-, hvars, hkept⟩ := hall g hg
  refine ⟨g, hg, hargs, (hkept 0 0 ho "PATH" (by decide)).trans ?_, (hvars "TERM").trans ?_⟩
  · exact (congrArg₂ Option.or hpath.1 hpath.2).trans rfl
  · rw [hterm, Option.some_or]

end Terminal

end Devcroft.Keeper
