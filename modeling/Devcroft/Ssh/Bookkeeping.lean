import Devcroft.Keeper.Children
import Devcroft.Ssh.Server

/-!
# What an SSH connection knows of its sessions

A child of a connection was waited for just when its task has got that far, and what the
map of active sessions holds are such children.
-/

namespace Devcroft.Ssh

open Keeper

/-- Every active session was active before, under the same number and process group. -/
def KeepsActive (c c' : SshConn) : Prop :=
  ∀ channel a, c'.active channel = some a →
    ∃ channel' a', c.active channel' = some a' ∧ a'.session = a.session ∧ a'.pgid = a.pgid

theorem KeepsActive.of_eq {c c' : SshConn} (h : c'.active = c.active) : KeepsActive c c' :=
  fun channel a ha => ⟨channel, a, h ▸ ha, rfl, rfl⟩

theorem KeepsActive.dropped {c c' : SshConn} (h : c'.active = fun _ => none) :
    KeepsActive c c' := by
  intro channel a ha
  rw [h] at ha
  cases ha

/-- Changing an entry but for its session and process group, or removing it. -/
theorem KeepsActive.insertAt {c c' : SshConn} {channel : ℕ} {entry : Option ActiveSession}
    (h : c'.active = insertAt c.active channel entry)
    (hentry : ∀ a, entry = some a → ∃ a', c.active channel = some a' ∧ a'.session = a.session ∧
      a'.pgid = a.pgid) : KeepsActive c c' := by
  intro channel' a ha
  rw [h] at ha
  by_cases heq : channel' = channel
  · subst heq
    rw [insertAt_self] at ha
    obtain ⟨a', ha', hsession, hpgid⟩ := hentry a ha
    exact ⟨channel', a', ha', hsession, hpgid⟩
  · rw [insertAt_of_ne heq] at ha
    exact ⟨channel', a, ha, rfl, rfl⟩

/-- What a step of the `k`-th connection does with its sessions. -/
inductive SshConn.Moves (k : ℕ) (c : SshConn) (groups : List Group) (c' : SshConn)
    (groups' : List Group) : Prop
  | stays (spawned : c'.spawned = c.spawned) (tasks : c'.tasks = c.tasks)
      (active : KeepsActive c c') (groups : groups' = groups)
  | spawns (pid : ℕ) (req : SpawnRequest) (spawned : c'.spawned = c.spawned + 1)
      (tasks : c'.tasks = insertAt c.tasks c.spawned (some .pumping) ∨ c'.tasks = c.tasks)
      (active : ∀ channel a, c'.active channel = some a →
        (a.session = c.spawned ∧ a.pgid = pid) ∨ c.active channel = some a)
      (groups : spawnGroup pid (.ssh k c.spawned) req groups = some groups')
  | signals (target : ℤ) (sig : ℕ) (spawned : c'.spawned = c.spawned) (tasks : c'.tasks = c.tasks)
      (active : KeepsActive c c') (groups : groups' = kill target sig groups)
  | joinsPumps (session : ℕ) (task : c.tasks session = some .pumping)
    (spawned : c'.spawned = c.spawned)
      (tasks : c'.tasks = insertAt c.tasks session (some .waiting)) (active : c'.active = c.active)
      (groups : groups' = groups)
  | waits (session : ℕ) (status : ExitStatus) (task : c.tasks session = some .waiting)
      (spawned : c'.spawned = c.spawned)
      (tasks : c'.tasks = insertAt c.tasks session (some (.reaped status)))
      (active : c'.active = c.active)
      (groups : reap (.ssh k session) groups = some (status, groups'))

section Steps

variable {k : ℕ} {env : ServerEnv} {c c' : SshConn} {groups groups' : List Group}

/-- A reply changes no session, unless it ends the connection. -/
theorem SshConn.replied_moves {reply : Reply} (hspawned : c'.spawned = c.spawned)
    (htasks : c'.tasks = c.tasks) (hactive : c'.active = c.active) :
    c.Moves k groups (c'.replied reply) groups := by
  unfold SshConn.replied
  split
  · exact .stays hspawned htasks (.of_eq hactive) rfl
  · exact .stays hspawned htasks (.dropped rfl) rfl

/-- What starting a session does. -/
theorem SshConn.startSession_moves {channel : ℕ} {cmd : String} {args : List String} {reply : Reply}
    (h : c.startSession k env channel cmd args reply groups = some (c', groups')) :
    c.Moves k groups c' groups' := by
  unfold SshConn.startSession at h
  dsimp only at h
  split at h
  · obtain ⟨rfl, rfl⟩ := Prod.mk.inj (Option.some.inj h)
    exact SshConn.replied_moves rfl rfl rfl
  · next pid _ =>
    obtain ⟨spawned, hspawn, heq⟩ := Option.map_eq_some_iff.mp h
    split at heq
    · obtain ⟨rfl, rfl⟩ := Prod.mk.inj heq
      refine .spawns pid _ rfl (Or.inl rfl) (fun channel' a ha => ?_) hspawn
      by_cases hch : channel' = channel
      · subst hch
        dsimp only at ha
        rw [insertAt_self] at ha
        obtain rfl := Option.some.inj ha
        exact Or.inl ⟨rfl, rfl⟩
      · dsimp only at ha
        rw [insertAt_of_ne hch] at ha
        exact Or.inr ha
    · obtain ⟨rfl, rfl⟩ := Prod.mk.inj heq
      exact .spawns pid _ rfl (Or.inr rfl) (fun _ _ ha => by cases ha) hspawn

/-- Changing what an active session holds beside its session and process group. -/
theorem SshConn.edited_moves {channel : ℕ} {f : ActiveSession → ActiveSession}
    (hf : ∀ a, (f a).session = a.session ∧ (f a).pgid = a.pgid)
    (h : (match c.active channel with
      | none => some (c, groups)
      | some active =>
        some ({ c with active := insertAt c.active channel (some (f active)) }, groups)) =
      some (c', groups')) : c.Moves k groups c' groups' := by
  split at h
  · obtain ⟨rfl, rfl⟩ := Prod.mk.inj (Option.some.inj h)
    exact .stays rfl rfl (.of_eq rfl) rfl
  · next a ha =>
    obtain ⟨rfl, rfl⟩ := Prod.mk.inj (Option.some.inj h)
    refine .stays rfl rfl (.insertAt rfl ?_) rfl
    rintro _ ⟨⟩
    exact ⟨a, ha, (hf a).1.symm, (hf a).2.symm⟩

/-- What a call of the handler does. -/
theorem SshConn.call_moves {reply : Reply} {request : Call}
    (h : c.call k env reply groups request = some (c', groups')) : c.Moves k groups c' groups' := by
  cases request with
  | channelOpenSession channel =>
    obtain ⟨rfl, rfl⟩ := Prod.mk.inj (Option.some.inj h)
    exact .stays rfl rfl (.of_eq rfl) rfl
  | ptyRequest channel colWidth rowHeight =>
    obtain ⟨rfl, rfl⟩ := Prod.mk.inj (Option.some.inj h)
    exact SshConn.replied_moves rfl rfl rfl
  | envRequest channel name value =>
    simp only [SshConn.call] at h
    split at h
    · obtain ⟨rfl, rfl⟩ := Prod.mk.inj (Option.some.inj h)
      exact SshConn.replied_moves rfl rfl rfl
    · obtain ⟨rfl, rfl⟩ := Prod.mk.inj (Option.some.inj h)
      exact SshConn.replied_moves rfl rfl rfl
  | shellRequest channel => exact SshConn.startSession_moves h
  | execRequest channel command => exact SshConn.startSession_moves h
  | windowChangeRequest channel colWidth rowHeight =>
    exact SshConn.edited_moves (f := fun active => { active with
      pty := active.pty.map fun _ => ⟨rowHeight.toUInt16, colWidth.toUInt16⟩ })
      (fun _ => ⟨rfl, rfl⟩) h
  | data channel bytes =>
    exact SshConn.edited_moves
      (f := fun active => { active with stdin := active.stdin && reply.stdinTakes })
      (fun _ => ⟨rfl, rfl⟩) h
  | channelEof channel =>
    exact SshConn.edited_moves (f := fun active => { active with stdin := false })
      (fun _ => ⟨rfl, rfl⟩) h
  | channelClose channel =>
    have hclosed := Option.some.inj h
    unfold SshConn.channelClose at hclosed
    have hremoved : ∀ a : ActiveSession, none = some a → ∃ a', c.active channel = some a' ∧
        a'.session = a.session ∧ a'.pgid = a.pgid := fun a ha => by cases ha
    split at hclosed
    · obtain ⟨rfl, rfl⟩ := Prod.mk.inj hclosed
      exact .stays rfl rfl (.insertAt rfl hremoved) rfl
    · obtain ⟨rfl, rfl⟩ := Prod.mk.inj hclosed
      exact .signals _ _ rfl rfl (.insertAt rfl hremoved) rfl
  | subsystemRequest channel name =>
    simp only [SshConn.call] at h
    split at h
    · obtain ⟨rfl, rfl⟩ := Prod.mk.inj (Option.some.inj h)
      exact SshConn.replied_moves rfl rfl rfl
    · obtain ⟨rfl, rfl⟩ := Prod.mk.inj (Option.some.inj h)
      exact SshConn.replied_moves rfl rfl rfl

/-- All that a step of a connection can do with its sessions. -/
theorem SshConn.step_moves {a : SshAct} (h : c.step k env groups a = some (c', groups')) :
    c.Moves k groups c' groups' := by
  cases a with
  | call request reply =>
    simp only [SshConn.step] at h
    split at h
    · exact SshConn.call_moves h
    · cases h
  | task session =>
    simp only [SshConn.step, SshConn.task] at h
    split at h
    · next htask =>
      obtain ⟨rfl, rfl⟩ := Prod.mk.inj (Option.some.inj h)
      exact .joinsPumps session htask rfl rfl rfl rfl
    · next htask =>
      obtain ⟨⟨status, reaped⟩, hreap, heq⟩ := Option.map_eq_some_iff.mp h
      obtain ⟨rfl, rfl⟩ := Prod.mk.inj heq
      exact .waits session status htask rfl rfl rfl hreap
    · cases h
  | disconnect =>
    simp only [SshConn.step] at h
    split at h
    · obtain ⟨rfl, rfl⟩ := Prod.mk.inj (Option.some.inj h)
      exact .stays rfl rfl (.dropped rfl) rfl
    · cases h

end Steps

/-- A connection and its children agree. -/
structure Enlisted (k : ℕ) (c : SshConn) (groups : List Group) : Prop where
  spawned : ∀ j, ∀ g ∈ groups, g.origin = .ssh k j → j < c.spawned
  tasks : ∀ j task, c.tasks j = some task → j < c.spawned
  child : ∀ j, ∀ g ∈ groups, g.origin = .ssh k j →
    (g.leader = .reaped ↔ ∃ status, c.tasks j = some (.reaped status))
  active : ∀ channel a, c.active channel = some a →
    ∃ g ∈ groups, g.origin = .ssh k a.session ∧ g.pgid = a.pgid

section Enlisted

variable {k : ℕ} {c c' : SshConn} {groups groups' : List Group}

/-- A new connection has no child. -/
theorem enlisted_newClient (h : ∀ j, ∀ g ∈ groups, g.origin ≠ .ssh k j) :
    Enlisted k .newClient groups where
  spawned j g hg ho := (h j g hg ho).elim
  tasks _ _ ht := by cases ht
  child j g hg ho := (h j g hg ho).elim
  active _ _ ha := by cases ha

/-- What others do to their own children. -/
theorem Enlisted.frame (he : Enlisted k c groups)
    (h : ∀ j, SameChild (.ssh k j) groups groups') : Enlisted k c groups' where
  spawned j g' hg' ho := by
    obtain ⟨g, hg, ho, -⟩ := (h j).back g' hg' ho
    exact he.spawned j g hg ho
  tasks := he.tasks
  child j g' hg' ho := by
    obtain ⟨g, hg, ho, -, hleader, -⟩ := (h j).back g' hg' ho
    exact hleader.trans (he.child j g hg ho)
  active channel a ha := by
    obtain ⟨g, hg, ho, hpgid⟩ := he.active channel a ha
    obtain ⟨g', hg', ho', hpgid'⟩ := (h a.session).forth g hg ho
    exact ⟨g', hg', ho', hpgid'.trans hpgid⟩

/-- A step that keeps the numbers, the tasks and what is active. -/
theorem Enlisted.stays (he : Enlisted k c groups) (hspawned : c'.spawned = c.spawned)
    (htasks : c'.tasks = c.tasks) (hactive : KeepsActive c c') : Enlisted k c' groups where
  spawned := by rw [hspawned]; exact he.spawned
  tasks := by rw [hspawned, htasks]; exact he.tasks
  child := by rw [htasks]; exact he.child
  active channel a ha := by
    obtain ⟨channel', a', ha', hsession, hpgid⟩ := hactive channel a ha
    rw [← hsession, ← hpgid]
    exact he.active channel' a' ha'

/-- A new child. -/
theorem Enlisted.spawns (he : Enlisted k c groups) {pid : ℕ} {req : SpawnRequest}
    (hspawned : c'.spawned = c.spawned + 1)
    (htasks : c'.tasks = insertAt c.tasks c.spawned (some .pumping) ∨ c'.tasks = c.tasks)
    (hactive : ∀ channel a, c'.active channel = some a →
      (a.session = c.spawned ∧ a.pgid = pid) ∨ c.active channel = some a) :
    Enlisted k c' (groups ++ [⟨pid, .ssh k c.spawned, req, .running, 0⟩]) where
  spawned j g hg ho := by
    rw [hspawned]
    rcases List.mem_append.mp hg with hg | hg
    · exact Nat.lt_succ_of_lt (he.spawned j g hg ho)
    · obtain rfl := List.mem_singleton.mp hg
      obtain ⟨-, rfl⟩ := Origin.ssh.inj ho
      exact Nat.lt_succ_self _
  tasks j task ht := by
    rw [hspawned]
    rcases htasks with h | h
    · rw [h] at ht
      by_cases hj : j = c.spawned
      · omega
      · rw [insertAt_of_ne hj] at ht
        exact Nat.lt_succ_of_lt (he.tasks j task ht)
    · rw [h] at ht
      exact Nat.lt_succ_of_lt (he.tasks j task ht)
  child j g hg ho := by
    -- The number of the new child was not used before.
    rcases List.mem_append.mp hg with hg | hg
    · have hlt := he.spawned j g hg ho
      have hsame : c'.tasks j = c.tasks j := by
        rcases htasks with h | h
        · rw [h, insertAt_of_ne (Nat.ne_of_lt hlt)]
        · rw [h]
      rw [hsame]
      exact he.child j g hg ho
    · obtain rfl := List.mem_singleton.mp hg
      obtain ⟨-, rfl⟩ := Origin.ssh.inj ho
      refine ⟨fun h => (by cases h), ?_⟩
      rintro ⟨status, ht⟩
      rcases htasks with h | h
      · rw [h, insertAt_self] at ht
        cases ht
      · rw [h] at ht
        exact absurd (he.tasks _ _ ht) (lt_irrefl _)
  active channel a ha := by
    rcases hactive channel a ha with ⟨hsession, hpgid⟩ | ha
    · refine ⟨_, List.mem_append_right _ (List.mem_singleton.mpr rfl), ?_, hpgid.symm⟩
      rw [hsession]
    · obtain ⟨g, hg, ho, hpgid⟩ := he.active channel a ha
      exact ⟨g, List.mem_append_left _ hg, ho, hpgid⟩

/-- A step of a task. -/
theorem Enlisted.task (he : Enlisted k c groups) {session : ℕ} {task task' : WaitTask}
    (htask : c.tasks session = some task) (hspawned : c'.spawned = c.spawned)
    (htasks : c'.tasks = insertAt c.tasks session (some task')) (hactive : c'.active = c.active)
    (hothers : ∀ j, j ≠ session → SameChild (.ssh k j) groups groups')
    (hchild : ∀ g' ∈ groups', g'.origin = .ssh k session →
      (g'.leader = .reaped ↔ ∃ status, task' = .reaped status))
    (hforth : ∀ g ∈ groups, g.origin = .ssh k session →
      ∃ g' ∈ groups', g'.origin = g.origin ∧ g'.pgid = g.pgid) : Enlisted k c' groups' where
  spawned j g' hg' ho := by
    rw [hspawned]
    by_cases hj : j = session
    · subst hj
      exact he.tasks j task htask
    · obtain ⟨g, hg, ho, -⟩ := (hothers j hj).back g' hg' ho
      exact he.spawned j g hg ho
  tasks j t ht := by
    rw [hspawned]
    by_cases hj : j = session
    · subst hj
      exact he.tasks j task htask
    · rw [htasks, insertAt_of_ne hj] at ht
      exact he.tasks j t ht
  child j g' hg' ho := by
    rw [htasks]
    by_cases hj : j = session
    · subst hj
      rw [insertAt_self]
      rw [hchild g' hg' ho]
      simp
    · rw [insertAt_of_ne hj]
      obtain ⟨g, hg, ho, -, hleader, -⟩ := (hothers j hj).back g' hg' ho
      exact hleader.trans (he.child j g hg ho)
  active channel a ha := by
    rw [hactive] at ha
    obtain ⟨g, hg, ho, hpgid⟩ := he.active channel a ha
    by_cases hj : a.session = session
    · obtain ⟨g', hg', ho', hpgid'⟩ := hforth g hg (hj ▸ ho)
      exact ⟨g', hg', ho'.trans ho, hpgid'.trans hpgid⟩
    · obtain ⟨g', hg', ho', hpgid'⟩ := (hothers _ hj).forth g hg ho
      exact ⟨g', hg', ho', hpgid'.trans hpgid⟩

/-- A step of a connection keeps its own books. -/
theorem Enlisted.moves (he : Enlisted k c groups) (hmoves : c.Moves k groups c' groups') :
    Enlisted k c' groups' := by
  cases hmoves with
  | stays hspawned htasks hactive hgroups =>
    subst hgroups
    exact he.stays hspawned htasks hactive
  | spawns pid req hspawned htasks hactive hgroups =>
    rw [spawnGroup_eq_some hgroups]
    exact he.spawns hspawned htasks hactive
  | signals target sig hspawned htasks hactive hgroups =>
    subst hgroups
    exact (he.frame fun j => sameChild_kill _ _ _ _).stays hspawned htasks hactive
  | joinsPumps session htask hspawned htasks hactive hgroups =>
    subst hgroups
    refine he.task htask hspawned htasks hactive (fun j _ => .refl _ _) (fun g hg ho => ?_)
      fun g hg ho => ⟨g, hg, rfl, rfl⟩
    rw [he.child session g hg ho, htask]
    simp
  | waits session status htask hspawned htasks hactive hgroups =>
    have hreaped := reap_eq_some hgroups
    refine he.task htask hspawned htasks hactive
      (fun j hj => sameChild_reap hgroups (by simp [hj])) (fun g' hg' ho => ?_) fun g hg ho => ?_
    · rw [hreaped] at hg'
      obtain ⟨g, hg, rfl⟩ := List.mem_map.mp hg'
      have hown : g.origin = .ssh k session := by
        split at ho
        · next h => exact h
        · exact ho
      rw [if_pos hown]
      exact ⟨fun _ => ⟨status, rfl⟩, fun _ => rfl⟩
    · rw [hreaped]
      refine ⟨_, List.mem_map_of_mem hg, ?_, ?_⟩ <;> rw [if_pos ho]

/-- What a step of a connection does to the children of others. -/
theorem SshConn.Moves.others (hmoves : c.Moves k groups c' groups') {o : Origin}
    (ho : ∀ j, o ≠ .ssh k j) : SameChild o groups groups' := by
  cases hmoves with
  | stays _ _ _ hgroups => exact hgroups ▸ .refl o groups
  | spawns _ _ _ _ _ hgroups => exact sameChild_spawnGroup hgroups (ho _)
  | signals _ _ _ _ _ hgroups => exact hgroups ▸ sameChild_kill o _ _ groups
  | joinsPumps _ _ _ _ _ hgroups => exact hgroups ▸ .refl o groups
  | waits _ _ _ _ _ _ hgroups => exact sameChild_reap hgroups (ho _)

end Enlisted

end Devcroft.Ssh
