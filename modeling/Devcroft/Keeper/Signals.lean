import Devcroft.Keeper.Main

/-!
# What the actions do to the processes

The sessions signal at few places. Everything else that they do to processes is to spawn
one and to wait for one.
-/

namespace Devcroft.Keeper

open Ssh

/-- The call of `kill` that an action of a session makes: the child that it is meant for, the
process group and the signal. -/
def sessionKill (s : KeeperState) : Act → Option (Origin × ℕ × ℕ)
  | .conn k (.read (some (.signal sig)) _ _) =>
    if (s.conns k).phase = .reading then some (.control k, (s.conns k).pgid, sig.asLibc) else none
  | .conn k (.proceed _) =>
    if (s.conns k).phase = .terminating then some (.control k, (s.conns k).pgid, SIGTERM)
    else if (s.conns k).phase = .killing then some (.control k, (s.conns k).pgid, SIGKILL)
    else none
  | .ssh k (.call (.channelClose channel) _) =>
    ((s.ssh k).active channel).map fun active => (.ssh k active.session, active.pgid, SIGTERM)
  | _ => none

/-- Whether an action spawns the child of a session. -/
def Act.spawnsSession : Act → Bool
  | .conn _ (.spawn (.ok _)) => true
  | .ssh _ (.call (.shellRequest _) reply) => reply.pid.isSome
  | .ssh _ (.call (.execRequest _ _) reply) => reply.pid.isSome
  | _ => false

/-- The processes are left alone, but for one that is spawned or waited for. -/
def SignalsNothing (spawns : Bool) (groups groups' : List Group) : Prop :=
  groups' = groups ∨ (spawns = true ∧ ∃ pid o req, spawnGroup pid o req groups = some groups') ∨
    ∃ o status, reap o groups = some (status, groups')

theorem Conn.groups_of_sessionKill {s : KeeperState} {k : ℕ} {b : ConnAct} {c : Conn}
    {shared : Shared} (h : (s.conns k).step k s.shared b = some (c, shared)) :
    match sessionKill s (.conn k b) with
    | some (_, pgid, sig) => shared.groups = kill (-(pgid : ℤ)) sig s.shared.groups
    | none => SignalsNothing (Act.conn k b).spawnsSession s.shared.groups shared.groups := by
  cases Conn.step_cases h with
  | accept | hangUp | spawnFails | pump | write | joinPumps | remove | report => exact Or.inl rfl
  | @answer frame _ _ out hphase =>
    cases frame with
    | none => exact Or.inl rfl
    | some frame =>
      cases frame with
      | signal sig =>
        simp only [sessionKill, hphase]
        exact Or.inl rfl
      | _ => exact Or.inl rfl
  | @frame frame _ _ _ _ hphase hframe =>
    cases frame with
    | none => exact Or.inl rfl
    | some frame =>
      cases frame with
      | signal sig => exact (hframe sig rfl).elim
      | _ => exact Or.inl rfl
  | signal hphase => simp only [sessionKill, hphase, if_true]
  | spawn hphase hspawn => exact Or.inr (Or.inl ⟨rfl, _, _, _, hspawn⟩)
  | number hphase | insert hphase | announce hphase | giveUp hphase | join hphase =>
    simp only [sessionKill, hphase]
    exact Or.inl rfl
  | look hphase =>
    rcases hphase with hphase | hphase | hphase <;> simp only [sessionKill, hphase] <;>
      exact Or.inl rfl
  | terminate hphase => simp only [sessionKill, hphase, if_true]
  | kill hphase =>
    simp only [sessionKill, hphase]
    rfl
  | reap hwaiter hreap => exact Or.inr (Or.inr ⟨_, _, hreap⟩)

/-- Starting a session signals nothing. -/
theorem SshConn.startSession_groups {k channel : ℕ} {env : ServerEnv} {c c' : SshConn}
    {cmd : String}
    {args : List String} {reply : Reply} {groups groups' : List Group}
    (h : c.startSession k env channel cmd args reply groups = some (c', groups')) :
    SignalsNothing reply.pid.isSome groups groups' := by
  unfold SshConn.startSession at h
  dsimp only at h
  split at h
  · obtain ⟨-, rfl⟩ := Prod.mk.inj (Option.some.inj h)
    exact Or.inl rfl
  · next pid hpid =>
    obtain ⟨spawned, hspawn, heq⟩ := Option.map_eq_some_iff.mp h
    split at heq <;> obtain ⟨-, rfl⟩ := Prod.mk.inj heq <;>
      exact Or.inr (Or.inl ⟨by rw [hpid]; rfl, _, _, _, hspawn⟩)

theorem SshConn.groups_of_sessionKill {env : ServerEnv} {s : KeeperState} {k : ℕ} {b : SshAct}
    {c : SshConn} {groups : List Group}
    (h : (s.ssh k).step k env s.shared.groups b = some (c, groups)) :
    match sessionKill s (.ssh k b) with
    | some (_, pgid, sig) => groups = kill (-(pgid : ℤ)) sig s.shared.groups
    | none => SignalsNothing (Act.ssh k b).spawnsSession s.shared.groups groups := by
  cases b with
  | call request reply =>
    cases request with
    | channelClose channel =>
      simp only [SshConn.step] at h
      split at h
      · have hclosed := Option.some.inj h
        simp only [sessionKill]
        unfold SshConn.channelClose at hclosed
        split at hclosed
        · next hactive =>
          obtain ⟨-, rfl⟩ := Prod.mk.inj hclosed
          rw [hactive]
          exact Or.inl rfl
        · next active hactive =>
          obtain ⟨-, rfl⟩ := Prod.mk.inj hclosed
          rw [hactive]
          rfl
      · cases h
    | shellRequest channel =>
      simp only [SshConn.step] at h
      split at h
      · exact SshConn.startSession_groups h
      · cases h
    | execRequest channel command =>
      simp only [SshConn.step] at h
      split at h
      · exact SshConn.startSession_groups h
      · cases h
    | _ =>
      -- The other requests have nothing to do with processes.
      simp only [SshConn.step, SshConn.call] at h
      split at h
      · first
          | obtain ⟨-, rfl⟩ := Prod.mk.inj (Option.some.inj h)
            exact Or.inl rfl
          | split at h <;> obtain ⟨-, rfl⟩ := Prod.mk.inj (Option.some.inj h) <;> exact Or.inl rfl
      · cases h
  | task session =>
    simp only [SshConn.step, SshConn.task] at h
    split at h
    · obtain ⟨-, rfl⟩ := Prod.mk.inj (Option.some.inj h)
      exact Or.inl rfl
    · obtain ⟨⟨status, reaped⟩, hreap, heq⟩ := Option.map_eq_some_iff.mp h
      obtain ⟨-, rfl⟩ := Prod.mk.inj heq
      exact Or.inr (Or.inr ⟨_, _, hreap⟩)
    · cases h
  | disconnect =>
    simp only [SshConn.step] at h
    split at h
    · obtain ⟨-, rfl⟩ := Prod.mk.inj (Option.some.inj h)
      exact Or.inl rfl
    · cases h

/-- What a session does to the processes beside spawning and waiting is that call. -/
theorem groups_of_sessionKill {env : KeeperEnv} {s next : KeeperState} {a : Act}
    (h : s.step env a = some next) (hsession : (∃ k b, a = .conn k b) ∨ ∃ k b, a = .ssh k b) :
    match sessionKill s a with
    | some (_, pgid, sig) => next.shared.groups = kill (-(pgid : ℤ)) sig s.shared.groups
    | none => SignalsNothing a.spawnsSession s.shared.groups next.shared.groups := by
  rcases hsession with ⟨k, b, rfl⟩ | ⟨k, b, rfl⟩
  · cases KeeperState.step_cases h with
    | conn _ _ hstep => exact Conn.groups_of_sessionKill hstep
  · cases KeeperState.step_cases h with
    | ssh _ _ hstep => exact SshConn.groups_of_sessionKill hstep

end Devcroft.Keeper
