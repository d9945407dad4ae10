import Devcroft.Library.Interleaving
import Devcroft.Keeper.Reaping

/-!
# What a shutdown reaches

The handler walks the registry twice, and the services once. What it misses are the
sessions that have no entry: those of the SSH server, those of the control socket before
their insertion, and those of which only the child has exited.
-/

namespace Devcroft.Keeper

open Ssh Interleaving

/-- All session groups that run have a property. -/
def AllRunning (s : KeeperState) (P : Group → Prop) : Prop :=
  ∀ g ∈ s.shared.groups, g.origin.isSession = true → g.running → P g

instance (s : KeeperState) (P : Group → Prop) [DecidablePred P] : Decidable (AllRunning s P) :=
  inferInstanceAs (Decidable (∀ g ∈ s.shared.groups, _ → _ → _))

/-- Every session group that runs is among those that the handler signals: when it collects the ones
to terminate, when it collects the ones to kill, and so none is left when the keeper exits. -/
def Sweeps (s : KeeperState) (a : Act) : Prop :=
  match a, s.handler with
  | .handler .proceed, .asked services =>
    AllRunning s fun g => -(g.pgid : ℤ) ∈ sweep s.shared.registry services
  | .handler .proceed, .grace services terminated =>
    AllRunning s fun g => -(g.pgid : ℤ) ∈ terminated ∧
      -(g.pgid : ℤ) ∈ sweep s.shared.registry services
  | .handler .proceed, .killing [] _ => AllRunning s fun _ => False
  | .main .acceptFails, _ => AllRunning s fun _ => False
  | _, _ => True

/-- A session of the control socket that has its entry. -/
def Registered (s : KeeperState) (g : Group) : Prop :=
  match g.origin with
  | .control k =>
    (s.conns k).phase.stage = .inserted ∨
      ((s.conns k).phase.stage = .started ∧ (s.conns k).waiter.entryGone = false)
  | _ => False

instance (s : KeeperState) : DecidablePred (Registered s) := by
  intro g
  unfold Registered
  split <;> infer_instance

/-- Whether the handler has yet to look into the registry. -/
def Handler.unswept : Handler → Bool
  | waiting => true
  | signalled => true
  | asked _ => true
  | _ => false

/-- The condition on a step: when the handler looks into the registry, all session groups that run
are of the control socket and have their entry; no session is spawned after its first look; and the
control socket accepts connections as long as a session group runs. -/
def Orderly : Guard KeeperState Act := fun s a =>
  (a.spawnsSession = true → s.handler.unswept = true) ∧
  match a, s.handler with
  | .handler .proceed, .asked _ => AllRunning s (Registered s)
  | .handler .proceed, .grace _ _ => AllRunning s (Registered s)
  | .main .acceptFails, _ => AllRunning s fun _ => False
  | _, _ => True

instance (s : KeeperState) (a : Act) : Decidable (Orderly s a) := by
  refine @instDecidableAnd _ _ inferInstance ?_
  split <;> infer_instance

/-- The groups of a registered session are in the handler's sweep. -/
theorem Consistent.mem_sweep {s : KeeperState} (hs : Consistent s) {g : Group}
    (hg : g ∈ s.shared.groups) (hregistered : Registered s g) (services : List Int32) :
    -(g.pgid : ℤ) ∈ sweep s.shared.registry services := by
  unfold Registered at hregistered
  split at hregistered
  · next k horigin =>
    obtain ⟨info, hinfo, hpgid⟩ := (hs.conns k).entry hregistered
    obtain ⟨hown, -⟩ := (hs.conns k).child g hg horigin
    unfold sweep
    refine List.mem_append_left _ (List.mem_map.mpr ⟨_, hinfo, ?_⟩)
    rw [hpgid, hown]
  · exact hregistered.elim

/-- What runs after a step of the processes ran before it. -/
def Shrinks (groups groups' : List Group) : Prop :=
  ∀ g' ∈ groups', g'.origin.isSession = true → g'.running →
    ∃ g ∈ groups, g.origin = g'.origin ∧ g.pgid = g'.pgid ∧ g.running

theorem shrinks_of_sameChild {groups groups' : List Group}
    (h : ∀ o, o.isSession = true → SameChild o groups groups') : Shrinks groups groups' := by
  intro g' hg' hsession hrunning
  obtain ⟨g, hg, ho, hpgid, -, hback⟩ := (h g'.origin hsession).back g' hg' rfl
  exact ⟨g, hg, ho, hpgid, hback hrunning⟩

theorem shrinks_reap {o : Origin} {groups groups' : List Group} {status : ExitStatus}
    (h : reap o groups = some (status, groups')) : Shrinks groups groups' := by
  rw [reap_eq_some h]
  intro g' hg' _ hrunning
  obtain ⟨g, hg, rfl⟩ := List.mem_map.mp hg'
  split at hrunning
  · next ho =>
    refine ⟨g, hg, by rw [if_pos ho], by rw [if_pos ho], ?_⟩
    rcases hrunning with h | h
    · cases h
    · exact Or.inr h
  · next ho => exact ⟨g, hg, by rw [if_neg ho], by rw [if_neg ho], hrunning⟩

theorem SignalsNothing.shrinks {groups groups' : List Group}
    (h : SignalsNothing false groups groups') : Shrinks groups groups' := by
  rcases h with rfl | ⟨hfalse, -⟩ | ⟨o, status, hreap⟩
  · exact shrinks_of_sameChild fun o _ => .refl o _
  · cases hfalse
  · exact shrinks_reap hreap

variable {env : KeeperEnv} {s next : KeeperState}

/-- Only an action that spawns a session makes a session run. -/
theorem shrinks_step {a : Act} (h : s.step env a = some next) (hspawns : a.spawnsSession = false) :
    Shrinks s.shared.groups next.shared.groups := by
  have hsession : (∃ k b, a = .conn k b) ∨ (∃ k b, a = .ssh k b) →
      Shrinks s.shared.groups next.shared.groups := by
    intro hsession
    have hgroups := groups_of_sessionKill h hsession
    rw [hspawns] at hgroups
    split at hgroups
    · rw [hgroups]
      exact shrinks_of_sameChild fun o _ => sameChild_kill o _ _ _
    · exact hgroups.shrinks
  have haside : Aside s next → Shrinks s.shared.groups next.shared.groups := by
    intro h
    refine shrinks_of_sameChild fun o ho => h.sameChild ?_
    rintro rfl
    cases ho
  cases a with
  | conn k b => exact hsession (Or.inl ⟨k, b, rfl⟩)
  | ssh k b => exact hsession (Or.inr ⟨k, b, rfl⟩)
  | child origin e => exact haside (aside_step h (by simp) (by simp))
  | main a => exact haside (aside_step h (by simp) (by simp))
  | handler a => exact haside (aside_step h (by simp) (by simp))

theorem AllRunning.shrinks {targets : List ℤ} (h : AllRunning s fun g => -(g.pgid : ℤ) ∈ targets)
    (hshrinks : Shrinks s.shared.groups next.shared.groups) :
    AllRunning next fun g => -(g.pgid : ℤ) ∈ targets := by
  intro g' hg' hsession hrunning
  obtain ⟨g, hg, ho, hpgid, hbefore⟩ := hshrinks g' hg' hsession hrunning
  rw [← hpgid]
  exact h g hg (ho ▸ hsession) hbefore

/-- The targets that the handler has already collected, as far as they are not yet killed. -/
def Handler.targets : Handler → Option (List ℤ)
  | terminating _ _ terminated => some terminated
  | grace _ terminated => some terminated
  | killing calls _ => some calls
  | _ => none

theorem Handler.unswept_of_targets {handler : Handler} {targets : List ℤ}
    (h : handler.targets = some targets) : handler.unswept = false := by
  cases handler with
  | waiting => cases h
  | signalled => cases h
  | asked services => cases h
  | terminating services calls terminated => rfl
  | grace services terminated => rfl
  | killing calls terminated => rfl

/-- The invariant: the books are right, and the handler has collected all session groups that run.
-/
structure Covered (s : KeeperState) : Prop where
  consistent : Consistent s
  running : ∀ targets, s.handler.targets = some targets →
    AllRunning s fun g => -(g.pgid : ℤ) ∈ targets

/-- The handler's thread alone moves the handler. -/
theorem handler_step {a : Act} (h : s.step env a = some next) (ha : ∀ b, a ≠ .handler b) :
    next.handler = s.handler := by
  cases KeeperState.step_cases h with
  | conn => rfl
  | ssh => rfl
  | child => rfl
  | main _ hstep => cases hstep <;> rfl
  | handler => exact (ha _ rfl).elim

/-- A group that runs on after `kill` was not its target. -/
theorem mem_of_running_kill {target : ℤ} {calls : List ℤ} {groups : List Group}
    (h : ∀ g ∈ groups, g.origin.isSession = true → g.running → -(g.pgid : ℤ) ∈ target :: calls) :
    ∀ g' ∈ kill target SIGKILL groups, g'.origin.isSession = true → g'.running →
      -(g'.pgid : ℤ) ∈ calls := by
  intro g' hg' hsession hrunning
  obtain ⟨g, hg, rfl⟩ := List.mem_map.mp hg'
  rw [Group.killed_origin] at hsession
  rw [Group.killed_pgid]
  rcases List.mem_cons.mp (h g hg hsession (Group.running_of_killed hrunning)) with htarget | hcalls
  · rw [← htarget] at hrunning
    exact (g.not_running_killed hrunning).elim
  · exact hcalls

/-- A step of the handler at the right time. -/
theorem Covered.handler (hs : Covered s) {b : HandlerAct} (horderly : Orderly s (.handler b))
    (h : HandlerStep env s b next) {targets : List ℤ}
    (htargets : next.handler.targets = some targets) :
    AllRunning next fun g => -(g.pgid : ℤ) ∈ targets := by
  have hwhen := horderly.2
  cases h with
  | signal => cases htargets
  | ask => cases htargets
  | @collect services hhandler =>
    rw [hhandler] at hwhen
    obtain rfl := Option.some.inj htargets
    intro g hg hsession hrunning
    exact hs.consistent.mem_sweep hg (hwhen g hg hsession hrunning) services
  | @terminate services target calls terminated hhandler =>
    obtain rfl := Option.some.inj htargets
    refine (hs.running terminated (by rw [hhandler]; rfl)).shrinks ?_
    exact shrinks_of_sameChild fun o _ => sameChild_kill o target SIGTERM s.shared.groups
  | @pause services terminated hhandler =>
    obtain rfl := Option.some.inj htargets
    exact hs.running terminated (by rw [hhandler]; rfl)
  | @recollect services terminated hhandler =>
    rw [hhandler] at hwhen
    obtain rfl := Option.some.inj htargets
    intro g hg hsession hrunning
    exact hs.consistent.mem_sweep hg (hwhen g hg hsession hrunning) services
  | @kill target calls terminated hhandler =>
    obtain rfl := Option.some.inj htargets
    exact mem_of_running_kill (hs.running (target :: calls) (by rw [hhandler]; rfl))
  | exit => exact hs.running targets htargets

/-- A step at the right time keeps the invariant. -/
theorem Covered.step (hs : Covered s) {a : Act} (horderly : Orderly s a)
    (h : s.step env a = some next) : Covered next := by
  refine ⟨hs.consistent.step h, fun targets htargets => ?_⟩
  by_cases hhandler : ∃ b, a = .handler b
  · obtain ⟨b, rfl⟩ := hhandler
    cases KeeperState.step_cases h with
    | handler _ hstep => exact hs.handler horderly hstep htargets
  · rw [handler_step h fun b hb => hhandler ⟨b, hb⟩] at htargets
    have hswept := Handler.unswept_of_targets htargets
    have hspawns : a.spawnsSession = false := by
      by_contra hspawns
      have := horderly.1 (by simpa using hspawns)
      rw [hswept] at this
      cases this
    exact (hs.running targets htargets).shrinks (shrinks_step h hspawns)

/-- At the right time, the handler reaches every session group that runs. -/
theorem Covered.sweeps (hs : Covered s) {a : Act} (horderly : Orderly s a) : Sweeps s a := by
  have hwhen := horderly.2
  unfold Sweeps
  split
  · next services hhandler =>
    rw [hhandler] at hwhen
    intro g hg hsession hrunning
    exact hs.consistent.mem_sweep hg (hwhen g hg hsession hrunning) services
  · next services terminated hhandler =>
    rw [hhandler] at hwhen
    intro g hg hsession hrunning
    exact ⟨hs.running terminated (by rw [hhandler]; rfl) g hg hsession hrunning,
      hs.consistent.mem_sweep hg (hwhen g hg hsession hrunning) services⟩
  · next terminated hhandler =>
    intro g hg hsession hrunning
    exact List.not_mem_nil (hs.running [] (by rw [hhandler]; rfl) g hg hsession hrunning)
  · exact hwhen
  · trivial

/-- In every interleaving whose steps all meet the condition, the handler's shutdown reaches every
session group that still runs. -/
theorem shutdown_sweeps {env : KeeperEnv} {acts : List Act}
    (horderly : Guarded Orderly (steps (KeeperState.step env) acts .start)) :
    ∀ p ∈ steps (KeeperState.step env) acts .start, Sweeps p.1 p.2 := by
  have hstart : Covered .start := ⟨consistent_start, fun _ h => by cases h⟩
  exact forall_steps (fun _ _ _ hs horderly h => hs.step horderly h)
    (fun _ _ _ hs horderly _ => hs.sweeps horderly) hstart horderly

/-- The keeper gets its signal, and goes through its shutdown with one group to signal. -/
def sampleShutdown : List Act :=
  [.handler .signal, .handler (.ask none), .handler .proceed, .handler .proceed, .handler .proceed,
    .handler .proceed, .handler .proceed, .handler .proceed]

/-- One session of the control socket, which ignores SIGTERM. -/
theorem shutdown_sweeps_control :
    (exec (KeeperState.step sampleEnv) (sampleSession ++ sampleShutdown) .start).exited = true ∧
    (∃ p ∈ steps (KeeperState.step sampleEnv) (sampleSession ++ sampleShutdown) .start,
      p.1.handler = .killing [-100] [-100] ∧ p.1.shared.groups.any fun g => decide g.running) ∧
    ∀ p ∈ steps (KeeperState.step sampleEnv) (sampleSession ++ sampleShutdown) .start,
      Sweeps p.1 p.2 :=
  ⟨by decide +kernel, by decide +kernel, shutdown_sweeps (by decide +kernel)⟩

/-- A client of the SSH server runs a command, which the shutdown does not reach. -/
theorem not_sweeps_ssh :
    ∃ p ∈ steps (KeeperState.step sampleEnv)
        [.main (.startServices (.error "")),
         .ssh 0 (.call (.execRequest 0 "make") ⟨true, some 100, true⟩),
          .handler .signal, .handler (.ask none), .handler .proceed, .handler .proceed,
          .handler .proceed, .handler .proceed] .start, ¬Sweeps p.1 p.2 := by
  have hrun : (steps (KeeperState.step sampleEnv)
      [.main (.startServices (.error "")),
       .ssh 0 (.call (.execRequest 0 "make") ⟨true, some 100, true⟩),
        .handler .signal, .handler (.ask none), .handler .proceed, .handler .proceed,
        .handler .proceed, .handler .proceed] .start).any (fun p =>
      decide (p.2 = .handler .proceed ∧ p.1.handler = .killing [] [] ∧
        ∃ g ∈ p.1.shared.groups, g.origin.isSession = true ∧ g.running)) = true := by decide +kernel
  obtain ⟨⟨⟨shared, conns, ssh, main, handler, exited⟩, a⟩, hp, h⟩ := List.any_eq_true.mp hrun
  obtain ⟨rfl, rfl, g, hg, hsession, hrunning⟩ := of_decide_eq_true h
  exact ⟨_, hp, fun hsweeps => hsweeps g hg hsession hrunning⟩

end Devcroft.Keeper
