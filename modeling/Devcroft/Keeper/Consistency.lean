import Devcroft.Keeper.Bookkeeping
import Devcroft.Ssh.Bookkeeping
import Devcroft.Keeper.Main

/-!
# The books of a keeper

However the steps of its connections, its servers and its children are interleaved, what
every connection knows of its own sessions stays true.
-/

namespace Devcroft.Keeper

open Ssh

/-- The books of all connections agree with the processes and the registry. -/
structure Consistent (s : KeeperState) : Prop where
  conns : ∀ k, Booked k (s.conns k) s.shared
  ids : ∀ k k', k ≠ k' → (s.conns k).phase.stage.hasId = true →
    (s.conns k').phase.stage.hasId = true → (s.conns k).sessionId ≠ (s.conns k').sessionId
  ssh : ∀ k, Enlisted k (s.ssh k) s.shared.groups
  idle : s.main ≠ .serving → ∀ k, s.conns k = .accepted

/-- A keeper starts with empty books. -/
theorem consistent_start : Consistent .start where
  conns _ := booked_accepted fun g hg => by cases hg
  ids _ _ _ h := by cases h
  ssh _ := enlisted_newClient fun _ g hg => by cases hg
  idle _ _ := rfl

variable {env : KeeperEnv} {s next : KeeperState}

/-- What `keeper_main` and the handler's thread do: they leave the connections alone, spawn for the
services only, and touch the registry only while no connection has an entry. -/
structure Aside (s next : KeeperState) : Prop where
  conns : next.conns = s.conns
  ssh : next.ssh = s.ssh
  main : next.main ≠ .serving → s.main ≠ .serving
  groups : next.shared.groups = s.shared.groups ∨
    (∃ target sig, next.shared.groups = kill target sig s.shared.groups) ∨
    (∃ origin e, next.shared.groups = childEvent origin e s.shared.groups) ∨
    ∃ pid req, spawnGroup pid .services req s.shared.groups = some next.shared.groups
  registry : next.shared.registry = s.shared.registry ∨
    (s.main ≠ .serving ∧ s.shared.registry.nextId ≤ next.shared.registry.nextId)

/-- Such a step says the same of every session's child. -/
theorem Aside.sameChild (h : Aside s next) {o : Origin} (ho : o ≠ .services) :
    SameChild o s.shared.groups next.shared.groups := by
  rcases h.groups with h | ⟨target, sig, h⟩ | ⟨origin, e, h⟩ | ⟨pid, req, h⟩
  · exact h ▸ .refl o _
  · exact h ▸ sameChild_kill o target sig _
  · exact h ▸ sameChild_childEvent o origin e _
  · exact sameChild_spawnGroup h ho

/-- Such a step keeps the books. -/
theorem Consistent.aside (hs : Consistent s) (h : Aside s next) : Consistent next where
  conns k := by
    rw [h.conns]
    refine (hs.conns k).frame (h.sameChild (by simp)) ?_ fun hid info => ?_
    · rcases h.registry with hregistry | ⟨-, hnext⟩
      · rw [hregistry]
      · exact hnext
    · rcases h.registry with hregistry | ⟨hserving, -⟩
      · rw [hregistry]
      · rw [hs.idle hserving k] at hid
        cases hid
  ids := by
    rw [h.conns]
    exact hs.ids
  ssh k := by
    rw [h.ssh]
    exact (hs.ssh k).frame fun _ => h.sameChild (by simp)
  idle hmain := by
    rw [h.conns]
    exact hs.idle (h.main hmain)

/-- A step that leaves everything alone but the places of `keeper_main` and the handler. -/
theorem aside_of_shared {main : Main} {handler : Handler} {exited : Bool}
    (hmain : main ≠ .serving → s.main ≠ .serving) :
    Aside s { s with main := main, handler := handler, exited := exited } :=
  ⟨rfl, rfl, hmain, Or.inl rfl, Or.inl rfl⟩

/-- A step of the handler's thread signals, or does nothing. -/
theorem HandlerStep.aside {a : HandlerAct} (h : HandlerStep env s a next) : Aside s next := by
  cases h with
  | signal => exact aside_of_shared id
  | ask => exact aside_of_shared id
  | collect => exact aside_of_shared id
  | @terminate services target =>
    exact ⟨rfl, rfl, id, Or.inr (Or.inl ⟨target, SIGTERM, rfl⟩), Or.inl rfl⟩
  | pause => exact aside_of_shared id
  | recollect => exact aside_of_shared id
  | @kill target => exact ⟨rfl, rfl, id, Or.inr (Or.inl ⟨target, SIGKILL, rfl⟩), Or.inl rfl⟩
  | exit => exact aside_of_shared id

/-- A step of `keeper_main`. -/
theorem MainStep.aside {a : MainAct} (h : MainStep env s a next) : Aside s next := by
  cases h with
  | serve => exact aside_of_shared fun h => (h rfl).elim
  | spawn hmain _ hspawn =>
    exact ⟨rfl, rfl, fun _ => by rw [hmain]; simp, Or.inr (Or.inr (Or.inr ⟨_, _, hspawn⟩)),
      Or.inl rfl⟩
  | number hmain =>
    have hserving : s.main ≠ .serving := by rw [hmain]; simp
    exact ⟨rfl, rfl, fun _ => hserving, Or.inl rfl, Or.inr ⟨hserving, Nat.le_succ _⟩⟩
  | record hmain =>
    have hserving : s.main ≠ .serving := by rw [hmain]; simp
    exact ⟨rfl, rfl, fun _ => hserving, Or.inl rfl, Or.inr ⟨hserving, le_rfl⟩⟩
  | exit => exact aside_of_shared id

/-- A step that is not one of a connection. -/
theorem aside_step {a : Act} (h : s.step env a = some next) (hconn : ∀ k b, a ≠ .conn k b)
    (hssh : ∀ k b, a ≠ .ssh k b) : Aside s next := by
  cases KeeperState.step_cases h with
  | conn => exact (hconn _ _ rfl).elim
  | ssh => exact (hssh _ _ rfl).elim
  | child => exact ⟨rfl, rfl, id, Or.inr (Or.inr (Or.inl ⟨_, _, rfl⟩)), Or.inl rfl⟩
  | main _ hstep => exact hstep.aside
  | handler _ hstep => exact hstep.aside

/-- A step of a connection. -/
theorem Consistent.conn (hs : Consistent s) (hserving : s.main = .serving) {k : ℕ} {c : Conn}
    {shared : Shared} (hmoves : (s.conns k).Moves k s.shared c shared) :
    Consistent { s with shared := shared, conns := insertAt s.conns k c } := by
  obtain ⟨hchildren, hnext, hentries⟩ := (hs.conns k).others hmoves
  have hne : ∀ k', k' ≠ k → (s.conns k').phase.stage.hasId = true → c.phase.stage.hasId = true →
      (s.conns k').sessionId ≠ c.sessionId := by
    intro k' hk' hid' hid
    rcases hmoves.sessionId hid with ⟨hid, heq⟩ | heq
    · rw [heq]
      exact hs.ids k' k hk' hid' hid
    · have hle := (hs.conns k').id hid'
      omega
  refine ⟨fun k' => ?_, fun k₁ k₂ hk h₁ h₂ => ?_, fun k' => ?_, fun h => (h hserving).elim⟩
  · by_cases hk : k' = k
    · subst hk
      dsimp only
      rw [insertAt_self]
      exact (hs.conns k').moves hmoves
    · dsimp only
      rw [insertAt_of_ne hk]
      refine (hs.conns k').frame (hchildren _ (by simp [hk])) hnext fun hid => ?_
      exact hentries _ fun hid' => hs.ids k' k hk hid hid'
  · dsimp only at h₁ h₂ ⊢
    by_cases hk₁ : k₁ = k
    · subst hk₁
      rw [insertAt_self] at h₁ ⊢
      rw [insertAt_of_ne (Ne.symm hk)] at h₂ ⊢
      exact (hne k₂ (Ne.symm hk) h₂ h₁).symm
    · rw [insertAt_of_ne hk₁] at h₁ ⊢
      by_cases hk₂ : k₂ = k
      · subst hk₂
        rw [insertAt_self] at h₂ ⊢
        exact hne k₁ hk h₁ h₂
      · rw [insertAt_of_ne hk₂] at h₂ ⊢
        exact hs.ids k₁ k₂ hk h₁ h₂
  · exact (hs.ssh k').frame fun j => hchildren _ (by simp)

/-- A step of an SSH connection. -/
theorem Consistent.sshConn (hs : Consistent s) {k : ℕ} {c : SshConn} {groups : List Group}
    (hmoves : (s.ssh k).Moves k s.shared.groups c groups) :
    Consistent { s with
      shared := { s.shared with groups := groups }, ssh := insertAt s.ssh k c } where
  conns k' := (hs.conns k').frame (hmoves.others (by simp)) le_rfl fun _ _ => Iff.rfl
  ids := hs.ids
  ssh k' := by
    by_cases hk : k' = k
    · subst hk
      dsimp only
      rw [insertAt_self]
      exact (hs.ssh k').moves hmoves
    · dsimp only
      rw [insertAt_of_ne hk]
      exact (hs.ssh k').frame fun j => hmoves.others (by simp [hk])
  idle := hs.idle

/-- Every step keeps the books. -/
theorem Consistent.step (hs : Consistent s) {a : Act} (h : s.step env a = some next) :
    Consistent next := by
  cases KeeperState.step_cases h with
  | conn _ hserving hstep => exact hs.conn hserving (Conn.step_moves hstep)
  | ssh _ _ hstep => exact hs.sshConn (SshConn.step_moves hstep)
  | child => exact hs.aside (aside_step h (by simp) (by simp))
  | main _ hstep => exact hs.aside hstep.aside
  | handler _ hstep => exact hs.aside hstep.aside

end Devcroft.Keeper
