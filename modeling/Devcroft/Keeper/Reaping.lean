import Devcroft.Library.Interleaving
import Devcroft.Keeper.Consistency
import Devcroft.Keeper.Signals

/-!
# Signals and waited-for children

Once a child was waited for its process group may be another's, and a signal to it hits
whatever has the group's id by then. What keeps the threads of a session from sending
one is the registry alone, and only where they look at it at the right time.
-/

namespace Devcroft.Keeper

open Ssh Interleaving

/-- That call is made while the child has not been waited for. -/
def KillsUnreaped (s : KeeperState) (a : Act) : Prop :=
  ∀ o pgid sig, sessionKill s a = some (o, pgid, sig) →
    ∃ g ∈ s.shared.groups, g.origin = o ∧ g.pgid = pgid ∧ g.leader ≠ .reaped

/-- Whether the waiter is between `child.wait` and `registry.remove`. -/
def Waiter.beforeRemove : Waiter → Bool
  | reaped _ => true
  | _ => false

/-- Whether a task has waited for its child. -/
def WaitTask.waited : WaitTask → Bool
  | .reaped _ => true
  | _ => false

/-- The condition on a step: no `Signal` frame is handled once the waiter has waited for the child;
the escalation does not look into the registry between the waiter's `child.wait` and its
`registry.remove`, and `child.wait` does not return between such a look and the signal; and the
client closes no channel of which the child was waited for. -/
def Timely : Guard KeeperState Act := fun s a =>
  match a with
  | .conn k (.read (some (.signal _)) _ _) => (s.conns k).waiter.waited = false
  | .conn k (.proceed _) =>
    (s.conns k).phase = .left ∨ (s.conns k).phase = .grace →
      (s.conns k).waiter.beforeRemove = false
  | .conn k .wait =>
    (s.conns k).waiter = .waiting →
      (s.conns k).phase ≠ .terminating ∧ (s.conns k).phase ≠ .killing
  | .ssh k (.call (.channelClose channel) _) =>
    (((s.ssh k).active channel).bind fun active =>
      ((s.ssh k).tasks active.session).map WaitTask.waited) ≠ some true
  | _ => True

instance (s : KeeperState) (a : Act) : Decidable (Timely s a) := by
  unfold Timely
  split <;> infer_instance

section Escalation

variable {k : ℕ} {c c' : Conn} {sh sh' : Shared} {a : ConnAct}

/-- A connection is about to signal in its escalation. -/
def Phase.escalating (p : Phase) : Prop := p = .terminating ∨ p = .killing

/-- The waiter leaves the connection's thread where it is, and waits for the child at one point. -/
theorem ConnStep.wait (h : ConnStep k c sh .wait c' sh') :
    c'.phase = c.phase ∧ (c.waiter = .waiting ∨ c'.waiter.waited = c.waiter.waited) := by
  cases h with
  | joinPumps hwaiter => exact ⟨rfl, Or.inr (by rw [hwaiter]; rfl)⟩
  | reap hwaiter => exact ⟨rfl, Or.inl hwaiter⟩
  | remove hwaiter => exact ⟨rfl, Or.inr (by rw [hwaiter]; rfl)⟩
  | report hwaiter => exact ⟨c.send_phase _, Or.inr (by rw [hwaiter]; rfl)⟩

/-- How a connection comes to be about to signal: it was before, or has just seen its entry. -/
theorem ConnStep.escalating (h : ConnStep k c sh a c' sh') (hphase : c'.phase.escalating) :
    (c.phase.escalating ∧ c'.waiter = c.waiter) ∨ (c.phase.escalating ∧ a = .wait) ∨
      ((∃ now, a = .proceed now) ∧ (c.phase = .left ∨ c.phase = .grace) ∧
        sh.registry.contains c.sessionId = true ∧ c'.waiter = c.waiter) := by
  have hnot : ∀ p : Phase, c'.phase = p → p ≠ .terminating → p ≠ .killing → False := by
    rintro p rfl hterm hkill
    exact hphase.elim hterm hkill
  have hwait : a = .wait → (c.phase.escalating ∧ c'.waiter = c.waiter) ∨
      (c.phase.escalating ∧ a = .wait) ∨
        ((∃ now, a = .proceed now) ∧ (c.phase = .left ∨ c.phase = .grace) ∧
          sh.registry.contains c.sessionId = true ∧ c'.waiter = c.waiter) := by
    rintro rfl
    exact Or.inr (Or.inl ⟨h.wait.1 ▸ hphase, rfl⟩)
  cases h with
  | accept | answer | hangUp | signal | spawnFails | spawn | number | insert | announce | giveUp
  | terminate | kill | join => exact (hnot _ rfl (by simp) (by simp)).elim
  | frame _ _ _ hnext =>
    rcases hnext with rfl | rfl <;> exact (hnot _ rfl (by simp) (by simp)).elim
  | @look now _ hbefore hnext =>
    rcases hnext with rfl | rfl | rfl | ⟨-, hne, hcontains⟩
    · exact (hnot _ rfl (by simp) (by simp)).elim
    · exact (hnot _ rfl (by simp) (by simp)).elim
    · exact (hnot _ rfl (by simp) (by simp)).elim
    · exact Or.inr (Or.inr ⟨⟨now, rfl⟩, hbefore.resolve_left hne, hcontains, rfl⟩)
  | pump hpump =>
    obtain ⟨hsame, hwaiter, -, -⟩ := Conn.pump_eq_some hpump
    exact Or.inl ⟨hsame ▸ hphase, hwaiter⟩
  | write hwrite =>
    obtain ⟨hsame, hwaiter, -, -⟩ := Conn.write_eq_some hwrite
    exact Or.inl ⟨hsame ▸ hphase, hwaiter⟩
  | joinPumps | reap | remove | report => exact hwait rfl

end Escalation

/-- The invariant: the books are right, and the child of a connection that is about to signal in its
escalation has not been waited for. -/
structure Alert (s : KeeperState) : Prop where
  consistent : Consistent s
  escalating : ∀ k, (s.conns k).phase.escalating → (s.conns k).waiter.waited = false

variable {env : KeeperEnv} {s next : KeeperState}

/-- A step of a connection at the right time. -/
theorem Alert.conn (hs : Alert s) {k : ℕ} {a : ConnAct} {c : Conn} {shared : Shared}
    (htimely : Timely s (.conn k a)) (h : (s.conns k).step k s.shared a = some (c, shared))
    (hphase : c.phase.escalating) : c.waiter.waited = false := by
  rcases (Conn.step_cases h).escalating hphase with ⟨hbefore, hwaiter⟩ | ⟨hbefore, rfl⟩ |
    ⟨⟨now, rfl⟩, hlooks, hcontains, hwaiter⟩
  · rw [hwaiter]
    exact hs.escalating k hbefore
  · obtain ⟨-, hwaiting | hsame⟩ := (Conn.step_cases h).wait
    · obtain ⟨hterm, hkill⟩ := htimely hwaiting
      exact (hbefore.elim hterm hkill).elim
    · rw [hsame]
      exact hs.escalating k hbefore
  · -- The entry is there, so the waiter has not removed it.
    have hremove := htimely hlooks
    have hstage : (s.conns k).phase.stage = .started := by
      rcases hlooks with hleft | hgrace
      · rw [hleft]
        rfl
      · rw [hgrace]
        rfl
    obtain ⟨info, hinfo⟩ := Registry.contains_iff.mp hcontains
    have hentry : (s.conns k).waiter.entryGone ≠ true := fun hgone =>
      (hs.consistent.conns k).noEntry hstage hgone info hinfo
    rw [hwaiter]
    cases hw : (s.conns k).waiter with
    | notStarted => rfl
    | pumping => rfl
    | waiting => rfl
    | reaped status =>
      rw [hw] at hremove
      cases hremove
    | removed status =>
      rw [hw] at hentry
      exact (hentry rfl).elim
    | ended =>
      rw [hw] at hentry
      exact (hentry rfl).elim

/-- A step at the right time keeps the invariant. -/
theorem Alert.step (hs : Alert s) {a : Act} (htimely : Timely s a)
    (h : s.step env a = some next) : Alert next := by
  refine ⟨hs.consistent.step h, fun k hphase => ?_⟩
  have hsame : next.conns = s.conns → (next.conns k).waiter.waited = false := by
    intro heq
    rw [heq] at hphase ⊢
    exact hs.escalating k hphase
  cases KeeperState.step_cases h with
  | @conn k' a c shared _ _ hstep =>
    dsimp only at hphase ⊢
    by_cases hk : k = k'
    · subst hk
      rw [insertAt_self] at hphase ⊢
      exact hs.conn htimely hstep hphase
    · rw [insertAt_of_ne hk] at hphase ⊢
      exact hs.escalating k hphase
  | ssh => exact hsame rfl
  | child => exact hsame rfl
  | main _ hmain => exact hsame hmain.aside.conns
  | handler _ hhandler => exact hsame hhandler.aside.conns

/-- At the right time, a signal reaches a child that has not been waited for. -/
theorem Alert.killsUnreaped (hs : Alert s) {a : Act} (htimely : Timely s a) :
    KillsUnreaped s a := by
  intro o pgid sig hkill
  -- The connection's own child.
  have hcontrol : ∀ k, (s.conns k).phase.stage = .started → (s.conns k).waiter.waited = false →
      ∃ g ∈ s.shared.groups, g.origin = .control k ∧ g.pgid = (s.conns k).pgid ∧
        g.leader ≠ .reaped := by
    intro k hstage hwaited
    have hb := hs.consistent.conns k
    obtain ⟨g, hg, ho⟩ := hb.hasChild hstage (by decide)
    obtain ⟨hpgid, hleader⟩ := hb.unreaped hwaited g hg ho
    exact ⟨g, hg, ho, hpgid, hleader⟩
  unfold sessionKill at hkill
  split at hkill
  · next k sig' _ _ =>
    split at hkill
    · next hphase =>
      obtain ⟨rfl, rfl, rfl⟩ := by simpa using hkill
      exact hcontrol k (by rw [hphase]; rfl) htimely
    · cases hkill
  · next k now =>
    split at hkill
    · next hphase =>
      obtain ⟨rfl, rfl, rfl⟩ := by simpa using hkill
      exact hcontrol k (by rw [hphase]; rfl) (hs.escalating k (Or.inl hphase))
    · split at hkill
      · next hphase =>
        obtain ⟨rfl, rfl, rfl⟩ := by simpa using hkill
        exact hcontrol k (by rw [hphase]; rfl) (hs.escalating k (Or.inr hphase))
      · cases hkill
  · next k channel reply =>
    obtain ⟨active, hactive, heq⟩ := Option.map_eq_some_iff.mp hkill
    obtain ⟨rfl, rfl, rfl⟩ := by simpa using heq
    have he := hs.consistent.ssh k
    obtain ⟨g, hg, ho, hpgid⟩ := he.active channel active hactive
    refine ⟨g, hg, ho, hpgid, fun hreaped => ?_⟩
    obtain ⟨status, htask⟩ := (he.child active.session g hg ho).mp hreaped
    have hnot : (((s.ssh k).active channel).bind fun active =>
      ((s.ssh k).tasks active.session).map WaitTask.waited) ≠ some true := htimely
    rw [hactive] at hnot
    simp [htask, WaitTask.waited] at hnot
  · cases hkill

/-- In every interleaving whose steps all meet the condition, no signal to a session's process group
comes after its child was waited for. -/
theorem kills_unreaped {env : KeeperEnv} {acts : List Act}
    (htimely : Guarded Timely (steps (KeeperState.step env) acts .start)) :
    ∀ p ∈ steps (KeeperState.step env) acts .start, KillsUnreaped p.1 p.2 := by
  have hstart : Alert .start := ⟨consistent_start, fun _ h => by rcases h with h | h <;> cases h⟩
  exact forall_steps (fun _ _ _ hs htimely h => hs.step htimely h)
    (fun _ _ _ hs htimely _ => hs.killsUnreaped htimely) hstart htimely

/-- A keeper without services. -/
def sampleEnv : KeeperEnv := ⟨false, none, none, ⟨some "/nix/store/b/bin/sh", some "/home/u/p"⟩⟩

/-- A client of the control socket starts a session, and the keeper serves it. -/
def sampleSession : List Act :=
  [.main (.startServices (.error "")),
    .conn 0 (.read (some (.spawn ⟨"make", [], "/home/u/p", [], none⟩)) 0 true),
    .conn 0 (.spawn (.ok 100)), .conn 0 (.proceed 0), .conn 0 (.proceed 0), .conn 0 (.proceed 0)]

/-- Its client interrupts it, and goes away. -/
theorem kills_unreaped_interrupted :
    (∃ p ∈ steps (KeeperState.step sampleEnv) (sampleSession ++
        [.conn 0 (.read (some (.signal .int)) 0 true), .conn 0 (.proceed 0),
         .conn 0 (.read none 0 true),
          .conn 0 (.proceed 0), .conn 0 (.proceed 0)]) .start,
      sessionKill p.1 p.2 = some (.control 0, 100, SIGTERM)) ∧
    ∀ p ∈ steps (KeeperState.step sampleEnv) (sampleSession ++
        [.conn 0 (.read (some (.signal .int)) 0 true), .conn 0 (.proceed 0),
         .conn 0 (.read none 0 true),
          .conn 0 (.proceed 0), .conn 0 (.proceed 0)]) .start, KillsUnreaped p.1 p.2 :=
  ⟨by decide +kernel, kills_unreaped (by decide +kernel)⟩

/-- A client that interrupts a session just after its child was waited for. -/
theorem not_killsUnreaped_late :
    ∃ p ∈ steps (KeeperState.step sampleEnv) (sampleSession ++
        [.child (.control 0) (.exits ⟨some 0, none⟩), .conn 0 (.pump .stdout none),
          .conn 0 (.pump .stderr none), .conn 0 .wait, .conn 0 .wait,
          .conn 0 (.read (some (.signal .int)) 0 true)]) .start, ¬KillsUnreaped p.1 p.2 := by
  have hrun : (steps (KeeperState.step sampleEnv) (sampleSession ++
      [.child (.control 0) (.exits ⟨some 0, none⟩), .conn 0 (.pump .stdout none),
        .conn 0 (.pump .stderr none), .conn 0 .wait, .conn 0 .wait,
        .conn 0 (.read (some (.signal .int)) 0 true)]) .start).any (fun p =>
      decide (sessionKill p.1 p.2 = some (.control 0, 100, SIGINT) ∧
        ∀ g ∈ p.1.shared.groups, g.leader = .reaped)) = true := by decide +kernel
  obtain ⟨p, hp, h⟩ := List.any_eq_true.mp hrun
  obtain ⟨hkill, hreaped⟩ := of_decide_eq_true h
  refine ⟨p, hp, fun hlive => ?_⟩
  obtain ⟨g, hg, -, -, hleader⟩ := hlive _ _ _ hkill
  exact hleader (hreaped g hg)

end Devcroft.Keeper
