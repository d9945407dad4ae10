import Mathlib.Order.Nat
import Devcroft.Keeper.Children
import Devcroft.Keeper.Connection

/-!
# What a connection knows of its session

A connection and the registry agree: an entry is there from the insertion until the
waiter removes it, and a child was waited for just when its waiter has got that far.
-/

namespace Devcroft.Keeper

/-- The stages of a connection, as far as its session is concerned. -/
inductive Stage where
  | unspawned
  | spawned
  | numbered
  | inserted
  | started
  | returned
  deriving DecidableEq

/-- The stage to which a phase belongs. -/
def Phase.stage : Phase → Stage
  | first => .unspawned
  | spawning => .unspawned
  | spawned => .spawned
  | numbered => .numbered
  | inserted => .inserted
  | returned => .returned
  | _ => .started

/-- What a step of the `k`-th connection does with its session. -/
inductive Conn.Moves (k : ℕ) (c : Conn) (sh : Shared) (c' : Conn) (sh' : Shared) : Prop
  | stays (stage : c'.phase.stage = c.phase.stage) (waiter : c'.waiter = c.waiter)
      (pgid : c'.pgid = c.pgid) (id : c'.sessionId = c.sessionId) (shared : sh' = sh)
  | returns (through : c.phase.stage = .unspawned ∨ c.waiter = .ended)
    (phase : c'.phase = .returned)
      (waiter : c'.waiter = c.waiter) (pgid : c'.pgid = c.pgid) (shared : sh' = sh)
  | spawns (phase : c.phase = .spawning) (stage : c'.phase.stage = .spawned)
      (waiter : c'.waiter = c.waiter) (registry : sh'.registry = sh.registry)
      (groups : spawnGroup c'.pgid (.control k) c.request sh.groups = some sh'.groups)
  | numbers (phase : c.phase = .spawned) (stage : c'.phase.stage = .numbered)
      (waiter : c'.waiter = c.waiter) (pgid : c'.pgid = c.pgid)
      (id : c'.sessionId = sh.registry.nextId + 1) (registry : sh'.registry = sh.registry.takeId.2)
      (groups : sh'.groups = sh.groups)
  | inserts (info : SessionInfo) (phase : c.phase = .numbered) (stage : c'.phase.stage = .inserted)
      (waiter : c'.waiter = c.waiter) (pgid : c'.pgid = c.pgid) (id : c'.sessionId = c.sessionId)
      (info_pgid : info.pgid = c.pgid) (registry : sh'.registry = sh.registry.put c.sessionId info)
      (groups : sh'.groups = sh.groups)
  | starts (phase : c.phase = .inserted) (stage : c'.phase.stage = .started)
      (waiter : c'.waiter = .pumping) (pgid : c'.pgid = c.pgid) (id : c'.sessionId = c.sessionId)
      (shared : sh' = sh)
  | givesUp (phase : c.phase = .inserted) (phase' : c'.phase = .returned)
      (waiter : c'.waiter = c.waiter) (pgid : c'.pgid = c.pgid)
      (registry : sh'.registry = sh.registry.remove c.sessionId) (groups : sh'.groups = sh.groups)
  | signals (sig : ℕ) (stage : c.phase.stage = .started) (stage' : c'.phase.stage = .started)
      (waiter : c'.waiter = c.waiter) (pgid : c'.pgid = c.pgid) (id : c'.sessionId = c.sessionId)
      (registry : sh'.registry = sh.registry)
      (groups : sh'.groups = kill (-c.pgid) sig sh.groups)
  | joinsPumps (phase : c'.phase = c.phase) (waiter : c.waiter = .pumping)
      (waiter' : c'.waiter = .waiting) (pgid : c'.pgid = c.pgid) (id : c'.sessionId = c.sessionId)
      (shared : sh' = sh)
  | waits (status : ExitStatus) (phase : c'.phase = c.phase) (waiter : c.waiter = .waiting)
      (waiter' : c'.waiter = .reaped status) (pgid : c'.pgid = c.pgid)
      (id : c'.sessionId = c.sessionId) (registry : sh'.registry = sh.registry)
      (groups : reap (.control k) sh.groups = some (status, sh'.groups))
  | removes (status : ExitStatus) (phase : c'.phase = c.phase) (waiter : c.waiter = .reaped status)
      (waiter' : c'.waiter = .removed status) (pgid : c'.pgid = c.pgid)
      (id : c'.sessionId = c.sessionId) (registry : sh'.registry = sh.registry.remove c.sessionId)
      (groups : sh'.groups = sh.groups)
  | reports (status : ExitStatus) (phase : c'.phase = c.phase) (waiter : c.waiter = .removed status)
      (waiter' : c'.waiter = .ended) (pgid : c'.pgid = c.pgid) (id : c'.sessionId = c.sessionId)
      (shared : sh' = sh)

section Send

variable (c : Conn) (frame : Frame)

@[simp] theorem Conn.send_phase : (c.send frame).phase = c.phase := by
  unfold Conn.send
  split <;> rfl

@[simp] theorem Conn.send_waiter : (c.send frame).waiter = c.waiter := by
  unfold Conn.send
  split <;> rfl

@[simp] theorem Conn.send_pgid : (c.send frame).pgid = c.pgid := by
  unfold Conn.send
  split <;> rfl

@[simp] theorem Conn.send_sessionId : (c.send frame).sessionId = c.sessionId := by
  unfold Conn.send
  split <;> rfl

end Send

section Steps

variable {k : ℕ} {c c' : Conn} {sh sh' : Shared}

/-- What the pumps and the writer do is nothing to the session. -/
theorem Conn.pump_eq_some {stream : Stream} {chunk : Option (List UInt8)}
    (h : c.pump stream chunk = some c') : c'.phase = c.phase ∧ c'.waiter = c.waiter ∧
      c'.pgid = c.pgid ∧ c'.sessionId = c.sessionId := by
  unfold Conn.pump at h
  split at h
  · cases chunk with
    | none =>
      obtain rfl := Option.some.inj h
      exact ⟨rfl, rfl, rfl, rfl⟩
    | some bytes =>
      obtain rfl := Option.some.inj h
      split
      · exact ⟨c.send_phase _, c.send_waiter _, c.send_pgid _, c.send_sessionId _⟩
      · exact ⟨rfl, rfl, rfl, rfl⟩
  · cases h

theorem Conn.write_eq_some {succeeds : Bool} (h : c.write succeeds = some c') :
    c'.phase = c.phase ∧ c'.waiter = c.waiter ∧ c'.pgid = c.pgid ∧
      c'.sessionId = c.sessionId := by
  unfold Conn.write at h
  split at h
  · obtain rfl := Option.some.inj h
    split <;> exact ⟨rfl, rfl, rfl, rfl⟩
  · cases h

/-- A connection that looks into the registry has announced its session. -/
theorem Conn.look_stage {phase : Phase} {P : Prop}
    (hphase : c.phase = .checking ∨ c.phase = .left ∨ c.phase = .grace)
    (hnext : phase = .reading ∨ phase = .left ∨ phase = .joining ∨
      (phase = .terminating ∨ phase = .killing) ∧ P) :
    c.phase.stage = .started ∧ phase.stage = .started := by
  constructor
  · rcases hphase with hphase | hphase | hphase <;> rw [hphase] <;> rfl
  · rcases hnext with rfl | rfl | rfl | ⟨rfl | rfl, -⟩ <;> rfl

/-- All that a step of a connection can do with its session. -/
theorem Conn.step_moves {a : ConnAct} (h : c.step k sh a = some (c', sh')) :
    c.Moves k sh c' sh' := by
  cases Conn.step_cases h with
  | accept hphase => exact .stays (by rw [hphase]; rfl) rfl rfl rfl rfl
  | answer out hphase =>
    exact .returns (Or.inl (by rw [hphase]; rfl)) rfl (c.send_waiter _) (c.send_pgid _) rfl
  | hangUp hphase => exact .returns (Or.inl (by rw [hphase]; rfl)) rfl rfl rfl rfl
  | frame stdin hphase hframe hnext =>
    refine .stays ?_ rfl rfl rfl rfl
    rw [hphase]
    rcases hnext with rfl | rfl <;> rfl
  | @signal sig _ _ hphase =>
    exact .signals sig.asLibc (by rw [hphase]; rfl) rfl rfl rfl rfl rfl rfl
  | spawnFails hphase =>
    exact .returns (Or.inl (by rw [hphase]; rfl)) rfl (c.send_waiter _) (c.send_pgid _) rfl
  | spawn hphase hspawn => exact .spawns hphase rfl rfl rfl hspawn
  | number hphase => exact .numbers hphase rfl rfl rfl rfl rfl rfl
  | insert hphase => exact .inserts _ hphase rfl rfl rfl rfl rfl rfl rfl
  | announce hphase =>
    exact .starts hphase rfl rfl (c.send_pgid _) (c.send_sessionId _) rfl
  | giveUp hphase => exact .givesUp hphase rfl rfl rfl rfl rfl
  | look hphase hnext =>
    obtain ⟨hstage, hstage'⟩ := Conn.look_stage hphase hnext
    exact .stays (hstage'.trans hstage.symm) rfl rfl rfl rfl
  | terminate hphase => exact .signals SIGTERM (by rw [hphase]; rfl) rfl rfl rfl rfl rfl rfl
  | kill hphase => exact .signals SIGKILL (by rw [hphase]; rfl) rfl rfl rfl rfl rfl rfl
  | join hphase hwaiter => exact .returns (Or.inr hwaiter) rfl rfl rfl rfl
  | pump hpump =>
    obtain ⟨hphase, hwaiter, hpgid, hid⟩ := Conn.pump_eq_some hpump
    exact .stays (congrArg Phase.stage hphase) hwaiter hpgid hid rfl
  | write hwrite =>
    obtain ⟨hphase, hwaiter, hpgid, hid⟩ := Conn.write_eq_some hwrite
    exact .stays (congrArg Phase.stage hphase) hwaiter hpgid hid rfl
  | joinPumps hwaiter => exact .joinsPumps rfl hwaiter rfl rfl rfl rfl
  | reap hwaiter hreap => exact .waits _ rfl hwaiter rfl rfl rfl rfl hreap
  | remove hwaiter => exact .removes _ rfl hwaiter rfl rfl rfl rfl rfl
  | report hwaiter =>
    exact .reports _ (c.send_phase _) hwaiter rfl (c.send_pgid _) (c.send_sessionId _) rfl

end Steps

/-- Whether the waiter has waited for the child. -/
def Waiter.waited : Waiter → Bool
  | reaped _ => true
  | removed _ => true
  | ended => true
  | _ => false

/-- Whether the waiter has removed the entry of the session. -/
def Waiter.entryGone : Waiter → Bool
  | removed _ => true
  | ended => true
  | _ => false

/-- The stages in which a session has an id. -/
def Stage.hasId : Stage → Bool
  | numbered => true
  | inserted => true
  | started => true
  | _ => false

/-- A connection, its child and its entry agree. -/
structure Booked (k : ℕ) (c : Conn) (sh : Shared) : Prop where
  unspawned : c.phase.stage = .unspawned → ∀ g ∈ sh.groups, g.origin ≠ .control k
  child : ∀ g ∈ sh.groups, g.origin = .control k →
    g.pgid = c.pgid ∧ (g.leader = .reaped ↔ c.waiter.waited = true)
  spawned : c.phase.stage ≠ .unspawned → c.phase.stage ≠ .returned →
    ∃ g ∈ sh.groups, g.origin = .control k
  waiter : c.phase.stage = .started ∨ c.waiter = .notStarted ∨
    (c.phase.stage = .returned ∧ c.waiter = .ended)
  id : c.phase.stage.hasId = true → c.sessionId ≤ sh.registry.nextId
  entry : c.phase.stage = .inserted ∨ (c.phase.stage = .started ∧ c.waiter.entryGone = false) →
    ∃ info, sh.registry.Has c.sessionId info ∧ info.pgid = c.pgid
  noEntry : c.phase.stage = .started → c.waiter.entryGone = true →
    ∀ info, ¬sh.registry.Has c.sessionId info

/-- A connection that was accepted has no child and no entry. -/
theorem booked_accepted {k : ℕ} {sh : Shared} (h : ∀ g ∈ sh.groups, g.origin ≠ .control k) :
    Booked k .accepted sh where
  unspawned _ := h
  child g hg ho := (h g hg ho).elim
  spawned h := (h rfl).elim
  waiter := Or.inr (Or.inl rfl)
  id h := by cases h
  entry h := by
    rcases h with h | ⟨h, -⟩ <;> cases h
  noEntry h := by cases h

section Booked

variable {k : ℕ} {c c' : Conn} {sh sh' : Shared}

/-- What others do to their own children and entries. -/
theorem Booked.frame (hb : Booked k c sh) (hchild : SameChild (.control k) sh.groups sh'.groups)
    (hnext : sh.registry.nextId ≤ sh'.registry.nextId)
    (hentry : c.phase.stage.hasId = true →
      ∀ info, sh'.registry.Has c.sessionId info ↔ sh.registry.Has c.sessionId info) :
    Booked k c sh' where
  unspawned hstage g' hg' ho := by
    obtain ⟨g, hg, ho, -⟩ := hchild.back g' hg' ho
    exact hb.unspawned hstage g hg ho
  child g' hg' ho := by
    obtain ⟨g, hg, ho, hpgid, hleader, -⟩ := hchild.back g' hg' ho
    obtain ⟨hown, hwaited⟩ := hb.child g hg ho
    exact ⟨hpgid.symm.trans hown, hleader.trans hwaited⟩
  spawned h h' := by
    obtain ⟨g, hg, ho⟩ := hb.spawned h h'
    obtain ⟨g', hg', ho', -⟩ := hchild.forth g hg ho
    exact ⟨g', hg', ho'⟩
  waiter := hb.waiter
  id h := (hb.id h).trans hnext
  entry h := by
    obtain ⟨info, hinfo, hpgid⟩ := hb.entry h
    have hid : c.phase.stage.hasId = true := by
      rcases h with h | ⟨h, -⟩ <;> rw [h] <;> rfl
    exact ⟨info, (hentry hid info).mpr hinfo, hpgid⟩
  noEntry hstage hgone info hinfo := by
    have hid : c.phase.stage.hasId = true := by rw [hstage]; rfl
    exact hb.noEntry hstage hgone info ((hentry hid info).mp hinfo)

/-- A step that keeps the stage, the waiter and the session. -/
theorem Booked.stays (hb : Booked k c sh) (hstage : c'.phase.stage = c.phase.stage)
    (hwaiter : c'.waiter = c.waiter) (hpgid : c'.pgid = c.pgid) (hid : c'.sessionId = c.sessionId) :
    Booked k c' sh where
  unspawned := by rw [hstage]; exact hb.unspawned
  child := by rw [hpgid, hwaiter]; exact hb.child
  spawned := by rw [hstage]; exact hb.spawned
  waiter := by rw [hstage, hwaiter]; exact hb.waiter
  id := by rw [hstage, hid]; exact hb.id
  entry := by rw [hstage, hwaiter, hid, hpgid]; exact hb.entry
  noEntry := by rw [hstage, hwaiter, hid]; exact hb.noEntry

/-- A waiter that is at work has a session that was started. -/
theorem Booked.started (hb : Booked k c sh) (h : c.waiter ≠ .notStarted) (h' : c.waiter ≠ .ended) :
    c.phase.stage = .started := by
  rcases hb.waiter with hstage | hnot | ⟨-, hended⟩
  · exact hstage
  · exact (h hnot).elim
  · exact (h' hended).elim

/-- A connection that has returned. -/
theorem booked_returned (hstage : c.phase.stage = .returned)
    (hwaiter : c.waiter = .notStarted ∨ c.waiter = .ended)
    (hchild : ∀ g ∈ sh.groups, g.origin = .control k →
      g.pgid = c.pgid ∧ (g.leader = .reaped ↔ c.waiter.waited = true)) : Booked k c sh where
  unspawned h := by rw [hstage] at h; cases h
  child := hchild
  spawned _ h := (h hstage).elim
  waiter := by
    rcases hwaiter with h | h
    · exact Or.inr (Or.inl h)
    · exact Or.inr (Or.inr ⟨hstage, h⟩)
  id h := by rw [hstage] at h; cases h
  entry h := by
    rw [hstage] at h
    rcases h with h | ⟨h, -⟩ <;> cases h
  noEntry h := by rw [hstage] at h; cases h

/-- A connection whose session was started. -/
theorem booked_started (hstage : c.phase.stage = .started)
    (hchild : ∀ g ∈ sh.groups, g.origin = .control k →
      g.pgid = c.pgid ∧ (g.leader = .reaped ↔ c.waiter.waited = true))
    (hspawned : ∃ g ∈ sh.groups, g.origin = .control k)
    (hid : c.sessionId ≤ sh.registry.nextId)
    (hentry : c.waiter.entryGone = false →
      ∃ info, sh.registry.Has c.sessionId info ∧ info.pgid = c.pgid)
    (hno : c.waiter.entryGone = true → ∀ info, ¬sh.registry.Has c.sessionId info) :
    Booked k c sh where
  unspawned h := by rw [hstage] at h; cases h
  child := hchild
  spawned _ _ := hspawned
  waiter := Or.inl hstage
  id _ := hid
  entry h := by
    rcases h with h | ⟨-, h⟩
    · rw [hstage] at h
      cases h
    · exact hentry h
  noEntry _ h := hno h

/-- A connection between its spawn and the start of its waiter. -/
theorem booked_before (hstage : c.phase.stage ≠ .unspawned) (hstage' : c.phase.stage ≠ .started)
    (hwaiter : c.waiter = .notStarted)
    (hchild : ∀ g ∈ sh.groups, g.origin = .control k → g.pgid = c.pgid ∧ g.leader ≠ .reaped)
    (hspawned : ∃ g ∈ sh.groups, g.origin = .control k)
    (hid : c.phase.stage.hasId = true → c.sessionId ≤ sh.registry.nextId)
    (hentry : c.phase.stage = .inserted →
      ∃ info, sh.registry.Has c.sessionId info ∧ info.pgid = c.pgid) : Booked k c sh where
  unspawned h := (hstage h).elim
  child g hg ho := by
    obtain ⟨hpgid, hleader⟩ := hchild g hg ho
    rw [hwaiter]
    exact ⟨hpgid, fun h => (hleader h).elim, fun h => by cases h⟩
  spawned _ _ := hspawned
  waiter := Or.inr (Or.inl hwaiter)
  id := hid
  entry h := by
    rcases h with h | ⟨h, -⟩
    · exact hentry h
    · exact (hstage' h).elim
  noEntry h := (hstage' h).elim

/-- A child whose waiter was not started has not been waited for. -/
theorem Booked.unreaped (hb : Booked k c sh) (hwaiter : c.waiter.waited = false) :
    ∀ g ∈ sh.groups, g.origin = .control k → g.pgid = c.pgid ∧ g.leader ≠ .reaped := by
  intro g hg ho
  obtain ⟨hpgid, hleader⟩ := hb.child g hg ho
  refine ⟨hpgid, fun h => ?_⟩
  rw [hleader.mp h] at hwaiter
  cases hwaiter

/-- Before the start of the waiter. -/
theorem Booked.notStarted (hb : Booked k c sh) {stage : Stage} (hc : c.phase.stage = stage)
    (h : stage ≠ .started ∧ stage ≠ .returned) : c.waiter = .notStarted := by
  rcases hb.waiter with hstage | hnot | ⟨hstage, -⟩
  · exact (h.1 (hc.symm.trans hstage)).elim
  · exact hnot
  · exact (h.2 (hc.symm.trans hstage)).elim

/-- A connection that is neither before its spawn nor done has a child. -/
theorem Booked.hasChild (hb : Booked k c sh) {stage : Stage} (hc : c.phase.stage = stage)
    (h : stage ≠ .unspawned ∧ stage ≠ .returned) : ∃ g ∈ sh.groups, g.origin = .control k :=
  hb.spawned (hc ▸ h.1) (hc ▸ h.2)

/-- A step between the spawn and the start of the waiter that leaves the children alone. -/
theorem Booked.before (hb : Booked k c sh) {stage : Stage} (hc : c.phase.stage = stage)
    (hstage : stage ≠ .unspawned ∧ stage ≠ .started ∧ stage ≠ .returned)
    (hstage' : c'.phase.stage ≠ .unspawned ∧ c'.phase.stage ≠ .started)
    (hwaiter : c'.waiter = c.waiter)
    (hpgid : c'.pgid = c.pgid) (hgroups : sh'.groups = sh.groups)
    (hid : c'.sessionId ≤ sh'.registry.nextId)
    (hentry : c'.phase.stage = .inserted →
      ∃ info, sh'.registry.Has c'.sessionId info ∧ info.pgid = c'.pgid) : Booked k c' sh' := by
  have hnot := hb.notStarted hc hstage.2
  have hchild := hb.unreaped (by rw [hnot]; rfl)
  have hspawned := hb.hasChild hc ⟨hstage.1, hstage.2.2⟩
  rw [← hgroups, ← hpgid] at hchild
  rw [← hgroups] at hspawned
  exact booked_before hstage'.1 hstage'.2 (hwaiter.trans hnot) hchild hspawned (fun _ => hid) hentry

/-- A step of the waiter. -/
theorem Booked.works (hb : Booked k c sh) (hwaiter : c.waiter ≠ .notStarted ∧ c.waiter ≠ .ended)
    (hphase : c'.phase = c.phase) (hpgid : c'.pgid = c.pgid) (hid : c'.sessionId = c.sessionId)
    (hchild : ∀ g ∈ sh'.groups, g.origin = .control k →
      g.pgid = c.pgid ∧ (g.leader = .reaped ↔ c'.waiter.waited = true))
    (hspawned : (∃ g ∈ sh.groups, g.origin = .control k) → ∃ g ∈ sh'.groups, g.origin = .control k)
    (hnext : sh'.registry.nextId = sh.registry.nextId)
    (hentry : c'.waiter.entryGone = false → c.waiter.entryGone = false ∧ sh'.registry = sh.registry)
    (hno : c'.waiter.entryGone = true → ∀ info, ¬sh'.registry.Has c.sessionId info) :
    Booked k c' sh' := by
  have hstage := hb.started hwaiter.1 hwaiter.2
  refine booked_started (by rw [hphase]; exact hstage) ?_ ?_ ?_ (fun hgone => ?_) ?_
  · rw [hpgid]
    exact hchild
  · exact hspawned (hb.hasChild hstage (by decide))
  · rw [hid, hnext]
    exact hb.id (by rw [hstage]; rfl)
  · obtain ⟨hbefore, hregistry⟩ := hentry hgone
    rw [hid, hpgid, hregistry]
    exact hb.entry (Or.inr ⟨hstage, hbefore⟩)
  · rw [hid]
    exact hno

/-- A connection that spawns its session. -/
theorem Booked.spawns (hb : Booked k c sh) (hphase : c.phase = .spawning)
    (hstage : c'.phase.stage = .spawned) (hwaiter : c'.waiter = c.waiter)
    (hgroups : spawnGroup c'.pgid (.control k) c.request sh.groups = some sh'.groups) :
    Booked k c' sh' := by
  have hunspawned : c.phase.stage = .unspawned := by rw [hphase]; rfl
  have hnone := hb.unspawned hunspawned
  have hgroups := spawnGroup_eq_some hgroups
  refine booked_before (by rw [hstage]; decide) (by rw [hstage]; decide) ?_ ?_ ?_
    (fun h => by rw [hstage] at h; cases h) fun h => by rw [hstage] at h; cases h
  · exact hwaiter.trans (hb.notStarted hunspawned (by decide))
  · intro g hg ho
    rw [hgroups] at hg
    rcases List.mem_append.mp hg with hg | hg
    · exact (hnone g hg ho).elim
    · obtain rfl := List.mem_singleton.mp hg
      exact ⟨rfl, fun h => by cases h⟩
  · rw [hgroups]
    exact ⟨_, List.mem_append_right _ (List.mem_singleton.mpr rfl), rfl⟩

/-- The start of the waiter. -/
theorem Booked.starts (hb : Booked k c sh) (hphase : c.phase = .inserted)
    (hstage : c'.phase.stage = .started) (hwaiter : c'.waiter = .pumping) (hpgid : c'.pgid = c.pgid)
    (hid : c'.sessionId = c.sessionId) : Booked k c' sh := by
  have hinserted : c.phase.stage = .inserted := by rw [hphase]; rfl
  have hnot := hb.notStarted hinserted (by decide)
  refine booked_started hstage ?_ ?_ ?_ (fun _ => ?_) fun h => by rw [hwaiter] at h; cases h
  · rw [hpgid, hwaiter]
    have hchild := hb.child
    rwa [hnot] at hchild
  · exact hb.hasChild hinserted (by decide)
  · rw [hid]
    exact hb.id (by rw [hinserted]; rfl)
  · rw [hid, hpgid]
    exact hb.entry (Or.inl hinserted)

/-- The end of `child.wait`. -/
theorem Booked.waits (hb : Booked k c sh) {status : ExitStatus} (hphase : c'.phase = c.phase)
    (hwaiter : c.waiter = .waiting) (hwaiter' : c'.waiter = .reaped status)
    (hpgid : c'.pgid = c.pgid) (hid : c'.sessionId = c.sessionId)
    (hregistry : sh'.registry = sh.registry)
    (hgroups : reap (.control k) sh.groups = some (status, sh'.groups)) : Booked k c' sh' := by
  have hgroups := reap_eq_some hgroups
  refine hb.works (by rw [hwaiter]; decide) hphase hpgid hid ?_ ?_ (by rw [hregistry])
    (fun _ => ⟨by rw [hwaiter]; rfl, hregistry⟩) fun h => by rw [hwaiter'] at h; cases h
  · -- From here on the child counts as waited for.
    intro g' hg' ho
    rw [hgroups] at hg'
    obtain ⟨g, hg, rfl⟩ := List.mem_map.mp hg'
    have hown : g.origin = .control k := by
      split at ho
      · next h => exact h
      · exact ho
    rw [if_pos hown, hwaiter']
    exact ⟨(hb.child g hg hown).1, fun _ => rfl, fun _ => rfl⟩
  · rintro ⟨g, hg, ho⟩
    rw [hgroups]
    refine ⟨_, List.mem_map_of_mem hg, ?_⟩
    rw [if_pos ho]
    exact ho

/-- A step of a connection keeps its own books. -/
theorem Booked.moves (hb : Booked k c sh) (hmoves : c.Moves k sh c' sh') : Booked k c' sh' := by
  cases hmoves with
  | stays hstage hwaiter hpgid hid hshared =>
    subst hshared
    exact hb.stays hstage hwaiter hpgid hid
  | returns hover hphase hwaiter hpgid hshared =>
    subst hshared
    refine booked_returned (by rw [hphase]; rfl) ?_ (by rw [hpgid, hwaiter]; exact hb.child)
    rw [hwaiter]
    rcases hover with hstage | hended
    · exact Or.inl (hb.notStarted hstage (by decide))
    · exact Or.inr hended
  | spawns hphase hstage hwaiter hregistry hgroups => exact hb.spawns hphase hstage hwaiter hgroups
  | numbers hphase hstage hwaiter hpgid hid hregistry hgroups =>
    have hspawned : c.phase.stage = .spawned := by rw [hphase]; rfl
    refine hb.before hspawned (by decide) (by rw [hstage]; decide) hwaiter hpgid hgroups ?_
      fun h => by rw [hstage] at h; cases h
    rw [hid, hregistry, Registry.takeId_nextId]
  | inserts info hphase hstage hwaiter hpgid hid hinfo hregistry hgroups =>
    have hnumbered : c.phase.stage = .numbered := by rw [hphase]; rfl
    refine hb.before hnumbered (by decide) (by rw [hstage]; decide) hwaiter hpgid hgroups ?_
      fun _ => ?_
    · rw [hid, hregistry, Registry.put_nextId]
      exact hb.id (by rw [hnumbered]; rfl)
    · rw [hid, hregistry, hpgid]
      exact ⟨info, Registry.has_put.mpr (Or.inl ⟨rfl, rfl⟩), hinfo⟩
  | starts hphase hstage hwaiter hpgid hid hshared =>
    subst hshared
    exact hb.starts hphase hstage hwaiter hpgid hid
  | givesUp hphase hphase' hwaiter hpgid hregistry hgroups =>
    have hinserted : c.phase.stage = .inserted := by rw [hphase]; rfl
    have hnot := hb.notStarted hinserted (by decide)
    refine booked_returned (by rw [hphase']; rfl) (Or.inl (hwaiter.trans hnot)) ?_
    rw [hgroups, hpgid, hwaiter]
    exact hb.child
  | signals sig hstage hstage' hwaiter hpgid hid hregistry hgroups =>
    have hkept : Booked k c sh' := by
      refine hb.frame ?_ (by rw [hregistry]) fun _ _ => by rw [hregistry]
      rw [hgroups]
      exact sameChild_kill _ _ _ _
    exact hkept.stays (hstage'.trans hstage.symm) hwaiter hpgid hid
  | joinsPumps hphase hwaiter hwaiter' hpgid hid hshared =>
    subst hshared
    refine hb.works (by rw [hwaiter]; decide) hphase hpgid hid ?_ (fun h => h) rfl
      (fun _ => ⟨by rw [hwaiter]; rfl, rfl⟩) fun h => by rw [hwaiter'] at h; cases h
    have hchild := hb.child
    rw [hwaiter] at hchild
    rw [hwaiter']
    exact hchild
  | waits status hphase hwaiter hwaiter' hpgid hid hregistry hgroups =>
    exact hb.waits hphase hwaiter hwaiter' hpgid hid hregistry hgroups
  | removes status hphase hwaiter hwaiter' hpgid hid hregistry hgroups =>
    refine hb.works (by rw [hwaiter]; simp) hphase hpgid hid ?_ ?_
      (by rw [hregistry, Registry.remove_nextId]) (fun h => by rw [hwaiter'] at h; cases h)
      fun _ info hinfo => ?_
    · have hchild := hb.child
      rw [hwaiter] at hchild
      rw [hgroups, hwaiter']
      exact hchild
    · rw [hgroups]
      exact fun h => h
    · rw [hregistry] at hinfo
      exact (Registry.has_remove.mp hinfo).1 rfl
  | reports status hphase hwaiter hwaiter' hpgid hid hshared =>
    subst hshared
    have hstage := hb.started (by rw [hwaiter]; simp) (by rw [hwaiter]; simp)
    refine hb.works (by rw [hwaiter]; simp) hphase hpgid hid ?_ (fun h => h) rfl
      (fun h => by rw [hwaiter'] at h; cases h) fun _ => hb.noEntry hstage (by rw [hwaiter]; rfl)
    have hchild := hb.child
    rw [hwaiter] at hchild
    rw [hwaiter']
    exact hchild

/-- What a step of a connection does to the children and entries of others. -/
theorem Booked.others (hb : Booked k c sh) (hmoves : c.Moves k sh c' sh') :
    (∀ o, o ≠ .control k → SameChild o sh.groups sh'.groups) ∧
      sh.registry.nextId ≤ sh'.registry.nextId ∧
      ∀ id, (c.phase.stage.hasId = true → id ≠ c.sessionId) →
        ∀ info, sh'.registry.Has id info ↔ sh.registry.Has id info := by
  have hsame : sh' = sh → (∀ o, o ≠ .control k → SameChild o sh.groups sh'.groups) ∧
      sh.registry.nextId ≤ sh'.registry.nextId ∧
      ∀ id, (c.phase.stage.hasId = true → id ≠ c.sessionId) →
        ∀ info, sh'.registry.Has id info ↔ sh.registry.Has id info := by
    rintro rfl
    exact ⟨fun o _ => .refl o _, le_rfl, fun _ _ _ => Iff.rfl⟩
  have hgroup : sh'.groups = sh.groups → ∀ o, o ≠ .control k → SameChild o sh.groups sh'.groups :=
    fun h o _ => h ▸ .refl o _
  cases hmoves with
  | stays _ _ _ _ hshared => exact hsame hshared
  | returns _ _ _ _ hshared => exact hsame hshared
  | spawns _ _ _ hregistry hgroups =>
    rw [hregistry]
    exact ⟨fun o ho => sameChild_spawnGroup hgroups ho, le_rfl, fun _ _ _ => Iff.rfl⟩
  | numbers _ _ _ _ _ hregistry hgroups =>
    rw [hregistry, Registry.takeId_nextId]
    exact ⟨hgroup hgroups, Nat.le_succ _, fun _ _ _ => Registry.has_takeId⟩
  | inserts info hphase _ _ _ _ _ hregistry hgroups =>
    rw [hregistry, Registry.put_nextId]
    refine ⟨hgroup hgroups, le_rfl, fun id hid info => ?_⟩
    have hne := hid (by rw [hphase]; rfl)
    rw [Registry.has_put]
    simp [hne]
  | starts _ _ _ _ _ hshared => exact hsame hshared
  | givesUp hphase _ _ _ hregistry hgroups =>
    rw [hregistry, Registry.remove_nextId]
    refine ⟨hgroup hgroups, le_rfl, fun id hid info => ?_⟩
    have hne := hid (by rw [hphase]; rfl)
    rw [Registry.has_remove]
    simp [hne]
  | signals sig _ _ _ _ _ hregistry hgroups =>
    rw [hregistry, hgroups]
    exact ⟨fun o _ => sameChild_kill o _ _ _, le_rfl, fun _ _ _ => Iff.rfl⟩
  | joinsPumps _ _ _ _ _ hshared => exact hsame hshared
  | waits status _ _ _ _ _ hregistry hgroups =>
    rw [hregistry]
    exact ⟨fun o ho => sameChild_reap hgroups ho, le_rfl, fun _ _ _ => Iff.rfl⟩
  | removes status _ hwaiter _ _ _ hregistry hgroups =>
    rw [hregistry, Registry.remove_nextId]
    refine ⟨hgroup hgroups, le_rfl, fun id hid info => ?_⟩
    have hstage := hb.started (by rw [hwaiter]; simp) (by rw [hwaiter]; simp)
    have hne := hid (by rw [hstage]; rfl)
    rw [Registry.has_remove]
    simp [hne]
  | reports _ _ _ _ _ _ hshared => exact hsame hshared

/-- A session keeps its id, and a new one is above all earlier ones. -/
theorem Conn.Moves.sessionId (hmoves : c.Moves k sh c' sh') (h : c'.phase.stage.hasId = true) :
    (c.phase.stage.hasId = true ∧ c'.sessionId = c.sessionId) ∨
      c'.sessionId = sh.registry.nextId + 1 := by
  cases hmoves with
  | stays hstage _ _ hid _ => exact Or.inl ⟨hstage ▸ h, hid⟩
  | returns _ hphase _ _ _ => rw [hphase] at h; cases h
  | spawns _ hstage _ _ _ => rw [hstage] at h; cases h
  | numbers _ _ _ _ hid _ _ => exact Or.inr hid
  | inserts _ hphase _ _ _ hid _ _ _ => exact Or.inl ⟨by rw [hphase]; rfl, hid⟩
  | starts hphase _ _ _ hid _ => exact Or.inl ⟨by rw [hphase]; rfl, hid⟩
  | givesUp _ hphase' _ _ _ _ => rw [hphase'] at h; cases h
  | signals _ hstage _ _ _ hid _ _ => exact Or.inl ⟨by rw [hstage]; rfl, hid⟩
  | joinsPumps hphase _ _ _ hid _ => exact Or.inl ⟨hphase ▸ h, hid⟩
  | waits _ hphase _ _ _ hid _ _ => exact Or.inl ⟨hphase ▸ h, hid⟩
  | removes _ hphase _ _ _ hid _ _ => exact Or.inl ⟨hphase ▸ h, hid⟩
  | reports _ hphase _ _ _ hid _ => exact Or.inl ⟨hphase ▸ h, hid⟩

end Booked

end Devcroft.Keeper
