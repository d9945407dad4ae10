import Mathlib.Data.List.Nodup
import Devcroft.Library.Interleaving
import Devcroft.Keeper.Consistency

/-!
# The registry is exact

What the registry holds is compared with what has happened: which connections have
spawned a session, which waiters have removed theirs, and which ids were given out. The
ids are counted without a bound: no keeper starts as many sessions as a `u64` counts.
-/

namespace Devcroft.Keeper

open Ssh Interleaving

/-- What a step of a connection means for its session. -/
inductive Event where
  /-- `backend.spawn` returns a child with a pid. -/
  | spawned (pid : ℕ)
  /-- The first frame is no `Spawn`, or nothing can be spawned. -/
  | refused
  /-- The waiter removes the entry after `child.wait` has returned. -/
  | removed
  deriving DecidableEq

/-- Whether a first frame asks for a session. -/
def isSpawn : Option Frame → Bool
  | some (.spawn _) => true
  | _ => false

/-- The event of an action. -/
def Conn.event (c : Conn) : ConnAct → Option Event
  | .read frame _ _ => if c.phase = .first ∧ isSpawn frame = false then some .refused else none
  | .spawn (.ok pid) => some (.spawned pid)
  | .spawn (.error _) => some .refused
  | .wait =>
    match c.waiter with
    | .reaped _ => some .removed
    | _ => none
  | _ => none

/-- The events of the `k`-th connection. -/
def events (k : ℕ) (past : List (KeeperState × Act)) : List Event :=
  past.filterMap fun p =>
    match p.2 with
    | .conn k' a => if k' = k then (p.1.conns k').event a else none
    | _ => none

/-- The id that `registry.insert` takes in an action of a connection. -/
def Conn.takes (c : Conn) (registry : Registry) : ConnAct → Option ℕ
  | .proceed _ => if c.phase = .spawned then some registry.takeId.1 else none
  | _ => none

/-- The id that it takes in an action of the keeper, with the connection for which it does; there is
none for the services. -/
def taken (p : KeeperState × Act) : Option (Option ℕ × ℕ) :=
  match p.2 with
  | .conn k a => ((p.1.conns k).takes p.1.shared.registry a).map fun id => (some k, id)
  | .main (.proceed _) =>
    match p.1.main with
    | .servicesSpawned _ => some (none, p.1.shared.registry.takeId.1)
    | _ => none
  | _ => none

/-- All that were taken. -/
def takenIds (past : List (KeeperState × Act)) : List (Option ℕ × ℕ) := past.filterMap taken

/-- The registry agrees with what has happened. -/
structure RegistryExact (env : KeeperEnv) (past : List (KeeperState × Act)) (s : KeeperState) :
    Prop where
  /-- Every id is above all that were taken before. -/
  ids : ((takenIds past).map Prod.snd).Pairwise (· < ·)
  /-- No id has two entries. -/
  keys : (s.shared.registry.sessions.map Prod.fst).Nodup
  /-- Every entry is the one of the services, or of a session that was spawned and that its waiter
  has not removed. -/
  entries : ∀ id info, s.shared.registry.Has id info → ∃ owner, (owner, id) ∈ takenIds past ∧
    ∀ k, owner = some k → .spawned info.pgid ∈ events k past ∧ .removed ∉ events k past
  /-- While no connection is between its spawn and its insertion, every such session has an
  entry. -/
  sessions : (∀ k, (s.conns k).phase ≠ .spawned ∧ (s.conns k).phase ≠ .numbered) →
    ∀ k pid, .spawned pid ∈ events k past → .removed ∉ events k past →
      ∃ id info, (some k, id) ∈ takenIds past ∧ s.shared.registry.Has id info ∧ info.pgid = pid
  /-- A connection that gets no session never changes the registry. -/
  refused : ∀ k, .refused ∈ events k past → ∀ p ∈ past, ∀ a next, p.2 = .conn k a →
    p.1.step env p.2 = some next → next.shared.registry = p.1.shared.registry
  /-- When `handle_with_grace` returns, its id has no entry. -/
  returned : ∀ k id, (some k, id) ∈ takenIds past → (s.conns k).phase = .returned →
    ∀ info, ¬s.shared.registry.Has id info

/-- Whether a session is yet to be announced. -/
def Stage.early : Stage → Bool
  | started => false
  | returned => false
  | _ => true

/-- A connection that has sent nothing and started nothing beside its child. -/
structure Conn.Fresh (c : Conn) : Prop where
  waiter : c.waiter = .notStarted
  sent : c.sent = []
  receiving : c.receiving = true
  pumps : ∀ stream, c.pumps stream = false

/-- The events that have led to a state of a connection. -/
def Conn.story (c : Conn) : List Event :=
  match c.phase.stage, c.waiter with
  | .unspawned, _ => []
  | .returned, .notStarted => [.refused]
  | _, waiter => .spawned c.pgid :: if waiter.entryGone then [.removed] else []

/-- The ids that a connection in this state has taken. -/
def Conn.ids (c : Conn) : List ℕ :=
  match c.phase.stage, c.waiter with
  | .unspawned, _ => []
  | .spawned, _ => []
  | .returned, .notStarted => []
  | _, _ => [c.sessionId]

/-- A connection whose session has its entry. -/
def Conn.Listed (c : Conn) : Prop :=
  (c.phase.stage = .inserted ∨ c.phase.stage = .started) ∧ c.waiter.entryGone = false

theorem Registry.nodup_remove {r : Registry} (h : (r.sessions.map Prod.fst).Nodup) (id : ℕ) :
    ((r.remove id).sessions.map Prod.fst).Nodup :=
  h.sublist (List.filter_sublist.map _)

theorem Registry.nodup_put {r : Registry} (h : (r.sessions.map Prod.fst).Nodup) (id : ℕ)
    (info : SessionInfo) : ((r.put id info).sessions.map Prod.fst).Nodup := by
  refine List.nodup_cons.mpr ⟨fun hmem => ?_, Registry.nodup_remove h id⟩
  obtain ⟨entry, hentry, heq⟩ := List.mem_map.mp hmem
  exact (of_decide_eq_true (List.mem_filter.mp hentry).2) heq

section Steps

variable {k : ℕ} {c c' : Conn} {sh sh' : Shared} {a : ConnAct}

/-- Nothing but the thread of the connection moves before the session is announced. -/
theorem Conn.fresh_step (hfresh : c.phase.stage.early = true → c.Fresh)
    (h : c.step k sh a = some (c', sh')) (hearly : c'.phase.stage.early = true) : c'.Fresh := by
  cases Conn.step_cases h with
  | accept hphase | spawn hphase | number hphase | insert hphase =>
    have hc := hfresh (by rw [hphase]; rfl)
    exact ⟨hc.waiter, hc.sent, hc.receiving, hc.pumps⟩
  | answer | hangUp | spawnFails | signal | announce | giveUp | terminate | kill | join =>
    cases hearly
  | frame _ _ _ hnext =>
    rcases hnext with rfl | rfl <;> cases hearly
  | look hphase hnext =>
    rw [(Conn.look_stage hphase hnext).2] at hearly
    cases hearly
  | @pump stream _ _ hpump =>
    rw [(Conn.pump_eq_some hpump).1] at hearly
    rw [Conn.pump, (hfresh hearly).pumps stream] at hpump
    cases hpump
  | write hwrite =>
    rw [(Conn.write_eq_some hwrite).1] at hearly
    rw [Conn.write, (hfresh hearly).sent, if_neg (by simp)] at hwrite
    cases hwrite
  | joinPumps hwaiter | reap hwaiter | remove hwaiter =>
    cases (hfresh hearly).waiter.symm.trans hwaiter
  | report hwaiter =>
    rw [Conn.send_phase] at hearly
    cases (hfresh hearly).waiter.symm.trans hwaiter

/-- A step whose connection has the same stage, waiter and pid. -/
theorem Conn.story_congr (hstage : c'.phase.stage = c.phase.stage) (hwaiter : c'.waiter = c.waiter)
    (hpgid : c'.pgid = c.pgid) : c'.story = c.story := by
  unfold Conn.story
  rw [hstage, hwaiter, hpgid]

theorem Conn.ids_congr (hstage : c'.phase.stage = c.phase.stage) (hwaiter : c'.waiter = c.waiter)
    (hid : c'.sessionId = c.sessionId) : c'.ids = c.ids := by
  unfold Conn.ids
  rw [hstage, hwaiter, hid]

/-- A connection whose waiter was started. -/
theorem Conn.late_of_waiter (hfresh : c.phase.stage.early = true → c.Fresh)
    (hwaiter : c.waiter ≠ .notStarted) : c.phase.stage.early = false := by
  by_contra hearly
  exact hwaiter (hfresh (by simpa using hearly)).waiter

theorem Conn.story_of_waiter (hlate : c.phase.stage.early = false)
    (hwaiter : c.waiter ≠ .notStarted) :
    c.story = .spawned c.pgid :: if c.waiter.entryGone then [.removed] else [] := by
  unfold Conn.story
  split
  · next h =>
    rw [h] at hlate
    cases hlate
  · next h => exact (hwaiter h).elim
  · rfl

theorem Conn.ids_of_waiter (hwaiter : c.waiter ≠ .notStarted) (hphase : c'.phase = c.phase)
    (hwaiter' : c'.waiter ≠ .notStarted) (hid : c'.sessionId = c.sessionId) : c'.ids = c.ids := by
  unfold Conn.ids
  rw [hphase, hid]
  cases c.phase.stage with
  | returned => simp [hwaiter, hwaiter']
  | _ => rfl

/-- A connection that is refused. -/
theorem Conn.story_refused (hphase : c.phase.stage = .unspawned) (hfresh : c.waiter = .notStarted)
    (hphase' : c'.phase = .returned) (hwaiter : c'.waiter = c.waiter) :
    c'.story = c.story ++ [.refused] := by
  rw [Conn.story, Conn.story, hphase, hphase', hwaiter, hfresh]
  rfl

/-- The first frame. -/
theorem Conn.story_readFirst (hphase : c.phase = .first) (hfresh : c.waiter = .notStarted)
    (registry : Registry) (uptime : ℕ) (frame : Option Frame) (stdinTakes : Bool) :
    (c.readFirst registry uptime frame).story =
      c.story ++ (c.event (.read frame uptime stdinTakes)).toList := by
  have hstage : c.phase.stage = .unspawned := by rw [hphase]; rfl
  have hrefused : isSpawn frame = false → c.event (.read frame uptime stdinTakes) = some .refused :=
    fun h => if_pos ⟨hphase, h⟩
  unfold Conn.readFirst
  split
  · simp [Conn.story, Conn.event, hphase, Phase.stage, isSpawn]
  · rw [hrefused rfl]
    exact Conn.story_refused hstage hfresh rfl (by simp)
  · next frame hspawn _ =>
    have hframe : isSpawn (some frame) = false := by
      cases frame with
      | spawn req => exact (hspawn req rfl).elim
      | _ => rfl
    rw [hrefused hframe]
    exact Conn.story_refused hstage hfresh rfl (by simp)
  · rw [hrefused rfl]
    exact Conn.story_refused hstage hfresh rfl rfl

/-- Every step continues the story by its event. -/
theorem Conn.story_step (hfresh : c.phase.stage.early = true → c.Fresh)
    (h : c.step k sh a = some (c', sh')) : c'.story = c.story ++ (c.event a).toList := by
  have hnone : c.event a = none → c'.story = c.story →
      c'.story = c.story ++ (c.event a).toList := by
    intro hevent hstory
    rw [hevent, hstory, Option.toList_none, List.append_nil]
  have hfirst : ∀ {frame uptime stdinTakes}, a = .read frame uptime stdinTakes →
      c.phase = .first → c'.story = c.story ++ (c.event a).toList := by
    rintro frame uptime stdinTakes rfl hphase
    rw [Conn.step, hphase] at h
    obtain ⟨rfl, -⟩ := Prod.mk.inj (Option.some.inj h)
    exact Conn.story_readFirst hphase (hfresh (by rw [hphase]; rfl)).waiter _ _ _ _
  cases Conn.step_cases h with
  | accept hphase | answer _ hphase | hangUp hphase => exact hfirst rfl hphase
  | frame stdin hphase hframe hnext =>
    refine hnone (if_neg (by simp [hphase])) (Conn.story_congr ?_ rfl rfl)
    rcases hnext with rfl | rfl <;> rw [hphase] <;> rfl
  | signal hphase =>
    exact hnone (if_neg (by simp [hphase])) (Conn.story_congr (by rw [hphase]; rfl) rfl rfl)
  | spawnFails hphase =>
    have hstage : c.phase.stage = .unspawned := by rw [hphase]; rfl
    exact Conn.story_refused hstage (hfresh (by rw [hstage]; rfl)).waiter rfl (by simp)
  | spawn hphase =>
    have hwaiter := (hfresh (by rw [hphase]; rfl)).waiter
    simp [Conn.story, Conn.event, hphase, hwaiter, Phase.stage, Waiter.entryGone]
  | number hphase | insert hphase | announce hphase =>
    have hwaiter := (hfresh (by rw [hphase]; rfl)).waiter
    simp [Conn.story, Conn.event, hphase, hwaiter, Phase.stage, Waiter.entryGone]
  | giveUp hphase hreceiving => exact (hreceiving (hfresh (by rw [hphase]; rfl)).receiving).elim
  | look hphase hnext =>
    obtain ⟨hstage, hstage'⟩ := Conn.look_stage hphase hnext
    exact hnone rfl (Conn.story_congr (hstage'.trans hstage.symm) rfl rfl)
  | terminate hphase | kill hphase =>
    exact hnone rfl (Conn.story_congr (by rw [hphase]; rfl) rfl rfl)
  | join hphase hwaiter => simp [Conn.story, Conn.event, hphase, hwaiter, Phase.stage]
  | pump hpump =>
    obtain ⟨hphase, hwaiter, hpgid, -⟩ := Conn.pump_eq_some hpump
    exact hnone rfl (Conn.story_congr (by rw [hphase]) hwaiter hpgid)
  | write hwrite =>
    obtain ⟨hphase, hwaiter, hpgid, -⟩ := Conn.write_eq_some hwrite
    exact hnone rfl (Conn.story_congr (by rw [hphase]) hwaiter hpgid)
  | joinPumps hwaiter | reap hwaiter | remove hwaiter | report hwaiter =>
    have hlate := Conn.late_of_waiter hfresh (by rw [hwaiter]; simp)
    rw [Conn.story_of_waiter hlate (by rw [hwaiter]; simp),
      Conn.story_of_waiter (by simpa) (by simp)]
    simp [Conn.event, hwaiter, Waiter.entryGone]

/-- Every step takes the id that it adds. -/
theorem Conn.ids_step (hfresh : c.phase.stage.early = true → c.Fresh)
    (h : c.step k sh a = some (c', sh')) : c'.ids = c.ids ++ (c.takes sh.registry a).toList := by
  have hnone : c.takes sh.registry a = none → c'.ids = c.ids →
      c'.ids = c.ids ++ (c.takes sh.registry a).toList := by
    intro htakes hids
    rw [htakes, hids, Option.toList_none, List.append_nil]
  cases Conn.step_cases h with
  | accept hphase =>
    exact hnone rfl (Conn.ids_congr (by rw [hphase]; rfl) rfl rfl)
  | answer _ hphase | spawnFails hphase =>
    have hwaiter := (hfresh (by rw [hphase]; rfl)).waiter
    refine hnone rfl ?_
    simp [Conn.ids, hphase, hwaiter, Phase.stage]
  | hangUp hphase =>
    have hwaiter := (hfresh (by rw [hphase]; rfl)).waiter
    refine hnone rfl ?_
    simp [Conn.ids, hphase, hwaiter, Phase.stage]
  | frame stdin hphase hframe hnext =>
    refine hnone rfl (Conn.ids_congr ?_ rfl rfl)
    rcases hnext with rfl | rfl <;> rw [hphase] <;> rfl
  | signal hphase => exact hnone rfl (Conn.ids_congr (by rw [hphase]; rfl) rfl rfl)
  | spawn hphase => exact hnone rfl (by simp [Conn.ids, hphase, Phase.stage])
  | number hphase => simp [Conn.ids, Conn.takes, hphase, Phase.stage]
  | insert hphase | announce hphase =>
    exact hnone (if_neg (by simp [hphase])) (by simp [Conn.ids, hphase, Phase.stage])
  | giveUp hphase hreceiving => exact (hreceiving (hfresh (by rw [hphase]; rfl)).receiving).elim
  | look hphase hnext =>
    obtain ⟨hstage, hstage'⟩ := Conn.look_stage hphase hnext
    have hspawned : c.phase ≠ .spawned := by
      intro h
      rw [h] at hstage
      cases hstage
    exact hnone (if_neg hspawned) (Conn.ids_congr (hstage'.trans hstage.symm) rfl rfl)
  | terminate hphase | kill hphase =>
    exact hnone (if_neg (by simp [hphase])) (Conn.ids_congr (by rw [hphase]; rfl) rfl rfl)
  | join hphase hwaiter =>
    exact hnone (if_neg (by simp [hphase])) (by simp [Conn.ids, hphase, hwaiter, Phase.stage])
  | pump hpump =>
    obtain ⟨hphase, hwaiter, -, hid⟩ := Conn.pump_eq_some hpump
    exact hnone rfl (Conn.ids_congr (by rw [hphase]) hwaiter hid)
  | write hwrite =>
    obtain ⟨hphase, hwaiter, -, hid⟩ := Conn.write_eq_some hwrite
    exact hnone rfl (Conn.ids_congr (by rw [hphase]) hwaiter hid)
  | joinPumps hwaiter | reap hwaiter | remove hwaiter =>
    exact hnone rfl (Conn.ids_of_waiter (by rw [hwaiter]; simp) rfl (by simp) rfl)
  | report hwaiter =>
    exact hnone rfl (Conn.ids_of_waiter (by rw [hwaiter]; simp) (by simp) (by simp) (by simp))

/-- A session with an entry was spawned, and not removed. -/
theorem Conn.Listed.story (h : c.Listed) : c.story = [.spawned c.pgid] := by
  obtain ⟨hstage, hgone⟩ := h
  unfold Conn.story
  rcases hstage with hstage | hstage
  · rw [hstage]
    simp [hgone]
  · rw [hstage]
    simp [hgone]

/-- A connection is refused, or has a session. -/
theorem Conn.not_spawned_of_refused {pid : ℕ} (hrefused : .refused ∈ c.story)
    (hspawned : .spawned pid ∈ c.story) : False := by
  unfold Conn.story at hrefused hspawned
  revert hrefused hspawned
  split
  · intro h
    cases h
  · intro _ h
    cases List.mem_singleton.mp h
  · intro h _
    rcases List.mem_cons.mp h with h | h
    · cases h
    · split at h
      · cases List.mem_singleton.mp h
      · cases h

theorem Phase.eq_spawned {phase : Phase} (h : phase.stage = .spawned) : phase = .spawned := by
  cases phase <;> first | rfl | cases h

theorem Phase.eq_numbered {phase : Phase} (h : phase.stage = .numbered) : phase = .numbered := by
  cases phase <;> first | rfl | cases h

/-- Such a session is listed, once it has an entry. -/
theorem Conn.listed_of_story {pid : ℕ}
    (hwaiter : c.phase.stage = .returned → c.waiter = .notStarted ∨ c.waiter = .ended)
    (hphase : c.phase ≠ .spawned ∧ c.phase ≠ .numbered) (hspawned : .spawned pid ∈ c.story)
    (hremoved : .removed ∉ c.story) : c.Listed ∧ c.pgid = pid := by
  have hlisted : ∀ {tail : List Event}, .spawned pid ∈ Event.spawned c.pgid :: tail →
      .spawned pid ∉ tail → c.pgid = pid := by
    intro tail hmem hnot
    rcases List.mem_cons.mp hmem with heq | hmem
    · exact (Event.spawned.inj heq).symm
    · exact (hnot hmem).elim
  have hgone : c.story = .spawned c.pgid :: (if c.waiter.entryGone then [.removed] else []) →
      c.waiter.entryGone = false ∧ c.pgid = pid := by
    intro hstory
    rw [hstory] at hspawned hremoved
    by_cases hgone : c.waiter.entryGone = true
    · simp [hgone] at hremoved
    · rw [if_neg hgone] at hspawned
      exact ⟨by simpa using hgone, hlisted hspawned List.not_mem_nil⟩
  cases hstage : c.phase.stage with
  | unspawned => simp [Conn.story, hstage] at hspawned
  | spawned => exact (hphase.1 (Phase.eq_spawned hstage)).elim
  | numbered => exact (hphase.2 (Phase.eq_numbered hstage)).elim
  | inserted =>
    obtain ⟨hgone, hpgid⟩ := hgone (by simp [Conn.story, hstage])
    exact ⟨⟨Or.inl hstage, hgone⟩, hpgid⟩
  | started =>
    obtain ⟨hgone, hpgid⟩ := hgone (by simp [Conn.story, hstage])
    exact ⟨⟨Or.inr hstage, hgone⟩, hpgid⟩
  | returned =>
    rcases hwaiter hstage with hnot | hended
    · simp [Conn.story, hstage, hnot] at hspawned
    · simp [Conn.story, hstage, hended, Waiter.entryGone] at hremoved

/-- What a step of a connection can do to the registry. -/
inductive Conn.Registers (c : Conn) (r : Registry) (c' : Conn) (r' : Registry) : Prop
  | keeps (registry : r' = r)
  | takes (phase : c.phase = .spawned) (registry : r' = r.takeId.2)
  | puts (info : SessionInfo) (phase : c.phase = .numbered) (stage : c'.phase.stage = .inserted)
      (waiter : c'.waiter = c.waiter) (pgid : info.pgid = c'.pgid) (id : c'.sessionId = c.sessionId)
      (registry : r' = r.put c.sessionId info)
  | removes (phase : c.phase = .inserted ∨ ∃ status, c.waiter = .reaped status)
      (registry : r' = r.remove c.sessionId)

theorem Conn.Moves.registers (h : c.Moves k sh c' sh') :
    c.Registers sh.registry c' sh'.registry := by
  cases h with
  | stays _ _ _ _ hshared => exact .keeps (congrArg Shared.registry hshared)
  | returns _ _ _ _ hshared => exact .keeps (congrArg Shared.registry hshared)
  | spawns _ _ _ hregistry _ => exact .keeps hregistry
  | numbers hphase _ _ _ _ hregistry _ => exact .takes hphase hregistry
  | inserts info hphase hstage hwaiter hpgid hid hinfo hregistry _ =>
    exact .puts info hphase hstage hwaiter (hinfo.trans hpgid.symm) hid hregistry
  | starts _ _ _ _ _ hshared => exact .keeps (congrArg Shared.registry hshared)
  | givesUp hphase _ _ _ hregistry _ => exact .removes (Or.inl hphase) hregistry
  | signals _ _ _ _ _ _ hregistry _ => exact .keeps hregistry
  | joinsPumps _ _ _ _ _ hshared => exact .keeps (congrArg Shared.registry hshared)
  | waits _ _ _ _ _ _ hregistry _ => exact .keeps hregistry
  | removes status _ hwaiter _ _ _ hregistry _ =>
    exact .removes (Or.inr ⟨status, hwaiter⟩) hregistry
  | reports _ _ _ _ _ _ hshared => exact .keeps (congrArg Shared.registry hshared)

/-- A connection whose step changes the registry has spawned a session. -/
theorem Conn.Moves.spawned (h : c.Moves k sh c' sh')
    (hfresh : c.phase.stage.early = true → c.Fresh) (hchanged : sh'.registry ≠ sh.registry) :
    ∃ pid, .spawned pid ∈ c.story := by
  cases h.registers with
  | keeps hregistry => exact (hchanged hregistry).elim
  | takes hphase => exact ⟨c.pgid, by simp [Conn.story, hphase, Phase.stage]⟩
  | puts _ hphase => exact ⟨c.pgid, by simp [Conn.story, hphase, Phase.stage]⟩
  | removes hby =>
    rcases hby with hphase | ⟨status, hwaiter⟩
    · exact ⟨c.pgid, by simp [Conn.story, hphase, Phase.stage]⟩
    · have hlate := Conn.late_of_waiter hfresh (by rw [hwaiter]; simp)
      rw [Conn.story_of_waiter hlate (by rw [hwaiter]; simp)]
      exact ⟨_, List.mem_cons_self⟩

/-- An entry after a step of a connection was there before, or is its own. -/
theorem Conn.Moves.entries (h : c.Moves k sh c' sh')
    (hfresh : c.phase.stage.early = true → c.Fresh) {id : ℕ} {info : SessionInfo}
    (hinfo : sh'.registry.Has id info) : sh.registry.Has id info ∨
      (c'.Listed ∧ id = c'.sessionId ∧ info.pgid = c'.pgid) := by
  cases h.registers with
  | keeps hregistry => exact Or.inl (hregistry ▸ hinfo)
  | takes _ hregistry =>
    rw [hregistry] at hinfo
    exact Or.inl hinfo
  | puts info' hphase hstage hwaiter hpgid hid hregistry =>
    have hgone : c'.waiter.entryGone = false := by
      rw [hwaiter, (hfresh (by rw [hphase]; rfl)).waiter]
      rfl
    rw [hregistry] at hinfo
    rcases Registry.has_put.mp hinfo with ⟨rfl, rfl⟩ | ⟨-, hold⟩
    · exact Or.inr ⟨⟨Or.inl hstage, hgone⟩, hid.symm, hpgid⟩
    · exact Or.inl hold
  | removes _ hregistry =>
    rw [hregistry] at hinfo
    exact Or.inl (Registry.has_remove.mp hinfo).2

/-- No id gets a second entry. -/
theorem Conn.Moves.keys (h : c.Moves k sh c' sh')
    (hkeys : (sh.registry.sessions.map Prod.fst).Nodup) :
    (sh'.registry.sessions.map Prod.fst).Nodup := by
  cases h.registers with
  | keeps hregistry =>
    rw [hregistry]
    exact hkeys
  | takes _ hregistry =>
    rw [hregistry]
    exact hkeys
  | puts _ _ _ _ _ _ hregistry =>
    rw [hregistry]
    exact Registry.nodup_put hkeys _ _
  | removes _ hregistry =>
    rw [hregistry]
    exact Registry.nodup_remove hkeys _

/-- The id that is taken is the last one. -/
theorem Conn.takes_eq_some {id : ℕ} (htakes : c.takes sh.registry a = some id)
    (h : c.step k sh a = some (c', sh')) :
    id = sh.registry.nextId + 1 ∧ sh'.registry.nextId = sh.registry.nextId + 1 := by
  unfold Conn.takes at htakes
  split at htakes
  · split at htakes
    · next hphase =>
      rw [Conn.step, Conn.proceed, hphase] at h
      obtain ⟨-, rfl⟩ := Prod.mk.inj (Option.some.inj h)
      exact ⟨(Option.some.inj htakes).symm, rfl⟩
    · cases htakes
  · cases htakes

/-- A listed session stays listed, or its entry is removed. -/
theorem Conn.Moves.listed (h : c.Moves k sh c' sh') (hlisted : c.Listed) :
    (c'.Listed ∧ c'.sessionId = c.sessionId ∧ c'.pgid = c.pgid) ∨
      ∀ info, ¬sh'.registry.Has c.sessionId info := by
  obtain ⟨hstages, hgone⟩ := hlisted
  have hearlier : ∀ {stage : Stage}, c.phase.stage = stage → stage ≠ .inserted → stage ≠ .started →
      False := by
    rintro _ rfl h h'
    exact hstages.elim h h'
  cases h with
  | stays hstage hwaiter hpgid hid _ =>
    exact Or.inl ⟨⟨hstage ▸ hstages, hwaiter ▸ hgone⟩, hid, hpgid⟩
  | returns hthrough hphase _ _ _ =>
    rcases hthrough with hstage | hended
    · exact (hearlier hstage (by decide) (by decide)).elim
    · rw [hended] at hgone
      cases hgone
  | spawns hphase => exact (hearlier (congrArg Phase.stage hphase) (by decide) (by decide)).elim
  | numbers hphase => exact (hearlier (congrArg Phase.stage hphase) (by decide) (by decide)).elim
  | inserts _ hphase => exact (hearlier (congrArg Phase.stage hphase) (by decide) (by decide)).elim
  | starts _ hstage hwaiter hpgid hid _ =>
    exact Or.inl ⟨⟨Or.inr hstage, by rw [hwaiter]; rfl⟩, hid, hpgid⟩
  | givesUp _ _ _ _ hregistry _ =>
    refine Or.inr fun info hinfo => ?_
    rw [hregistry] at hinfo
    exact (Registry.has_remove.mp hinfo).1 rfl
  | signals _ _ hstage' hwaiter hpgid hid _ _ =>
    exact Or.inl ⟨⟨Or.inr hstage', hwaiter ▸ hgone⟩, hid, hpgid⟩
  | joinsPumps hphase _ hwaiter' hpgid hid _ =>
    exact Or.inl ⟨⟨hphase ▸ hstages, by rw [hwaiter']; rfl⟩, hid, hpgid⟩
  | waits _ hphase _ hwaiter' hpgid hid _ _ =>
    exact Or.inl ⟨⟨hphase ▸ hstages, by rw [hwaiter']; rfl⟩, hid, hpgid⟩
  | removes _ _ _ _ _ _ hregistry _ =>
    refine Or.inr fun info hinfo => ?_
    rw [hregistry] at hinfo
    exact (Registry.has_remove.mp hinfo).1 rfl
  | reports _ _ hwaiter =>
    rw [hwaiter] at hgone
    cases hgone

end Steps

section Past

variable {k : ℕ} {past : List (KeeperState × Act)} {s : KeeperState} {a : Act}

theorem events_append (p : KeeperState × Act) : events k (past ++ [p]) =
    events k past ++ (events k [p]) := by
  rw [events, List.filterMap_append]
  rfl

theorem events_conn (b : ConnAct) : events k [(s, .conn k b)] = ((s.conns k).event b).toList := by
  cases h : (s.conns k).event b <;> simp [events, h]

/-- What others do is no event of a connection. -/
theorem events_other (h : ∀ b, a ≠ .conn k b) : events k [(s, a)] = [] := by
  refine List.filterMap_eq_nil_iff.mpr fun p hp => ?_
  obtain rfl := List.mem_singleton.mp hp
  dsimp only
  split
  · next k' b =>
    refine if_neg fun hk => ?_
    subst hk
    exact h b rfl
  · rfl

theorem takenIds_append (p : KeeperState × Act) :
    takenIds (past ++ [p]) = takenIds past ++ (taken p).toList := by
  cases h : taken p <;> simp [takenIds, h]

/-- Where no id is taken. -/
theorem takenIds_of_none (past : List (KeeperState × Act)) {p : KeeperState × Act}
    (h : taken p = none) : takenIds (past ++ [p]) = takenIds past := by
  rw [takenIds_append, h, Option.toList_none, List.append_nil]

/-- Where one is. -/
theorem takenIds_of_some (past : List (KeeperState × Act)) {p : KeeperState × Act}
    {x : Option ℕ × ℕ} (h : taken p = some x) : takenIds (past ++ [p]) = takenIds past ++ [x] := by
  rw [takenIds_append, h, Option.toList_some]

end Past

/-- What is known of the registry and the past. -/
structure Kept (env : KeeperEnv) (past : List (KeeperState × Act)) (s : KeeperState) : Prop where
  fresh : ∀ k, (s.conns k).phase.stage.early = true → (s.conns k).Fresh
  story : ∀ k, events k past = (s.conns k).story
  owned : ∀ k id, (some k, id) ∈ takenIds past ↔ id ∈ (s.conns k).ids
  below : ∀ x ∈ takenIds past, x.2 ≤ s.shared.registry.nextId
  ids : ((takenIds past).map Prod.snd).Pairwise (· < ·)
  keys : (s.shared.registry.sessions.map Prod.fst).Nodup
  entries : ∀ id info, s.shared.registry.Has id info → (none, id) ∈ takenIds past ∨
    ∃ k, (s.conns k).Listed ∧ id = (s.conns k).sessionId ∧ info.pgid = (s.conns k).pgid
  numbered : ∀ pgid id, s.main = .servicesNumbered pgid id → (none, id) ∈ takenIds past
  changes : ∀ k, ∀ p ∈ past, ∀ a next, p.2 = .conn k a → p.1.step env p.2 = some next →
    next.shared.registry = p.1.shared.registry ∨ ∃ pid, .spawned pid ∈ events k past

/-- At the start there is nothing. -/
theorem kept_start {env : KeeperEnv} : Kept env [] .start where
  fresh _ _ := ⟨rfl, rfl, rfl, fun _ => rfl⟩
  story _ := rfl
  owned _ id := iff_of_false List.not_mem_nil List.not_mem_nil
  below _ h := by cases h
  ids := List.Pairwise.nil
  keys := List.nodup_nil
  entries _ _ h := by cases h
  numbered _ _ h := by cases h
  changes _ _ h := by cases h

section Runs

variable {env : KeeperEnv} {past : List (KeeperState × Act)} {s next : KeeperState} {a : Act}

/-- Another id is above all that were taken before. -/
theorem Kept.ids_append (hkept : Kept env past s) (owner : Option ℕ) :
    ((takenIds past ++ [(owner, s.shared.registry.nextId + 1)]).map Prod.snd).Pairwise (· < ·) := by
  rw [List.map_append, List.pairwise_append]
  refine ⟨hkept.ids, List.pairwise_singleton _ _, fun id hid id' hid' => ?_⟩
  obtain ⟨x, hx, rfl⟩ := List.mem_map.mp hid
  obtain rfl := List.mem_singleton.mp hid'
  have hle := hkept.below x hx
  dsimp only
  omega

/-- A step of a connection takes the next id for it. -/
theorem taken_conn {k : ℕ} {b : ConnAct} {x : Option ℕ × ℕ} {c' : Conn} {sh' : Shared}
    (hx : taken (s, .conn k b) = some x)
    (hstep : (s.conns k).step k s.shared b = some (c', sh')) :
    x = (some k, s.shared.registry.nextId + 1) ∧
      sh'.registry.nextId = s.shared.registry.nextId + 1 := by
  obtain ⟨id, htakes, rfl⟩ := Option.map_eq_some_iff.mp hx
  obtain ⟨rfl, hlast⟩ := Conn.takes_eq_some htakes hstep
  exact ⟨rfl, hlast⟩

/-- The entries after a step of a connection. -/
theorem Kept.conn_entries (hkept : Kept env past s) {k : ℕ}
    (hmoves : (s.conns k).Moves k s.shared (next.conns k) next.shared)
    (hother : ∀ k', k' ≠ k → next.conns k' = s.conns k') {id : ℕ} {info : SessionInfo}
    (hinfo : next.shared.registry.Has id info) : (none, id) ∈ takenIds past ∨
      ∃ k, (next.conns k).Listed ∧ id = (next.conns k).sessionId ∧
        info.pgid = (next.conns k).pgid := by
  rcases hmoves.entries (hkept.fresh k) hinfo with hold | hown
  · rcases hkept.entries id info hold with hservices | ⟨k', hlisted, hid, hpgid⟩
    · exact Or.inl hservices
    · right
      by_cases hk : k' = k
      · subst hk
        rcases hmoves.listed hlisted with ⟨hlisted', hid', hpgid'⟩ | hgone
        · exact ⟨k', hlisted', hid.trans hid'.symm, hpgid.trans hpgid'.symm⟩
        · exact (hgone info (hid ▸ hinfo)).elim
      · refine ⟨k', ?_⟩
        rw [hother k' hk]
        exact ⟨hlisted, hid, hpgid⟩
  · exact Or.inr ⟨k, hown⟩

/-- A connection that has changed the registry before has spawned a session. -/
theorem Kept.changes_later (hkept : Kept env past s) {k : ℕ} {p : KeeperState × Act} (hp : p ∈ past)
    {a' : Act} {b : ConnAct} {next' : KeeperState} (hb : p.2 = .conn k b)
    (hnext : p.1.step env p.2 = some next') : next'.shared.registry = p.1.shared.registry ∨
      ∃ pid, .spawned pid ∈ events k (past ++ [(s, a')]) := by
  refine (hkept.changes k p hp b next' hb hnext).imp_right ?_
  rintro ⟨pid, hspawned⟩
  rw [events_append]
  exact ⟨pid, List.mem_append_left _ hspawned⟩

/-- A step of a connection. -/
theorem Kept.conn (hkept : Kept env past s) (hs : Consistent s) {k : ℕ} {b : ConnAct}
    (h : s.step env (.conn k b) = some next) (hmain : next.main = .serving)
    (hstep : (s.conns k).step k s.shared b = some (next.conns k, next.shared))
    (hother : ∀ k', k' ≠ k → next.conns k' = s.conns k') :
    Kept env (past ++ [(s, .conn k b)]) next where
  fresh k' hearly := by
    by_cases hk : k' = k
    · subst hk
      exact Conn.fresh_step (hkept.fresh k') hstep hearly
    · rw [hother k' hk] at hearly ⊢
      exact hkept.fresh k' hearly
  story k' := by
    rw [events_append, hkept.story]
    by_cases hk : k' = k
    · subst hk
      rw [events_conn]
      exact (Conn.story_step (hkept.fresh k') hstep).symm
    · rw [events_other (by simp [Ne.symm hk]), List.append_nil, hother k' hk]
  owned k' id := by
    rw [takenIds_append, List.mem_append, hkept.owned]
    by_cases hk : k' = k
    · subst hk
      rw [Conn.ids_step (hkept.fresh k') hstep, List.mem_append]
      simp [taken]
    · rw [hother k' hk]
      simp [taken, Ne.symm hk]
  below x hx := by
    have hnext := ((hs.conns k).others (Conn.step_moves hstep)).2.1
    rw [takenIds_append] at hx
    rcases List.mem_append.mp hx with hx | hx
    · exact (hkept.below x hx).trans hnext
    · obtain ⟨rfl, hlast⟩ := taken_conn (Option.mem_toList.mp hx) hstep
      exact hlast.ge
  ids := by
    cases htaken : taken (s, .conn k b) with
    | none =>
      rw [takenIds_of_none past htaken]
      exact hkept.ids
    | some x =>
      obtain ⟨rfl, -⟩ := taken_conn htaken hstep
      rw [takenIds_of_some past htaken]
      exact hkept.ids_append (some k)
  keys := (Conn.step_moves hstep).keys hkept.keys
  entries id info hinfo := by
    rw [takenIds_append]
    have hentries := hkept.conn_entries (Conn.step_moves hstep) hother hinfo
    exact hentries.imp_left (List.mem_append_left _)
  numbered _ _ hnumbered := by cases hnumbered.symm.trans hmain
  changes k' p hp a next' ha hnext := by
    rcases List.mem_append.mp hp with hp | hp
    · exact hkept.changes_later hp ha hnext
    · obtain rfl := List.mem_singleton.mp hp
      obtain ⟨rfl, rfl⟩ := Act.conn.inj ha
      obtain rfl := Option.some.inj (h.symm.trans hnext)
      by_cases hchanged : next.shared.registry = s.shared.registry
      · exact Or.inl hchanged
      · obtain ⟨pid, hspawned⟩ := (Conn.step_moves hstep).spawned (hkept.fresh k) hchanged
        rw [← hkept.story] at hspawned
        exact Or.inr ⟨pid, by rw [events_append]; exact List.mem_append_left _ hspawned⟩

/-- A step that is not one of a connection, from what it does to the registry. -/
theorem Kept.other (hkept : Kept env past s) (ha : ∀ k b, a ≠ .conn k b)
    (hconns : next.conns = s.conns)
    (hbelow : ∀ x ∈ takenIds (past ++ [(s, a)]), x.2 ≤ next.shared.registry.nextId)
    (hids : ((takenIds (past ++ [(s, a)])).map Prod.snd).Pairwise (· < ·))
    (howner : ∀ x, taken (s, a) = some x → x.1 = none)
    (hkeys : (next.shared.registry.sessions.map Prod.fst).Nodup)
    (hentries : ∀ id info, next.shared.registry.Has id info → s.shared.registry.Has id info ∨
      (none, id) ∈ takenIds past)
    (hnumbered : ∀ pgid id, next.main = .servicesNumbered pgid id →
      (none, id) ∈ takenIds (past ++ [(s, a)])) : Kept env (past ++ [(s, a)]) next where
  fresh := by
    rw [hconns]
    exact hkept.fresh
  story k := by
    rw [events_append, events_other (ha k), List.append_nil, hconns]
    exact hkept.story k
  owned k id := by
    rw [takenIds_append, List.mem_append, hconns, ← hkept.owned k id]
    refine or_iff_left fun hmem => ?_
    cases howner _ (Option.mem_toList.mp hmem)
  below := hbelow
  ids := hids
  keys := hkeys
  entries id info hinfo := by
    rw [takenIds_append]
    rcases hentries id info hinfo with hold | hservices
    · rw [hconns]
      exact (hkept.entries id info hold).imp_left (List.mem_append_left _)
    · exact Or.inl (List.mem_append_left _ hservices)
  numbered := hnumbered
  changes k p hp b next' hb hnext := by
    rcases List.mem_append.mp hp with hp | hp
    · exact hkept.changes_later hp hb hnext
    · obtain rfl := List.mem_singleton.mp hp
      exact (ha k b hb).elim

/-- A step that takes no id. -/
theorem Kept.untaken (hkept : Kept env past s) (ha : ∀ k b, a ≠ .conn k b)
    (hconns : next.conns = s.conns) (htaken : taken (s, a) = none)
    (hnext : next.shared.registry.nextId = s.shared.registry.nextId)
    (hkeys : (next.shared.registry.sessions.map Prod.fst).Nodup)
    (hentries : ∀ id info, next.shared.registry.Has id info → s.shared.registry.Has id info ∨
      (none, id) ∈ takenIds past)
    (hnumbered : ∀ pgid id, next.main = .servicesNumbered pgid id →
      s.main = .servicesNumbered pgid id) : Kept env (past ++ [(s, a)]) next := by
  have hsame := takenIds_of_none past htaken
  refine hkept.other ha hconns ?_ ?_ ?_ hkeys hentries ?_
  · rw [hsame, hnext]
    exact hkept.below
  · rw [hsame]
    exact hkept.ids
  · intro x hx
    rw [htaken] at hx
    cases hx
  · intro pgid id hmain
    rw [hsame]
    exact hkept.numbered pgid id (hnumbered pgid id hmain)

/-- A step that leaves the registry alone. -/
theorem Kept.quiet (hkept : Kept env past s) (ha : ∀ k b, a ≠ .conn k b)
    (hconns : next.conns = s.conns) (hregistry : next.shared.registry = s.shared.registry)
    (htaken : taken (s, a) = none)
    (hmain : ∀ pgid id, next.main = .servicesNumbered pgid id →
      s.main = .servicesNumbered pgid id) : Kept env (past ++ [(s, a)]) next := by
  refine hkept.untaken ha hconns htaken (by rw [hregistry]) ?_ ?_ hmain
  · rw [hregistry]
    exact hkept.keys
  · intro id info hinfo
    exact Or.inl (hregistry ▸ hinfo)

/-- A step of `keeper_main`. -/
theorem Kept.main (hkept : Kept env past s) {b : MainAct} (h : MainStep env s b next) :
    Kept env (past ++ [(s, .main b)]) next := by
  cases h with
  | serve hmain => exact hkept.quiet (by simp) rfl rfl rfl (by simp)
  | spawn hmain => exact hkept.quiet (by simp) rfl rfl rfl (by simp)
  | @number now pgid hmain =>
    have htaken : taken (s, .main (.proceed now)) =
        some (none, s.shared.registry.nextId + 1) := by
      simp [taken, hmain]
    have hids := takenIds_of_some past htaken
    refine hkept.other (by simp) rfl ?_ ?_ ?_ hkept.keys (fun _ _ => Or.inl) ?_
    · rw [hids]
      intro x hx
      rcases List.mem_append.mp hx with hx | hx
      · exact (hkept.below x hx).trans (Nat.le_succ _)
      · obtain rfl := List.mem_singleton.mp hx
        exact le_rfl
    · rw [hids]
      exact hkept.ids_append none
    · intro x hx
      rw [htaken] at hx
      obtain rfl := Option.some.inj hx
      rfl
    · rintro pgid' id ⟨⟩
      rw [hids]
      exact List.mem_append_right _ List.mem_cons_self
  | @record now pgid id hmain =>
    have htaken : taken (s, .main (.proceed now)) = none := by simp [taken, hmain]
    refine hkept.untaken (by simp) rfl htaken rfl (Registry.nodup_put hkept.keys _ _) ?_ (by simp)
    intro id' info hinfo
    rcases Registry.has_put.mp hinfo with ⟨rfl, -⟩ | ⟨-, hold⟩
    · exact Or.inr (hkept.numbered pgid _ hmain)
    · exact Or.inl hold
  | exit hmain => exact hkept.quiet (by simp) rfl rfl rfl fun _ _ => id

/-- Every step keeps what is known. -/
theorem Kept.step (hkept : Kept env past s) (hs : Consistent s) (h : s.step env a = some next) :
    Kept env (past ++ [(s, a)]) next := by
  cases KeeperState.step_cases h with
  | @conn k b c shared _ hmain hstep =>
    refine hkept.conn hs h hmain ?_ fun k' hk => insertAt_of_ne hk
    dsimp only
    rw [insertAt_self]
    exact hstep
  | ssh => exact hkept.quiet (by simp) rfl rfl rfl fun _ _ => id
  | child => exact hkept.quiet (by simp) rfl rfl rfl fun _ _ => id
  | main _ hstep => exact hkept.main hstep
  | handler _ hstep =>
    cases hstep with
    | signal | ask | collect | terminate | pause | recollect | kill | exit =>
      exact hkept.quiet (by simp) rfl rfl rfl fun _ _ => id

/-- An id was taken for one owner. -/
theorem Kept.owner_unique (hkept : Kept env past s) {owner owner' : Option ℕ} {id : ℕ}
    (h : (owner, id) ∈ takenIds past) (h' : (owner', id) ∈ takenIds past) : owner = owner' := by
  have hnodup : ((takenIds past).map Prod.snd).Nodup := hkept.ids.imp Nat.ne_of_lt
  exact congrArg Prod.fst (List.inj_on_of_nodup_map hnodup h h' rfl)

/-- The id of a listed session. -/
theorem Kept.listed (hkept : Kept env past s) {k : ℕ} (h : (s.conns k).Listed) :
    (some k, (s.conns k).sessionId) ∈ takenIds past := by
  rw [hkept.owned, Conn.ids]
  rcases h.1 with hstage | hstage <;> rw [hstage] <;> exact List.mem_cons_self

/-- What is known makes the registry exact. -/
theorem Kept.exact (hkept : Kept env past s) (hs : Consistent s) : RegistryExact env past s where
  ids := hkept.ids
  keys := hkept.keys
  entries id info hinfo := by
    rcases hkept.entries id info hinfo with hservices | ⟨k, hlisted, rfl, hpgid⟩
    · exact ⟨none, hservices, fun k hk => by cases hk⟩
    · refine ⟨some k, hkept.listed hlisted, ?_⟩
      rintro _ ⟨⟩
      rw [hkept.story, hlisted.story, hpgid]
      simp
  sessions hsettled k pid hspawned hremoved := by
    have hbooked := hs.conns k
    rw [hkept.story] at hspawned hremoved
    have hwaiter : (s.conns k).phase.stage = .returned →
        (s.conns k).waiter = .notStarted ∨ (s.conns k).waiter = .ended := by
      intro hstage
      rcases hbooked.waiter with h | h | h
      · cases h.symm.trans hstage
      · exact Or.inl h
      · exact Or.inr h.2
    obtain ⟨hlisted, hpgid⟩ := Conn.listed_of_story hwaiter (hsettled k) hspawned hremoved
    obtain ⟨info, hinfo, heq⟩ := hbooked.entry (hlisted.1.imp_right fun h => ⟨h, hlisted.2⟩)
    exact ⟨_, info, hkept.listed hlisted, hinfo, heq.trans hpgid⟩
  refused k hrefused p hp b next hb hnext := by
    rcases hkept.changes k p hp b next hb hnext with hsame | ⟨pid, hspawned⟩
    · exact hsame
    · rw [hkept.story] at hrefused hspawned
      exact (Conn.not_spawned_of_refused hrefused hspawned).elim
  returned k id htaken hphase info hinfo := by
    rcases hkept.entries id info hinfo with hservices | ⟨k', hlisted, rfl, -⟩
    · cases hkept.owner_unique htaken hservices
    · obtain rfl := Option.some.inj (hkept.owner_unique htaken (hkept.listed hlisted))
      have hstages := hlisted.1
      rw [hphase] at hstages
      rcases hstages with h | h <;> cases h

end Runs

/-- However the connections are interleaved, the registry is exact. -/
theorem registry_exact (env : KeeperEnv) (acts : List Act) :
    RegistryExact env (steps (KeeperState.step env) acts .start)
      (exec (KeeperState.step env) acts .start) := by
  have hstep : ∀ past s a next, Consistent s ∧ Kept env past s → True →
      KeeperState.step env s a = some next → Consistent next ∧ Kept env (past ++ [(s, a)]) next :=
    fun past s a next hJ _ h => ⟨hJ.1.step h, hJ.2.step hJ.1 h⟩
  have hguarded : Guarded (fun _ _ => True) (steps (KeeperState.step env) acts .start) :=
    fun _ _ => trivial
  obtain ⟨hs, hkept⟩ := history hstep ⟨consistent_start, kept_start⟩ hguarded
  exact hkept.exact hs

end Devcroft.Keeper
