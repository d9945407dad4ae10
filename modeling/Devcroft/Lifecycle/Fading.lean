import Devcroft.Lifecycle.Terminate

/-!
# What survives between operations

Between two operations, and in those that only look or send signals, processes of the
sandbox can only disappear, and its files stay as they are. The parts of the commands
are listed by the operations that they ask for.
-/

namespace Devcroft.Lifecycle

open Program

/-- `h'` comes from `h` without a new process of the sandbox and without a change of its files. -/
structure Fades (h h' : Host) : Prop where
  procs : ∀ pid p, h'.procs pid = some p →
    h.procs pid = some p ∨ (p.kind = .foreign ∧ h.clock < p.start)
  clock : h.clock ≤ h'.clock
  pidfile : h'.pidfile = h.pidfile
  metaFile : h'.metaFile = h.metaFile
  procfs : h'.procfs = h.procfs

theorem Fades.refl (h : Host) : Fades h h :=
  ⟨fun _ _ hp => Or.inl hp, le_refl _, rfl, rfl, rfl⟩

theorem Fades.trans {h h' h'' : Host} (h₁ : Fades h h') (h₂ : Fades h' h'') : Fades h h'' where
  procs := by
    intro pid p hp
    rcases h₂.procs pid p hp with hp | ⟨hforeign, hstart⟩
    · exact h₁.procs pid p hp
    · exact Or.inr ⟨hforeign, lt_of_le_of_lt h₁.clock hstart⟩
  clock := h₁.clock.trans h₂.clock
  pidfile := h₂.pidfile.trans h₁.pidfile
  metaFile := h₂.metaFile.trans h₁.metaFile
  procfs := h₂.procfs.trans h₁.procfs

/-- A process of the sandbox was there before. -/
theorem Fades.procs_of_role {h h' : Host} (hf : Fades h h') {pid : ℕ} {p : Proc} {r : Role}
    (hp : h'.procs pid = some p) (hr : p.kind.role = some r) : h.procs pid = some p := by
  rcases hf.procs pid p hp with hp | ⟨hforeign, -⟩
  · exact hp
  · rw [hforeign] at hr
    cases hr

theorem Fades.startOf {h h' : Host} (hf : Fades h h') (p : Proc) : h'.startOf p = h.startOf p := by
  unfold Host.startOf
  rw [hf.procfs]

theorem fades_died (h : Host) (pid : ℕ) : Fades h (h.died pid) where
  procs := by
    intro q p hp
    unfold Host.died at hp
    dsimp only at hp
    split at hp
    · cases hp
    · exact Or.inl hp
  clock := le_refl _
  pidfile := rfl
  metaFile := rfl
  procfs := rfl

theorem fades_born_foreign (h : Host) (pid : ℕ) : Fades h (h.born pid .foreign) where
  procs := by
    intro q p hp
    unfold Host.born at hp
    dsimp only at hp
    split at hp
    · obtain rfl := Option.some.inj hp
      exact Or.inr ⟨rfl, Nat.lt_succ_self _⟩
    · exact Or.inl hp
  clock := Nat.le_succ _
  pidfile := rfl
  metaFile := rfl
  procfs := rfl

theorem fades_after (h : Host) (e : Event) : Fades h (h.after e) := by
  cases e with
  | death pid => exact fades_died h pid
  | birth pid =>
    unfold Host.after
    dsimp only
    split
    · exact fades_born_foreign h pid
    · exact Fades.refl h

/-- Whatever happens before an operation. -/
theorem fades_surroundings (t : Moment) (h : Host) : Fades h (machine.surroundings t h) := by
  show Fades h (t.events.foldl Host.after h)
  generalize t.events = events
  induction events generalizing h with
  | nil => exact Fades.refl h
  | cons e rest ih => exact (fades_after h e).trans (ih _)

/-- The operations that only look, or send signals. -/
def Op.Quiet : Op → Prop
  | .removeFile f => f ≠ .metaFile ∧ ∀ r, f ≠ .pidfile r
  | .removeRoot => False
  | .spawnProxy _ => False
  | .spawnKeeper _ => False
  | .writeRecord _ _ _ => False
  | .writeMeta _ => False
  | _ => True

/-- What starting a process comes to. -/
theorem spawn_cases {α : Type} (h : Host) (t : Moment) (kind : Kind) (a : α) :
    (∃ e, h.spawn t kind a = (.error e, h) ∧ ¬(h.procs t.pid = none ∧ t.fails = none)) ∨
      (h.spawn t kind a = (.ok a, h.born t.pid kind) ∧ h.procs t.pid = none ∧ t.fails = none) := by
  unfold Host.spawn
  split
  · next hused => exact Or.inl ⟨_, rfl, by simp [hused]⟩
  · next hfree =>
    split
    · next hfails => exact Or.inl ⟨_, rfl, by simp [hfails]⟩
    · next hfails => exact Or.inr ⟨rfl, hfree, hfails⟩

/-- All that an operation does to the host that it finds. -/
inductive Acts (t : Moment) (h : Host) : Op → Host → Prop
  | stays (o : Op) : Acts t h o h
  | ends (pid : ℕ) (signal : Signal) : Acts t h (.kill pid signal) (h.died pid)
  | removes (f : StateFile) : Acts t h (.removeFile f) (h.remove f)
  | drops : Acts t h .removeRoot (t.drops.foldl Host.remove h)
  | clears : Acts t h .removeRoot { h with pidfile := fun _ => none, metaFile := none }
  | startsProxy (allow : List String) (hfree : h.procs t.pid = none) :
      Acts t h (.spawnProxy allow) (h.born t.pid (.proxy t.port t.token allow))
  | startsKeeper (launch : Launch) (hfree : h.procs t.pid = none) :
      Acts t h (.spawnKeeper launch) (h.born t.pid (.keeper launch))
  | records (r : Role) (pid start : ℕ) (entry : Option (ℕ × ℕ)) :
      Acts t h (.writeRecord r pid start) (h.record r entry)
  | writes (m : Meta) : Acts t h (.writeMeta m) { h with metaFile := some m }

theorem acts (o : Op) (t : Moment) (h : Host) : Acts t h o (h.act o t).2 := by
  cases o with
  | kill pid signal =>
    cases signal with
    | term =>
      simp only [Host.act]
      split
      · exact .ends pid .term
      · exact .stays _
    | kill => exact .ends pid .kill
  | removeFile f =>
    simp only [Host.act]
    split
    · exact .stays _
    · exact .removes f
  | removeRoot =>
    simp only [Host.act]
    split
    · exact .drops
    · exact .clears
  | spawnProxy allow =>
    simp only [Host.act]
    rcases spawn_cases h t (.proxy t.port t.token allow) (t.pid, t.port, t.token)
      with ⟨e, he, -⟩ | ⟨he, hfree, -⟩
    · rw [he]
      exact .stays _
    · rw [he]
      exact .startsProxy allow hfree
  | spawnKeeper launch =>
    simp only [Host.act]
    rcases spawn_cases h t (.keeper launch) t.pid with ⟨e, he, -⟩ | ⟨he, hfree, -⟩
    · rw [he]
      exact .stays _
    · rw [he]
      exact .startsKeeper launch hfree
  | writeRecord r pid start =>
    simp only [Host.act]
    split
    · split
      · exact .records r pid start none
      · exact .stays _
    · exact .records r pid start _
  | writeMeta m =>
    simp only [Host.act]
    split
    · exact .stays _
    · exact .writes m
  | _ => exact .stays _

/-- What such an operation does itself. -/
theorem fades_act {o : Op} (ho : o.Quiet) (t : Moment) (h : Host) : Fades h (h.act o t).2 := by
  have hacts := acts o t h
  generalize (h.act o t).2 = h' at hacts ⊢
  cases hacts with
  | stays => exact Fades.refl h
  | ends pid signal => exact fades_died h pid
  | removes f =>
    cases f with
    | pidfile r => exact (ho.2 r rfl).elim
    | metaFile => exact (ho.1 rfl).elim
    | socket => exact Fades.refl h
    | sshSocket => exact Fades.refl h
    | proxySocket => exact Fades.refl h
  | drops => exact ho.elim
  | clears => exact ho.elim
  | startsProxy allow hfree => exact ho.elim
  | startsKeeper launch hfree => exact ho.elim
  | records r pid start entry => exact ho.elim
  | writes m => exact ho.elim

/-- What a step with such an operation does. -/
theorem fades_next {o : Op} (ho : o.Quiet) (c : Config machine) (t : Moment) :
    Fades c.state (c.next o t).state :=
  (fades_surroundings t c.state).trans (fades_act ho t _)

/-- What a step finds before its operation. -/
theorem fades_before (c : Config machine) (o : Op) (t : Moment) :
    Fades c.state (c.step o t).before := fades_surroundings t c.state

/-- A program of such operations. -/
theorem wp_fades {G : Guard machine} {α : Type} {p : Cmd α} (hp : Only Op.Quiet p)
    (c : Config machine) : wp G (fun _ c' => Fades c.state c'.state)
      (fun _ c' => Fades c.state c'.state) p c :=
  wp_of_only hp (fun _ c' t ho hf _ => hf.trans (fades_next ho c' t)) (Fades.refl _)

theorem procs_remove (h : Host) (f : StateFile) : (h.remove f).procs = h.procs := by
  cases f <;> rfl

/-- Removing files leaves the processes alone. -/
theorem procs_foldl_remove (drops : List StateFile) (h : Host) :
    (drops.foldl Host.remove h).procs = h.procs := by
  induction drops generalizing h with
  | nil => rfl
  | cons f rest ih => exact (ih _).trans (procs_remove h f)

section Parts

variable {S : Op → Prop}

theorem only_attempt {a : Attempt} (wrap : String → UpError) (h : S (.attempt a)) :
    Only S (attempt a wrap) :=
  only_bind (only_perform h) fun _ => only_orFail _ _

theorem only_readPidfile {r : Role} (h : S (.readPidfile r)) : Only S (readPidfile r) :=
  only_bind (only_perform h) fun _ => only_orFail _ _

theorem only_clearRuntimeState (h : ∀ f, S (.removeFile f)) : Only S clearRuntimeState :=
  only_bind (only_perform (h _)) fun _ => only_bind (only_perform (h _)) fun _ =>
    only_bind (only_perform (h _)) fun _ => only_bind (only_perform (h _)) fun _ =>
      only_perform (h _)

theorem only_isSameProcess {pid start : ℕ} (h : S (.processStartTime pid))
    (h' : S (.isProcessAlive pid)) : Only S (isSameProcess pid start) := by
  unfold isSameProcess
  split
  · exact only_perform h'
  · refine only_bind (only_perform h) fun found => ?_
    cases found <;> exact only_pure _

theorem only_health (henter : S (.enter .health)) (hread : S (.readPidfile .keeper))
    (hstart : ∀ pid, S (.processStartTime pid)) (halive : ∀ pid, S (.isProcessAlive pid))
    (hconnect : S .connect) : Only S health := by
  refine only_bind (only_perform henter) fun _ => ?_
  refine only_bind (only_readPidfile hread) fun found => ?_
  split
  · exact only_pure _
  · refine only_bind (only_isSameProcess (hstart _) (halive _)) fun same => ?_
    split
    · refine only_bind (only_perform hconnect) fun answer => ?_
      split <;> exact only_pure _
    · exact only_pure _

end Parts

/-- The operations that look for a recorded process and signal it. -/
def Op.Watching : Op → Prop
  | .enter place => ∃ r, place = .terminateAndWait r
  | .readPidfile _ => True
  | .processStartTime _ => True
  | .isProcessAlive _ => True
  | .kill _ _ => True
  | .deadlinePassed => True
  | _ => False

theorem Op.Watching.quiet {o : Op} (ho : o.Watching) : o.Quiet := by
  cases o <;> trivial

theorem watching_pollUntilGone (pid start : ℕ) : ∀ rounds,
    Only Op.Watching (pollUntilGone pid start rounds) := by
  intro rounds
  induction rounds with
  | zero => exact only_pure _
  | succ rounds ih =>
    refine only_bind (only_perform trivial) fun passed => ?_
    split
    · exact only_pure _
    · refine only_bind (only_isSameProcess trivial trivial) fun same => ?_
      split
      · exact ih
      · exact only_pure _

theorem watching_terminateAndWait (r : Role) : Only Op.Watching (terminateAndWait r) := by
  refine only_bind (only_perform ⟨r, rfl⟩) fun _ => only_bind (only_perform trivial) fun found => ?_
  split
  · refine only_bind (only_isSameProcess trivial trivial) fun same => ?_
    split
    · refine only_bind (only_perform trivial) fun _ =>
        only_bind (watching_pollUntilGone _ _ _) fun gone => ?_
      split
      · exact only_pure _
      · refine only_bind (only_isSameProcess trivial trivial) fun same => ?_
        split
        · exact only_perform trivial
        · exact only_pure _
    · exact only_pure _
  · exact only_pure _

theorem quiet_terminateAndWait (r : Role) : Only Op.Quiet (terminateAndWait r) :=
  (watching_terminateAndWait r).mono fun _ => Op.Watching.quiet

theorem quiet_health : Only Op.Quiet health :=
  only_health trivial trivial (fun _ => trivial) (fun _ => trivial) trivial

/-- The operations of `up` around the start of the keeper that touch no process, pidfile or
`meta.json`. -/
def Op.Plain : Op → Prop
  | .attempt _ => True
  | .removeFile f => f = .socket ∨ f = .sshSocket
  | .probeNetns => True
  | _ => False

theorem Op.Plain.quiet {o : Op} (ho : o.Plain) : o.Quiet := by
  cases o with
  | removeFile f =>
    rcases ho with rfl | rfl
    · exact ⟨by simp, by simp⟩
    · exact ⟨by simp, by simp⟩
  | attempt a => trivial
  | probeNetns => trivial
  | _ => exact ho.elim

theorem plain_attempt (a : Attempt) (wrap : String → UpError) :
    Only Op.Plain (attempt a wrap) := only_attempt wrap trivial

/-- The steps that can fail before the start of the keeper, in the state directory and the project.
-/
def Attempt.Prepares : Attempt → Prop
  | .createRoot => False
  | .waitUntilResponsive => False
  | .hook _ _ => False
  | _ => True

/-- The plain operations before the start of the keeper: no script of the project runs yet. -/
def Op.Preparing : Op → Prop
  | .attempt a => a.Prepares
  | .removeFile f => f = .socket ∨ f = .sshSocket
  | _ => False

theorem Op.Preparing.plain {o : Op} (ho : o.Preparing) : o.Plain := by
  cases o with
  | attempt a => trivial
  | removeFile f => exact ho
  | _ => exact ho.elim

theorem preparing_attempt {a : Attempt} (wrap : String → UpError) (ha : a.Prepares) :
    Only Op.Preparing (attempt a wrap) := only_attempt wrap ha

theorem preparing_prepareServices (input : UpInput) (resolution : Resolution) :
    Only Op.Preparing (prepareServices input resolution) := by
  refine only_bind (only_orFail _ _) fun _ => ?_
  split
  · exact only_pure _
  · refine only_bind (only_orFail _ _) fun _ => ?_
    refine only_bind (preparing_attempt _ trivial) fun _ => ?_
    exact only_bind (preparing_attempt _ trivial) fun _ => only_pure _

theorem preparing_prepareKeeper (input : UpInput) (resolution : Resolution)
    (compiled : Policy.CompiledPolicy) :
    Only Op.Preparing (prepareKeeper input resolution compiled) := by
  have hdir : Only Op.Preparing (createSocketDir input resolution) := by
    unfold createSocketDir
    split
    · exact only_pure _
    · exact preparing_attempt _ trivial
  have hremove : ∀ f, f = .socket ∨ f = .sshSocket →
      Only Op.Preparing (perform (Op.removeFile f) : Cmd Unit) :=
    fun f hf => only_perform hf
  refine only_bind hdir fun _ => only_bind (only_orFail _ _) fun _ => ?_
  refine only_bind (preparing_attempt _ trivial) fun _ => ?_
  refine only_bind (hremove _ (Or.inl rfl)) fun _ => ?_
  refine only_bind (preparing_attempt _ trivial) fun _ => ?_
  refine only_bind (hremove _ (Or.inr rfl)) fun _ => ?_
  refine only_bind (preparing_attempt _ trivial) fun _ => ?_
  refine only_bind (preparing_attempt _ trivial) fun _ => ?_
  refine only_bind (preparing_attempt _ trivial) fun _ => ?_
  exact preparing_prepareServices input resolution

theorem plain_prepareKeeper (input : UpInput) (resolution : Resolution)
    (compiled : Policy.CompiledPolicy) :
    Only Op.Plain (prepareKeeper input resolution compiled) :=
  (preparing_prepareKeeper input resolution compiled).mono fun _ => Op.Preparing.plain

theorem plain_isolateNetwork (compiled : Policy.CompiledPolicy) (services : Bool)
    (proxy : Option (UInt16 × String)) :
    Only Op.Plain (isolateNetwork compiled services proxy) := by
  unfold isolateNetwork
  split
  · exact only_perform trivial
  · exact only_pure _

theorem plain_runHook (name : String) (command : Option String) :
    Only Op.Plain (runHook name command) := by
  cases command with
  | none => exact only_pure _
  | some command => exact plain_attempt _ _

theorem plain_runHooks (input : UpInput) (outcome : UpOutcome) (resolution : Resolution) :
    Only Op.Plain (runHooks input outcome resolution) := by
  refine only_bind (plain_attempt _ _) fun _ => ?_
  split
  · exact only_pure _
  · exact only_bind (plain_runHook _ _) fun _ => only_bind (plain_runHook _ _) fun _ =>
      plain_runHook _ _

/-- A program of plain operations. -/
theorem wp_plain {G : Guard machine} {α : Type} {p : Cmd α} (hp : Only Op.Plain p)
    (c : Config machine) : wp G (fun _ c' => Fades c.state c'.state)
      (fun _ c' => Fades c.state c'.state) p c :=
  wp_fades (hp.mono fun _ => Op.Plain.quiet) c

end Devcroft.Lifecycle
