import Devcroft.Library.Counting
import Devcroft.Lifecycle.Orphans

/-!
# Running `post_create` once

`post_create` is meant to run once in the life of a sandbox. Whether it already has is
not recorded: an `up` runs it if it finds no pidfile of the keeper. The commands run
here on a host that can reboot between them, and can be killed at any of their steps.
-/

namespace Devcroft.Lifecycle

open Program

/-- The operations that neither run a script of the project nor wait for the keeper, that leave
alone what tells whether it is there, and that begin no part of an `up` of which such things depend.
-/
def Op.Aside : Op → Prop
  | .enter place => place ≠ .command ∧ place ≠ .health ∧ place ≠ .staleRecovery
  | .connect => False
  | .attempt a => a.Prepares
  | .removeFile f => f ≠ .pidfile .keeper
  | .removeRoot => False
  | .writeRecord r _ _ => r = .proxy
  | _ => True

theorem Op.Watching.aside {o : Op} (ho : o.Watching) : o.Aside := by
  cases o with
  | enter place =>
    obtain ⟨r, rfl⟩ := ho
    simp [Op.Aside]
  | _ => trivial

theorem Op.Preparing.aside {o : Op} (ho : o.Preparing) : o.Aside := by
  cases o with
  | attempt a => exact ho
  | removeFile f => rcases ho with rfl | rfl <;> simp [Op.Aside]
  | _ => exact ho.elim

section Aside

theorem aside_acquireLifecycleLock : Only Op.Aside acquireLifecycleLock :=
  only_bind (only_perform trivial) fun _ => only_orFail _ _

theorem aside_stopIfRunning : Only Op.Aside stopIfRunning := by
  have hstop : ∀ r, Only Op.Aside (terminateAndWait r) :=
    fun r => (watching_terminateAndWait r).mono fun _ => Op.Watching.aside
  exact only_bind (hstop .keeper) fun _ => hstop .proxy

theorem aside_startEgressProxy (input : UpInput) : Only Op.Aside (startEgressProxy input) := by
  refine only_bind (only_orFail _ _) fun _ => only_bind (only_perform trivial) fun started => ?_
  split
  · exact only_raise _
  · refine only_bind (only_bind (only_perform (by simp [Op.Aside])) fun _ => ?_)
      fun _ => only_pure _
    refine only_bind (only_perform trivial) fun _ => only_bind (only_orFail _ _) fun _ => ?_
    exact only_bind (only_perform rfl) fun _ => only_orFail _ _

theorem aside_egressProxy (input : UpInput) : Only Op.Aside (egressProxy input) := by
  have hstart := aside_startEgressProxy input
  unfold egressProxy
  split
  · refine only_bind (only_bind (only_perform (by simp [Op.Aside])) fun _ => ?_)
      fun _ => only_pure _
    refine only_bind (only_readPidfile trivial) fun found => ?_
    split
    · exact hstart
    · refine only_bind (only_isSameProcess trivial trivial) fun same => ?_
      split
      · refine only_bind (only_bind (only_perform trivial) fun _ => only_orFail _ _) fun found => ?_
        split
        · exact hstart
        · split
          · exact only_bind (only_perform (by simp [Op.Aside])) fun _ => only_pure _
          · exact hstart
      · exact hstart
  · refine only_bind (only_bind ?_ fun _ => only_perform (by simp [Op.Aside])) fun _ => only_pure _
    exact (watching_terminateAndWait .proxy).mono fun _ => Op.Watching.aside

theorem aside_prepareKeeper (input : UpInput) (resolution : Resolution)
    (compiled : Policy.CompiledPolicy) : Only Op.Aside (prepareKeeper input resolution compiled) :=
  (preparing_prepareKeeper input resolution compiled).mono fun _ => Op.Preparing.aside

theorem aside_isolateNetwork (compiled : Policy.CompiledPolicy) (services : Bool)
    (proxy : Option (UInt16 × String)) :
    Only Op.Aside (isolateNetwork compiled services proxy) := by
  unfold isolateNetwork
  split
  · exact only_perform trivial
  · exact only_pure _

theorem aside_writeMeta (m : Meta) : Only Op.Aside (writeMeta m) :=
  only_bind (only_perform trivial) fun _ => only_orFail _ _

end Aside

/-- The start of `post_create`. -/
def Op.isPostCreate : Op → Bool
  | .attempt (.hook name _) => name == "post_create"
  | _ => false

theorem Op.Aside.not_postCreate {o : Op} (ho : o.Aside) : o.isPostCreate = false := by
  cases o with
  | attempt a =>
    cases a with
    | hook name command => exact ho.elim
    | _ => rfl
  | _ => rfl

/-- A part of a command that starts no `post_create`. -/
abbrev Without {α : Type} (p : Cmd α) : Prop := Only (fun o => o.isPostCreate = false) p

theorem without_of_aside {α : Type} {p : Cmd α} (hp : Only Op.Aside p) : Without p :=
  hp.mono fun _ => Op.Aside.not_postCreate

theorem without_perform {o : Op} (ho : o.isPostCreate = false) :
    Without (perform o : Cmd (Answer o)) := only_perform ho

theorem without_writePidfile (r : Role) (pid : ℕ) : Without (writePidfile r pid) := by
  refine only_bind (without_perform rfl) fun _ => only_bind (without_perform rfl) fun _ => ?_
  refine only_bind (only_orFail _ _) fun _ => only_bind (without_perform rfl) fun _ => ?_
  exact only_orFail _ _

theorem without_clearRuntimeState : Without clearRuntimeState := only_clearRuntimeState fun _ => rfl

theorem without_runHook {name : String} (hname : (name == "post_create") = false)
    (command : Option String) : Without (runHook name command) := by
  cases command with
  | none => exact only_pure _
  | some command => exact only_attempt _ hname

/-- How often an `up` with this outcome can start `post_create`. -/
def UpOutcome.creations : UpOutcome → ℕ
  | started => 1
  | recreated => 1
  | recovered => 0
  | alreadyUp => 0

theorem atMost_runHooks (input : UpInput) (outcome : UpOutcome) (resolution : Resolution) :
    AtMost Op.isPostCreate (runHooks input outcome resolution) outcome.creations := by
  refine atMost_bind_of_only (only_attempt _ rfl) fun _ => ?_
  split
  · exact atMost_of_only (only_pure _) _
  · refine atMost_bind_of_only (without_runHook (by decide) _) fun _ => ?_
    have hstart : ∀ _ : Unit, AtMost Op.isPostCreate
        (runHook "post_start" input.manifest.hooks.postStart) 0 :=
      fun _ => atMost_of_only (without_runHook (by decide) _) 0
    refine atMost_bind (n := outcome.creations) (l := 0) ?_ hstart
    cases outcome with
    | alreadyUp => exact atMost_of_only (only_pure _) _
    | recovered => exact atMost_of_only (only_pure _) _
    | started =>
      simp only [if_true, true_or]
      cases input.manifest.hooks.postCreate with
      | none => exact atMost_of_only (only_pure _) _
      | some command =>
        exact atMost_bind (l := 0) (atMost_perform _) fun _ => atMost_of_only (only_orFail _ _) 0
    | recreated =>
      simp only [if_true, or_true]
      cases input.manifest.hooks.postCreate with
      | none => exact atMost_of_only (only_pure _) _
      | some command =>
        exact atMost_bind (l := 0) (atMost_perform _) fun _ => atMost_of_only (only_orFail _ _) 0

theorem atMost_upProcess (input : UpInput) (root : String) (outcome : UpOutcome)
    (resolution : Resolution) (shell : ResolvedShell) (proxy : Option (UInt16 × String)) :
    AtMost Op.isPostCreate (upProcess input root outcome resolution shell proxy)
      outcome.creations := by
  refine atMost_bind_of_only (only_orFail _ _) fun exe => ?_
  split
  · exact atMost_of_only (only_raise _) _
  · refine atMost_bind_of_only (only_orFail _ _) fun kind => ?_
    refine atMost_bind_of_only (without_of_aside (aside_prepareKeeper _ _ _)) fun services => ?_
    refine atMost_bind_of_only (without_of_aside (aside_isolateNetwork _ _ _)) fun isolated => ?_
    refine atMost_bind_of_only (without_perform rfl) fun spawned => ?_
    split
    · exact atMost_of_only (only_raise _) _
    · refine atMost_bind_of_only (without_writePidfile _ _) fun _ => ?_
      exact atMost_bind (l := 0) (atMost_runHooks _ _ _) fun _ => atMost_of_only (only_pure _) 0

/-- What an `up` has settled on bounds how often it starts `post_create`. -/
theorem atMost_bringUp (input : UpInput) (root : String) (outcome : UpOutcome) :
    AtMost Op.isPostCreate (bringUp input root outcome) outcome.creations := by
  refine atMost_bind_of_only (only_orFail _ _) fun _ => ?_
  refine atMost_bind_of_only (only_orFail _ _) fun resolution => ?_
  refine atMost_bind_of_only (only_orFail _ _) fun fingerprint => ?_
  refine atMost_bind_of_only (only_attempt _ rfl) fun _ => ?_
  refine atMost_bind_of_only (without_of_aside (aside_egressProxy _)) fun proxy => ?_
  split
  · exact atMost_of_only (only_raise _) _
  · exact atMost_bind_of_only (without_of_aside (aside_writeMeta _))
      fun _ => atMost_upProcess _ _ _ _ _ _

/-- The host after a reboot: no process is left, and start times count from the new boot. -/
def Host.rebooted (h : Host) : Host := { h with clock := 0, procs := fun _ => none }

/-- What the operations do on a host that can reboot between two commands. -/
def Host.actRebooting (o : Op) (choice : Moment × Bool) (h : Host) : Answer o × Host :=
  match o with
  | .enter .command => ((), if choice.2 then h.rebooted else h)
  | o => h.act o choice.1

/-- A host that can reboot between two commands, as a machine. -/
@[reducible] def rebooting : Machine Op Answer where
  State := Host
  Choice := Moment × Bool
  idle := (.quiet, false)
  surroundings choice h := choice.1.events.foldl Host.after h
  act := Host.actRebooting

/-- A step on such a host, but for the reboot. -/
def asStep (step : Step rebooting) : Step machine := ⟨step.op, step.choice.1, step.before⟩

/-- A `down`, or an `up` without `--recreate`. -/
def Command.Plain : Command → Prop
  | .up input => input.opts.recreate = false
  | .down _ _ => True
  | .rm _ _ => False

/-- A command that may be killed after so many operations. -/
structure Errand where
  cmd : Command
  plain : cmd.Plain
  killed : Option ℕ

/-- The program of an errand. It fails without an error if it is killed. -/
def Errand.prog (e : Errand) : Prog Op Answer (Option UpError) (Option UpOutcome) :=
  e.cmd.prog.cut e.killed

/-- The condition on a step: an `up` that asks for the health of the sandbox after `post_create` was
started finds the keeper's pidfile. -/
def Remembered : Guard rebooting := fun step earlier =>
  step.op = .readPidfile .keeper → latestPlace (earlier.map asStep) = some .health →
    step.choice.1.fails = none → step.before.pidfile .keeper = none →
      times Op.isPostCreate earlier = 0

instance (step : Step rebooting) (earlier : List (Step rebooting)) :
    Decidable (Remembered step earlier) := by
  unfold Remembered
  infer_instance

/-- `post_create` was started at most so often. -/
abbrev StartedAtMost (n : ℕ) (c : Config rebooting) : Prop := times Op.isPostCreate c.trace ≤ n

/-- Other operations leave the count as it is. -/
theorem StartedAtMost.next {n : ℕ} {c : Config rebooting} {o : Op} {choice : Moment × Bool}
    (hc : StartedAtMost n c) (ho : o.isPostCreate = false) :
    StartedAtMost n (c.next o choice) := by
  have hcount := times_next Op.isPostCreate c o choice
  rw [ho] at hcount
  show times _ _ ≤ n
  rw [hcount]
  exact hc

theorem Without.wp_cut {G : Guard rebooting} {α : Type} {p : Cmd α} (hp : Without p) {n : ℕ}
    {c : Config rebooting} (hc : StartedAtMost n c) (left : Option ℕ) :
    wp G (fun _ => StartedAtMost n) (fun _ => StartedAtMost n) (p.cut left) c :=
  wp_cut_of_only hp (fun _ _ _ ho hc _ => hc.next ho) hc left

/-- `health` finds no keeper only where `post_create` was not started. -/
theorem health_remembered {c : Config rebooting} (hc : StartedAtMost 1 c) (left : Option ℕ) :
    wp Remembered (fun found c' => StartedAtMost 1 c' ∧ (found = .none → StartedAtMost 0 c'))
      (fun _ => StartedAtMost 1) (health.cut left) c := by
  refine wp_cut_perform_bind hc (fun choice _ left => ?_) left
  have hc₁ : StartedAtMost 1 (c.next (.enter .health) choice) := hc.next rfl
  have hplace : latestPlace ((c.next (.enter .health) choice).trace.map asStep) = some .health :=
    rfl
  generalize c.next (.enter .health) choice = c₁ at hc₁ hplace
  have hread : ∀ left, wp Remembered
      (fun found c' => StartedAtMost 1 c' ∧ (found = none → StartedAtMost 0 c'))
      (fun _ => StartedAtMost 1) ((readPidfile .keeper).cut left) c₁ := by
    refine wp_cut_perform_bind hc₁ fun choice hguard left => ?_
    have hc₂ : StartedAtMost 1 (c₁.next (.readPidfile .keeper) choice) := hc₁.next rfl
    cases hfails : choice.1.fails with
    | some e =>
      have hanswer : c₁.answer (.readPidfile .keeper) choice = .error e := by
        show choice.1.fallible _ = _
        simp [Moment.fallible, hfails]
      rw [hanswer]
      exact hc₂
    | none =>
      have hanswer : c₁.answer (.readPidfile .keeper) choice =
          .ok ((c₁.step (.readPidfile .keeper) choice).before.pidfile .keeper) :=
        Moment.fallible_of_none hfails _
      rw [hanswer]
      refine ⟨hc₂, fun hnone => ?_⟩
      have hzero := hguard rfl hplace hfails hnone
      have hle : StartedAtMost 0 c₁ := le_of_eq hzero
      exact hle.next rfl
  refine wp_cut_bind hread (fun found c₂ hfound left => ?_) left
  cases found with
  | none => exact ⟨hfound.1, fun _ => hfound.2 rfl⟩
  | some entry =>
    obtain ⟨pid, start⟩ := entry
    have hsame : Without (isSameProcess pid start) := only_isSameProcess rfl rfl
    refine wp_cut_bind (hsame.wp_cut hfound.1) (fun same c₃ hc₃ left => ?_) left
    cases same with
    | false => exact ⟨hc₃, fun h => by cases h⟩
    | true =>
      refine wp_cut_perform_bind hc₃ (fun choice _ left => ?_) left
      have hc₄ : StartedAtMost 1 (c₃.next .connect choice) := hc₃.next rfl
      split
      · exact ⟨hc₄, fun h => by cases h⟩
      · exact ⟨hc₄, fun h => by cases h⟩

/-- A plain `up` starts `post_create` only if it was not started before. -/
theorem up_remembered (input : UpInput) (hplain : input.opts.recreate = false)
    {c : Config rebooting} (hc : StartedAtMost 1 c) (left : Option ℕ) :
    wp Remembered (fun _ => StartedAtMost 1) (fun _ => StartedAtMost 1) ((up input).cut left) c := by
  have hbring : ∀ root outcome n {c : Config rebooting}, StartedAtMost n c →
      n + outcome.creations ≤ 1 → ∀ left, wp Remembered (fun _ => StartedAtMost 1)
        (fun _ => StartedAtMost 1) ((bringUp input root outcome).cut left) c := by
    intro root outcome n c hc hle left
    have hsum : times Op.isPostCreate c.trace + outcome.creations ≤ 1 :=
      (Nat.add_le_add_right hc _).trans hle
    exact wp_mono (wp_of_atMost ((atMost_bringUp input root outcome).cut left) c)
      (fun _ _ h => h.trans hsum) fun _ _ h => h.trans hsum
  refine wp_cut_perform_bind hc (fun choice _ left => ?_) left
  have hc : StartedAtMost 1 (c.next (.enter .command) choice) := hc.next rfl
  refine wp_cut_orFail_bind (fun root _ left => ?_) (fun _ _ => hc) left
  refine wp_cut_bind ((without_of_aside aside_acquireLifecycleLock).wp_cut hc)
    (fun _ c₁ hc left => ?_) left
  rw [hplain, if_neg Bool.false_ne_true]
  refine wp_cut_bind (health_remembered hc) (fun found c₂ ⟨hc, hnone⟩ left => ?_) left
  cases found with
  | healthy pid => exact hc
  | stale pid =>
    refine wp_cut_perform_bind hc (fun choice _ left => ?_) left
    have hc : StartedAtMost 1 (c₂.next (.enter .staleRecovery) choice) := hc.next rfl
    exact wp_cut_bind (without_clearRuntimeState.wp_cut hc)
      (fun _ _ hc left => hbring root .recovered 1 hc (by decide) left) left
  | none => exact hbring root .started 0 (hnone rfl) (by decide) left

theorem without_down (homeVar : Option String) (sandboxName : String) :
    Without (down homeVar sandboxName) := by
  refine only_bind (without_perform rfl) fun _ => only_bind (only_orFail _ _) fun _ => ?_
  refine only_bind (without_of_aside aside_acquireLifecycleLock) fun _ => ?_
  exact only_bind (without_of_aside aside_stopIfRunning) fun _ => without_clearRuntimeState

/-- Every errand keeps the bound. -/
theorem errand_remembered (e : Errand) {c : Config rebooting} (hc : StartedAtMost 1 c) :
    wp Remembered (fun _ => StartedAtMost 1) (fun _ => StartedAtMost 1) e.prog c := by
  obtain ⟨cmd, hplain, killed⟩ := e
  cases cmd with
  | up input =>
    show wp _ _ _ ((Command.prog (.up input)).cut killed) c
    refine wp_cut_bind (up_remembered input hplain hc) (fun outcome _ hc left => ?_) killed
    cases left <;> exact hc
  | down homeVar sandboxName =>
    show wp _ _ _ ((Command.prog (.down homeVar sandboxName)).cut killed) c
    have hdown := (without_down homeVar sandboxName).wp_cut (G := Remembered) hc
    refine wp_cut_bind hdown (fun _ _ hc left => ?_) killed
    cases left <;> exact hc
  | rm homeVar sandboxName => exact hplain.elim

/-- In every session of plain `up` and `down`, any of them killed at any step, on a host whose
processes come and go and that reboots between them, `post_create` is started at most once, if no
`up` that comes after its start finds the keeper's pidfile missing. -/
theorem postCreate_once {h : Host} {errands : List Errand} {choices : List (Moment × Bool)}
    {d : Done rebooting Errand (Option UpError) (Option UpOutcome)}
    (hd : d ∈ session Errand.prog errands choices ⟨[], h⟩)
    (hremembered : Guarded Remembered d.config.trace) :
    times Op.isPostCreate d.config.trace ≤ 1 := by
  have hempty : StartedAtMost 1 (⟨[], h⟩ : Config rebooting) := Nat.zero_le 1
  exact session_invariant (fun e _ hc => errand_remembered e hc) hempty hd hremembered

/-- A project with a `post_create` hook. -/
def creatingInput : UpInput :=
  { sampleInput [] with
    manifest := { (sampleInput []).manifest with hooks := ⟨some "cargo fetch", none⟩ } }

/-- An `up` of that project that is not killed. -/
def creatingUp : Errand := ⟨.up creatingInput, rfl, none⟩

/-- Choices with a reboot at some commands. -/
def rebootingMoments (reboots : List ℕ) : List (Moment × Bool) :=
  (sampleMoments [] []).zipIdx.map fun entry => (entry.1, reboots.contains entry.2)

/-- After a reboot the sandbox is recovered, without a second `post_create`. -/
theorem postCreate_once_reboot :
    ∃ d ∈ session (m := rebooting) Errand.prog [creatingUp, creatingUp] (rebootingMoments [23])
      ⟨[], freshHost⟩, d.outcome = .ok (some .recovered) ∧
        times Op.isPostCreate d.config.trace ≤ 1 := by
  have hrun : (session (m := rebooting) Errand.prog [creatingUp, creatingUp] (rebootingMoments [23])
      ⟨[], freshHost⟩).any (fun d => decide (d.outcome = .ok (some .recovered) ∧
        Guarded Remembered d.config.trace)) = true := by decide +kernel
  obtain ⟨d, hd, h⟩ := List.any_eq_true.mp hrun
  obtain ⟨houtcome, hremembered⟩ := of_decide_eq_true h
  exact ⟨d, hd, houtcome, postCreate_once hd hremembered⟩

/-- After a `down` the next `up` starts `post_create` again. -/
theorem not_postCreate_once_down :
    ∃ d ∈ session (m := rebooting) Errand.prog
      [creatingUp, ⟨.down (some "/home/u") "p", trivial, none⟩, creatingUp] (rebootingMoments [])
      ⟨[], freshHost⟩, d.outcome = .ok (some .started) ∧
        ¬times Op.isPostCreate d.config.trace ≤ 1 := by
  have hrun : (session (m := rebooting) Errand.prog
      [creatingUp, ⟨.down (some "/home/u") "p", trivial, none⟩, creatingUp] (rebootingMoments [])
      ⟨[], freshHost⟩).any (fun d => decide (d.outcome = .ok (some .started) ∧
        ¬times Op.isPostCreate d.config.trace ≤ 1)) = true := by decide +kernel
  obtain ⟨d, hd, h⟩ := List.any_eq_true.mp hrun
  exact ⟨d, hd, of_decide_eq_true h⟩

end Devcroft.Lifecycle
