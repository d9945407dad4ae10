import Devcroft.Library.Interference
import Devcroft.Library.Interleaving
import Devcroft.Lifecycle.Outcome
import Devcroft.Lifecycle.PostCreate

/-!
# Ups that contend for the lifecycle lock

Any number of plain `up` of one sandbox run at the same time. Each of them waits for
the lifecycle lock before it looks at the sandbox, and keeps it until it returns. Once
the first that obtained the lock has brought the sandbox up, the others find it healthy.
-/

namespace Devcroft.Lifecycle

open Program

/-- The part of `up` in which it settles on an outcome, with the lock. -/
def settleLocked (input : UpInput) (root : String) : Cmd (Option (String × UpOutcome)) := do
  if input.opts.recreate then
    terminateAndWait .keeper
    terminateAndWait .proxy
    clearRuntimeState
    return some (root, .recreated)
  else
    match ← health with
    | .healthy _ => return none
    | .stale _ =>
      perform (Op.enter .staleRecovery)
      clearRuntimeState
      return some (root, .recovered)
    | .none => return some (root, .started)

/-- The part of `up` up to its outcome, if it has to bring the sandbox up. -/
def settle (input : UpInput) : Cmd (Option (String × UpOutcome)) := do
  perform (Op.enter .command)
  let root ← orFail .state (statePaths input.host.homeVar input.manifest.sandbox.name)
  acquireLifecycleLock
  settleLocked input root

/-- `up` in two parts. -/
theorem up_eq (input : UpInput) : up input = settle input >>= fun settled =>
    match settled with
    | none => return .alreadyUp
    | some (root, outcome) => bringUp input root outcome := by
  simp only [up, settle, settleLocked, prog_bind_assoc]
  congr 1
  funext _
  congr 1
  funext root
  congr 1
  funext _
  split
  · simp only [prog_bind_assoc]
    rfl
  · simp only [prog_bind_assoc]
    congr 1
    funext found
    cases found with
    | none => rfl
    | healthy pid => rfl
    | stale pid =>
      simp only [prog_bind_assoc]
      rfl

/-- Something that a call of `up` does. -/
inductive Deed where
  /-- It resolves the provider, and goes on to bring the sandbox up. -/
  | resolve
  | op (o : Op)
  deriving DecidableEq

/-- Where a call of `up` is. -/
inductive Phase where
  | settling (p : Cmd (Option (String × UpOutcome)))
  | bringing (p : Cmd UpOutcome)
  | returned (outcome : Except UpError UpOutcome)

/-- A call of `up`, with all that it has done, the latest first. -/
structure Call where
  phase : Phase
  done : List Deed

/-- Calls of `up` on a host. -/
structure Contention where
  host : Host
  /-- The call that holds the lifecycle lock. -/
  lock : Option ℕ
  /-- The call that was the first to obtain it. -/
  first : Option ℕ
  calls : ℕ → Call

/-- A call goes on. -/
def Contention.update (s : Contention) (i : ℕ) (call : Call) : Contention :=
  { s with calls := fun j => if j = i then call else s.calls j }

/-- A call returns, and releases the lock if it holds it. -/
def Contention.giveBack (s : Contention) (i : ℕ) (outcome : Except UpError UpOutcome) :
    Contention :=
  { s.update i ⟨.returned outcome, (s.calls i).done⟩ with
    lock := if s.lock = some i then none else s.lock }

/-- A call performs an operation, and is in another phase after its answer. -/
def Contention.perform (s : Contention) (i : ℕ) (o : Op) (t : Moment)
    (phase : Answer o → Phase) : Contention :=
  let acted := (machine.surroundings t s.host).act o t
  { s.update i ⟨phase acted.1, .op o :: (s.calls i).done⟩ with host := acted.2 }

/-- A call obtains the lock. -/
def Contention.take (s : Contention) (i : ℕ) (phase : Phase) : Contention :=
  { s.update i ⟨phase, .op .acquireLock :: (s.calls i).done⟩ with
    lock := some i
    first := s.first.or (some i) }

/-- The step of a call. It waits for the lock while another one holds it. -/
def Contention.step (inputs : ℕ → UpInput) (s : Contention) (a : ℕ × Moment) : Option Contention :=
  match (s.calls a.1).phase with
  | .settling (.act .acquireLock k) =>
    if s.lock = none then some (s.take a.1 (.settling (k (.ok ())))) else none
  | .settling (.act o k) => some (s.perform a.1 o a.2 fun answer => .settling (k answer))
  | .settling (.ret none) => some (s.giveBack a.1 (.ok .alreadyUp))
  | .settling (.ret (some (root, outcome))) =>
    some (s.update a.1 ⟨.bringing (bringUp (inputs a.1) root outcome),
      .resolve :: (s.calls a.1).done⟩)
  | .settling (.fail e) => some (s.giveBack a.1 (.error e))
  | .bringing (.act o k) => some (s.perform a.1 o a.2 fun answer => .bringing (k answer))
  | .bringing (.ret outcome) => some (s.giveBack a.1 (.ok outcome))
  | .bringing (.fail e) => some (s.giveBack a.1 (.error e))
  | .returned _ => none

/-- The calls before their first steps. -/
def Contention.start (inputs : ℕ → UpInput) (h : Host) : Contention :=
  ⟨h, none, none, fun i => ⟨.settling (settle (inputs i)), []⟩⟩

/-- The operation that a call performs next. -/
def Phase.next : Phase → Option Op
  | .settling (.act o _) => some o
  | .bringing (.act o _) => some o
  | _ => none

/-- Whether the first call that obtained the lock has returned without an error. -/
def Contention.served (s : Contention) : Bool :=
  match s.first with
  | none => false
  | some f =>
    match (s.calls f).phase with
    | .returned (.ok _) => true
    | _ => false

/-- The operations that ask the keeper whether it is there. -/
def Op.asksHealth : Op → Bool
  | .readPidfile .keeper => true
  | .processStartTime _ => true
  | .connect => true
  | _ => false

/-- What is assumed of the host: until the first call has brought the sandbox up, nothing answers on
its control socket; from then on the process that the keeper's pidfile names stays alive, and asking
for it succeeds. -/
def Responsive (s : Contention) (a : ℕ × Moment) : Prop :=
  if s.served = true then
    ((machine.surroundings a.2 s.host).pidfile .keeper ≠ none →
      (machine.surroundings a.2 s.host).recorded .keeper = true) ∧
    ∀ o ∈ (s.calls a.1).phase.next, o.asksHealth = true → a.2.fails = none ∧ a.2.answer = true
  else .connect ∈ (s.calls a.1).phase.next → a.2.answer = false

instance (s : Contention) (a : ℕ × Moment) : Decidable (Responsive s a) := by
  unfold Responsive
  infer_instance

/-- The operations that only look. -/
def Op.Looks : Op → Prop
  | .enter place => place = .command ∨ place = .health
  | .readPidfile r => r = .keeper
  | .processStartTime _ => True
  | .isProcessAlive _ => True
  | .connect => True
  | _ => False

/-- What a call does that resolves nothing, starts nothing and writes nothing. -/
def Deed.Looks : Deed → Prop
  | .resolve => False
  | .op o => o.Looks ∨ o = .acquireLock

/-- The start of a keeper. -/
def Op.isSpawnKeeper : Op → Bool
  | .spawnKeeper _ => true
  | _ => false

/-- The operation that was performed. -/
def Deed.op? : Deed → Option Op
  | .resolve => none
  | .op o => some o

/-- The operations that a call has performed. -/
def Call.ops (call : Call) : List Op := call.done.filterMap Deed.op?

/-- One call has brought the sandbox up, and the others have left it alone. -/
structure BroughtUpOnce (inputs : ℕ → UpInput) (s : Contention) (f : ℕ) (outcome : UpOutcome) :
    Prop where
  outcome : outcome = .started ∨ outcome = .recovered
  resolved : (s.calls f).done.count .resolve = 1
  spawned : (s.calls f).ops.countP Op.isSpawnKeeper = 1
  others : ∀ i, i ≠ f → ∀ deed ∈ (s.calls i).done, deed.Looks
  alreadyUp : ∀ i, i ≠ f → ∀ r, (s.calls i).phase = .returned r → r = .ok .alreadyUp
  /-- A call that has not returned can go on, or waits for one that can. -/
  proceeds : ∀ i, (∃ r, (s.calls i).phase = .returned r) ∨
    (∃ t next, s.step inputs (i, t) = some next) ∨
    ∃ j t next, s.lock = some j ∧ s.step inputs (j, t) = some next

section Specs

variable {G : Guard machine}

theorem Op.Quiet.not_spawnKeeper {o : Op} (ho : o.Quiet) : o.isSpawnKeeper = false := by
  cases o <;> first | rfl | exact ho.elim

/-- A part of a command that starts no keeper leaves their number as it is. -/
theorem wp_spawned {α : Type} {p : Cmd α} (hp : Only (fun o => o.isSpawnKeeper = false) p)
    {c : Config machine} {n : ℕ} (hc : times Op.isSpawnKeeper c.trace = n) :
    wp G (fun _ c' => times Op.isSpawnKeeper c'.trace = n)
      (fun _ c' => times Op.isSpawnKeeper c'.trace = n) p c := by
  refine wp_of_only hp (fun o c choice ho hc _ => ?_) hc
  rw [times_next, ho]
  exact hc

theorem wp_spawned_quiet {α : Type} {p : Cmd α} (hp : Only Op.Quiet p) {c : Config machine} {n : ℕ}
    (hc : times Op.isSpawnKeeper c.trace = n) :
    wp G (fun _ c' => times Op.isSpawnKeeper c'.trace = n)
      (fun _ c' => times Op.isSpawnKeeper c'.trace = n) p c :=
  wp_spawned (hp.mono fun _ => Op.Quiet.not_spawnKeeper) hc

/-- Nothing answers on the control socket. -/
def Unanswered : Guard machine := fun step _ => step.op = .connect → step.choice.answer = false

/-- Where nothing answers, nothing is found healthy. -/
theorem health_unanswered (c : Config machine) :
    wp Unanswered (fun found _ => ∀ pid, found ≠ .healthy pid) (fun _ _ => True) health c := by
  refine (wp_perform_bind _ _ _ _ _).mpr fun _ _ => ?_
  refine wp_seq (wp_true (readPidfile .keeper) _) fun found c₁ _ => ?_
  cases found with
  | none => exact fun _ h => nomatch h
  | some entry =>
    obtain ⟨pid, start⟩ := entry
    refine wp_seq (wp_true (isSameProcess pid start) c₁) fun same c₂ _ => ?_
    cases same with
    | false => exact fun _ h => nomatch h
    | true =>
      refine (wp_perform_bind _ _ _ _ _).mpr fun t hguard => ?_
      have hno : c₂.answer .connect t = false := hguard rfl
      rw [hno]
      exact fun _ h => nomatch h

/-- What the first call that obtains the lock settles on. -/
def Settling (root : String) (settled : Option (String × UpOutcome)) (c : Config machine) : Prop :=
  (∃ outcome, settled = some (root, outcome) ∧ (outcome = .started ∨ outcome = .recovered)) ∧
    times Op.isSpawnKeeper c.trace = 0

theorem settleLocked_unanswered {input : UpInput} (hplain : input.opts.recreate = false)
    (root : String) {c : Config machine} (hc : times Op.isSpawnKeeper c.trace = 0) :
    wp Unanswered (Settling root) (fun _ _ => True) (settleLocked input root) c := by
  unfold settleLocked
  rw [hplain, if_neg Bool.false_ne_true]
  have hhealth := wp_and (health_unanswered c) (wp_spawned_quiet quiet_health hc)
  refine wp_seq (wp_mono hhealth (fun _ _ h => h) fun _ _ _ => trivial) fun found c₁ ⟨hno, hc⟩ => ?_
  cases found with
  | healthy pid => exact (hno pid rfl).elim
  | none => exact ⟨⟨.started, rfl, Or.inl rfl⟩, hc⟩
  | stale pid =>
    have hclear : Only (fun o => o.isSpawnKeeper = false) clearRuntimeState :=
      only_clearRuntimeState fun _ => rfl
    refine (wp_perform_bind _ _ _ _ _).mpr fun t _ => ?_
    have hc₂ : times Op.isSpawnKeeper (c₁.next (.enter .staleRecovery) t).trace = 0 := hc
    refine wp_seq (wp_mono (wp_spawned hclear hc₂) (fun _ _ h => h) fun _ _ _ => trivial)
      fun _ _ hc => ⟨⟨.recovered, rfl, Or.inr rfl⟩, hc⟩

/-- A keeper that was recorded is in the pidfile. -/
theorem writePidfile_pidfile (pid : ℕ) (c : Config machine) :
    wp G (fun _ c' => c'.state.pidfile .keeper ≠ none) (fun _ _ => True)
      (writePidfile .keeper pid) c := by
  refine (wp_perform_bind _ _ _ _ _).mpr fun _ _ => (wp_perform_bind _ _ _ _ _).mpr fun _ _ => ?_
  refine wp_orFail_bind (fun start _ => ?_) fun _ _ => trivial
  refine (wp_perform_bind _ _ _ _ _).mpr fun t _ => ?_
  generalize Config.next _ _ _ = c₁
  have hact : (c₁.answer (.writeRecord .keeper pid start) t,
      (c₁.next (.writeRecord .keeper pid start) t).state) =
      (c₁.step (.writeRecord .keeper pid start) t).before.act (.writeRecord .keeper pid start) t :=
        rfl
  cases hfails : t.fails with
  | some e =>
    simp only [Host.act, hfails] at hact
    rw [(Prod.mk.inj hact).1]
    trivial
  | none =>
    simp only [Host.act, hfails] at hact
    obtain ⟨hanswer, hstate⟩ := Prod.mk.inj hact
    rw [hanswer]
    show (c₁.next (.writeRecord .keeper pid start) t).state.pidfile .keeper ≠ none
    rw [hstate]
    simp [Host.record]

/-- What a call that brings the sandbox up leaves. -/
def Brought (outcome result : UpOutcome) (c : Config machine) : Prop :=
  result = outcome ∧ c.state.pidfile .keeper ≠ none ∧ times Op.isSpawnKeeper c.trace = 1

theorem bringUp_brought (input : UpInput) (root : String) (outcome : UpOutcome)
    {c : Config machine} (hc : times Op.isSpawnKeeper c.trace = 0) :
    wp G (Brought outcome) (fun _ _ => True) (bringUp input root outcome) c := by
  refine wp_orFail_bind (fun _ _ => ?_) fun _ _ => trivial
  refine wp_orFail_bind (fun resolution _ => ?_) fun _ _ => trivial
  refine wp_orFail_bind (fun fingerprint _ => ?_) fun _ _ => trivial
  refine wp_seq (wp_mono (wp_spawned (only_attempt _ rfl) hc) (fun _ _ h => h)
    fun _ _ _ => trivial) fun _ c₁ hc => ?_
  have hproxy : Only (fun o => o.isSpawnKeeper = false) (egressProxy input) := by
    refine (noKeeper_egressProxy input).mono fun o ho => ?_
    cases o <;> first | rfl | exact (ho rfl).elim
  refine wp_seq (wp_mono (wp_spawned hproxy hc) (fun _ _ h => h) fun _ _ _ => trivial)
    fun proxy c₂ hc => ?_
  split
  · trivial
  · next shell _ =>
    have hmeta : Only (fun o => o.isSpawnKeeper = false)
        (writeMeta (upMeta input resolution fingerprint shell proxy)) :=
      only_bind (only_perform rfl) fun _ => only_orFail _ _
    refine wp_seq (wp_mono (wp_spawned hmeta hc) (fun _ _ h => h) fun _ _ _ => trivial)
      fun _ c₃ hc => ?_
    refine wp_orFail_bind (fun exe _ => ?_) fun _ _ => trivial
    split
    · trivial
    · refine wp_orFail_bind (fun kind _ => ?_) fun _ _ => trivial
      generalize upPolicy input _ kind.staticName resolution shell proxy = compiled
      have hprepare := (plain_prepareKeeper input resolution compiled).mono fun _ => Op.Plain.quiet
      refine wp_seq (wp_mono (wp_spawned_quiet hprepare hc) (fun _ _ h => h) fun _ _ _ => trivial)
        fun services c₄ hc => ?_
      have hisolate := (plain_isolateNetwork compiled services proxy).mono fun _ => Op.Plain.quiet
      refine wp_seq (wp_mono (wp_spawned_quiet hisolate hc) (fun _ _ h => h) fun _ _ _ => trivial)
        fun isolated c₅ hc => ?_
      refine (wp_perform_bind _ _ _ _ _).mpr fun t _ => ?_
      generalize keeperLaunch input root exe resolution shell compiled proxy services isolated =
        launch
      have hc₆ : times Op.isSpawnKeeper (c₅.next (.spawnKeeper launch) t).trace = 1 := by
        rw [times_next, hc]
        rfl
      split
      · trivial
      · next pid _ =>
        have hwrite : Only (fun o => o.isSpawnKeeper = false) (writePidfile .keeper pid) := by
          refine (followsLaunch_writePidfile .keeper pid).mono fun o ho => ?_
          cases o <;> first | rfl | exact (ho.2 _ rfl).elim
        refine wp_seq (wp_mono (wp_and (writePidfile_pidfile pid _) (wp_spawned hwrite hc₆))
          (fun _ _ h => h) fun _ _ _ => trivial) fun _ c₇ ⟨hfile, hc⟩ => ?_
        have hhooks := plain_runHooks input outcome resolution
        refine wp_seq (wp_mono (wp_and (wp_plain hhooks c₇)
          (wp_spawned_quiet (hhooks.mono fun _ => Op.Plain.quiet) hc)) (fun _ _ h => h)
          fun _ _ _ => trivial) fun _ c₈ ⟨hfades, hc⟩ => ?_
        refine ⟨rfl, ?_, hc⟩
        rw [hfades.pidfile]
        exact hfile

/-- The process that the keeper's pidfile names is alive, and asking for it succeeds. -/
def Answered : Guard machine := fun step _ =>
  (step.before.pidfile .keeper ≠ none → step.before.recorded .keeper = true) ∧
    (step.op.asksHealth = true → step.choice.fails = none ∧ step.choice.answer = true)

/-- What is recorded of a keeper is the start time of a live process. -/
theorem Host.recorded_cases {h : Host} {r : Role} {pid start : ℕ} (hrec : h.recorded r = true)
    (hfile : h.pidfile r = some (pid, start)) :
    ∃ p, h.procs pid = some p ∧ h.startOf p = start := by
  unfold Host.recorded at hrec
  rw [hfile] at hrec
  cases hp : h.procs pid with
  | none => simp [hp] at hrec
  | some p =>
    simp only [hp, Bool.and_eq_true, beq_iff_eq] at hrec
    exact ⟨p, rfl, hrec.2.symm⟩

/-- The recorded process is found to be the same. -/
theorem isSameProcess_answered {c : Config machine} {pid start : ℕ}
    (hfile : c.state.pidfile .keeper = some (pid, start)) :
    wpOnly Op.Looks Answered
      (fun same c' => same = true ∧ c'.state.pidfile .keeper = some (pid, start))
      (fun (_ : UpError) _ => False) (isSameProcess pid start) c := by
  unfold isSameProcess
  split
  · refine ⟨trivial, fun t hguard => ?_⟩
    have hbefore := (fades_before c (.isProcessAlive pid) t).pidfile
    have hpidfile :
        (c.step (.isProcessAlive pid) t).before.pidfile .keeper = some (pid, start) := by
      rw [hbefore, hfile]
    have hrec := hguard.1 (by rw [hpidfile]; simp)
    obtain ⟨p, hp, -⟩ := Host.recorded_cases hrec hpidfile
    refine ⟨?_, hpidfile⟩
    show ((c.step (.isProcessAlive pid) t).before.procs pid).isSome = true
    rw [hp]
    rfl
  · refine wpOnly_perform_bind trivial fun t hguard => ?_
    have hbefore := (fades_before c (.processStartTime pid) t).pidfile
    have hpidfile :
        (c.step (.processStartTime pid) t).before.pidfile .keeper = some (pid, start) := by
      rw [hbefore, hfile]
    have hrec := hguard.1 (by rw [hpidfile]; simp)
    obtain ⟨p, hp, hsame⟩ := Host.recorded_cases hrec hpidfile
    have hfails : t.fails = none := (hguard.2 rfl).1
    have hanswer : c.answer (.processStartTime pid) t = .ok start := by
      show (c.step (.processStartTime pid) t).before.processStartTime pid t = .ok start
      rw [Host.processStartTime_of_none hp hfails, hsame]
    rw [hanswer]
    exact ⟨beq_self_eq_true start, hpidfile⟩

/-- Where the keeper answers, it is found healthy by looking only. -/
theorem health_answered {c : Config machine} (hfile : c.state.pidfile .keeper ≠ none) :
    wpOnly Op.Looks Answered (fun found _ => ∃ pid, found = .healthy pid)
      (fun (_ : UpError) _ => False) health c := by
  refine wpOnly_perform_bind (Or.inr rfl) fun t _ => ?_
  have hfile₁ : (c.next (.enter .health) t).state.pidfile .keeper ≠ none := by
    rw [(fades_next (o := .enter .health) trivial c t).pidfile]
    exact hfile
  generalize c.next (.enter .health) t = c₁ at hfile₁
  refine wpOnly_seq (M := fun found c' => found ≠ none ∧ c'.state.pidfile .keeper = found) ?_ ?_
  · refine wpOnly_perform_bind rfl fun t hguard => ?_
    have hfails : t.fails = none := (hguard.2 rfl).1
    have hbefore := (fades_before c₁ (.readPidfile .keeper) t).pidfile
    have hanswer : c₁.answer (.readPidfile .keeper) t =
        .ok ((c₁.step (.readPidfile .keeper) t).before.pidfile .keeper) := by
      exact Moment.fallible_of_none hfails _
    rw [hanswer]
    refine ⟨?_, rfl⟩
    rw [hbefore]
    exact hfile₁
  · rintro found c₂ ⟨hsome, hfile₂⟩
    cases found with
    | none => exact (hsome rfl).elim
    | some entry =>
      obtain ⟨pid, start⟩ := entry
      refine wpOnly_seq (isSameProcess_answered hfile₂) ?_
      rintro same c₃ ⟨rfl, -⟩
      refine wpOnly_perform_bind trivial fun t hguard => ?_
      have hyes : c₃.answer .connect t = true := (hguard.2 rfl).2
      rw [hyes]
      exact ⟨pid, rfl⟩

/-- A later call settles on nothing, and only looks. -/
theorem settleLocked_answered {input : UpInput} (hplain : input.opts.recreate = false)
    (root : String) {c : Config machine} (hfile : c.state.pidfile .keeper ≠ none) :
    wpOnly Op.Looks Answered (fun settled _ => settled = none) (fun _ _ => False)
      (settleLocked input root) c := by
  unfold settleLocked
  rw [hplain, if_neg Bool.false_ne_true]
  refine wpOnly_seq (health_answered hfile) ?_
  rintro found c₁ ⟨pid, rfl⟩
  rfl

end Specs

section Calls

variable {inputs : ℕ → UpInput} {root : String} {s next : Contention}

/-- The events of the host, as a disturbance. -/
def disturbance : Disturbance machine Event where
  after := Host.after
  prepend events t := { t with events := events ++ t.events }
  surroundings_prepend events t h := List.foldl_append
  act_prepend o events t h := by
    cases o with
    | kill pid signal => cases signal <;> rfl
    | _ => rfl

/-- A call that has not obtained the lock yet. -/
inductive Waits (input : UpInput) (root : String) : Call → Prop where
  | fresh : Waits input root ⟨.settling (settle input), []⟩
  | queued : Waits input root
      ⟨.settling (acquireLifecycleLock >>= fun _ => settleLocked input root),
        [.op (.enter .command)]⟩

/-- A later call that works with the lock. -/
structure Looking (host : Host) (call : Call) : Prop where
  works : ∃ p, call.phase = .settling p ∧ Awaits disturbance Op.Looks Answered
    (fun settled _ => settled = none) (fun _ _ => False) p call.ops host
  done : ∀ deed ∈ call.done, deed.Looks

/-- A later call that has returned. -/
structure Content (call : Call) : Prop where
  returned : call.phase = .returned (.ok .alreadyUp)
  done : ∀ deed ∈ call.done, deed.Looks

/-- The first call works with the lock, the others wait. -/
structure Working (inputs : ℕ → UpInput) (root : String) (s : Contention) (f : ℕ) : Prop where
  lock : s.lock = some f
  others : ∀ i, i ≠ f → Waits (inputs i) root (s.calls i)
  works : (∃ p, (s.calls f).phase = .settling p ∧ (s.calls f).done.count .resolve = 0 ∧
      Awaits disturbance (fun _ => True) Unanswered (Settling root) (fun _ _ => True) p
        (s.calls f).ops s.host) ∨
    (∃ outcome p, (outcome = .started ∨ outcome = .recovered) ∧ (s.calls f).phase = .bringing p ∧
      (s.calls f).done.count .resolve = 1 ∧
      Awaits disturbance (fun _ => True) Unanswered (Brought outcome) (fun _ _ => True) p
        (s.calls f).ops s.host)

/-- The first call has brought the sandbox up: every other one waits, works with the lock, or has
returned. -/
structure Served (inputs : ℕ → UpInput) (root : String) (s : Contention) (f : ℕ)
    (outcome : UpOutcome) : Prop where
  outcome : outcome = .started ∨ outcome = .recovered
  resolved : (s.calls f).done.count .resolve = 1
  spawned : (s.calls f).ops.countP Op.isSpawnKeeper = 1
  pidfile : s.host.pidfile .keeper ≠ none
  lock : s.lock ≠ some f
  others : ∀ i, i ≠ f → (s.lock = some i ∧ Looking s.host (s.calls i)) ∨
    (s.lock ≠ some i ∧ (Waits (inputs i) root (s.calls i) ∨ Content (s.calls i)))

/-- The invariant of the contention. -/
def Contained (inputs : ℕ → UpInput) (root : String) (s : Contention) : Prop :=
  match s.first with
  | none => s.lock = none ∧ ∀ i, Waits (inputs i) root (s.calls i)
  | some f =>
    match (s.calls f).phase with
    | .returned (.ok outcome) => Served inputs root s f outcome
    | .returned (.error _) => True
    | _ => Working inputs root s f

@[simp] theorem update_calls_self (s : Contention) (i : ℕ) (call : Call) :
    (s.update i call).calls i = call := if_pos rfl

theorem update_calls_of_ne {i j : ℕ} (hne : j ≠ i) (s : Contention) (call : Call) :
    (s.update i call).calls j = s.calls j := if_neg hne

/-- What another call does leaves a call as it is. -/
theorem step_calls_of_ne {a : ℕ × Moment} (hstep : s.step inputs a = some next) {j : ℕ}
    (hne : j ≠ a.1) : next.calls j = s.calls j := by
  unfold Contention.step at hstep
  split at hstep
  · split at hstep
    · obtain rfl := Option.some.inj hstep
      exact update_calls_of_ne hne _ _
    · cases hstep
  all_goals first
    | (obtain rfl := Option.some.inj hstep
       exact update_calls_of_ne hne _ _)
    | cases hstep

/-- The step of a call that performs an operation other than to obtain the lock. -/
theorem step_settling (inputs : ℕ → UpInput) {i : ℕ} {o : Op}
    {k : Answer o → Cmd (Option (String × UpOutcome))}
    (hphase : (s.calls i).phase = .settling (.act o k)) (ho : o ≠ .acquireLock) (t : Moment) :
    s.step inputs (i, t) = some (s.perform i o t fun answer => .settling (k answer)) := by
  unfold Contention.step
  dsimp only
  rw [hphase]
  cases o <;> first | rfl | exact (ho rfl).elim

theorem step_bringing {i : ℕ} {o : Op} {k : Answer o → Cmd UpOutcome}
    (hphase : (s.calls i).phase = .bringing (.act o k)) (t : Moment) :
    s.step inputs (i, t) = some (s.perform i o t fun answer => .bringing (k answer)) := by
  unfold Contention.step
  dsimp only
  rw [hphase]

/-- The step of a call that waits: it begins, or it obtains the lock. -/
theorem Waits.step {i : ℕ} {t : Moment} (hw : Waits (inputs i) root (s.calls i))
    (hsame : statePaths (inputs i).host.homeVar (inputs i).manifest.sandbox.name = .ok root)
    (hstep : s.step inputs (i, t) = some next) :
    (Waits (inputs i) root (next.calls i) ∧ next.lock = s.lock ∧ next.first = s.first ∧
      next.host = t.events.foldl Host.after s.host) ∨
    (s.lock = none ∧ next.lock = some i ∧ next.first = s.first.or (some i) ∧ next.host = s.host ∧
      next.calls i = ⟨.settling (settleLocked (inputs i) root),
        [.op .acquireLock, .op (.enter .command)]⟩) := by
  generalize hcall : s.calls i = call at hw
  have hphase : (s.calls i).phase = call.phase := by rw [hcall]
  cases hw with
  | fresh =>
    left
    have hnext := step_settling inputs (k := fun _ => do
      let root ← orFail .state
        (statePaths (inputs i).host.homeVar (inputs i).manifest.sandbox.name)
      acquireLifecycleLock
      settleLocked (inputs i) root) hphase (by simp) t
    obtain rfl := Option.some.inj (hnext.symm.trans hstep)
    refine ⟨?_, rfl, rfl, rfl⟩
    simp only [Contention.perform, update_calls_self, hcall, hsame]
    exact .queued
  | queued =>
    right
    unfold Contention.step at hstep
    dsimp only at hstep
    rw [hphase] at hstep
    change (if s.lock = none then some (s.take i (.settling (settleLocked (inputs i) root)))
      else none) = some next at hstep
    split at hstep
    · next hfree =>
      obtain rfl := Option.some.inj hstep
      refine ⟨hfree, rfl, rfl, rfl, ?_⟩
      simp only [Contention.take, update_calls_self, hcall]
    · cases hstep

theorem times_eq_countP (S : Op → Bool) (trace : List (Step machine)) :
    times S trace = (trace.map Step.op).countP S := List.countP_map.symm

/-- The next operation of the first call. -/
theorem awaits_next_unanswered {α : Type} {Q : α → Config machine → Prop}
    {E : UpError → Config machine → Prop} {o : Op} {k : Answer o → Cmd α} {done : List Op}
    {h : Host}
    {t : Moment} (ha : Awaits disturbance (fun _ => True) Unanswered Q E (.act o k) done h)
    (hguard : o = .connect → t.answer = false) :
    Awaits disturbance (fun _ => True) Unanswered Q E
      (k ((machine.surroundings t h).act o t).1) (o :: done) ((machine.surroundings t h).act o t).2 :=
  (ha.act t fun _ _ _ ho => hguard ho).2

/-- The others wait on, whatever the first call does. -/
theorem Working.others_step {f : ℕ} {t : Moment} (hw : Working inputs root s f)
    (hstep : s.step inputs (f, t) = some next) :
    ∀ i, i ≠ f → Waits (inputs i) root (next.calls i) := by
  intro i hne
  rw [step_calls_of_ne hstep hne]
  exact hw.others i hne

/-- A step of the first call while it settles on an outcome. -/
theorem Working.settles {f : ℕ} {t : Moment} {p : Cmd (Option (String × UpOutcome))}
    (hw : Working inputs root s f) (hfirst : s.first = some f)
    (hguard : .connect ∈ (s.calls f).phase.next → t.answer = false)
    (hphase : (s.calls f).phase = .settling p) (hresolve : (s.calls f).done.count .resolve = 0)
    (ha : Awaits disturbance (fun _ => True) Unanswered (Settling root) (fun _ _ => True) p
      (s.calls f).ops s.host)
    (hstep : s.step inputs (f, t) = some next) : Contained inputs root next := by
  have hothers := hw.others_step hstep
  cases p with
  | ret settled =>
    obtain ⟨trace, before, events, hhost, hops, ⟨outcome, rfl, houtcome⟩, htimes⟩ := ha.ret
    simp only [Contention.step, hphase] at hstep
    obtain rfl := Option.some.inj hstep
    -- It settles on bringing the sandbox up.
    have hbring : Awaits disturbance (fun _ => True) Unanswered (Brought outcome) (fun _ _ => True)
        (bringUp (inputs f) root outcome) (s.calls f).ops s.host := by
      rw [← hops]
      exact awaits_of_wpOnly (wpOnly_of_wp (bringUp_brought (inputs f) root outcome htimes))
    simp only [Contained, Contention.update, hfirst, if_true]
    refine ⟨hw.lock, hothers, Or.inr
      ⟨outcome, bringUp (inputs f) root outcome, houtcome, by simp, ?_, ?_⟩⟩
    · simp [hresolve]
    · simpa [Call.ops, Deed.op?, List.filterMap_cons] using hbring
  | fail e =>
    simp only [Contention.step, hphase] at hstep
    obtain rfl := Option.some.inj hstep
    simp [Contained, Contention.giveBack, Contention.update, hfirst]
  | act o k =>
    by_cases ho : o = .acquireLock
    · subst ho
      simp only [Contention.step, hphase, hw.lock] at hstep
      cases hstep
    · obtain rfl := Option.some.inj ((step_settling inputs hphase ho t).symm.trans hstep)
      have hanswer : o = .connect → t.answer = false :=
        fun h => hguard (by rw [hphase]; exact congrArg some h)
      have hnext := awaits_next_unanswered ha hanswer
      simp only [Contained, Contention.perform, Contention.update, hfirst, if_true]
      refine ⟨hw.lock, hothers, Or.inl
        ⟨k ((machine.surroundings t s.host).act o t).1, by simp, ?_, ?_⟩⟩
      · simpa using hresolve
      · simpa [Call.ops, Deed.op?] using hnext

/-- A step of the first call while it brings the sandbox up. -/
theorem Working.brings {f : ℕ} {t : Moment} {outcome : UpOutcome} {p : Cmd UpOutcome}
    (hw : Working inputs root s f) (hfirst : s.first = some f)
    (hguard : .connect ∈ (s.calls f).phase.next → t.answer = false)
    (houtcome : outcome = .started ∨ outcome = .recovered)
    (hphase : (s.calls f).phase = .bringing p) (hresolve : (s.calls f).done.count .resolve = 1)
    (ha : Awaits disturbance (fun _ => True) Unanswered (Brought outcome) (fun _ _ => True) p
      (s.calls f).ops s.host)
    (hstep : s.step inputs (f, t) = some next) : Contained inputs root next := by
  have hothers := hw.others_step hstep
  cases p with
  | ret result =>
    obtain ⟨trace, before, events, hhost, hops, rfl, hfile, htimes⟩ := ha.ret
    simp only [Contention.step, hphase] at hstep
    obtain rfl := Option.some.inj hstep
    have hpidfile : s.host.pidfile .keeper ≠ none := by
      have hfades := fades_surroundings { Moment.quiet with events := events } before
      have hsame : s.host = machine.surroundings { Moment.quiet with events := events } before :=
        hhost.symm
      rw [hsame, hfades.pidfile]
      exact hfile
    simp only [Contained, Contention.giveBack, Contention.update, hfirst, if_true]
    refine ⟨houtcome, by simpa using hresolve, ?_, hpidfile, by simp [hw.lock], fun i hne => ?_⟩
    · rw [times_eq_countP, hops] at htimes
      simpa [Call.ops] using htimes
    · refine Or.inr ⟨by simp [hw.lock], Or.inl ?_⟩
      have hwaits := hothers i hne
      simpa [Contention.giveBack, Contention.update, hne] using hwaits
  | fail e =>
    simp only [Contention.step, hphase] at hstep
    obtain rfl := Option.some.inj hstep
    simp [Contained, Contention.giveBack, Contention.update, hfirst]
  | act o k =>
    obtain rfl := Option.some.inj ((step_bringing hphase t).symm.trans hstep)
    have hanswer : o = .connect → t.answer = false :=
      fun h => hguard (by rw [hphase]; exact congrArg some h)
    have hnext := awaits_next_unanswered ha hanswer
    simp only [Contained, Contention.perform, Contention.update, hfirst, if_true]
    refine ⟨hw.lock, hothers, Or.inr
      ⟨outcome, k ((machine.surroundings t s.host).act o t).1, houtcome, by simp, ?_, ?_⟩⟩
    · simpa using hresolve
    · simpa [Call.ops, Deed.op?] using hnext

/-- The first call goes on, brings the sandbox up, or fails. -/
theorem Working.step {f : ℕ} {t : Moment} (hw : Working inputs root s f) (hfirst : s.first = some f)
    (hguard : .connect ∈ (s.calls f).phase.next → t.answer = false)
    (hstep : s.step inputs (f, t) = some next) : Contained inputs root next := by
  rcases hw.works with ⟨p, hphase, hresolve, ha⟩ | ⟨outcome, p, houtcome, hphase, hresolve, ha⟩
  · exact hw.settles hfirst hguard hphase hresolve ha hstep
  · exact hw.brings hfirst hguard houtcome hphase hresolve ha hstep

theorem Op.Looks.quiet {o : Op} (ho : o.Looks) : o.Quiet := by
  cases o <;> trivial

/-- A later call with the lock goes on looking, or returns. -/
theorem Looking.step {i : ℕ} {t : Moment} (hl : Looking s.host (s.calls i))
    (hlock : s.lock = some i)
    (hguard : ((machine.surroundings t s.host).pidfile .keeper ≠ none →
        (machine.surroundings t s.host).recorded .keeper = true) ∧
      ∀ o ∈ (s.calls i).phase.next, o.asksHealth = true → t.fails = none ∧ t.answer = true)
    (hstep : s.step inputs (i, t) = some next) :
    next.first = s.first ∧ Fades s.host next.host ∧
      ((next.lock = some i ∧ Looking next.host (next.calls i)) ∨
        (next.lock = none ∧ Content (next.calls i))) := by
  obtain ⟨⟨p, hphase, ha⟩, hdone⟩ := hl
  cases p with
  | ret settled =>
    obtain ⟨_, _, _, _, _, rfl⟩ := ha.ret
    simp only [Contention.step, hphase] at hstep
    obtain rfl := Option.some.inj hstep
    refine ⟨rfl, Fades.refl _, Or.inr ⟨by simp [Contention.giveBack, hlock], ?_, ?_⟩⟩
    · simp [Contention.giveBack, Contention.update]
    · simpa [Contention.giveBack, Contention.update] using hdone
  | fail e =>
    obtain ⟨_, _, _, _, _, hfalse⟩ := ha.fail
    exact hfalse.elim
  | act o k =>
    obtain ⟨hlooks, hnext⟩ := ha.act t fun events trace _ =>
      ⟨hguard.1, hguard.2 o (by rw [hphase]; rfl)⟩
    have ho : o ≠ .acquireLock := by
      rintro rfl
      exact hlooks
    obtain rfl := Option.some.inj ((step_settling inputs hphase ho t).symm.trans hstep)
    have hfades : Fades s.host ((machine.surroundings t s.host).act o t).2 :=
      (fades_surroundings t s.host).trans (fades_act hlooks.quiet t _)
    refine ⟨rfl, hfades,
      Or.inl ⟨hlock, ⟨k ((machine.surroundings t s.host).act o t).1, ?_, ?_⟩, ?_⟩⟩
    · simp [Contention.perform, Contention.update]
    · simpa [Contention.perform, Contention.update, Call.ops, Deed.op?] using hnext
    · intro deed hdeed
      simp only [Contention.perform, update_calls_self, List.mem_cons] at hdeed
      rcases hdeed with rfl | hdeed
      · exact Or.inl hlooks
      · exact hdone deed hdeed

theorem fades_foldl_after (events : List Event) (h : Host) : Fades h (events.foldl Host.after h) :=
  fades_surroundings { Moment.quiet with events := events } h

theorem Looking.disturb {h : Host} {call : Call} (hl : Looking h call) (events : List Event) :
    Looking (events.foldl Host.after h) call := by
  obtain ⟨⟨p, hphase, ha⟩, hdone⟩ := hl
  exact ⟨⟨p, hphase, ha.disturb events⟩, hdone⟩

/-- The steps of a call that has waited for the lock. -/
def lockedTrace (h : Host) : List (Step machine) :=
  [⟨.acquireLock, .quiet, h⟩, ⟨.enter .command, .quiet, h⟩]

/-- A later call that obtains the lock looks. -/
theorem looking_locked {input : UpInput} (hplain : input.opts.recreate = false) {h : Host}
    (hfile : h.pidfile .keeper ≠ none) : Looking h
      ⟨.settling (settleLocked input root), [.op .acquireLock, .op (.enter .command)]⟩ := by
  have hwp := settleLocked_answered hplain root (c := ⟨lockedTrace h, h⟩) hfile
  refine ⟨⟨_, rfl, awaits_of_wpOnly (d := disturbance) hwp⟩, fun deed hdeed => ?_⟩
  simp only [List.mem_cons, List.not_mem_nil, or_false] at hdeed
  rcases hdeed with rfl | rfl
  · exact Or.inr rfl
  · exact Or.inl (Or.inl rfl)

/-- Another call's step keeps what the first call has brought up, if it keeps what holds of the
others. -/
theorem Served.of_others {f i : ℕ} {t : Moment} {outcome : UpOutcome}
    (hs : Served inputs root s f outcome) (hi : i ≠ f) (hstep : s.step inputs (i, t) = some next)
    (hfades : Fades s.host next.host) (hlock : next.lock ≠ some f) (hfirst : next.first = s.first)
    (hothers : ∀ j, j ≠ f → (next.lock = some j ∧ Looking next.host (next.calls j)) ∨
      (next.lock ≠ some j ∧ (Waits (inputs j) root (next.calls j) ∨ Content (next.calls j)))) :
    Served inputs root next f outcome ∧ next.first = s.first := by
  have hcall : next.calls f = s.calls f := step_calls_of_ne hstep (Ne.symm hi)
  have hpidfile : next.host.pidfile .keeper ≠ none := by
    rw [hfades.pidfile]
    exact hs.pidfile
  exact ⟨⟨hs.outcome, by rw [hcall]; exact hs.resolved, by rw [hcall]; exact hs.spawned, hpidfile,
    hlock, hothers⟩, hfirst⟩

/-- A step of a call that works with the lock when the sandbox is up. -/
theorem Served.step_looking {f i : ℕ} {t : Moment} {outcome : UpOutcome}
    (hs : Served inputs root s f outcome) (hi : i ≠ f) (hlock : s.lock = some i)
    (hlooking : Looking s.host (s.calls i))
    (hguard : ((machine.surroundings t s.host).pidfile .keeper ≠ none →
        (machine.surroundings t s.host).recorded .keeper = true) ∧
      ∀ o ∈ (s.calls i).phase.next, o.asksHealth = true → t.fails = none ∧ t.answer = true)
    (hstep : s.step inputs (i, t) = some next) :
    Served inputs root next f outcome ∧ next.first = s.first := by
  obtain ⟨hfirst, hfades, hcases⟩ := hlooking.step hlock hguard hstep
  have hrest : ∀ j, j ≠ f → j ≠ i →
      Waits (inputs j) root (next.calls j) ∨ Content (next.calls j) := by
    intro j hj hji
    rw [step_calls_of_ne hstep hji]
    rcases hs.others j hj with ⟨hlock', -⟩ | ⟨-, h⟩
    · exact (hji (Option.some.inj (hlock'.symm.trans hlock))).elim
    · exact h
  rcases hcases with ⟨hlock', hlooking'⟩ | ⟨hlock', hcontent⟩
  · refine hs.of_others hi hstep hfades (by simp [hlock', hi]) hfirst fun j hj => ?_
    by_cases hji : j = i
    · subst hji
      exact Or.inl ⟨hlock', hlooking'⟩
    · exact Or.inr ⟨by simp [hlock', Ne.symm hji], hrest j hj hji⟩
  · refine hs.of_others hi hstep hfades (by simp [hlock']) hfirst fun j hj =>
      Or.inr ⟨by simp [hlock'], ?_⟩
    by_cases hji : j = i
    · subst hji
      exact Or.inr hcontent
    · exact hrest j hj hji

/-- A step of a call that waits when the sandbox is up. -/
theorem Served.step_waits {f i : ℕ} {t : Moment} {outcome : UpOutcome}
    (hsame : ∀ i, statePaths (inputs i).host.homeVar (inputs i).manifest.sandbox.name = .ok root)
    (hplain : ∀ i, (inputs i).opts.recreate = false) (hs : Served inputs root s f outcome)
    (hsfirst : s.first = some f) (hi : i ≠ f) (hlock : s.lock ≠ some i)
    (hwaits : Waits (inputs i) root (s.calls i)) (hstep : s.step inputs (i, t) = some next) :
    Served inputs root next f outcome ∧ next.first = s.first := by
  rcases hwaits.step (hsame i) hstep with
    ⟨hwaits', hlock', hfirst, hhost⟩ | ⟨hfree, hlock', hfirst, hhost, hcall'⟩
  · have hfades : Fades s.host next.host := by
      rw [hhost]
      exact fades_foldl_after t.events s.host
    refine hs.of_others hi hstep hfades (by rw [hlock']; exact hs.lock) hfirst fun j hj => ?_
    by_cases hji : j = i
    · subst hji
      exact Or.inr ⟨by rw [hlock']; exact hlock, Or.inl hwaits'⟩
    · rw [step_calls_of_ne hstep hji, hlock', hhost]
      rcases hs.others j hj with ⟨hlockj, hlooking⟩ | hrest
      · exact Or.inl ⟨hlockj, hlooking.disturb t.events⟩
      · exact Or.inr hrest
  · have hfades : Fades s.host next.host := by
      rw [hhost]
      exact Fades.refl _
    have hfirst' : next.first = s.first := by rw [hfirst, hsfirst, Option.some_or]
    refine hs.of_others hi hstep hfades (by simp [hlock', hi]) hfirst' fun j hj => ?_
    by_cases hji : j = i
    · subst hji
      refine Or.inl ⟨hlock', ?_⟩
      rw [hcall', hhost]
      exact looking_locked (hplain j) hs.pidfile
    · rw [step_calls_of_ne hstep hji, hlock']
      rcases hs.others j hj with ⟨hlockj, -⟩ | ⟨-, hrest⟩
      · rw [hfree] at hlockj
        cases hlockj
      · exact Or.inr ⟨by simp [Ne.symm hji], hrest⟩

/-- Once the sandbox is up, every step leaves it up. -/
theorem Served.step {f : ℕ} {outcome : UpOutcome} {a : ℕ × Moment}
    (hsame : ∀ i, statePaths (inputs i).host.homeVar (inputs i).manifest.sandbox.name = .ok root)
    (hplain : ∀ i, (inputs i).opts.recreate = false) (hs : Served inputs root s f outcome)
    (hsfirst : s.first = some f) (hphase : (s.calls f).phase = .returned (.ok outcome))
    (hguard : ((machine.surroundings a.2 s.host).pidfile .keeper ≠ none →
        (machine.surroundings a.2 s.host).recorded .keeper = true) ∧
      ∀ o ∈ (s.calls a.1).phase.next, o.asksHealth = true → a.2.fails = none ∧ a.2.answer = true)
    (hstep : s.step inputs a = some next) :
    Served inputs root next f outcome ∧ next.first = s.first := by
  obtain ⟨i, t⟩ := a
  by_cases hi : i = f
  · subst hi
    simp only [Contention.step, hphase] at hstep
    cases hstep
  rcases hs.others i hi with ⟨hlock, hlooking⟩ | ⟨hlock, hwaits | hcontent⟩
  · exact hs.step_looking hi hlock hlooking hguard hstep
  · exact hs.step_waits hsame hplain hsfirst hi hlock hwaits hstep
  · simp only [Contention.step, hcontent.returned] at hstep
    cases hstep

theorem step_first {a : ℕ × Moment} {f : ℕ} (hfirst : s.first = some f)
    (hstep : s.step inputs a = some next) : next.first = some f := by
  unfold Contention.step at hstep
  split at hstep
  · split at hstep
    · obtain rfl := Option.some.inj hstep
      simp [Contention.take, hfirst]
    · cases hstep
  all_goals first
    | (obtain rfl := Option.some.inj hstep
       exact hfirst)
    | cases hstep

/-- A step while no `up` has had the lock. -/
theorem contained_step_free {i : ℕ} {t : Moment}
    (hsame : ∀ i, statePaths (inputs i).host.homeVar (inputs i).manifest.sandbox.name = .ok root)
    (hplain : ∀ i, (inputs i).opts.recreate = false) (hfirst : s.first = none)
    (hfree : s.lock = none) (hwaits : ∀ i, Waits (inputs i) root (s.calls i))
    (hstep : s.step inputs (i, t) = some next) : Contained inputs root next := by
  have hothers : ∀ j, j ≠ i → Waits (inputs j) root (next.calls j) := fun j hne => by
    rw [step_calls_of_ne hstep hne]
    exact hwaits j
  rcases (hwaits i).step (hsame i) hstep with
    ⟨hwaits', hlock, hfirst', -⟩ | ⟨-, hlock, hfirst', hhost, hcall⟩
  · rw [hfirst] at hfirst'
    simp only [Contained, hfirst']
    refine ⟨hlock.trans hfree, fun j => ?_⟩
    by_cases hji : j = i
    · subst hji
      exact hwaits'
    · exact hothers j hji
  · rw [hfirst, Option.none_or] at hfirst'
    have hwp :=
      settleLocked_unanswered (hplain i) root (c := ⟨lockedTrace next.host, next.host⟩) rfl
    simp only [Contained, hfirst', hcall]
    refine ⟨hlock, hothers,
      Or.inl ⟨settleLocked (inputs i) root, by rw [hcall], by rw [hcall]; rfl, ?_⟩⟩
    rw [hcall]
    exact awaits_of_wpOnly (wpOnly_of_wp hwp)

/-- A step of another `up` while the first one works. -/
theorem Working.other {f i : ℕ} {t : Moment}
    (hsame : ∀ i, statePaths (inputs i).host.homeVar (inputs i).manifest.sandbox.name = .ok root)
    (hw : Working inputs root s f) (hif : i ≠ f) (hfirst : next.first = some f)
    (hstep : s.step inputs (i, t) = some next) : Contained inputs root next := by
  rcases (hw.others i hif).step (hsame i) hstep with ⟨hwaits, hlock, -, hhost⟩ | ⟨hfree, -⟩
  · have hcall : next.calls f = s.calls f := step_calls_of_ne hstep (Ne.symm hif)
    have hw' : Working inputs root next f := by
      refine ⟨hlock.trans hw.lock, fun j hj => ?_, ?_⟩
      · by_cases hji : j = i
        · subst hji
          exact hwaits
        · rw [step_calls_of_ne hstep hji]
          exact hw.others j hj
      · rw [hcall, hhost]
        rcases hw.works with ⟨p, hphase, hresolve, ha⟩ | ⟨outcome, p, ho, hphase, hresolve, ha⟩
        · exact Or.inl ⟨p, hphase, hresolve, ha.disturb t.events⟩
        · exact Or.inr ⟨outcome, p, ho, hphase, hresolve, ha.disturb t.events⟩
    simp only [Contained, hfirst, hcall]
    rcases hw.works with ⟨p, hphase, -⟩ | ⟨_, p, -, hphase, -⟩
    · rw [hphase]
      exact hw'
    · rw [hphase]
      exact hw'
  · rw [hw.lock] at hfree
    cases hfree

/-- Every step keeps the invariant. -/
theorem contained_step {a : ℕ × Moment}
    (hsame : ∀ i, statePaths (inputs i).host.homeVar (inputs i).manifest.sandbox.name = .ok root)
    (hplain : ∀ i, (inputs i).opts.recreate = false) (hs : Contained inputs root s)
    (hguard : Responsive s a) (hstep : s.step inputs a = some next) :
    Contained inputs root next := by
  obtain ⟨i, t⟩ := a
  cases hfirst : s.first with
  | none =>
    simp only [Contained, hfirst] at hs
    exact contained_step_free hsame hplain hfirst hs.1 hs.2 hstep
  | some f =>
    have hfirst' := step_first hfirst hstep
    have hworking : Working inputs root s f → s.served = false → Contained inputs root next := by
      intro hw hserved
      have hno : .connect ∈ (s.calls i).phase.next → t.answer = false := by
        have h := hguard
        simp only [Responsive, hserved, Bool.false_eq_true, if_false] at h
        exact h
      by_cases hif : i = f
      · subst hif
        exact hw.step hfirst hno hstep
      · exact hw.other hsame hif hfirst' hstep
    have hcallf : ∀ r, (s.calls f).phase = .returned r → next.calls f = s.calls f := by
      intro r hphase
      by_cases hif : i = f
      · subst hif
        simp only [Contention.step, hphase] at hstep
        cases hstep
      · exact step_calls_of_ne hstep (Ne.symm hif)
    simp only [Contained, hfirst] at hs
    cases hphase : (s.calls f).phase with
    | settling p =>
      rw [hphase] at hs
      exact hworking hs (by simp [Contention.served, hfirst, hphase])
    | bringing p =>
      rw [hphase] at hs
      exact hworking hs (by simp [Contention.served, hfirst, hphase])
    | returned r =>
      have hcall := hcallf r hphase
      cases r with
      | error e =>
        simp only [Contained, hfirst', hcall, hphase]
      | ok outcome =>
        rw [hphase] at hs
        have hserved : s.served = true := by simp [Contention.served, hfirst, hphase]
        have hanswers := hguard
        simp only [Responsive, hserved, if_true] at hanswers
        simp only [Contained, hfirst', hcall, hphase]
        exact (hs.step hsame hplain hfirst hphase hanswers hstep).1

/-- A call that works with the lock can go on. -/
theorem Looking.proceeds (inputs : ℕ → UpInput) {i : ℕ} (hl : Looking s.host (s.calls i)) :
    ∃ t next, s.step inputs (i, t) = some next := by
  obtain ⟨⟨p, hphase, ha⟩, -⟩ := hl
  cases p with
  | ret settled =>
    obtain ⟨_, _, _, _, _, rfl⟩ := ha.ret
    exact ⟨.quiet, s.giveBack i (.ok .alreadyUp), by simp only [Contention.step, hphase]⟩
  | fail e =>
    obtain ⟨_, _, _, _, _, hfalse⟩ := ha.fail
    exact hfalse.elim
  | act o k =>
    have ho : o ≠ .acquireLock := by
      rintro rfl
      obtain ⟨_, _, _, _, _, hlooks, _⟩ := ha
      exact hlooks
    exact ⟨.quiet, _, step_settling inputs hphase ho .quiet⟩

/-- A call that waits can go on, if the lock is free. -/
theorem Waits.proceeds {i : ℕ} (hw : Waits (inputs i) root (s.calls i)) (hfree : s.lock = none) :
    ∃ t next, s.step inputs (i, t) = some next := by
  generalize hcall : s.calls i = call at hw
  have hphase : (s.calls i).phase = call.phase := by rw [hcall]
  cases hw with
  | fresh => exact ⟨.quiet, _, step_settling inputs hphase (by simp) .quiet⟩
  | queued =>
    refine ⟨.quiet, s.take i (.settling (settleLocked (inputs i) root)), ?_⟩
    unfold Contention.step
    dsimp only
    rw [hphase]
    exact if_pos hfree

theorem Served.broughtUpOnce {f : ℕ} {outcome : UpOutcome} (hs : Served inputs root s f outcome)
    (hphase : (s.calls f).phase = .returned (.ok outcome)) :
    BroughtUpOnce inputs s f outcome where
  outcome := hs.outcome
  resolved := hs.resolved
  spawned := hs.spawned
  others := by
    intro i hi deed hdeed
    rcases hs.others i hi with ⟨-, hlooking⟩ | ⟨-, hwaits | hcontent⟩
    · exact hlooking.done deed hdeed
    · generalize s.calls i = call at hwaits hdeed
      cases hwaits with
      | fresh => cases hdeed
      | queued =>
        obtain rfl := List.mem_singleton.mp hdeed
        exact Or.inl (Or.inl rfl)
    · exact hcontent.done deed hdeed
  alreadyUp := by
    intro i hi r hr
    rcases hs.others i hi with ⟨-, hlooking⟩ | ⟨-, hwaits | hcontent⟩
    · obtain ⟨p, hp, -⟩ := hlooking.works
      rw [hp] at hr
      cases hr
    · generalize s.calls i = call at hwaits hr
      cases hwaits <;> cases hr
    · exact (Phase.returned.inj (hcontent.returned.symm.trans hr)).symm
  proceeds := by
    intro i
    by_cases hi : i = f
    · subst hi
      exact Or.inl ⟨_, hphase⟩
    · rcases hs.others i hi with ⟨-, hlooking⟩ | ⟨-, hwaits | hcontent⟩
      · exact Or.inr (Or.inl (hlooking.proceeds inputs))
      · cases hlock : s.lock with
        | none => exact Or.inr (Or.inl (hwaits.proceeds hlock))
        | some j =>
          have hj : j ≠ f := by
            rintro rfl
            exact hs.lock hlock
          rcases hs.others j hj with ⟨-, hlooking⟩ | ⟨hlock', -⟩
          · obtain ⟨t, next, hnext⟩ := hlooking.proceeds inputs
            exact Or.inr (Or.inr ⟨j, t, next, rfl, hnext⟩)
          · exact (hlock' hlock).elim
      · exact Or.inl ⟨_, hcontent.returned⟩

end Calls

/-- Both calls begin, then the first one brings the sandbox up, then the second one goes on. -/
def contendingActs : List (ℕ × Moment) :=
  let moments := sampleMoments [] []
  ([0, 1] ++ List.replicate 23 0 ++ List.replicate 6 1).zip moments

end Devcroft.Lifecycle
