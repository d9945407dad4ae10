import Devcroft.Lifecycle.PostCreate

/-!
# What a successful `up` says about the scripts

An `up` whose activation script or hook fails returns an error, and leaves a live
keeper behind. The next `up` infers what is still to be run from the health of that
keeper. The invariant is on a ledger of the run: of the scripts that were completed, and
of those that the recorded keeper should have seen.
-/

namespace Devcroft.Lifecycle

open Program

/-- The scripts of a project that `up` runs in the keeper, where they are defined. -/
structure Scripts where
  activation : Option String
  postCreate : Option String
  postStart : Option String
  deriving DecidableEq

/-- The scripts that an `up` finds defined. -/
def UpInput.scripts (input : UpInput) : Scripts where
  activation :=
    match input.resolution with
    | .ok resolution => resolution.activationScript
    | .error _ => none
  postCreate := input.manifest.hooks.postCreate
  postStart := input.manifest.hooks.postStart

/-- The scripts of a command. -/
def Command.scripts : Command → Scripts
  | .up input => input.scripts
  | _ => ⟨none, none, none⟩

/-- What is known of the scripts after a part of a run. -/
structure Ledger where
  /-- How many commands have begun. -/
  commands : ℕ
  /-- The scripts of the current one. -/
  running : Scripts
  /-- Whether it has asked for the health of the sandbox. -/
  asked : Bool
  /-- Whether it recovers a stale sandbox. -/
  recovering : Bool
  /-- The scripts of the command that recorded the current keeper. -/
  keeper : Option Scripts
  /-- Whether waiting for that keeper or running a script in it has failed. -/
  failed : Bool
  /-- The scripts that were completed in it. -/
  completed : List (String × String)
  /-- The scripts of the command that created the sandbox: that last recorded a keeper other than in
  a recovery. -/
  creator : Option Scripts
  /-- Whether that command has failed before it was past `post_create`. -/
  owing : Bool
  /-- The scripts that were completed since the sandbox was first created or last recreated. -/
  created : List (String × String)

/-- A new keeper is recorded. -/
def Ledger.recorded (l : Ledger) : Ledger :=
  { l with
    keeper := some l.running
    failed := false
    completed := []
    creator := if l.recovering then l.creator else some l.running
    owing := if l.recovering then l.owing else false }

/-- A script is completed. -/
def Ledger.ran (l : Ledger) (name command : String) : Ledger :=
  { l with completed := (name, command) :: l.completed, created := (name, command) :: l.created }

/-- Waiting for the keeper or a script fails, the script being `post_start` or not. -/
def Ledger.broke (l : Ledger) (last : Bool) : Ledger :=
  { l with failed := true, owing := l.owing || (!l.recovering && !last) }

/-- The sandbox is recreated. -/
def Ledger.recreated (l : Ledger) : Ledger :=
  { l with creator := none, owing := false, created := [] }

/-- The ledger after a step of a session of these commands. Only an `up --recreate` comes to the
state directory without having asked for the health of the sandbox. -/
def Ledger.after (cmds : List Command) (l : Ledger) (step : Step machine) : Ledger :=
  match step.op with
  | .enter .command =>
    { l with
      commands := l.commands + 1
      running := (cmds[l.commands]?.map Command.scripts).getD ⟨none, none, none⟩
      asked := false
      recovering := false }
  | .enter .health => { l with asked := true }
  | .enter .staleRecovery => { l with recovering := true }
  | .attempt .createRoot => if l.asked then l else l.recreated
  | .writeRecord .keeper _ _ => if step.choice.fails.isSome then l else l.recorded
  | .attempt .waitUntilResponsive => if step.choice.fails.isSome then l.broke false else l
  | .attempt (.hook name command) =>
    if step.choice.fails.isSome then l.broke (name == "post_start") else l.ran name command
  | _ => l

/-- The ledger of a trace. -/
def ledger (cmds : List Command) : List (Step machine) → Ledger
  | [] => ⟨0, ⟨none, none, none⟩, false, false, none, false, [], none, false, []⟩
  | step :: earlier => (ledger cmds earlier).after cmds step

/-- A script is among the completed ones, where it is defined. -/
def Completed (name : String) (script : Option String) (entries : List (String × String)) : Prop :=
  ∀ command, script = some command → (name, command) ∈ entries

instance (name : String) (script : Option String) (entries : List (String × String)) :
    Decidable (Completed name script entries) :=
  match script with
  | none => isTrue fun _ h => nomatch h
  | some command =>
    decidable_of_iff ((name, command) ∈ entries)
      ⟨fun h _ heq => Option.some.inj heq ▸ h, fun h => h command rfl⟩

/-- The scripts of an `up` are done: the activation script and `post_start` in the current keeper,
`post_create` since the sandbox was first created or last recreated. -/
structure HooksDone (scripts : Scripts) (l : Ledger) : Prop where
  activation : Completed "activation" scripts.activation l.completed
  postStart : Completed "post_start" scripts.postStart l.completed
  postCreate : Completed "post_create" scripts.postCreate l.created

instance (scripts : Scripts) (l : Ledger) : Decidable (HooksDone scripts l) :=
  decidable_of_iff
    (Completed "activation" scripts.activation l.completed ∧
      Completed "post_start" scripts.postStart l.completed ∧
      Completed "post_create" scripts.postCreate l.created)
    ⟨fun h => ⟨h.1, h.2.1, h.2.2⟩, fun h => ⟨h.activation, h.postStart, h.postCreate⟩⟩

/-- A script that is defined is the one that was to be run then, and nothing failed since. -/
def Covers (due : Option Scripts) (failed : Bool) (script : Scripts → Option String)
    (now : Scripts) : Prop :=
  script now = none ∨ (failed = false ∧ due.map script = some (script now))

instance (due : Option Scripts) (failed : Bool) (script : Scripts → Option String)
    (now : Scripts) : Decidable (Covers due failed script now) := by
  unfold Covers
  infer_instance

/-- The condition on a step: an `up` takes a keeper for healthy only if no script failed in it, and
takes one for healthy or stale only if the sandbox was created without a failure up to
`post_create`; and its scripts are still those that were to be run then. -/
def Followed (cmds : List Command) : Guard machine := fun step earlier =>
  let l := ledger cmds earlier
  match step.op with
  | .enter .staleRecovery => Covers l.creator l.owing Scripts.postCreate l.running
  | .connect =>
    step.choice.answer = true →
      Covers l.keeper l.failed Scripts.activation l.running ∧
        Covers l.keeper l.failed Scripts.postStart l.running ∧
        Covers l.creator l.owing Scripts.postCreate l.running
  | _ => True

theorem followed_iff (cmds : List Command) (step : Step machine) (earlier : List (Step machine)) :
    Followed cmds step earlier ↔
      (step.op = .enter .staleRecovery →
        Covers (ledger cmds earlier).creator (ledger cmds earlier).owing Scripts.postCreate
          (ledger cmds earlier).running) ∧
      (step.op = .connect → step.choice.answer = true →
        Covers (ledger cmds earlier).keeper (ledger cmds earlier).failed Scripts.activation
          (ledger cmds earlier).running ∧
        Covers (ledger cmds earlier).keeper (ledger cmds earlier).failed Scripts.postStart
          (ledger cmds earlier).running ∧
        Covers (ledger cmds earlier).creator (ledger cmds earlier).owing Scripts.postCreate
          (ledger cmds earlier).running) := by
  unfold Followed
  dsimp only
  split
  · next hop => simp [hop]
  · next hop => simp [hop]
  · next hrecovery hconnect =>
    exact iff_of_true trivial ⟨fun hop => (hrecovery hop).elim, fun hop => (hconnect hop).elim⟩

instance (cmds : List Command) (step : Step machine) (earlier : List (Step machine)) :
    Decidable (Followed cmds step earlier) :=
  decidable_of_iff' _ (followed_iff cmds step earlier)

/-- What a ledger says about the scripts that were to be run. -/
structure Ledger.Sound (l : Ledger) : Prop where
  activation : ∀ s, l.keeper = some s → l.failed = false →
    Completed "activation" s.activation l.completed
  postStart : ∀ s, l.keeper = some s → l.failed = false →
    Completed "post_start" s.postStart l.completed
  postCreate : ∀ s, l.creator = some s → l.owing = false →
    Completed "post_create" s.postCreate l.created

/-- What is covered has been completed. -/
theorem Covers.completed {name : String} {due : Option Scripts} {failed : Bool}
    {script : Scripts → Option String} {now : Scripts} {entries : List (String × String)}
    (h : Covers due failed script now)
    (hsound : ∀ s, due = some s → failed = false → Completed name (script s) entries) :
    Completed name (script now) entries := by
  intro command hcommand
  rcases h with hnone | ⟨hfailed, hsame⟩
  · rw [hnone] at hcommand
    cases hcommand
  · obtain ⟨s, hs, heq⟩ := Option.map_eq_some_iff.mp hsame
    exact hsound s hs hfailed command (heq.trans hcommand)

theorem Completed.ran {name : String} {script : Option String} {entries : List (String × String)}
    (h : Completed name script entries) (entry : String × String) :
    Completed name script (entry :: entries) :=
  fun command hcommand => List.mem_cons_of_mem _ (h command hcommand)

theorem Ledger.Sound.recreated {l : Ledger} (h : l.Sound) : l.recreated.Sound :=
  ⟨h.activation, h.postStart, fun _ hnone => nomatch hnone⟩

/-- A ledger in an `up` that has settled on an outcome. -/
structure Ledger.Settled (l : Ledger) (scripts : Scripts) (outcome : UpOutcome) : Prop where
  running : l.running = scripts
  creating : l.recovering = false → outcome = .started ∨ outcome = .recreated
  asked : l.recovering = true → l.asked = true
  covered : l.recovering = true → Completed "post_create" scripts.postCreate l.created

/-- A ledger in an `up` that has recorded its keeper, and has had no failure since. -/
structure Ledger.Recorded (l : Ledger) (scripts : Scripts) : Prop where
  keeper : l.keeper = some scripts
  failed : l.failed = false
  created : l.recovering = false → l.creator = some scripts ∧ l.owing = false
  old : l.recovering = true → ∀ s, l.creator = some s → l.owing = false →
    Completed "post_create" s.postCreate l.created
  covered : l.recovering = true → Completed "post_create" scripts.postCreate l.created

theorem Ledger.Settled.recorded {l : Ledger} {scripts : Scripts} {outcome : UpOutcome}
    (h : l.Settled scripts outcome) (hsound : l.Sound) : l.recorded.Recorded scripts where
  keeper := congrArg some h.running
  failed := rfl
  created := by
    intro hrecovering
    have hfalse : ¬(l.recovering = true) := by simpa [Ledger.recorded] using hrecovering
    simp only [Ledger.recorded, if_neg hfalse]
    exact ⟨congrArg some h.running, trivial⟩
  old := by
    intro hrecovering s hs howing
    have htrue : l.recovering = true := hrecovering
    simp only [Ledger.recorded, if_pos htrue] at hs howing
    exact hsound.postCreate s hs howing
  covered := h.covered

theorem Ledger.Recorded.ran {l : Ledger} {scripts : Scripts} (h : l.Recorded scripts)
    (name command : String) : (l.ran name command).Recorded scripts where
  keeper := h.keeper
  failed := h.failed
  created := h.created
  old := fun hrecovering s hs howing => (h.old hrecovering s hs howing).ran _
  covered := fun hrecovering => (h.covered hrecovering).ran _

/-- A failure after the record: what is owed is owed. -/
theorem Ledger.Recorded.broke {l : Ledger} {scripts : Scripts} (h : l.Recorded scripts)
    {last : Bool} (hlast : last = true → l.recovering = false →
      Completed "post_create" scripts.postCreate l.created) : (l.broke last).Sound where
  activation := fun _ _ hfailed => nomatch hfailed
  postStart := fun _ _ hfailed => nomatch hfailed
  postCreate := by
    intro s hs howing
    have howing : l.owing = false ∧ (l.recovering = false → last = true) := by
      simpa [Ledger.broke] using howing
    cases hrecovering : l.recovering with
    | true => exact h.old hrecovering s hs howing.1
    | false =>
      obtain rfl : scripts = s := Option.some.inj ((h.created hrecovering).1.symm.trans hs)
      exact hlast (howing.2 hrecovering) hrecovering

/-- Without a failure everything is completed. -/
theorem Ledger.Recorded.sound {l : Ledger} {scripts : Scripts} (h : l.Recorded scripts)
    (hactivation : Completed "activation" scripts.activation l.completed)
    (hstart : Completed "post_start" scripts.postStart l.completed)
    (hcreate : l.recovering = false → Completed "post_create" scripts.postCreate l.created) :
    l.Sound ∧ HooksDone scripts l := by
  have hkeeper : ∀ s, l.keeper = some s → s = scripts :=
    fun s hs => Option.some.inj (hs.symm.trans h.keeper)
  refine ⟨⟨fun s hs _ => ?_, fun s hs _ => ?_, fun s hs howing => ?_⟩, hactivation, hstart, ?_⟩
  · rw [hkeeper s hs]
    exact hactivation
  · rw [hkeeper s hs]
    exact hstart
  · cases hrecovering : l.recovering with
    | true => exact h.old hrecovering s hs howing
    | false =>
      obtain rfl : scripts = s := Option.some.inj ((h.created hrecovering).1.symm.trans hs)
      exact hcreate hrecovering
  · cases hrecovering : l.recovering with
    | true => exact h.covered hrecovering
    | false => exact hcreate hrecovering

section Steps

variable {cmds : List Command} {G : Guard machine}

/-- The operations that the ledger does not note. -/
def Op.Silent : Op → Prop
  | .enter place => place ≠ .command ∧ place ≠ .health ∧ place ≠ .staleRecovery
  | .attempt a => a.Prepares
  | .writeRecord r _ _ => r = .proxy
  | _ => True

theorem Op.Aside.silent {o : Op} (ho : o.Aside) : o.Silent := by
  cases o <;> trivial

theorem ledger_next {o : Op} (ho : o.Silent) (c : Config machine) (t : Moment) :
    ledger cmds (c.next o t).trace = ledger cmds c.trace := by
  cases o with
  | enter place =>
    cases place with
    | command => exact (ho.1 rfl).elim
    | health => exact (ho.2.1 rfl).elim
    | staleRecovery => exact (ho.2.2 rfl).elim
    | _ => rfl
  | attempt a =>
    cases a with
    | createRoot => exact ho.elim
    | waitUntilResponsive => exact ho.elim
    | hook name command => exact ho.elim
    | _ => rfl
  | writeRecord r pid start =>
    obtain rfl : r = .proxy := ho
    rfl
  | _ => rfl

/-- A program of such operations. -/
theorem wp_silent {α : Type} {p : Cmd α} (hp : Only Op.Silent p) {c : Config machine} {l : Ledger}
    (hl : ledger cmds c.trace = l) : wp G (fun _ c' => ledger cmds c'.trace = l)
      (fun _ c' => ledger cmds c'.trace = l) p c :=
  wp_of_only hp (fun _ c' t ho h _ => (ledger_next ho c' t).trans h) hl

/-- Where such a program comes first, a failure leaves what follows from the ledger alone. -/
theorem wp_silent_bind {α β : Type} {p : Cmd α} {f : α → Cmd β} {Q : β → Config machine → Prop}
    {E : UpError → Config machine → Prop} (hp : Only Op.Silent p) {c : Config machine} {l : Ledger}
    (hl : ledger cmds c.trace = l) (hfail : ∀ e c', ledger cmds c'.trace = l → E e c')
    (hf : ∀ a c', ledger cmds c'.trace = l → wp G Q E (f a) c') : wp G Q E (p >>= f) c :=
  wp_seq (wp_mono (wp_silent hp hl) (fun _ _ h => h) hfail) hf

/-- Parts of a command that stand aside. -/
theorem wp_aside_bind {α β : Type} {p : Cmd α} {f : α → Cmd β} {Q : β → Config machine → Prop}
    {E : UpError → Config machine → Prop} (hp : Only Op.Aside p) {c : Config machine} {l : Ledger}
    (hl : ledger cmds c.trace = l) (hfail : ∀ e c', ledger cmds c'.trace = l → E e c')
    (hf : ∀ a c', ledger cmds c'.trace = l → wp G Q E (f a) c') : wp G Q E (p >>= f) c :=
  wp_silent_bind (hp.mono fun _ => Op.Aside.silent) hl hfail hf

theorem silent_clearRuntimeState : Only Op.Silent clearRuntimeState :=
  only_clearRuntimeState fun _ => trivial

/-- A script that may be defined is run. -/
def Ledger.runs (l : Ledger) (name : String) : Option String → Ledger
  | none => l
  | some command => l.ran name command

/-- `runHook` notes the script where it is defined, or a failure. -/
theorem runHook_ledger (cmds : List Command) (name : String) (command : Option String)
    (c : Config machine) :
    wp G (fun _ c' => ledger cmds c'.trace = (ledger cmds c.trace).runs name command)
      (fun _ c' => ledger cmds c'.trace = (ledger cmds c.trace).broke (name == "post_start"))
      (runHook name command) c := by
  cases command with
  | none => exact rfl
  | some command =>
    refine (wp_perform_bind _ _ _ _ _).mpr fun t _ => ?_
    have hanswer : c.answer (.attempt (.hook name command)) t = t.fallible () := rfl
    have hnext : ledger cmds (c.next (.attempt (.hook name command)) t).trace =
        if t.fails.isSome then (ledger cmds c.trace).broke (name == "post_start")
        else (ledger cmds c.trace).ran name command := rfl
    rw [hanswer]
    unfold Moment.fallible
    cases hfails : t.fails with
    | some e =>
      rw [hfails] at hnext
      exact hnext
    | none =>
      rw [hfails] at hnext
      exact hnext

/-- Waiting for the keeper notes a failure. -/
theorem wait_ledger (cmds : List Command) (wrap : String → UpError) (c : Config machine) :
    wp G (fun _ c' => ledger cmds c'.trace = ledger cmds c.trace)
      (fun _ c' => ledger cmds c'.trace = (ledger cmds c.trace).broke false)
      (attempt .waitUntilResponsive wrap) c := by
  refine (wp_perform_bind _ _ _ _ _).mpr fun t _ => ?_
  have hanswer : c.answer (.attempt .waitUntilResponsive) t = t.fallible () := rfl
  have hnext : ledger cmds (c.next (.attempt .waitUntilResponsive) t).trace =
      if t.fails.isSome then (ledger cmds c.trace).broke false else ledger cmds c.trace := rfl
  rw [hanswer]
  unfold Moment.fallible
  cases hfails : t.fails with
  | some e =>
    rw [hfails] at hnext
    exact hnext
  | none =>
    rw [hfails] at hnext
    exact hnext

theorem Ledger.Recorded.runs {l : Ledger} {scripts : Scripts} (h : l.Recorded scripts)
    (name : String) (command : Option String) : (l.runs name command).Recorded scripts := by
  cases command with
  | none => exact h
  | some command => exact h.ran name command

theorem Completed.runs {name : String} {script : Option String} {l : Ledger}
    (h : Completed name script l.completed) (name' : String) (command : Option String) :
    Completed name script (l.runs name' command).completed := by
  cases command with
  | none => exact h
  | some command => exact h.ran _

theorem Completed.runs_created {name : String} {script : Option String} {l : Ledger}
    (h : Completed name script l.created) (name' : String) (command : Option String) :
    Completed name script (l.runs name' command).created := by
  cases command with
  | none => exact h
  | some command => exact h.ran _

theorem completed_cons (name command : String) (entries : List (String × String)) :
    Completed name (some command) ((name, command) :: entries) := by
  intro command' heq
  rw [Option.some.inj heq]
  exact List.mem_cons_self

/-- A script that was run is completed, in the keeper and since the creation. -/
theorem completed_runs (l : Ledger) (name : String) (command : Option String) :
    Completed name command (l.runs name command).completed ∧
      Completed name command (l.runs name command).created := by
  cases command with
  | none => exact ⟨fun _ h => (nomatch h), fun _ h => (nomatch h)⟩
  | some command => exact ⟨completed_cons _ _ _, completed_cons _ _ _⟩

theorem runs_recovering (l : Ledger) (name : String) (command : Option String) :
    (l.runs name command).recovering = l.recovering := by
  cases command <;> rfl

theorem runs_commands (l : Ledger) (name : String) (command : Option String) :
    (l.runs name command).commands = l.commands := by
  cases command <;> rfl

/-- The scripts of the commands that have begun are accounted for. -/
structure Reckoned (cmds : List Command) (n : ℕ) (c : Config machine) : Prop where
  sound : (ledger cmds c.trace).Sound
  commands : (ledger cmds c.trace).commands = n

theorem Reckoned.of_eq {n : ℕ} {c c' : Config machine} (hc : Reckoned cmds n c)
    (heq : ledger cmds c'.trace = ledger cmds c.trace) : Reckoned cmds n c' where
  sound := by
    rw [heq]
    exact hc.sound
  commands := by
    rw [heq]
    exact hc.commands

/-- What the ledger takes no account of in its soundness may change. -/
theorem Ledger.Sound.begun {l : Ledger} (h : l.Sound) {commands : ℕ} {running : Scripts}
    {asked recovering : Bool} :
    { l with commands, running, asked, recovering : Ledger }.Sound :=
  ⟨h.activation, h.postStart, h.postCreate⟩

/-- A command begins. -/
theorem Reckoned.enter {n : ℕ} {c : Config machine} (hc : Reckoned cmds n c) (t : Moment) :
    Reckoned cmds (n + 1) (c.next (.enter .command) t) ∧
      (ledger cmds (c.next (.enter .command) t).trace).running =
        (cmds[n]?.map Command.scripts).getD ⟨none, none, none⟩ ∧
      (ledger cmds (c.next (.enter .command) t).trace).recovering = false := by
  have hnext : ledger cmds (c.next (.enter .command) t).trace =
      { ledger cmds c.trace with
        commands := (ledger cmds c.trace).commands + 1
        running := (cmds[(ledger cmds c.trace).commands]?.map Command.scripts).getD
          ⟨none, none, none⟩
        asked := false
        recovering := false } := rfl
  rw [hc.commands] at hnext
  refine ⟨⟨?_, ?_⟩, ?_, ?_⟩ <;> rw [hnext]
  exact hc.sound.begun

/-- What a failure leaves in the ledger. -/
theorem Ledger.Recorded.reckoned_broke {l : Ledger} {scripts : Scripts} {n : ℕ}
    {c : Config machine} (h : l.Recorded scripts) (last : Bool) (hcommands : l.commands = n)
    (hlast : last = true → l.recovering = false →
      Completed "post_create" scripts.postCreate l.created)
    (heq : ledger cmds c.trace = l.broke last) : Reckoned cmds n c where
  sound := by
    rw [heq]
    exact h.broke hlast
  commands := by
    rw [heq]
    exact hcommands

/-- The keeper is recorded while this command runs, which recovers the sandbox or does not. -/
structure Ledger.Underway (l : Ledger) (scripts : Scripts) (n : ℕ) (recovers : Bool) : Prop where
  recorded : l.Recorded scripts
  commands : l.commands = n
  recovering : l.recovering = recovers

theorem Ledger.Underway.runs {l : Ledger} {scripts : Scripts} {n : ℕ} {recovers : Bool}
    (h : l.Underway scripts n recovers) (name : String) (command : Option String) :
    (l.runs name command).Underway scripts n recovers where
  recorded := h.recorded.runs name command
  commands := (runs_commands l name command).trans h.commands
  recovering := (runs_recovering l name command).trans h.recovering

/-- A script that others follow: where it fails, nothing more is run. -/
theorem wp_runHook_bind {l : Ledger} {scripts : Scripts} {n : ℕ} {recovers : Bool} {name : String}
    {f : Unit → Cmd Unit} {Q : Unit → Config machine → Prop} {c : Config machine}
    (hl : ledger cmds c.trace = l) (hu : l.Underway scripts n recovers)
    (hname : (name == "post_start") = false) (command : Option String)
    (hf : ∀ c', ledger cmds c'.trace = l.runs name command →
      (l.runs name command).Underway scripts n recovers →
      wp G Q (fun _ => Reckoned cmds n) (f ()) c') :
    wp G Q (fun _ => Reckoned cmds n) (runHook name command >>= f) c := by
  refine wp_seq (wp_mono (runHook_ledger cmds name command c) (fun _ _ h => h) fun _ c' h => ?_)
    fun _ c' h => ?_
  · rw [hl, hname] at h
    exact hu.recorded.reckoned_broke false hu.commands (fun h => nomatch h) h
  · rw [hl] at h
    exact hf c' h (hu.runs name command)

/-- The scripts that follow the record of a keeper. -/
theorem runHooks_reckoned {input : UpInput} {outcome : UpOutcome} {resolution : Resolution}
    {c : Config machine} {n : ℕ} (hskip : input.opts.skipHooks = false)
    (hresolution : input.resolution = .ok resolution)
    (hrec : (ledger cmds c.trace).Recorded input.scripts)
    (hcommands : (ledger cmds c.trace).commands = n)
    (hcreating : (ledger cmds c.trace).recovering = false →
      outcome = .started ∨ outcome = .recreated) :
    wp G (fun _ c' => Reckoned cmds n c' ∧ HooksDone input.scripts (ledger cmds c'.trace))
      (fun _ => Reckoned cmds n) (runHooks input outcome resolution) c := by
  have hactivation : input.scripts.activation = resolution.activationScript := by
    simp [UpInput.scripts, hresolution]
  have hu : (ledger cmds c.trace).Underway input.scripts n (ledger cmds c.trace).recovering :=
    ⟨hrec, hcommands, rfl⟩
  generalize (ledger cmds c.trace).recovering = recovers at hu hcreating
  generalize hl : ledger cmds c.trace = l at hu
  refine wp_seq (wp_mono (wait_ledger cmds _ c) (fun _ _ h => h) fun _ c' h => ?_) fun _ c₁ h₁ => ?_
  · rw [hl] at h
    exact hu.recorded.reckoned_broke false hu.commands (fun h => nomatch h) h
  rw [hl] at h₁
  rw [hskip, if_neg Bool.false_ne_true]
  refine wp_runHook_bind h₁ hu (by decide) _ fun c₂ h₂ hu₂ => ?_
  have hdone₂ := (completed_runs l "activation" resolution.activationScript).1
  generalize l.runs "activation" resolution.activationScript = l₂ at h₂ hu₂ hdone₂
  refine wp_runHook_bind h₂ hu₂ (by decide) _ fun c₃ h₃ hu₃ => ?_
  generalize hcreate : (if outcome = .started ∨ outcome = .recreated then
    input.manifest.hooks.postCreate else none) = create at h₃ hu₃
  have hdone₃ := hdone₂.runs "post_create" create
  have hcreated₃ : recovers = false →
      Completed "post_create" input.scripts.postCreate (l₂.runs "post_create" create).created := by
    intro hrecovers
    rw [if_pos (hcreating hrecovers)] at hcreate
    show Completed "post_create" input.manifest.hooks.postCreate _
    rw [hcreate]
    exact (completed_runs l₂ "post_create" create).2
  generalize l₂.runs "post_create" create = l₃ at h₃ hu₃ hdone₃ hcreated₃
  refine wp_mono (runHook_ledger cmds _ _ c₃) (fun _ c' h => ?_) fun _ c' h => ?_
  · rw [h₃] at h
    have hu₄ := hu₃.runs "post_start" input.manifest.hooks.postStart
    have hstart := (completed_runs l₃ "post_start" input.manifest.hooks.postStart).1
    have hdone₄ := hdone₃.runs "post_start" input.manifest.hooks.postStart
    have hcreated₄ := fun hrecovers =>
      (hcreated₃ hrecovers).runs_created "post_start" input.manifest.hooks.postStart
    rw [← hu₄.recovering] at hcreated₄
    rw [← h] at hu₄ hstart hdone₄ hcreated₄
    rw [← hactivation] at hdone₄
    obtain ⟨hsound, hdone⟩ := hu₄.recorded.sound hdone₄ hstart hcreated₄
    exact ⟨⟨hsound, hu₄.commands⟩, hdone⟩
  · rw [h₃] at h
    rw [← hu₃.recovering] at hcreated₃
    exact hu₃.recorded.reckoned_broke _ hu₃.commands (fun _ => hcreated₃) h

/-- Recording the keeper. -/
theorem writePidfile_recorded (cmds : List Command) (pid : ℕ) (c : Config machine) :
    wp G (fun _ c' => ledger cmds c'.trace = (ledger cmds c.trace).recorded)
      (fun _ c' => ledger cmds c'.trace = ledger cmds c.trace) (writePidfile .keeper pid) c := by
  have henter : Only Op.Silent (perform (Op.enter (.writePidfile .keeper)) : Cmd Unit) :=
    only_perform (by simp [Op.Silent])
  have hstart : Only Op.Silent (perform (Op.processStartTime pid) : Cmd (Except String ℕ)) :=
    only_perform trivial
  refine wp_seq (wp_silent henter rfl) fun _ c₁ h₁ => ?_
  refine wp_seq (wp_silent hstart h₁) fun started c₂ h₂ => ?_
  refine wp_orFail_bind (fun start _ => ?_) fun _ _ => h₂
  refine (wp_perform_bind _ _ _ _ _).mpr fun t _ => ?_
  have hanswer : c₂.answer (.writeRecord .keeper pid start) t =
      ((c₂.step (.writeRecord .keeper pid start) t).before.act (.writeRecord .keeper pid start) t).1 :=
    rfl
  have hnext : ledger cmds (c₂.next (.writeRecord .keeper pid start) t).trace =
      if t.fails.isSome then ledger cmds c₂.trace else (ledger cmds c₂.trace).recorded := rfl
  rw [h₂] at hnext
  rw [hanswer]
  unfold Host.act
  dsimp only
  cases hfails : t.fails with
  | some e =>
    rw [hfails] at hnext
    exact hnext
  | none =>
    rw [hfails] at hnext
    exact hnext

/-- `up_process`, from a ledger in an `up` that has settled on an outcome. -/
theorem upProcess_reckoned {input : UpInput} {root : String} {outcome : UpOutcome}
    {resolution : Resolution} {shell : ResolvedShell} {proxy : Option (UInt16 × String)}
    {c : Config machine} {n : ℕ} (hskip : input.opts.skipHooks = false)
    (hresolution : input.resolution = .ok resolution) (hc : Reckoned cmds n c)
    (hsettled : (ledger cmds c.trace).Settled input.scripts outcome) :
    wp G (fun _ c' => Reckoned cmds n c' ∧ HooksDone input.scripts (ledger cmds c'.trace))
      (fun _ => Reckoned cmds n) (upProcess input root outcome resolution shell proxy) c := by
  refine wp_orFail_bind (fun exe _ => ?_) fun _ _ => hc
  split
  · exact hc
  · refine wp_orFail_bind (fun kind _ => ?_) fun _ _ => hc
    generalize upPolicy input _ kind.staticName resolution shell proxy = compiled
    refine wp_aside_bind (aside_prepareKeeper input resolution compiled) rfl
      (fun _ _ h => hc.of_eq h) fun services c₁ h₁ => ?_
    refine wp_aside_bind (aside_isolateNetwork compiled services proxy) h₁
      (fun _ _ h => hc.of_eq h) fun isolated c₂ h₂ => ?_
    refine (wp_perform_bind _ _ _ _ _).mpr fun t _ => ?_
    generalize keeperLaunch input root exe resolution shell compiled proxy services isolated =
      launch
    have h₃ : ledger cmds (c₂.next (.spawnKeeper launch) t).trace = ledger cmds c.trace :=
      (ledger_next (o := .spawnKeeper launch) trivial c₂ t).trans h₂
    split
    · exact hc.of_eq h₃
    · refine wp_seq (wp_mono (writePidfile_recorded cmds _ _) (fun _ _ h => h)
        fun _ _ h => hc.of_eq (h.trans h₃)) fun _ c₄ h₄ => ?_
      rw [h₃] at h₄
      refine wp_seq (runHooks_reckoned hskip hresolution ?_ ?_ ?_) fun _ _ h => h
      · rw [h₄]
        exact hsettled.recorded hc.sound
      · rw [h₄]
        exact hc.commands
      · rw [h₄]
        exact hsettled.creating

/-- `up` after it has settled on an outcome. -/
theorem bringUp_reckoned {input : UpInput} {root : String} {outcome : UpOutcome}
    {c : Config machine} {n : ℕ} (hskip : input.opts.skipHooks = false) (hc : Reckoned cmds n c)
    (hsettled : (ledger cmds c.trace).Settled input.scripts outcome) :
    wp G (fun _ c' => Reckoned cmds n c' ∧ HooksDone input.scripts (ledger cmds c'.trace))
      (fun _ => Reckoned cmds n) (bringUp input root outcome) c := by
  refine wp_orFail_bind (fun _ _ => ?_) fun _ _ => hc
  refine wp_orFail_bind (fun resolution hresolution => ?_) fun _ _ => hc
  refine wp_orFail_bind (fun fingerprint _ => ?_) fun _ _ => hc
  have hroot : wp G (fun _ c' => Reckoned cmds n c' ∧
      (ledger cmds c'.trace).Settled input.scripts outcome)
      (fun _ => Reckoned cmds n) (attempt .createRoot .state) c := by
    refine (wp_perform_bind _ _ _ _ _).mpr fun t _ => ?_
    have hnext : ledger cmds (c.next (.attempt .createRoot) t).trace =
        if (ledger cmds c.trace).asked then ledger cmds c.trace
        else (ledger cmds c.trace).recreated := rfl
    have hboth : Reckoned cmds n (c.next (.attempt .createRoot) t) ∧
        (ledger cmds (c.next (.attempt .createRoot) t).trace).Settled input.scripts outcome := by
      by_cases hasked : (ledger cmds c.trace).asked = true
      · rw [if_pos hasked] at hnext
        refine ⟨⟨?_, ?_⟩, ?_⟩ <;> rw [hnext]
        · exact hc.sound
        · exact hc.commands
        · exact hsettled
      · -- An `up --recreate` recovers nothing.
        rw [if_neg hasked] at hnext
        have hrecovering : (ledger cmds c.trace).recovering ≠ true := mt hsettled.asked hasked
        refine ⟨⟨?_, ?_⟩, ?_⟩ <;> rw [hnext]
        · exact hc.sound.recreated
        · exact hc.commands
        · exact ⟨hsettled.running, hsettled.creating, fun h => (hrecovering h).elim,
            fun h => (hrecovering h).elim⟩
    exact wp_orFail (fun _ _ => hboth) fun _ _ => hboth.1
  refine wp_seq hroot fun _ c₁ ⟨hc, hsettled⟩ => ?_
  refine wp_aside_bind (aside_egressProxy input) rfl (fun _ _ h => hc.of_eq h)
    fun proxy c₂ h₂ => ?_
  split
  · exact hc.of_eq h₂
  · next shell _ =>
    have hmeta := aside_writeMeta (upMeta input resolution fingerprint shell proxy)
    refine wp_aside_bind hmeta h₂ (fun _ _ h => hc.of_eq h) fun _ c₃ h₃ => ?_
    refine upProcess_reckoned hskip hresolution (hc.of_eq h₃) ?_
    rw [h₃]
    exact hsettled

/-- What `health` finds, the ledger knows: a keeper that it finds healthy is one in which all is
done. -/
theorem health_reckoned {c : Config machine} {n : ℕ} (hc : Reckoned cmds n c) :
    wp (Followed cmds) (fun found c' => Reckoned cmds n c' ∧
        (ledger cmds c'.trace).running = (ledger cmds c.trace).running ∧
        (ledger cmds c'.trace).recovering = (ledger cmds c.trace).recovering ∧
        (ledger cmds c'.trace).asked = true ∧
        ∀ pid, found = .healthy pid →
          HooksDone (ledger cmds c'.trace).running (ledger cmds c'.trace))
      (fun _ => Reckoned cmds n) health c := by
  refine (wp_perform_bind _ _ _ _ _).mpr fun t _ => ?_
  have hnext : ledger cmds (c.next (.enter .health) t).trace =
      { ledger cmds c.trace with asked := true } := rfl
  have hc₁ : Reckoned cmds n (c.next (.enter .health) t) := by
    refine ⟨?_, ?_⟩ <;> rw [hnext]
    · exact hc.sound.begun
    · exact hc.commands
  have hkept : (ledger cmds (c.next (.enter .health) t).trace).running =
        (ledger cmds c.trace).running ∧
      (ledger cmds (c.next (.enter .health) t).trace).recovering =
        (ledger cmds c.trace).recovering ∧
      (ledger cmds (c.next (.enter .health) t).trace).asked = true := by
    rw [hnext]
    exact ⟨rfl, rfl, rfl⟩
  generalize c.next (.enter .health) t = c₁ at hc₁ hkept
  -- What `health` reads leaves the ledger as it was at its beginning.
  have hfound : ∀ {c' : Config machine} {found : Health},
      ledger cmds c'.trace = ledger cmds c₁.trace →
      (∀ pid, found = .healthy pid → HooksDone (ledger cmds c₁.trace).running
        (ledger cmds c₁.trace)) →
      Reckoned cmds n c' ∧
        (ledger cmds c'.trace).running = (ledger cmds c.trace).running ∧
        (ledger cmds c'.trace).recovering = (ledger cmds c.trace).recovering ∧
        (ledger cmds c'.trace).asked = true ∧
        ∀ pid, found = .healthy pid →
          HooksDone (ledger cmds c'.trace).running (ledger cmds c'.trace) := by
    intro c' found h hdone
    refine ⟨hc₁.of_eq h, ?_⟩
    rw [h]
    exact ⟨hkept.1, hkept.2.1, hkept.2.2, hdone⟩
  have hread : Only Op.Silent (readPidfile .keeper) := only_readPidfile trivial
  refine wp_silent_bind hread rfl (fun _ _ h => hc₁.of_eq h) fun found c₂ h₂ => ?_
  cases found with
  | none => exact hfound h₂ fun _ h => nomatch h
  | some entry =>
    obtain ⟨pid, start⟩ := entry
    have hsame : Only Op.Silent (isSameProcess pid start) := only_isSameProcess trivial trivial
    refine wp_silent_bind hsame h₂ (fun _ _ h => hc₁.of_eq h) fun same c₃ h₃ => ?_
    cases same with
    | false =>
      exact hfound h₃ fun _ h => nomatch h
    | true =>
      refine (wp_perform_bind _ _ _ _ _).mpr fun t hguard => ?_
      have h₄ : ledger cmds (c₃.next .connect t).trace = ledger cmds c₁.trace :=
        (ledger_next (o := .connect) trivial c₃ t).trans h₃
      have hanswer : c₃.answer .connect t = t.answer := rfl
      have hcovers : t.answer = true →
          Covers (ledger cmds c₃.trace).keeper (ledger cmds c₃.trace).failed Scripts.activation
            (ledger cmds c₃.trace).running ∧
          Covers (ledger cmds c₃.trace).keeper (ledger cmds c₃.trace).failed Scripts.postStart
            (ledger cmds c₃.trace).running ∧
          Covers (ledger cmds c₃.trace).creator (ledger cmds c₃.trace).owing Scripts.postCreate
            (ledger cmds c₃.trace).running := hguard
      rw [h₃] at hcovers
      rw [hanswer]
      refine wp_mono (Q := fun found c' => c' = c₃.next .connect t ∧
        (∀ pid, found = .healthy pid → t.answer = true)) (E := fun _ _ => False) ?_ ?_ ?_
      · split
        · next hyes => exact ⟨rfl, fun _ _ => hyes⟩
        · exact ⟨rfl, fun _ h => nomatch h⟩
      · rintro found _ ⟨rfl, hyes⟩
        refine hfound h₄ fun pid hpid => ?_
        obtain ⟨hactivation, hstart, hcreate⟩ := hcovers (hyes pid hpid)
        exact ⟨hactivation.completed hc₁.sound.activation, hstart.completed hc₁.sound.postStart,
          hcreate.completed hc₁.sound.postCreate⟩
      · exact fun _ _ h => h.elim

/-- `up` without `--skip-hooks`. -/
theorem up_reckoned {input : UpInput} {c : Config machine} {n : ℕ}
    (hskip : input.opts.skipHooks = false) (hc : Reckoned cmds n c)
    (hcmd : cmds[n]? = some (.up input)) :
    wp (Followed cmds)
      (fun _ c' => Reckoned cmds (n + 1) c' ∧ HooksDone input.scripts (ledger cmds c'.trace))
      (fun _ => Reckoned cmds (n + 1)) (up input) c := by
  refine (wp_perform_bind _ _ _ _ _).mpr fun t _ => ?_
  obtain ⟨hc₁, hrunning, hrecovering⟩ := hc.enter t
  rw [hcmd] at hrunning
  replace hrunning : (ledger cmds (c.next (.enter .command) t).trace).running = input.scripts :=
    hrunning
  generalize c.next (.enter .command) t = c₁ at hc₁ hrunning hrecovering
  refine wp_orFail_bind (fun root _ => ?_) fun _ _ => hc₁
  refine wp_aside_bind aside_acquireLifecycleLock rfl (fun _ _ h => hc₁.of_eq h)
    fun _ c₂ h₂ => ?_
  have hfresh : ∀ {c' : Config machine} {outcome : UpOutcome},
      (ledger cmds c'.trace).running = input.scripts → (ledger cmds c'.trace).recovering = false →
      outcome = .started ∨ outcome = .recreated →
      (ledger cmds c'.trace).Settled input.scripts outcome := by
    intro c' outcome hrunning hrecovering houtcome
    have hnot : (ledger cmds c'.trace).recovering ≠ true := by simp [hrecovering]
    exact ⟨hrunning, fun _ => houtcome, fun h => (hnot h).elim, fun h => (hnot h).elim⟩
  split
  · have hstop : ∀ r, Only Op.Silent (terminateAndWait r) := fun r =>
      (watching_terminateAndWait r).mono fun _ h => h.aside.silent
    refine wp_silent_bind (hstop .keeper) h₂ (fun _ _ h => hc₁.of_eq h) fun _ c₃ h₃ => ?_
    refine wp_silent_bind (hstop .proxy) h₃ (fun _ _ h => hc₁.of_eq h) fun _ c₄ h₄ => ?_
    refine wp_silent_bind silent_clearRuntimeState h₄ (fun _ _ h => hc₁.of_eq h)
      fun _ c₅ h₅ => ?_
    exact bringUp_reckoned hskip (hc₁.of_eq h₅)
      (hfresh (by rw [h₅]; exact hrunning) (by rw [h₅]; exact hrecovering) (Or.inr rfl))
  · refine wp_seq (health_reckoned (hc₁.of_eq h₂)) fun found c₃ hfound => ?_
    obtain ⟨hc₃, hrun₃, hrec₃, hasked, hhealthy⟩ := hfound
    rw [h₂, hrunning] at hrun₃
    rw [h₂, hrecovering] at hrec₃
    cases found with
    | healthy pid =>
      have hdone := hhealthy pid rfl
      rw [hrun₃] at hdone
      exact ⟨hc₃, hdone⟩
    | none => exact bringUp_reckoned hskip hc₃ (hfresh hrun₃ hrec₃ (Or.inl rfl))
    | stale pid =>
      refine (wp_perform_bind _ _ _ _ _).mpr fun t hguard => ?_
      have hcovers : Covers (ledger cmds c₃.trace).creator (ledger cmds c₃.trace).owing
          Scripts.postCreate (ledger cmds c₃.trace).running := hguard
      have hnext : ledger cmds (c₃.next (.enter .staleRecovery) t).trace =
          { ledger cmds c₃.trace with recovering := true } := rfl
      have hc₄ : Reckoned cmds (n + 1) (c₃.next (.enter .staleRecovery) t) := by
        refine ⟨?_, ?_⟩ <;> rw [hnext]
        · exact hc₃.sound.begun
        · exact hc₃.commands
      have hsettled : (ledger cmds (c₃.next (.enter .staleRecovery) t).trace).Settled input.scripts
          .recovered := by
        rw [hnext]
        refine ⟨hrun₃, fun h => (nomatch h), fun _ => hasked, fun _ => ?_⟩
        rw [hrun₃] at hcovers
        exact hcovers.completed hc₃.sound.postCreate
      generalize c₃.next (.enter .staleRecovery) t = c₄ at hc₄ hsettled
      refine wp_silent_bind silent_clearRuntimeState rfl (fun _ _ h => hc₄.of_eq h)
        fun _ c₅ h₅ => ?_
      refine bringUp_reckoned hskip (hc₄.of_eq h₅) ?_
      rw [h₅]
      exact hsettled

/-- `down` runs no script. -/
theorem down_reckoned (homeVar : Option String) (sandboxName : String) {c : Config machine} {n : ℕ}
    (hc : Reckoned cmds n c) : wp G (fun _ => Reckoned cmds (n + 1))
      (fun _ => Reckoned cmds (n + 1)) (down homeVar sandboxName) c := by
  refine (wp_perform_bind _ _ _ _ _).mpr fun t _ => ?_
  have hc₁ := (hc.enter t).1
  generalize c.next (.enter .command) t = c₁ at hc₁
  refine wp_orFail_bind (fun _ _ => ?_) fun _ _ => hc₁
  have hrest : Only Op.Silent (do
      acquireLifecycleLock
      stopIfRunning
      clearRuntimeState : Cmd Unit) :=
    only_bind (aside_acquireLifecycleLock.mono fun _ => Op.Aside.silent) fun _ =>
      only_bind (aside_stopIfRunning.mono fun _ => Op.Aside.silent) fun _ =>
        silent_clearRuntimeState
  exact wp_mono (wp_silent hrest rfl) (fun _ _ h => hc₁.of_eq h) fun _ _ h => hc₁.of_eq h

end Steps

/-- A `down`, or an `up` without `--skip-hooks`. -/
def Command.RunsHooks : Command → Prop
  | .up input => input.opts.skipHooks = false
  | .down _ _ => True
  | .rm _ _ => False

/-- What a command achieves. -/
def Achieved (cmds : List Command) (cmd : Command) (outcome : Except UpError (Option UpOutcome))
    (c : Config machine) : Prop :=
  ∀ input outcome', cmd = .up input → outcome = .ok outcome' →
    HooksDone input.scripts (ledger cmds c.trace)

/-- In every session of `up`, `up --recreate` and `down` without `--skip-hooks`, whatever scripts
the ups find defined and whichever of them fail, after an `up` that returns without an error its
activation script and `post_start` are done in the current keeper, and `post_create` since the
sandbox was first created or last recreated, if every `up` that went on from what an earlier one had
left followed one that had not failed. -/
theorem hooks_done {h : Host} {cmds : List Command} (hcmds : ∀ cmd ∈ cmds, cmd.RunsHooks)
    {moments : List Moment} {d : Done machine Command UpError (Option UpOutcome)}
    (hd : d ∈ session Command.prog cmds moments ⟨[], h⟩)
    (hfollowed : Guarded (Followed cmds) d.config.trace) {input : UpInput}
    {outcome : Option UpOutcome}
    (hcmd : d.cmd = .up input) (houtcome : d.outcome = .ok outcome) :
    HooksDone input.scripts (ledger cmds d.config.trace) := by
  -- The commands that are left are those after the ones that have begun.
  have hprog : ∀ cmd rest (c : Config machine),
      (∃ n, Reckoned cmds n c ∧ cmds.drop n = cmd :: rest) →
      wp (Followed cmds)
        (fun a c => (∃ n, Reckoned cmds n c ∧ cmds.drop n = rest) ∧ Achieved cmds cmd (.ok a) c)
        (fun e c => (∃ n, Reckoned cmds n c ∧ cmds.drop n = rest) ∧ Achieved cmds cmd (.error e) c)
        cmd.prog c := by
    rintro cmd rest c ⟨n, hc, hdrop⟩
    have hlast : cmds[n]? = some cmd := by
      rw [← List.head?_drop, hdrop]
      rfl
    have hrest : cmds.drop (n + 1) = rest := by
      rw [← List.tail_drop, hdrop]
      rfl
    have hruns := hcmds cmd (List.mem_of_getElem? hlast)
    have herror : ∀ (e : UpError) (c : Config machine), Reckoned cmds (n + 1) c →
        (∃ n, Reckoned cmds n c ∧ cmds.drop n = rest) ∧ Achieved cmds cmd (.error e) c :=
      fun e c hc => ⟨⟨n + 1, hc, hrest⟩, fun _ _ _ h => nomatch h⟩
    cases cmd with
    | up input =>
      refine wp_seq (wp_mono (up_reckoned hruns hc hlast) (fun _ _ h => h) herror) ?_
      rintro outcome c ⟨hc, hdone⟩
      refine ⟨⟨n + 1, hc, hrest⟩, fun input' outcome' heq _ => ?_⟩
      rw [← Command.up.inj heq]
      exact hdone
    | down homeVar sandboxName =>
      refine wp_seq (wp_mono (down_reckoned homeVar sandboxName hc) (fun _ _ h => h) herror) ?_
      exact fun _ c hc => ⟨⟨n + 1, hc, hrest⟩, fun _ _ h => nomatch h⟩
    | rm homeVar sandboxName => exact hruns.elim
  have hstart : Reckoned cmds 0 (⟨[], h⟩ : Config machine) :=
    ⟨⟨fun _ h => (nomatch h), fun _ h => (nomatch h), fun _ h => (nomatch h)⟩, rfl⟩
  have hachieved :=
    session_spec_left (I := fun rest c => ∃ n, Reckoned cmds n c ∧ cmds.drop n = rest)
    (P := Achieved cmds) hprog ⟨0, hstart, rfl⟩ hd hfollowed
  exact hachieved input outcome hcmd houtcome

/-- A project with an activation script and both hooks. -/
def scriptedInput : UpInput :=
  { sampleInput [] with
    manifest := { (sampleInput []).manifest with hooks := ⟨some "cargo fetch", some "make dev"⟩ }
    resolution := (sampleInput []).resolution.map fun resolution =>
      { resolution with activationScript := some "pip install -r requirements.txt" } }

/-- Choices with which the first keeper dies at one step, and some steps fail. -/
def crashingMoments (crash : ℕ) (failed : List ℕ) : List Moment :=
  (sampleMoments [] failed).zipIdx.map fun entry =>
    if entry.2 = crash then { entry.1 with events := [.death 18] } else entry.1

/-- After a crash the sandbox is recovered, then it is found healthy: all scripts are done. -/
theorem hooks_done_crash :
    ∃ d ∈ session (m := machine) Command.prog
      [.up scriptedInput, .up scriptedInput, .up scriptedInput] (crashingMoments 25 [])
      ⟨[], freshHost⟩, d.outcome = .ok (some .alreadyUp) ∧ d.config.trace.length = 62 ∧
        HooksDone scriptedInput.scripts
          (ledger [.up scriptedInput, .up scriptedInput, .up scriptedInput] d.config.trace) := by
  have hrun : (session (m := machine) Command.prog
      [.up scriptedInput, .up scriptedInput, .up scriptedInput] (crashingMoments 25 [])
      ⟨[], freshHost⟩).any (fun d => decide (d.outcome = .ok (some .alreadyUp) ∧
        d.config.trace.length = 62 ∧ Guarded (Followed
          [.up scriptedInput, .up scriptedInput, .up scriptedInput]) d.config.trace)) = true := by
    decide +kernel
  have hcmds : ∀ cmd ∈ [Command.up scriptedInput, .up scriptedInput, .up scriptedInput],
      cmd.RunsHooks := by
    intro cmd hcmd
    obtain rfl : cmd = .up scriptedInput := by simpa using hcmd
    rfl
  obtain ⟨d, hd, h⟩ := List.any_eq_true.mp hrun
  obtain ⟨houtcome, hlength, hfollowed⟩ := of_decide_eq_true h
  have hcmd : d.cmd = .up scriptedInput := by
    simp only [session, List.mem_cons, List.not_mem_nil, or_false] at hd
    rcases hd with rfl | rfl | rfl <;> rfl
  exact ⟨d, hd, houtcome, hlength, hooks_done hcmds hd hfollowed hcmd houtcome⟩

/-- Where `post_create` fails and the keeper dies, the next `up` recovers the sandbox and returns
without an error, though `post_create` has never been completed. -/
theorem not_hooks_done_recovered :
    ∃ d ∈ session (m := machine) Command.prog [.up scriptedInput, .up scriptedInput]
      (crashingMoments 25 [23]) ⟨[], freshHost⟩, d.outcome = .ok (some .recovered) ∧
        ¬HooksDone scriptedInput.scripts
          (ledger [.up scriptedInput, .up scriptedInput] d.config.trace) := by
  have hrun : (session (m := machine) Command.prog [.up scriptedInput, .up scriptedInput]
      (crashingMoments 25 [23]) ⟨[], freshHost⟩).any (fun d =>
        decide (d.outcome = .ok (some .recovered) ∧ ¬HooksDone scriptedInput.scripts
          (ledger [.up scriptedInput, .up scriptedInput] d.config.trace))) = true := by
    decide +kernel
  obtain ⟨d, hd, h⟩ := List.any_eq_true.mp hrun
  exact ⟨d, hd, of_decide_eq_true h⟩

end Devcroft.Lifecycle
