import Devcroft.Provider.Devbox

/-!
# What a resolution leaves of `devbox.lock`

The capture runs commands that may touch `devbox.lock`. What they did is undone after a
capture that succeeds, and is not looked at after one that fails.
-/

namespace Devcroft.Provider

open Program DevboxProject Lifecycle

/-- The commands of the capture. -/
def DevboxOp.isCapture : DevboxOp → Bool
  | shellenv _ _ => true
  | evaluate _ _ => true
  | _ => false

/-- The operations that restore the lockfile. -/
def DevboxOp.isRestore : DevboxOp → Bool
  | writeLock _ => true
  | removeLock => true
  | _ => false

/-- The steps of a run. -/
abbrev DevboxStep := Program.Step devboxHost

/-- No restoring operation fails. -/
def Restores : Guard devboxHost := fun step _ => step.op.isRestore = true → step.choice.fails = none

instance (step : DevboxStep) (earlier : List DevboxStep) :
    Decidable (Restores step earlier) :=
  inferInstanceAs (Decidable (_ → _))

/-- The last command of the capture. -/
def lastCapture (trace : List DevboxStep) : Option DevboxStep :=
  trace.find? fun step => step.op.isCapture

/-- The lockfile after a step. -/
def lockAfter (step : DevboxStep) : Lock :=
  (devboxHost.act step.op step.choice step.before).2.lock

/-- What `read_lock` found, the latest first. -/
def lockReads (trace : List DevboxStep) : List Lock :=
  trace.filterMap fun step =>
    match step.op with
    | .readLock => some (if step.choice.fails.isSome then none else step.before.lock)
    | _ => none

/-- A command after which the capture is given up. -/
def captureFails (step : DevboxStep) : Bool :=
  match step.op with
  | .shellenv _ _ => step.choice.fails.isSome || !step.choice.output.success ||
      step.choice.output.stdout.all isAsciiWhitespace
  | .evaluate _ _ => step.choice.fails.isSome || !step.choice.output.success
  | _ => false

/-- The lockfile is as it was, and a resolution whose capture changed it has failed. -/
def LockKept (initial : Lock) (outcome : Except ProviderError Resolution)
    (c : Config devboxHost) : Prop :=
  c.state.lock = initial ∧
    (∀ step, lastCapture c.trace = some step → lockAfter step ≠ initial → ∃ e, outcome = .error e)

/-- The condition: a capture that is given up has left the lockfile as it was; and where it is not,
the lockfile was read as it was before and not again so after a change, or neither changed nor read
differently. -/
def Restorable (initial : Lock) (trace : List DevboxStep) : Prop :=
  match lastCapture trace with
  | none => True
  | some step =>
    if captureFails step then lockAfter step = initial
    else
      match lockReads trace with
      | [after, before] =>
        (before = initial ∧ (lockAfter step ≠ initial → after ≠ initial)) ∨
          (lockAfter step = initial ∧ before = after)
      | _ => True

instance (initial : Lock) (trace : List DevboxStep) :
    Decidable (Restorable initial trace) := by
  unfold Restorable
  split
  · infer_instance
  · split
    · infer_instance
    · split <;> infer_instance

/-- What holds until the capture. -/
structure Uncaptured (initial : Lock) (reads : List Lock) (c : Config devboxHost) : Prop where
  lock : c.state.lock = initial
  capture : lastCapture c.trace = none
  reads : lockReads c.trace = reads

/-- What holds after a capture that succeeds. -/
structure Captured (reads : List Lock) (step : DevboxStep) (c : Config devboxHost) :
    Prop where
  lock : c.state.lock = lockAfter step
  capture : lastCapture c.trace = some step
  succeeds : captureFails step = false
  reads : lockReads c.trace = reads

/-- The claim holds of a run where the condition does. -/
def Settled (initial : Lock) (outcome : Except ProviderError Resolution) (c : Config devboxHost) :
    Prop :=
  LockKept initial outcome c ↔ Restorable initial c.trace

/-- Operations that neither look at the lockfile for the comparison nor touch it. -/
def DevboxOp.isAside : DevboxOp → Bool
  | isFile _ => true
  | readToString _ => true
  | resolveOnPath _ => true
  | nixEval _ => true
  | home => true
  | _ => false

variable {initial : Lock} {reads : List Lock} {c : Config devboxHost}
  {project : DevboxProject} {α β : Type}

/-- Before a capture an error is no breach. -/
theorem Uncaptured.settled (hc : Uncaptured initial reads c) (e : ProviderError) :
    Settled initial (.error e) c := by
  unfold Settled LockKept Restorable
  rw [hc.capture]
  exact iff_of_true ⟨hc.lock, fun _ h => (nomatch h)⟩ trivial

theorem Uncaptured.aside (hc : Uncaptured initial reads c) {o : DevboxOp} (ho : o.isAside = true)
    (choice : DevboxChoice) : Uncaptured initial reads (c.next o choice) := by
  obtain ⟨hlock, hcapture, hreads⟩ := hc
  cases o with
  | isFile f => exact ⟨hlock, hcapture, hreads⟩
  | readToString f =>
    refine ⟨?_, hcapture, hreads⟩
    rw [← hlock]
    simp only [Config.next, DevboxOp.act]
    repeat' split
    all_goals rfl
  | resolveOnPath name => exact ⟨hlock, hcapture, hreads⟩
  | nixEval nix => exact ⟨hlock, hcapture, hreads⟩
  | home => exact ⟨hlock, hcapture, hreads⟩
  | _ => cases ho

/-- A program that only asks aside, and what follows it. -/
theorem wp_aside_bind {p : Resolving α} {f : α → Resolving β}
    {Q : β → Config devboxHost → Prop} (hp : Only (fun o => o.isAside = true) p)
    (hc : Uncaptured initial reads c)
    (hf : ∀ a c, Uncaptured initial reads c →
      wp Restores Q (fun e => Settled initial (.error e)) (f a) c) :
    wp Restores Q (fun e => Settled initial (.error e)) (p >>= f) c := by
  refine wp_seq (M := fun _ => Uncaptured initial reads) ?_ hf
  refine wp_mono (wp_of_only hp (fun o c choice ho hc _ => hc.aside ho choice) hc)
    (fun _ _ h => h) fun e _ h => h.settled e

theorem only_ensureProjectPresent : Only (fun o => o.isAside = true) ensureProjectPresent := by
  refine only_bind (only_perform rfl) fun present => ?_
  split
  · exact only_pure ()
  · exact only_raise _

theorem only_ensureNixUsable : Only (fun o => o.isAside = true) ensureNixUsable := by
  refine only_bind (only_perform rfl) fun nix => ?_
  split
  · exact only_raise _
  · refine only_bind (only_perform rfl) fun usable => ?_
    split
    · exact only_pure ()
    · exact only_raise _

theorem only_parseDevboxJson (f : DevboxFile) :
    Only (fun o => o.isAside = true) (project.parseDevboxJson f) := by
  refine only_bind (only_perform rfl) fun text => ?_
  refine only_bind (only_orFail _ _) fun text => ?_
  exact only_orFail _ _

theorem only_ensureEverythingLocked :
    Only (fun o => o.isAside = true) project.ensureEverythingLocked := by
  refine only_bind ?_ fun declared => ?_
  · exact only_bind (only_parseDevboxJson .json) fun parsed => only_orFail _ _
  · split
    · exact only_pure ()
    · refine only_bind (only_perform rfl) fun present => ?_
      split
      · refine only_bind (only_parseDevboxJson .lock) fun parsed => ?_
        dsimp only
        split
        · exact only_pure ()
        · exact only_raise _
      · exact only_raise _

/-- Given up, a capture is right where it left the lockfile as it was. -/
theorem settled_of_captureFails {step : DevboxStep} (hlock : c.state.lock = lockAfter step)
    (hcapture : lastCapture c.trace = some step) (hfails : captureFails step = true)
    (e : ProviderError) : Settled initial (.error e) c := by
  unfold Settled LockKept Restorable
  rw [hcapture, hlock]
  dsimp only
  rw [if_pos hfails]
  exact and_iff_left fun _ _ _ => ⟨e, rfl⟩

/-- The condition, where the capture succeeded. -/
theorem restorable_iff {step : DevboxStep} {after before : Lock}
    (hcapture : lastCapture c.trace = some step) (hsucceeds : captureFails step = false)
    (hreads : lockReads c.trace = [after, before]) :
    Restorable initial c.trace ↔
      (before = initial ∧ (lockAfter step ≠ initial → after ≠ initial)) ∨
        (lockAfter step = initial ∧ before = after) := by
  unfold Restorable
  rw [hcapture]
  dsimp only
  rw [hsucceeds, hreads]
  exact Iff.rfl

theorem run_eq_ok {choice : DevboxChoice} {files : DevboxFiles} {output : Output}
    (h : (choice.run files).1 = .ok output) : choice.fails = none ∧ choice.output = output := by
  unfold DevboxChoice.run at h
  split at h
  · cases h
  · next hfails => exact ⟨hfails, Except.ok.inj h⟩

theorem run_eq_error {choice : DevboxChoice} {files : DevboxFiles} {e : String}
    (h : (choice.run files).1 = .error e) : choice.fails = some e := by
  unfold DevboxChoice.run at h
  split at h
  · next hfails => rw [hfails, Except.error.inj h]
  · cases h

/-- The capture, from its two commands. -/
theorem wp_captureActivatedEnv {devbox : String} {base : List (String × String)}
    (hc : Uncaptured initial reads c) :
    wp Restores (fun _ c => ∃ step, Captured reads step c) (fun e => Settled initial (.error e))
      (captureActivatedEnv devbox base) c := by
  unfold captureActivatedEnv
  rw [wp_perform_bind]
  intro choice _
  -- A first command that fails gives the capture up.
  have hgivenUp : ∀ e, captureFails (c.step (.shellenv devbox base) choice) = true →
      Settled initial (.error e) (c.next (.shellenv devbox base) choice) :=
    fun e hfails => settled_of_captureFails rfl rfl hfails e
  refine wp_orFail_bind (fun shellenv hanswer => ?_) fun e hanswer => ?_
  · obtain ⟨hran, rfl⟩ := run_eq_ok hanswer
    split
    · next hstatus =>
      refine (wp_raise _ _).mpr (hgivenUp _ ?_)
      simp only [captureFails, Config.step, hstatus, Bool.or_true, Bool.true_or]
    · split
      · next hblank =>
        refine (wp_raise _ _).mpr (hgivenUp _ ?_)
        simp only [captureFails, Config.step, hblank, Bool.or_true]
      · rw [wp_perform_bind]
        intro choice' _
        refine wp_orFail_bind (fun output hanswer => ?_) fun e hanswer => ?_
        · obtain ⟨hran', rfl⟩ := run_eq_ok hanswer
          split
          · next hsuccess =>
            refine (wp_pure _ _).mpr ⟨_, rfl, rfl, ?_, hc.reads⟩
            simp only [captureFails, Config.step, hran', hsuccess, Option.isSome_none,
              Bool.not_true, Bool.or_false]
          · next hstatus =>
            refine (wp_raise _ _).mpr (settled_of_captureFails rfl rfl ?_ _)
            simp only [captureFails, Config.step, hstatus, Bool.not_false, Bool.or_true]
        · refine settled_of_captureFails rfl rfl ?_ _
          have hfails := run_eq_error hanswer
          simp only [captureFails, Config.step, hfails, Option.isSome_some, Bool.true_or]
  · refine hgivenUp _ ?_
    have hfails := run_eq_error hanswer
    simp only [captureFails, Config.step, hfails, Option.isSome_some, Bool.true_or]

theorem Captured.readLock {step : DevboxStep} (hc : Captured reads step c)
    (choice : DevboxChoice) :
    Captured (c.answer .readLock choice :: reads) step (c.next .readLock choice) :=
  ⟨hc.lock, hc.capture, hc.succeeds, congrArg (List.cons _) hc.reads⟩

/-- Where no change was seen, nothing is restored. -/
theorem Captured.settled {step : DevboxStep} {before : Lock} (hc : Captured [before, before] step c)
    (r : Resolution) : Settled initial (.ok r) c := by
  unfold Settled LockKept
  rw [restorable_iff hc.capture hc.succeeds hc.reads, hc.lock]
  constructor
  · rintro ⟨hlock, -⟩
    exact Or.inr ⟨hlock, rfl⟩
  · intro h
    have hlock : lockAfter step = initial := by
      rcases h with ⟨hbefore, hseen⟩ | ⟨hlock, -⟩
      · by_contra hchanged
        exact hseen hchanged hbefore
      · exact hlock
    refine ⟨hlock, fun step' hstep' hchanged => ?_⟩
    rw [hc.capture] at hstep'
    obtain rfl := Option.some.inj hstep'
    exact (hchanged hlock).elim

/-- Where a change was seen, what was read before the capture is restored. -/
theorem settled_of_restored {step : DevboxStep} {after before : Lock}
    (hcapture : lastCapture c.trace = some step) (hsucceeds : captureFails step = false)
    (hreads : lockReads c.trace = [after, before]) (hseen : after ≠ before)
    (hlock : c.state.lock = before) (e : ProviderError) : Settled initial (.error e) c := by
  unfold Settled LockKept
  rw [restorable_iff hcapture hsucceeds hreads, hlock]
  constructor
  · rintro ⟨hbefore, -⟩
    exact Or.inl ⟨hbefore, fun _ => hbefore ▸ hseen⟩
  · rintro (⟨hbefore, -⟩ | ⟨-, hsame⟩)
    · exact ⟨hbefore, fun _ _ _ => ⟨e, rfl⟩⟩
    · exact (hseen hsame.symm).elim

theorem act_writeLock {choice : DevboxChoice} (h : choice.fails = none) (bytes : List UInt8)
    (files : DevboxFiles) :
    DevboxOp.act (.writeLock bytes) choice files = (.ok (), { files with lock := some bytes }) := by
  simp only [DevboxOp.act, h]

theorem act_removeLock {choice : DevboxChoice} (h : choice.fails = none) {files : DevboxFiles}
    (hlock : files.lock ≠ none) :
    DevboxOp.act .removeLock choice files = (.ok (), { files with lock := none }) := by
  obtain ⟨bytes, hbytes⟩ := Option.ne_none_iff_exists'.mp hlock
  simp only [DevboxOp.act, h, hbytes]

/-- The comparison and the restoring. -/
theorem wp_restoreLockIfCaptureResolved {before : Lock} {step : DevboxStep}
    (hc : Captured [before] step c) :
    wp Restores (fun _ c => ∀ r, Settled initial (.ok r) c) (fun e => Settled initial (.error e))
      (project.restoreLockIfCaptureResolved before) c := by
  unfold restoreLockIfCaptureResolved
  rw [wp_perform_bind]
  intro choice _
  have hread := hc.readLock choice
  split
  · next hsame =>
    rw [hsame] at hread
    exact (wp_pure _ _).mpr fun r => hread.settled r
  · next hseen =>
    cases before with
    | some bytes =>
      refine (wp_perform_bind _ _ _ _ _).mpr fun choice' hrestores => ?_
      have hact := act_writeLock (hrestores rfl) bytes (c.next .readLock choice).state
      refine wp_orFail_bind (fun _ _ => (wp_raise _ _).mpr ?_) fun e hanswer => ?_
      · exact settled_of_restored (c := (c.next .readLock choice).next (.writeLock bytes) choice')
          hread.capture hread.succeeds hread.reads hseen (congrArg (fun r => r.2.lock) hact) _
      · cases (congrArg Prod.fst hact).symm.trans hanswer
    | none =>
      refine (wp_perform_bind _ _ _ _ _).mpr fun choice' hrestores => ?_
      have hlock : (c.next .readLock choice).state.lock ≠ none := by
        intro hnone
        refine hseen ?_
        change (if choice.fails.isSome = true then none else c.state.lock) = none
        rw [show c.state.lock = none from hnone, ite_self]
      have hact := act_removeLock (hrestores rfl) hlock
      refine wp_orFail_bind (fun _ _ => (wp_raise _ _).mpr ?_) fun e hanswer => ?_
      · exact settled_of_restored (c := (c.next .readLock choice).next .removeLock choice')
          hread.capture hread.succeeds hread.reads hseen (congrArg (fun r => r.2.lock) hact) _
      · cases (congrArg Prod.fst hact).symm.trans hanswer

/-- Every run of a resolution. -/
theorem wp_resolve (project : DevboxProject) (hc : Uncaptured initial [] c) :
    wp Restores (fun r => Settled initial (.ok r)) (fun e => Settled initial (.error e))
      project.resolve c := by
  unfold resolve
  refine wp_aside_bind only_ensureProjectPresent hc fun _ c hc => ?_
  refine wp_aside_bind (only_perform rfl) hc fun devbox c hc => ?_
  split
  · exact (wp_raise _ _).mpr (hc.settled _)
  · refine wp_aside_bind only_ensureNixUsable hc fun _ c hc => ?_
    refine wp_aside_bind only_ensureEverythingLocked hc fun _ c hc => ?_
    rw [wp_perform_bind]
    intro choice _
    have hread : Uncaptured initial [c.answer .readLock choice] (c.next .readLock choice) :=
      ⟨hc.lock, hc.capture, congrArg (List.cons _) hc.reads⟩
    refine wp_aside_bind (only_perform rfl) hread fun home c hc => ?_
    refine wp_orFail_bind (fun base _ => ?_) fun e _ => hc.settled _
    refine wp_seq (wp_captureActivatedEnv hc) fun activated c hc => ?_
    obtain ⟨step, hc⟩ := hc
    refine wp_seq (wp_restoreLockIfCaptureResolved hc) fun _ c hc => ?_
    exact (wp_pure _ _).mpr (hc _)

/-- A run of a resolution. -/
def DevboxProject.resolving (project : DevboxProject) (files : DevboxFiles)
    (choices : List DevboxChoice) : Ended devboxHost ProviderError Resolution :=
  run project.resolve choices ⟨[], files⟩

/-- A resolution in which no restoring fails leaves `devbox.lock` as it was, and fails where its
capture changed it, if and only if the condition holds. -/
theorem lockKept_iff {project : DevboxProject} {files : DevboxFiles} {choices : List DevboxChoice}
    (hrestores : Guarded Restores (project.resolving files choices).config.trace) :
    LockKept files.lock (project.resolving files choices).outcome
        (project.resolving files choices).config ↔
      Restorable files.lock (project.resolving files choices).config.trace := by
  have hstart : Uncaptured files.lock [] ⟨[], files⟩ := ⟨rfl, rfl, rfl⟩
  have hrun := run_of_wp (wp_resolve project hstart) choices hrestores
  unfold DevboxProject.resolving
  split at hrun
  · next houtcome =>
    rw [houtcome]
    exact hrun
  · next houtcome =>
    rw [houtcome]
    exact hrun

/-- A project that declares no packages. -/
def sampleProject : DevboxProject where
  root := "/home/u/p"
  fromStr := fun text =>
    if text = "\x7b\x7d" then .ok (.object []) else .error "expected value at line 1 column 1"

/-- Its files. -/
def sampleFiles : DevboxFiles := ⟨some (Utf8.encode "\x7b\x7d"), some (Utf8.encode "\x7b\x7d\n")⟩

/-- The host up to the capture, with devbox, nix and `HOME`. -/
def sampleHost : List DevboxChoice :=
  [devboxHost.idle, { devboxHost.idle with found := some "/usr/bin/devbox" },
    { devboxHost.idle with found := some "/usr/bin/nix" }, devboxHost.idle, devboxHost.idle,
    devboxHost.idle, { devboxHost.idle with found := some "/home/u" }]

/-- `devbox shellenv` writes a lockfile and prints a script. -/
def sampleRewrite : DevboxChoice :=
  { devboxHost.idle with
    output := ⟨true, "exit status: 0", Utf8.encode "export A=1;", []⟩
    leaves := some (some (Utf8.encode "resolved")) }

/-- A capture that rewrites the lockfile and succeeds. -/
theorem lockKept_rewritten :
    (sampleProject.resolving sampleFiles (sampleHost ++ [sampleRewrite])).config.trace.length = 11 ∧
    LockKept sampleFiles.lock
      (sampleProject.resolving sampleFiles (sampleHost ++ [sampleRewrite])).outcome
      (sampleProject.resolving sampleFiles (sampleHost ++ [sampleRewrite])).config :=
  ⟨by decide +kernel, (lockKept_iff (by decide +kernel)).mpr (by decide +kernel)⟩

/-- A capture that rewrites the lockfile and then fails. -/
theorem not_lockKept_failed :
    Guarded Restores (sampleProject.resolving sampleFiles (sampleHost ++
      [{ sampleRewrite with output := ⟨false, "exit status: 1", [], [] ⟩ }])).config.trace ∧
    ¬LockKept sampleFiles.lock
      (sampleProject.resolving sampleFiles (sampleHost ++
        [{ sampleRewrite with output := ⟨false, "exit status: 1", [], []⟩ }])).outcome
      (sampleProject.resolving sampleFiles (sampleHost ++
        [{ sampleRewrite with output := ⟨false, "exit status: 1", [], []⟩ }])).config := by
  have hlock : (sampleProject.resolving sampleFiles (sampleHost ++
      [{ sampleRewrite with output := ⟨false, "exit status: 1", [], []⟩ }])).config.state.lock ≠
        sampleFiles.lock := by decide +kernel
  exact ⟨by decide +kernel, fun hkept => hlock hkept.1⟩

end Devcroft.Provider
