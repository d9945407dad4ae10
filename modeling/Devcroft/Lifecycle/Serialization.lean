import Devcroft.Library.Interleaving
import Devcroft.Library.Typestate
import Devcroft.Lifecycle.Artifacts
import Devcroft.Lifecycle.Fading

/-!
# An `rm` and an `up` of one sandbox

Both commands work under the lifecycle lock, but `rm` reads `meta.json` before it obtains
the lock, and removes the artifacts in the project after it has released it. An `up` can
come in between at both places.
-/

namespace Devcroft.Lifecycle

open Program

/-- The two commands. -/
inductive Side where
  | up
  | rm
  deriving DecidableEq

/-- Where the `up` is. -/
inductive UpPhase where
  | running (p : Cmd UpOutcome)
  | returned (outcome : Except UpError UpOutcome)

/-- Where the `rm` is. -/
inductive RmPhase where
  | running (p : Cmd Unit)
  /-- It removes the artifacts, and goes on with what comes of it. -/
  | removing (q : SiteCmd Unit) (rest : Except String Unit → Cmd Unit)
  | returned (outcome : Except UpError Unit)

/-- What the `up` has made. -/
structure Made where
  /-- The state directory. -/
  root : Bool
  /-- The directory of the sandbox in `.devcroft`. -/
  dir : Bool
  /-- The service config. -/
  config : Bool
  deriving DecidableEq

/-- Whether there is an artifact in the project among it. -/
def Made.artifacts (m : Made) : Bool := m.dir || m.config

/-- An `up` and an `rm` of one sandbox on its host. -/
structure Race where
  host : Host
  /-- Whether the state directory is there. -/
  root : Bool
  /-- `.devcroft` of every project. -/
  sites : String → Site
  lock : Option Side
  /-- Who has obtained the lock, the latest first. -/
  order : List Side
  up : UpPhase
  rm : RmPhase
  /-- The project in the `meta.json` that the `rm` has read. -/
  found : Option String
  made : Made

/-- A project has another `.devcroft`. -/
def Race.setSite (s : Race) (project : String) (site : Site) : Race :=
  { s with sites := fun p => if p = project then site else s.sites p }

/-- The lock is released, if this command holds it. -/
def Race.release (s : Race) (side : Side) : Race :=
  { s with lock := if s.lock = some side then none else s.lock }

/-- The name of the sandbox. -/
def UpInput.sandboxName (input : UpInput) : String := input.manifest.sandbox.name

/-- What an operation of the `up` does. -/
def Race.actUp (input : UpInput) (config : List UInt8) (s : Race) (o : Op) (t : Moment) :
    Answer o × Race :=
  let h := machine.surroundings t s.host
  let site := s.sites input.projectRoot
  match o, t.fails with
  | .attempt .createRoot, none =>
    (.ok (), { s with host := h, root := true, made := { s.made with root := true } })
  | .attempt .createServicesDir, none =>
    (.ok (), { s.setSite input.projectRoot (site.createDirAll input.sandboxName) with
      host := h, made := { s.made with dir := true } })
  | .attempt .writeServicesConfig, none =>
    match site.files input.sandboxName with
    | none => (.error "No such file or directory (os error 2)", { s with host := h })
    | some _ =>
      (.ok (), { s.setSite input.projectRoot
          (site.write input.sandboxName SERVICES_CONFIG config) with
        host := h, made := { s.made with config := true } })
  | o, _ => ((h.act o t).1, { s with host := (h.act o t).2 })

/-- The project in a `meta.json` that was read. -/
def projectIn : Except String (Option Meta) → Option String
  | .ok (some m) => some m.projectRoot
  | _ => none

/-- Whether an answer is one of success. -/
def succeeded : Except String Unit → Bool
  | .ok _ => true
  | .error _ => false

/-- What an operation of the `rm` does. With the removal of the state directory it releases the
lock. -/
def Race.actRm (s : Race) (o : Op) (t : Moment) : Answer o × Race :=
  let h := machine.surroundings t s.host
  match o with
  | .readMeta =>
    ((h.act .readMeta t).1,
      { s with host := (h.act .readMeta t).2, found := projectIn (h.act .readMeta t).1 })
  | .removeRoot =>
    ((h.act .removeRoot t).1,
      { s.release .rm with
        host := (h.act .removeRoot t).2
        root := if succeeded (h.act .removeRoot t).1 then false else s.root })
  | o => ((h.act o t).1, { s with host := (h.act o t).2 })

/-- A step of the `up`. It waits for the lock while the `rm` holds it. -/
def Race.stepUp (input : UpInput) (config : List UInt8) (s : Race) (t : Moment) : Option Race :=
  match s.up with
  | .running (.act .acquireLock k) =>
    match t.fails with
    | some e => some { s with up := .running (k (.error e)) }
    | none =>
      if s.lock = none then
        some { s with lock := some .up, order := .up :: s.order, up := .running (k (.ok ())) }
      else none
  | .running (.act o k) =>
    some { (s.actUp input config o t).2 with up := .running (k (s.actUp input config o t).1) }
  | .running (.ret outcome) => some { s.release .up with up := .returned (.ok outcome) }
  | .running (.fail e) => some { s.release .up with up := .returned (.error e) }
  | .returned _ => none

/-- A step of the `rm`. -/
def Race.stepRm (input : UpInput) (s : Race) (t : Moment) (u : SiteMoment) : Option Race :=
  match s.rm with
  | .running (.act .acquireLock k) =>
    match t.fails with
    | some e => some { s with rm := .running (k (.error e)) }
    | none =>
      if s.lock = none then
        some { s with lock := some .rm, order := .rm :: s.order, rm := .running (k (.ok ())) }
      else none
  | .running (.act (.attempt .removeArtifacts) k) =>
    some { s with rm := .removing (removeArtifacts input.sandboxName) k }
  | .running (.act o k) => some { (s.actRm o t).2 with rm := .running (k (s.actRm o t).1) }
  | .running (.ret ()) => some { s.release .rm with rm := .returned (.ok ()) }
  | .running (.fail e) => some { s.release .rm with rm := .returned (.error e) }
  | .removing (.act o k) rest =>
    let project := s.found.getD ""
    let acted := (s.sites project).act o u
    some { s.setSite project acted.2 with rm := .removing (k acted.1) rest }
  | .removing (.ret ()) rest => some { s with rm := .running (rest (.ok ())) }
  | .removing (.fail e) rest => some { s with rm := .running (rest (.error e)) }
  | .returned _ => none

/-- Who moves. -/
inductive RaceAct where
  | up (t : Moment)
  | rm (t : Moment) (u : SiteMoment)
  /-- Others change the `.devcroft` of a project, beside the directory of the sandbox. -/
  | others (project : String) (site : Site)

/-- A step. -/
def Race.step (input : UpInput) (config : List UInt8) (s : Race) : RaceAct → Option Race
  | .up t => s.stepUp input config t
  | .rm t u => s.stepRm input t u
  | .others project site =>
    if site.files input.sandboxName = (s.sites project).files input.sandboxName then
      some (s.setSite project site)
    else none

/-- Both commands before their first steps. -/
def Race.start (input : UpInput) (h : Host) (root : Bool) (sites : String → Site) : Race where
  host := h
  root := root
  sites := sites
  lock := none
  order := []
  up := .running (Lifecycle.up input)
  rm := .running (Lifecycle.rm input.host.homeVar input.sandboxName)
  found := none
  made := ⟨false, false, false⟩

/-- The condition on a step: the `rm` removes nothing from the directory of the sandbox once an `up`
that obtained the lock after it has made artifacts; and when it obtains the lock after an `up` that
has made artifacts, the `meta.json` that it has read names the project of that `up`. -/
def Apart (input : UpInput) : Interleaving.Guard Race RaceAct := fun s a =>
  match a, s.rm with
  | .rm _ _, .removing (.act o _) _ =>
    s.order = [.up, .rm] → s.found = some input.projectRoot → o.about = some input.sandboxName →
      s.made.artifacts = false
  | .rm _ _, .running (.act .acquireLock _) =>
    s.order = [.up] → s.made.artifacts = true → s.found = some input.projectRoot
  | _, _ => True

instance (input : UpInput) (s : Race) (a : RaceAct) : Decidable (Apart input s a) := by
  unfold Apart
  split <;> infer_instance

/-- What the `up` has made is there. -/
structure Race.Present (input : UpInput) (s : Race) : Prop where
  root : s.made.root = true → s.root = true
  dir : s.made.dir = true → (s.sites input.projectRoot).files input.sandboxName ≠ none
  config : s.made.config = true →
    (s.sites input.projectRoot).fileAt input.sandboxName SERVICES_CONFIG ≠ none

/-- Neither the state directory nor any artifact that the `up` has made is there. -/
structure Race.Absent (input : UpInput) (s : Race) : Prop where
  root : s.root = false
  artifacts : s.made.artifacts = true →
    (s.sites input.projectRoot).files input.sandboxName = none

/-- The commands serialise: what an `up` that comes after the `rm` has made is there once both have
returned, and nothing of an `up` that comes before it is. -/
structure Race.Serial (input : UpInput) (s : Race) : Prop where
  upLast : s.order = [.up, .rm] → (∃ outcome, s.up = .returned (.ok outcome)) →
    (∃ outcome, s.rm = .returned outcome) → s.Present input
  rmLast : s.order = [.rm, .up] → s.rm = .returned (.ok ()) → s.Absent input

section Protocols

/-- How far the `up` is with the lock. -/
inductive UpStage where
  | outside
  | inside
  /-- The lock could not be obtained. -/
  | refused
  deriving DecidableEq

/-- Before it has the lock, an `up` does nothing. -/
def upProtocol : Protocol Op Answer UpStage := fun stage o a =>
  match stage, o, a with
  | .outside, .enter _, _ => some .outside
  | .outside, .acquireLock, .ok _ => some .inside
  | .outside, .acquireLock, .error _ => some .refused
  | .inside, _, _ => some .inside
  | _, _, _ => none

theorem up_follows (input : UpInput) :
    Follows upProtocol (fun stage _ => stage = .inside) .outside (Lifecycle.up input) := by
  refine follows_perform_bind fun _ => ⟨.outside, rfl, ?_⟩
  refine follows_orFail_bind fun root _ => ?_
  refine Follows.bind (Q := fun stage _ => stage = .inside) ?_ fun stage _ hstage => ?_
  · intro answer
    cases answer with
    | error e => exact ⟨.refused, rfl, trivial⟩
    | ok _ => exact ⟨.inside, rfl, rfl⟩
  · subst hstage
    exact follows_of_only (only_true _) fun _ _ _ => rfl

/-- How far the `rm` is: with the project that it has found, as long as that matters. -/
inductive RmStage where
  | outside (found : Option String)
  | inside (found : Option String)
  /-- The state directory is removed. -/
  | gone (found : Option String)
  /-- So are the artifacts. -/
  | done
  /-- Something has failed. -/
  | refused
  deriving DecidableEq

/-- The order in which `rm` works. -/
def rmProtocol : Protocol Op Answer RmStage := fun stage o a =>
  match stage, o, a with
  | .outside found, .enter _, _ => some (.outside found)
  | .outside _, .readMeta, a => some (.outside (projectIn a))
  | .outside found, .acquireLock, .ok _ => some (.inside found)
  | .outside _, .acquireLock, .error _ => some .refused
  | .inside found, .enter _, _ => some (.inside found)
  | .inside found, .readPidfile _, _ => some (.inside found)
  | .inside found, .processStartTime _, _ => some (.inside found)
  | .inside found, .isProcessAlive _, _ => some (.inside found)
  | .inside found, .kill _ _, _ => some (.inside found)
  | .inside found, .deadlinePassed, _ => some (.inside found)
  | .inside found, .removeRoot, .ok _ => some (.gone found)
  | .inside _, .removeRoot, .error _ => some .refused
  | .gone (some _), .attempt .removeArtifacts, .ok _ => some .done
  | .gone (some _), .attempt .removeArtifacts, .error _ => some .refused
  | _, _, _ => none

/-- Where an `rm` may return without an error. -/
def RmStage.Final (stage : RmStage) (_ : Unit) : Prop := stage = .gone none ∨ stage = .done

theorem rm_follows (homeVar : Option String) (sandboxName : String) :
    Follows rmProtocol RmStage.Final (.outside none) (Lifecycle.rm homeVar sandboxName) := by
  refine follows_perform_bind fun _ => ⟨.outside none, rfl, ?_⟩
  refine follows_orFail_bind fun root _ => ?_
  refine follows_perform_bind fun found => ⟨.outside (projectIn found), rfl, ?_⟩
  refine Follows.bind (Q := fun stage _ => stage = .inside (projectIn found)) ?_
    fun stage _ hstage => ?_
  · intro answer
    cases answer with
    | error e => exact ⟨.refused, rfl, trivial⟩
    | ok _ => exact ⟨.inside _, rfl, rfl⟩
  subst hstage
  have hstop : ∀ r, Follows rmProtocol (fun stage _ => stage = .inside (projectIn found))
      (.inside (projectIn found)) (terminateAndWait r) := by
    intro r
    refine follows_of_only (watching_terminateAndWait r) fun o a ho => ?_
    cases o <;> first | rfl | exact ho.elim
  have hboth : Follows rmProtocol (fun stage _ => stage = .inside (projectIn found))
      (.inside (projectIn found)) stopIfRunning := by
    refine (hstop .keeper).bind fun stage _ hstage => ?_
    subst hstage
    exact hstop .proxy
  refine hboth.bind fun stage _ hstage => ?_
  subst hstage
  refine follows_perform_bind fun answer => ?_
  cases answer with
  | error e => exact ⟨.refused, rfl, trivial⟩
  | ok _ =>
    refine ⟨.gone (projectIn found), rfl, ?_⟩
    split
    · intro answer
      cases answer with
      | error e => exact ⟨.refused, rfl, trivial⟩
      | ok _ => exact ⟨.done, rfl, Or.inr rfl⟩
    · next hnone =>
      refine Or.inl (congrArg RmStage.gone ?_)
      unfold projectIn
      split
      · next m => exact (hnone m rfl).elim
      · rfl

/-- It asks for the lock once. -/
theorem rmProtocol_acquireLock {stage stage' : RmStage} {a : Answer .acquireLock}
    (h : rmProtocol stage .acquireLock a = some stage') : ∃ found, stage = .outside found := by
  cases stage with
  | outside found => exact ⟨found, rfl⟩
  | gone found => cases found <;> cases h
  | _ => cases h

/-- It goes over to the project once the state directory is removed. -/
theorem rmProtocol_removeArtifacts {stage stage' : RmStage}
    {a : Answer (.attempt .removeArtifacts)}
    (h : rmProtocol stage (.attempt .removeArtifacts) a = some stage') :
    ∃ project, stage = .gone (some project) := by
  cases stage with
  | gone found =>
    cases found with
    | none => cases h
    | some project => exact ⟨project, rfl⟩
  | _ => cases h

/-- Whether the directory of the sandbox is known to be gone. -/
inductive SiteStage where
  | dirty
  | clean
  deriving DecidableEq

/-- The directory is gone once its removal has succeeded, or found nothing. -/
def siteProtocol (name : String) : Protocol SiteOp SiteAnswer SiteStage := fun stage o a =>
  match stage, o, a with
  | .dirty, .removeFiles n, .error .notFound => if n = name then some .clean else none
  | .dirty, .removeFiles _, _ => some .dirty
  | .dirty, .removeDir _, .error (.other _) => some .dirty
  | .dirty, .removeDir n, _ => if n = name then some .clean else none
  | .dirty, _, _ => none
  | .clean, _, _ => some .clean

theorem removeArtifacts_follows (name : String) :
    Follows (siteProtocol name) (fun stage _ => stage = .clean) .dirty (removeArtifacts name) := by
  have hdir : Follows (siteProtocol name)
      (fun stage answer => stage = .clean ∨ ∃ e, answer = .error (.other e)) .dirty
      (removeDirAll name) := by
    refine follows_perform_bind fun answer => ?_
    have hlast : ∀ answer : Except IoError Unit, ∃ stage,
        siteProtocol name .dirty (.removeDir name) answer = some stage ∧
          (stage = .clean ∨ ∃ e, answer = .error (.other e)) := by
      intro answer
      match answer with
      | .ok _ => exact ⟨.clean, if_pos rfl, Or.inl rfl⟩
      | .error .notFound => exact ⟨.clean, if_pos rfl, Or.inl rfl⟩
      | .error (.other e) => exact ⟨.dirty, rfl, Or.inr ⟨e, rfl⟩⟩
    match answer with
    | .ok _ => exact ⟨.dirty, rfl, hlast⟩
    | .error .notFound => exact ⟨.clean, if_pos rfl, Or.inl rfl⟩
    | .error (.other e) => exact ⟨.dirty, rfl, Or.inr ⟨e, rfl⟩⟩
  refine hdir.bind fun stage answer hstage => ?_
  have hclean : stage = .clean → Follows (siteProtocol name) (fun stage _ => stage = .clean) stage
      (removeDerived >>= fun _ => perform SiteOp.removeShared) := by
    rintro rfl
    exact follows_of_only (only_true _) fun _ _ _ => rfl
  split
  · trivial
  · next hnot => exact hclean (hstage.resolve_right fun ⟨e, he⟩ => hnot e he)

end Protocols

section Invariant

/-- Once the `rm` has come last, the state directory is gone. -/
def Race.Gone (s : Race) : Prop := s.order = [.rm, .up] → s.root = false

/-- So is the directory of the sandbox in a project. -/
def Race.Clean (input : UpInput) (s : Race) (project : String) : Prop :=
  s.order = [.rm, .up] → (s.sites project).files input.sandboxName = none

/-- What holds of the `up` in a stage. -/
def UpStage.Holds (s : Race) : UpStage → Prop
  | .inside => s.lock = some .up ∧ s.order.head? = some .up
  | _ => s.lock ≠ some .up ∧ .up ∉ s.order

/-- What holds of the `up`, wherever it is. -/
def UpHolds (s : Race) : Prop :=
  match s.up with
  | .running p => ∃ stage, Follows upProtocol (fun stage _ => stage = .inside) stage p ∧
      stage.Holds s
  | .returned _ => s.lock ≠ some .up

/-- What holds of the `rm` in a stage. -/
def RmStage.Holds (input : UpInput) (s : Race) : RmStage → Prop
  | .outside found => s.found = found ∧ s.lock ≠ some .rm ∧ .rm ∉ s.order
  | .inside found => s.found = found ∧ s.lock = some .rm ∧ s.order.head? = some .rm
  | .gone found => s.found = found ∧ s.lock ≠ some .rm ∧ s.Gone
  | .done => s.lock ≠ some .rm ∧ s.Gone ∧ ∀ project ∈ s.found, s.Clean input project
  | .refused => s.lock ≠ some .rm

/-- What holds of the `rm` while it removes the artifacts in a project. -/
structure Removing (input : UpInput) (s : Race) (q : SiteCmd Unit)
    (rest : Except String Unit → Cmd Unit) (project : String) (stage : SiteStage) : Prop where
  found : s.found = some project
  free : s.lock ≠ some .rm
  gone : s.Gone
  follows : Follows (siteProtocol input.sandboxName) (fun stage _ => stage = .clean) stage q
  clean : stage = .clean → s.Clean input project
  rest : ∀ answer, Follows rmProtocol RmStage.Final
    (if succeeded answer then .done else .refused) (rest answer)

/-- What holds of the `rm`, wherever it is. -/
def RmHolds (input : UpInput) (s : Race) : Prop :=
  match s.rm with
  | .running p => ∃ stage, Follows rmProtocol RmStage.Final stage p ∧ stage.Holds input s
  | .removing q rest => ∃ project stage, Removing input s q rest project stage
  | .returned outcome => s.lock ≠ some .rm ∧
      (outcome = .ok () → s.Gone ∧ ∀ project ∈ s.found, s.Clean input project)

/-- The invariant. -/
structure Race.Ordered (input : UpInput) (s : Race) : Prop where
  up : UpHolds s
  rm : RmHolds input s
  /-- Before it has the lock, the `up` has made nothing. -/
  unmade : .up ∉ s.order → s.made = ⟨false, false, false⟩
  /-- Nothing of an `up` that comes last is removed. -/
  present : s.order = [.up, .rm] → s.Present input
  /-- An `rm` that comes last has found the project. -/
  traced : s.order = [.rm, .up] → s.made.artifacts = true → s.found = some input.projectRoot

variable {input : UpInput} {config : List UInt8} {s s' : Race}

/-- What holds of the `up` does not depend on the rest. -/
theorem UpHolds.frame (h : UpHolds s) (hup : s'.up = s.up)
    (hlock : s'.lock = some .up ↔ s.lock = some .up) (horder : .up ∈ s'.order → .up ∈ s.order)
    (hhead : s.lock = some .up → s'.order.head? = s.order.head?) : UpHolds s' := by
  unfold UpHolds at h ⊢
  rw [hup]
  split at h
  · obtain ⟨stage, hfollows, hholds⟩ := h
    refine ⟨stage, hfollows, ?_⟩
    cases stage with
    | inside => exact ⟨hlock.mpr hholds.1, (hhead hholds.1).trans hholds.2⟩
    | outside => exact ⟨fun hheld => hholds.1 (hlock.mp hheld), fun hmem => hholds.2 (horder hmem)⟩
    | refused => exact ⟨fun hheld => hholds.1 (hlock.mp hheld), fun hmem => hholds.2 (horder hmem)⟩
  · exact fun hheld => h (hlock.mp hheld)

/-- What holds of the `rm` does not depend on the rest. -/
theorem RmHolds.frame (h : RmHolds input s) (hrm : s'.rm = s.rm) (hfound : s'.found = s.found)
    (hlock : s'.lock = some .rm ↔ s.lock = some .rm) (horder : .rm ∈ s'.order → .rm ∈ s.order)
    (hhead : s.lock = some .rm → s'.order.head? = s.order.head?) (hgone : s.Gone → s'.Gone)
    (hclean : ∀ project, s.Clean input project → s'.Clean input project) :
    RmHolds input s' := by
  have hfree : s.lock ≠ some .rm → s'.lock ≠ some .rm := fun h hheld => h (hlock.mp hheld)
  have hall : (∀ project ∈ s.found, s.Clean input project) →
      ∀ project ∈ s'.found, s'.Clean input project := by
    intro h project hproject
    rw [hfound] at hproject
    exact hclean project (h project hproject)
  unfold RmHolds at h ⊢
  rw [hrm]
  split at h
  · obtain ⟨stage, hfollows, hholds⟩ := h
    refine ⟨stage, hfollows, ?_⟩
    cases stage with
    | outside found =>
      obtain ⟨hfound', hlock', horder'⟩ := hholds
      exact ⟨hfound.trans hfound', hfree hlock', fun hmem => horder' (horder hmem)⟩
    | inside found =>
      obtain ⟨hfound', hlock', hhead'⟩ := hholds
      exact ⟨hfound.trans hfound', hlock.mpr hlock', (hhead hlock').trans hhead'⟩
    | gone found =>
      obtain ⟨hfound', hlock', hgone'⟩ := hholds
      exact ⟨hfound.trans hfound', hfree hlock', hgone hgone'⟩
    | done =>
      obtain ⟨hlock', hgone', hclean'⟩ := hholds
      exact ⟨hfree hlock', hgone hgone', hall hclean'⟩
    | refused => exact hfree hholds
  · obtain ⟨project, stage, hrem⟩ := h
    exact ⟨project, stage, hfound.trans hrem.found, hfree hrem.free, hgone hrem.gone, hrem.follows,
      fun hstage => hclean project (hrem.clean hstage), hrem.rest⟩
  · exact ⟨hfree h.1, fun hok => ⟨hgone (h.2 hok).1, hall (h.2 hok).2⟩⟩

/-- What an operation of the `up` does beside its effect on the host. -/
theorem actUp_elim {P : Race → Prop} (s : Race) (o : Op) (t : Moment)
    (hother : ∀ h, P { s with host := h })
    (hroot : ∀ h, P { s with host := h, root := true, made := { s.made with root := true } })
    (hdir : ∀ h, P { s.setSite input.projectRoot
        ((s.sites input.projectRoot).createDirAll input.sandboxName) with
      host := h, made := { s.made with dir := true } })
    (hconfig : ∀ h files, (s.sites input.projectRoot).files input.sandboxName = some files →
      P { s.setSite input.projectRoot
          ((s.sites input.projectRoot).write input.sandboxName SERVICES_CONFIG config) with
        host := h, made := { s.made with config := true } }) :
    P (s.actUp input config o t).2 := by
  fun_cases Race.actUp input config s o t with
  | case1 _ hfails =>
    simp only [Race.actUp, hfails]
    exact hroot _
  | case2 _ _ hfails =>
    simp only [Race.actUp, hfails]
    exact hdir _
  | case3 _ site hfails hfiles =>
    have hnone : (s.sites input.projectRoot).files input.sandboxName = none := hfiles
    simp only [Race.actUp, hfails, hnone]
    exact hother _
  | case4 _ site hfails files hfiles =>
    have hsome : (s.sites input.projectRoot).files input.sandboxName = some files := hfiles
    simp only [Race.actUp, hfails, hsome]
    exact hconfig _ files hfiles
  | case5 =>
    simp only [Race.actUp]
    exact hother _

/-- The operations of the `up` leave the rest as it is. -/
theorem actUp_frame (input : UpInput) (config : List UInt8) (s : Race) (o : Op) (t : Moment) :
    (s.actUp input config o t).2.lock = s.lock ∧ (s.actUp input config o t).2.order = s.order ∧
      (s.actUp input config o t).2.rm = s.rm ∧ (s.actUp input config o t).2.found = s.found := by
  apply actUp_elim (P := fun s' => s'.lock = s.lock ∧ s'.order = s.order ∧ s'.rm = s.rm ∧
    s'.found = s.found)
  · exact fun _ => ⟨rfl, rfl, rfl, rfl⟩
  · exact fun _ => ⟨rfl, rfl, rfl, rfl⟩
  · exact fun _ => ⟨rfl, rfl, rfl, rfl⟩
  · exact fun _ _ _ => ⟨rfl, rfl, rfl, rfl⟩

theorem release_lock (s : Race) (side : Side) : (s.release side).lock ≠ some side := by
  unfold Race.release
  dsimp only
  split
  · exact (Option.some_ne_none _).symm
  · next hnot => exact hnot

theorem release_lock_iff (s : Race) {side other : Side} (h : other ≠ side) :
    (s.release side).lock = some other ↔ s.lock = some other := by
  unfold Race.release
  dsimp only
  split
  · next hheld => simp [hheld, Ne.symm h]
  · exact Iff.rfl

theorem setSite_sites_self (s : Race) (project : String) (site : Site) :
    (s.setSite project site).sites project = site := if_pos rfl

theorem setSite_sites_of_ne {project other : String} (h : other ≠ project) (s : Race)
    (site : Site) : (s.setSite project site).sites other = s.sites other := if_neg h

/-- What the `up` makes is there. -/
theorem Race.Present.actUp (h : s.Present input) (o : Op) (t : Moment) :
    (s.actUp input config o t).2.Present input := by
  apply actUp_elim
  · exact fun _ => ⟨h.root, h.dir, h.config⟩
  · exact fun _ => ⟨fun _ => rfl, h.dir, h.config⟩
  · intro _
    have hcreated := Site.files_createDirAll (s.sites input.projectRoot) input.sandboxName
    refine ⟨h.root, fun _ => ?_, fun hconfig => ?_⟩
    · rw [setSite_sites_self, hcreated]
      exact Option.some_ne_none _
    · have hbefore := h.config hconfig
      rw [setSite_sites_self, Site.fileAt, hcreated]
      unfold Site.fileAt at hbefore
      cases hold : (s.sites input.projectRoot).files input.sandboxName with
      | none => exact (hbefore (by rw [hold, Option.bind_none])).elim
      | some files =>
        rw [hold] at hbefore
        exact hbefore
  · intro _ files hfiles
    have hwritten : ((s.sites input.projectRoot).write input.sandboxName SERVICES_CONFIG
        config).fileAt input.sandboxName SERVICES_CONFIG = some config := Site.fileAt_write hfiles
    refine ⟨h.root, fun _ hnone => ?_, fun _ => ?_⟩
    · rw [setSite_sites_self] at hnone
      rw [Site.fileAt, hnone] at hwritten
      cases hwritten
    · rw [setSite_sites_self, hwritten]
      exact Option.some_ne_none _

/-- What is there is still there when it is left as it is. -/
theorem Race.Present.frame (h : s.Present input) (hroot : s'.root = s.root)
    (hfiles : (s'.sites input.projectRoot).files input.sandboxName =
      (s.sites input.projectRoot).files input.sandboxName)
    (hmade : s'.made = s.made) : s'.Present input := by
  constructor
  · rw [hmade, hroot]
    exact h.root
  · rw [hmade, hfiles]
    exact h.dir
  · rw [hmade, Site.fileAt, hfiles]
    exact h.config

/-- Work of the `up` that leaves the lock to the `rm`: it changes nothing, or the `up` has come
last. -/
theorem Race.Ordered.ofUp (h : s.Ordered input) (hup : UpHolds s') (hrm : s'.rm = s.rm)
    (hfound : s'.found = s.found) (horder : s'.order = s.order)
    (hlock : s'.lock = some .rm ↔ s.lock = some .rm)
    (hwork : (s'.root = s.root ∧ s'.sites = s.sites ∧ s'.made = s.made) ∨
      s.order.head? = some .up ∧ (s.Present input → s'.Present input)) : s'.Ordered input := by
  rcases hwork with ⟨hroot, hsites, hmade⟩ | ⟨hhead, hpresent⟩
  · have hgone : s.Gone → s'.Gone := fun hgone hlast => hroot.trans (hgone (horder ▸ hlast))
    have hclean : ∀ project, s.Clean input project → s'.Clean input project := by
      intro project hclean hlast
      rw [hsites]
      exact hclean (horder ▸ hlast)
    refine ⟨hup, h.rm.frame hrm hfound hlock (by rw [horder]; exact id) (by simp [horder]) hgone
      hclean, ?_, ?_, ?_⟩
    · rw [horder, hmade]
      exact h.unmade
    · exact fun hlast => (h.present (horder ▸ hlast)).frame hroot (by rw [hsites]) hmade
    · rw [horder, hmade, hfound]
      exact h.traced
  · have hnever : s'.order ≠ [.rm, .up] := by
      intro hlast
      rw [horder.symm.trans hlast] at hhead
      cases hhead
    refine ⟨hup, h.rm.frame hrm hfound hlock (by rw [horder]; exact id) (by simp [horder])
      (fun _ hlast => (hnever hlast).elim) (fun _ _ hlast => (hnever hlast).elim), ?_, ?_, ?_⟩
    · intro hnot
      rw [horder] at hnot
      exact (hnot (List.mem_of_mem_head? hhead)).elim
    · exact fun hlast => hpresent (h.present (horder ▸ hlast))
    · exact fun hlast => (hnever hlast).elim

/-- The `up` is refused the lock. -/
theorem Race.Ordered.refuseUp (h : s.Ordered input) {k : Answer .acquireLock → Cmd UpOutcome}
    (hat : s.up = .running (.act .acquireLock k)) (e : String) :
    { s with up := .running (k (.error e)) : Race }.Ordered input := by
  have hup := h.up
  unfold UpHolds at hup
  rw [hat] at hup
  obtain ⟨stage, hfollows, hholds⟩ := hup
  obtain ⟨stage', hnext, hrest⟩ := hfollows (.error e)
  refine h.ofUp ⟨stage', hrest, ?_⟩ rfl rfl rfl Iff.rfl (Or.inl ⟨rfl, rfl, rfl⟩)
  cases stage with
  | outside =>
    obtain rfl := Option.some.inj hnext
    exact hholds
  | inside =>
    obtain rfl := Option.some.inj hnext
    exact hholds
  | refused => cases hnext

/-- The `up` obtains the lock. -/
theorem Race.Ordered.lockUp (h : s.Ordered input) {k : Answer .acquireLock → Cmd UpOutcome}
    (hat : s.up = .running (.act .acquireLock k)) (hfree : s.lock = none) :
    { s with
      lock := some .up
      order := .up :: s.order
      up := .running (k (.ok ())) : Race }.Ordered input := by
  have hup := h.up
  unfold UpHolds at hup
  rw [hat] at hup
  obtain ⟨stage, hfollows, hholds⟩ := hup
  obtain ⟨stage', hnext, hrest⟩ := hfollows (.ok ())
  cases stage with
  | outside =>
    obtain rfl := Option.some.inj hnext
    have hnever : ∀ rest, .up :: s.order ≠ .rm :: rest := by
      intro rest heq
      cases heq
    refine ⟨⟨.inside, hrest, rfl, rfl⟩, ?_, ?_, ?_, ?_⟩
    · refine h.rm.frame rfl rfl ?_ ?_ ?_ (fun _ hlast => (hnever _ hlast).elim)
        (fun _ _ hlast => (hnever _ hlast).elim)
      · simp [hfree]
      · simp
      · simp [hfree]
    · exact fun hmem => (hmem List.mem_cons_self).elim
    · have hmade := h.unmade hholds.2
      intro _
      constructor
      · simp [hmade]
      · simp [hmade]
      · simp [hmade]
    · exact fun hlast => (hnever _ hlast).elim
  | inside => exact (Option.some_ne_none _ (hholds.1.symm.trans hfree)).elim
  | refused => cases hnext

/-- The `up` performs any other operation. -/
theorem Race.Ordered.actUp (h : s.Ordered input) {o : Op} {k : Answer o → Cmd UpOutcome}
    (t : Moment) (hat : s.up = .running (.act o k)) (hlock : o ≠ .acquireLock) :
    { (s.actUp input config o t).2 with
      up := .running (k (s.actUp input config o t).1) : Race }.Ordered input := by
  have hup := h.up
  unfold UpHolds at hup
  rw [hat] at hup
  obtain ⟨stage, hfollows, hholds⟩ := hup
  obtain ⟨stage', hnext, hrest⟩ := hfollows (s.actUp input config o t).1
  cases stage with
  | outside =>
    cases o with
    | enter place =>
      obtain rfl := Option.some.inj hnext
      exact h.ofUp ⟨.outside, hrest, hholds⟩ rfl rfl rfl Iff.rfl (Or.inl ⟨rfl, rfl, rfl⟩)
    | acquireLock => exact (hlock rfl).elim
    | _ => cases hnext
  | inside =>
    obtain ⟨hheld, horder, hrm, hfound⟩ := actUp_frame input config s o t
    obtain rfl := Option.some.inj hnext
    refine h.ofUp ⟨.inside, hrest, ?_⟩ hrm hfound horder (by rw [hheld])
      (Or.inr ⟨hholds.2, fun hpresent => ?_⟩)
    · exact ⟨hheld.trans hholds.1, (congrArg List.head? horder).trans hholds.2⟩
    · have hmade : (s.actUp input config o t).2.Present input := hpresent.actUp o t
      exact hmade.frame rfl rfl rfl
  | refused => cases hnext

/-- A step of the `up`. -/
theorem Race.Ordered.stepUp (h : s.Ordered input) {t : Moment}
    (hstep : s.stepUp input config t = some s') : s'.Ordered input := by
  unfold Race.stepUp at hstep
  split at hstep
  · -- it asks for the lock
    next k hat =>
    split at hstep
    · next e hfails =>
      obtain rfl := Option.some.inj hstep
      exact h.refuseUp hat e
    · split at hstep
      · next hfree =>
        obtain rfl := Option.some.inj hstep
        exact h.lockUp hat hfree
      · cases hstep
  · -- any other operation
    next o k hnot hat =>
    obtain rfl := Option.some.inj hstep
    apply h.actUp t hat
    rintro rfl
    exact hnot k rfl HEq.rfl
  · obtain rfl := Option.some.inj hstep
    exact h.ofUp (release_lock s .up) rfl rfl rfl (release_lock_iff s (by decide))
      (Or.inl ⟨rfl, rfl, rfl⟩)
  · obtain rfl := Option.some.inj hstep
    exact h.ofUp (release_lock s .up) rfl rfl rfl (release_lock_iff s (by decide))
      (Or.inl ⟨rfl, rfl, rfl⟩)
  · cases hstep

/-- What the protocol takes for the end of the directory is its end. -/
theorem files_of_siteProtocol {name : String} {o : SiteOp} {u : SiteMoment} {site : Site}
    (h : siteProtocol name .dirty o (site.act o u).1 = some .clean) :
    (site.act o u).2.files name = none := by
  cases o with
  | removeFiles n =>
    cases hfiles : site.files n with
    | none =>
      simp only [Site.act, hfiles, siteProtocol] at h ⊢
      split at h
      · next heq => rw [← heq, hfiles]
      · cases h
    | some files =>
      cases hfails : u.fails with
      | none => simp [Site.act, hfiles, hfails, siteProtocol] at h
      | some e => simp [Site.act, hfiles, hfails, siteProtocol] at h
  | removeDir n =>
    cases hfiles : site.files n with
    | none =>
      simp only [Site.act, hfiles, siteProtocol] at h ⊢
      split at h
      · next heq => rw [← heq, hfiles]
      · cases h
    | some files =>
      cases files with
      | nil =>
        cases hfails : u.fails with
        | none =>
          simp only [Site.act, hfiles, hfails, siteProtocol] at h ⊢
          split at h
          · next heq => rw [← heq, Site.files_erase, if_pos rfl]
          · cases h
        | some e => simp [Site.act, hfiles, hfails, siteProtocol] at h
      | cons f files => simp [Site.act, hfiles, siteProtocol] at h
  | readShared => cases h
  | removeShared => cases h

/-- Work of the `rm` that leaves the lock to the `up`. -/
theorem Race.Ordered.ofRm (h : s.Ordered input) (hrm : RmHolds input s') (hup : s'.up = s.up)
    (hmade : s'.made = s.made) (horder : s'.order = s.order)
    (hlock : s'.lock = some .up ↔ s.lock = some .up)
    (hfound : s.order = [.rm, .up] → s'.found = s.found)
    (hpresent : s.order = [.up, .rm] → s.Present input → s'.Present input) :
    s'.Ordered input := by
  refine ⟨h.up.frame hup hlock (by rw [horder]; exact id) (by simp [horder]), hrm, ?_, ?_, ?_⟩
  · rw [horder, hmade]
    exact h.unmade
  · intro hlast
    rw [horder] at hlast
    exact hpresent hlast (h.present hlast)
  · intro hlast
    rw [horder] at hlast
    rw [hmade, hfound hlast]
    exact h.traced hlast

/-- A step of the `rm` on the project. -/
theorem Removing.act {o : SiteOp} {k : SiteAnswer o → SiteCmd Unit}
    {rest : Except String Unit → Cmd Unit} {project : String} {stage : SiteStage}
    (h : Removing input s (.act o k) rest project stage) (u : SiteMoment) :
    ∃ stage', Removing input
      { s.setSite project ((s.sites project).act o u).2 with
        rm := .removing (k ((s.sites project).act o u).1) rest }
      (k ((s.sites project).act o u).1) rest project stage' := by
  obtain ⟨stage', hnext, hrest⟩ := h.follows ((s.sites project).act o u).1
  refine ⟨stage', h.found, h.free, h.gone, hrest, ?_, h.rest⟩
  rintro rfl hlast
  rw [setSite_sites_self]
  cases stage with
  | dirty => exact files_of_siteProtocol hnext
  | clean => exact Site.files_act_none (h.clean rfl hlast) o u

/-- Before it asks for the lock, the `rm` reads what is recorded. -/
theorem Race.Ordered.actRm_outside (h : s.Ordered input) {o : Op} {k : Answer o → Cmd Unit}
    {found : Option String} {stage' : RmStage} (t : Moment) (hlock : o ≠ .acquireLock)
    (hholds : (RmStage.outside found).Holds input s)
    (hnext : rmProtocol (.outside found) o (s.actRm o t).1 = some stage')
    (hrest : Follows rmProtocol RmStage.Final stage' (k (s.actRm o t).1)) :
    { (s.actRm o t).2 with rm := .running (k (s.actRm o t).1) : Race }.Ordered input := by
  obtain ⟨hfound, hfree, hbefore⟩ := hholds
  have hnever : s.order ≠ [.rm, .up] := fun hlast => hbefore (by simp [hlast])
  cases o with
  | enter place =>
    obtain rfl := Option.some.inj hnext
    exact h.ofRm ⟨.outside found, hrest, hfound, hfree, hbefore⟩ rfl rfl rfl Iff.rfl
      (fun _ => rfl) fun _ hpresent => hpresent.frame rfl rfl rfl
  | readMeta =>
    obtain rfl := Option.some.inj hnext
    exact h.ofRm ⟨_, hrest, rfl, hfree, hbefore⟩ rfl rfl rfl Iff.rfl
      (fun hlast => (hnever hlast).elim) fun _ hpresent => hpresent.frame rfl rfl rfl
  | acquireLock => exact (hlock rfl).elim
  | _ => cases hnext

/-- With the lock, the `rm` stops what runs and removes the root. -/
theorem Race.Ordered.actRm_inside (h : s.Ordered input) {o : Op} {k : Answer o → Cmd Unit}
    {found : Option String} {stage' : RmStage} (t : Moment)
    (hholds : (RmStage.inside found).Holds input s)
    (hnext : rmProtocol (.inside found) o (s.actRm o t).1 = some stage')
    (hrest : Follows rmProtocol RmStage.Final stage' (k (s.actRm o t).1)) :
    { (s.actRm o t).2 with rm := .running (k (s.actRm o t).1) : Race }.Ordered input := by
  obtain ⟨hfound, hheld, hhead⟩ := hholds
  have hnever : s.order ≠ [.up, .rm] := by
    intro hlast
    rw [hlast] at hhead
    cases hhead
  have hquiet : ∀ host p, Follows rmProtocol RmStage.Final (.inside found) p →
      { s with host := host, rm := .running p : Race }.Ordered input :=
    fun _ _ hp => h.ofRm ⟨.inside found, hp, hfound, hheld, hhead⟩ rfl rfl rfl Iff.rfl
      (fun _ => rfl) fun _ hpresent => hpresent.frame rfl rfl rfl
  cases o with
  | enter | readPidfile | processStartTime | isProcessAlive | kill | deadlinePassed =>
    obtain rfl := Option.some.inj hnext
    exact hquiet _ _ hrest
  | removeRoot =>
    refine h.ofRm ⟨stage', hrest, ?_⟩ rfl rfl rfl (release_lock_iff s (by decide)) (fun _ => rfl)
      fun hlast => (hnever hlast).elim
    cases hanswer : (s.actRm .removeRoot t).1 with
    | ok _ =>
      rw [hanswer] at hnext
      obtain rfl := Option.some.inj hnext
      refine ⟨hfound, release_lock s .rm, fun _ => ?_⟩
      have hdone : ((machine.surroundings t s.host).act .removeRoot t).1 = .ok () := hanswer
      simp [Race.actRm, hdone, succeeded]
    | error e =>
      rw [hanswer] at hnext
      obtain rfl := Option.some.inj hnext
      exact release_lock s .rm
  | _ => cases hnext

/-- An operation of the `rm` on the host. -/
theorem Race.Ordered.actRm (h : s.Ordered input) {o : Op} {k : Answer o → Cmd Unit} (t : Moment)
    (hat : s.rm = .running (.act o k)) (hlock : o ≠ .acquireLock)
    (hattempt : o ≠ .attempt .removeArtifacts) :
    { (s.actRm o t).2 with rm := .running (k (s.actRm o t).1) : Race }.Ordered input := by
  have hrm := h.rm
  unfold RmHolds at hrm
  rw [hat] at hrm
  obtain ⟨stage, hfollows, hholds⟩ := hrm
  obtain ⟨stage', hnext, hrest⟩ := hfollows (s.actRm o t).1
  cases stage with
  | outside found => exact h.actRm_outside t hlock hholds hnext hrest
  | inside found => exact h.actRm_inside t hholds hnext hrest
  | gone found =>
    cases found with
    | none => cases hnext
    | some project =>
      cases o with
      | attempt a =>
        cases a with
        | removeArtifacts => exact (hattempt rfl).elim
        | _ => cases hnext
      | _ => cases hnext
  | done => cases hnext
  | refused => cases hnext

/-- The `rm` does not obtain the lock. -/
theorem Race.Ordered.refuseRm (h : s.Ordered input) {k : Answer .acquireLock → Cmd Unit}
    (hat : s.rm = .running (.act .acquireLock k)) (e : String) :
    { s with rm := .running (k (.error e)) : Race }.Ordered input := by
  have hrm := h.rm
  unfold RmHolds at hrm
  rw [hat] at hrm
  obtain ⟨stage, hfollows, hholds⟩ := hrm
  obtain ⟨stage', hnext, hrest⟩ := hfollows (.error e)
  obtain ⟨found, rfl⟩ := rmProtocol_acquireLock hnext
  obtain rfl := Option.some.inj hnext
  exact h.ofRm ⟨.refused, hrest, hholds.2.1⟩ rfl rfl rfl Iff.rfl (fun _ => rfl)
    fun _ hpresent => hpresent.frame rfl rfl rfl

/-- The `rm` obtains the lock. -/
theorem Race.Ordered.lockRm (h : s.Ordered input) {k : Answer .acquireLock → Cmd Unit}
    (hat : s.rm = .running (.act .acquireLock k)) (hfree : s.lock = none)
    (htraced : s.order = [.up] → s.made.artifacts = true → s.found = some input.projectRoot) :
    { s with
      lock := some .rm
      order := .rm :: s.order
      rm := .running (k (.ok ())) : Race }.Ordered input := by
  have hrm := h.rm
  unfold RmHolds at hrm
  rw [hat] at hrm
  obtain ⟨stage, hfollows, hholds⟩ := hrm
  obtain ⟨stage', hnext, hrest⟩ := hfollows (.ok ())
  obtain ⟨found, rfl⟩ := rmProtocol_acquireLock hnext
  obtain rfl := Option.some.inj hnext
  refine ⟨?_, ⟨.inside found, hrest, hholds.1, rfl, rfl⟩, ?_, ?_, ?_⟩
  · refine h.up.frame rfl ?_ ?_ ?_
    · simp [hfree]
    · simp
    · simp [hfree]
  · exact fun hmem => h.unmade fun hup => hmem (List.mem_cons_of_mem _ hup)
  · intro hlast
    cases hlast
  · intro hlast
    exact htraced (List.cons.inj hlast).2

/-- The `rm` goes over to the project. -/
theorem Race.Ordered.enterProject (h : s.Ordered input)
    {k : Answer (.attempt .removeArtifacts) → Cmd Unit}
    (hat : s.rm = .running (.act (.attempt .removeArtifacts) k)) :
    { s with rm := .removing (removeArtifacts input.sandboxName) k : Race }.Ordered input := by
  have hrm := h.rm
  unfold RmHolds at hrm
  rw [hat] at hrm
  obtain ⟨stage, hfollows, hholds⟩ := hrm
  obtain ⟨_, hnext, _⟩ := hfollows (.ok ())
  obtain ⟨project, rfl⟩ := rmProtocol_removeArtifacts hnext
  obtain ⟨hfound, hfree, hgone⟩ := hholds
  refine h.ofRm ⟨project, .dirty, hfound, hfree, hgone, removeArtifacts_follows _, ?_, ?_⟩ rfl rfl
    rfl Iff.rfl (fun _ => rfl) fun _ hpresent => hpresent.frame rfl rfl rfl
  · intro hclean
    cases hclean
  · intro answer
    obtain ⟨stage', hnext', hrest⟩ := hfollows answer
    cases answer with
    | ok _ =>
      obtain rfl := Option.some.inj hnext'
      exact hrest
    | error e =>
      obtain rfl := Option.some.inj hnext'
      exact hrest

/-- The `rm` removes something in the project. -/
theorem Race.Ordered.actProject (h : s.Ordered input) {o : SiteOp}
    {k : SiteAnswer o → SiteCmd Unit} {rest : Except String Unit → Cmd Unit}
    (hat : s.rm = .removing (.act o k) rest)
    (hmade : s.order = [.up, .rm] → s.found = some input.projectRoot →
      o.about = some input.sandboxName → s.made.artifacts = false) (u : SiteMoment) :
    { s.setSite (s.found.getD "") ((s.sites (s.found.getD "")).act o u).2 with
      rm := .removing (k ((s.sites (s.found.getD "")).act o u).1) rest : Race }.Ordered input := by
  have hrm := h.rm
  unfold RmHolds at hrm
  rw [hat] at hrm
  obtain ⟨project, stage, hrem⟩ := hrm
  rw [hrem.found, Option.getD_some]
  obtain ⟨stage', hrem'⟩ := hrem.act u
  refine h.ofRm ⟨project, stage', hrem'⟩ rfl rfl rfl Iff.rfl (fun _ => rfl) ?_
  intro hlast hpresent
  by_cases hproject : input.projectRoot = project
  · subst hproject
    by_cases habout : o.about = some input.sandboxName
    · -- nothing has been made there
      have hnone := hmade hlast hrem.found habout
      unfold Made.artifacts at hnone
      rw [Bool.or_eq_false_iff] at hnone
      refine ⟨hpresent.root, fun hdir => ?_, fun hconfig => ?_⟩
      · exact (Bool.false_ne_true (hnone.1.symm.trans hdir)).elim
      · exact (Bool.false_ne_true (hnone.2.symm.trans hconfig)).elim
    · refine hpresent.frame rfl ?_ rfl
      rw [setSite_sites_self]
      exact Site.files_act habout u
  · refine hpresent.frame rfl ?_ rfl
    rw [setSite_sites_of_ne hproject]

/-- A step of the `rm`, where it removes nothing of what the `up` has made last. -/
theorem Race.Ordered.stepRm (h : s.Ordered input) {t : Moment} {u : SiteMoment}
    (hapart : Apart input s (.rm t u)) (hstep : s.stepRm input t u = some s') :
    s'.Ordered input := by
  have hrm := h.rm
  unfold RmHolds at hrm
  unfold Race.stepRm at hstep
  unfold Apart at hapart
  split at hstep
  · -- it asks for the lock
    next k hat =>
    rw [hat] at hapart
    split at hstep
    · next e hfails =>
      obtain rfl := Option.some.inj hstep
      exact h.refuseRm hat e
    · split at hstep
      · next hfree =>
        obtain rfl := Option.some.inj hstep
        exact h.lockRm hat hfree hapart
      · cases hstep
  · next k hat =>
    obtain rfl := Option.some.inj hstep
    exact h.enterProject hat
  · -- any other operation
    next o k hlock hattempt hat =>
    obtain rfl := Option.some.inj hstep
    refine h.actRm t hat ?_ ?_
    · rintro rfl
      exact hlock k rfl HEq.rfl
    · rintro rfl
      exact hattempt k rfl HEq.rfl
  · -- it returns
    next hat =>
    obtain rfl := Option.some.inj hstep
    rw [hat] at hrm
    obtain ⟨stage, hfinal, hholds⟩ := hrm
    refine h.ofRm ⟨release_lock s .rm, fun _ => ?_⟩ rfl rfl rfl (release_lock_iff s (by decide))
      (fun _ => rfl) fun _ hpresent => hpresent.frame rfl rfl rfl
    rcases hfinal with rfl | rfl
    · refine ⟨hholds.2.2, fun project hproject => ?_⟩
      have hnone : s.found = none := hholds.1
      exact (Option.some_ne_none _ (Eq.trans hproject.symm hnone)).elim
    · exact hholds.2
  · next e hat =>
    obtain rfl := Option.some.inj hstep
    exact h.ofRm ⟨release_lock s .rm, fun hok => (nomatch hok)⟩ rfl rfl rfl
      (release_lock_iff s (by decide)) (fun _ => rfl)
      fun _ hpresent => hpresent.frame rfl rfl rfl
  · next o k rest hat =>
    rw [hat] at hapart
    obtain rfl := Option.some.inj hstep
    exact h.actProject hat hapart u
  · next rest hat =>
    obtain rfl := Option.some.inj hstep
    rw [hat] at hrm
    obtain ⟨project, stage, hrem⟩ := hrm
    refine h.ofRm ⟨.done, hrem.rest (.ok ()), hrem.free, hrem.gone, ?_⟩ rfl rfl rfl Iff.rfl
      (fun _ => rfl) fun _ hpresent => hpresent.frame rfl rfl rfl
    intro found hfound
    obtain rfl : project = found := Option.some.inj (hrem.found.symm.trans hfound)
    exact hrem.clean hrem.follows
  · next e rest hat =>
    obtain rfl := Option.some.inj hstep
    rw [hat] at hrm
    obtain ⟨project, stage, hrem⟩ := hrm
    exact h.ofRm ⟨.refused, hrem.rest (.error e), hrem.free⟩ rfl rfl rfl Iff.rfl
      (fun _ => rfl) fun _ hpresent => hpresent.frame rfl rfl rfl
  · cases hstep

/-- What others change is beside the directory of the sandbox. -/
theorem Race.Ordered.others (h : s.Ordered input) {project : String} {site : Site}
    (hsame : site.files input.sandboxName = (s.sites project).files input.sandboxName) :
    (s.setSite project site).Ordered input := by
  have hfiles : ∀ p, ((s.setSite project site).sites p).files input.sandboxName =
      (s.sites p).files input.sandboxName := by
    intro p
    by_cases hp : p = project
    · rw [hp, setSite_sites_self]
      exact hsame
    · rw [setSite_sites_of_ne hp]
  have hclean : ∀ p, s.Clean input p → (s.setSite project site).Clean input p := by
    intro p hp hlast
    rw [hfiles]
    exact hp hlast
  refine ⟨h.up.frame rfl Iff.rfl id fun _ => rfl,
    h.rm.frame rfl rfl Iff.rfl id (fun _ => rfl) id hclean, h.unmade, fun hlast => ?_, h.traced⟩
  exact (h.present hlast).frame rfl (hfiles input.projectRoot) rfl

/-- Every step keeps the invariant. -/
theorem ordered_step (s : Race) (a : RaceAct) (s' : Race) (h : s.Ordered input)
    (hapart : Apart input s a) (hstep : s.step input config a = some s') : s'.Ordered input := by
  cases a with
  | up t => exact h.stepUp hstep
  | rm t u => exact h.stepRm hapart hstep
  | others project site =>
    unfold Race.step at hstep
    dsimp only at hstep
    split at hstep
    · next hsame =>
      obtain rfl := Option.some.inj hstep
      exact h.others hsame
    · cases hstep

/-- It holds before the commands begin. -/
theorem ordered_start (input : UpInput) (host : Host) (root : Bool) (sites : String → Site) :
    (Race.start input host root sites).Ordered input where
  up := ⟨.outside, up_follows input, (fun h => (nomatch h)), List.not_mem_nil⟩
  rm := ⟨.outside none, rm_follows _ _, rfl, (fun h => (nomatch h)), List.not_mem_nil⟩
  unmade _ := rfl
  present h := (nomatch h)
  traced h := (nomatch h)

/-- With the invariant, the commands serialise. -/
theorem Race.Ordered.serial (h : s.Ordered input) : s.Serial input := by
  refine ⟨fun hlast _ _ => h.present hlast, fun hlast hreturned => ?_⟩
  have hrm := h.rm
  unfold RmHolds at hrm
  rw [hreturned] at hrm
  obtain ⟨hgone, hclean⟩ := hrm.2 rfl
  exact ⟨hgone hlast, fun hmade => hclean _ (h.traced hlast hmade) hlast⟩

/-- In every interleaving of the steps of an `rm` and an `up` that all meet the condition, the two
serialise. -/
theorem serial_exec (input : UpInput) (config : List UInt8) (host : Host) (root : Bool)
    (sites : String → Site) (acts : List RaceAct)
    (hapart : Interleaving.Guarded (Apart input) (Interleaving.steps
      (Race.step input config) acts (Race.start input host root sites))) :
    (Interleaving.exec (Race.step input config) acts
      (Race.start input host root sites)).Serial input :=
  (Interleaving.invariant ordered_step (ordered_start input host root sites) hapart).2.serial

end Invariant

/-- Whether the `up` has returned successfully. -/
def UpPhase.isOk : UpPhase → Bool
  | .returned (.ok _) => true
  | _ => false

/-- Whether the `rm` has. -/
def RmPhase.isOk : RmPhase → Bool
  | .returned (.ok _) => true
  | _ => false

theorem UpPhase.exists_of_isOk {p : UpPhase} (h : p.isOk = true) :
    ∃ outcome, p = .returned (.ok outcome) := by
  unfold UpPhase.isOk at h
  split at h
  · next outcome => exact ⟨outcome, rfl⟩
  · cases h

theorem RmPhase.returned_of_isOk {p : RmPhase} (h : p.isOk = true) : p = .returned (.ok ()) := by
  unfold RmPhase.isOk at h
  split at h
  · rfl
  · cases h

/-- A manifest that declares a service. -/
def servedInput : UpInput :=
  { sampleInput [] with
    resolution := .ok ⟨[("PATH", "/nix/store/s/bin")], [], ["/nix/store"], none,
      .declared ["db"], false⟩
    resolveInEnv := fun _ => some "/nix/store/s/bin/process-compose" }

/-- The sandbox was up without services, and is down. -/
def racing : Race :=
  .start servedInput
    { freshHost with
      metaFile := some ⟨"/home/u/p", "", [], "process", [], false, none, none, none⟩ }
    true fun _ => .empty

/-- There has been no `up` before. -/
def racingFresh : Race := .start servedInput freshHost false fun _ => .empty

/-- Steps of the `up` in which nothing goes wrong: with these, it returns. -/
def upActs : List RaceAct := ((sampleMoments [] []).take 26).map .up

/-- Steps of the `rm` in which nothing goes wrong. -/
def rmActs (n : Nat) : List RaceAct := .replicate n (.rm .quiet .quiet)

/-- What the commands do. -/
def Race.after (s : Race) (acts : List RaceAct) : Race :=
  Interleaving.exec (Race.step servedInput sampleConfig) acts s

/-- One after the other: the service config is there in the end. -/
theorem serial_exec_racing :
    (racing.after (rmActs 14 ++ upActs)).order = [.up, .rm] ∧
      (racing.after (rmActs 14 ++ upActs)).made = ⟨true, true, true⟩ ∧
      (racing.after (rmActs 14 ++ upActs)).Present servedInput := by
  have hserial := serial_exec servedInput sampleConfig racing.host racing.root racing.sites
    (rmActs 14 ++ upActs) (by decide +kernel)
  have hrun : (racing.after (rmActs 14 ++ upActs)).order = [.up, .rm] ∧
      (racing.after (rmActs 14 ++ upActs)).made = ⟨true, true, true⟩ ∧
      (racing.after (rmActs 14 ++ upActs)).up.isOk = true ∧
      (racing.after (rmActs 14 ++ upActs)).rm.isOk = true := by decide +kernel
  obtain ⟨horder, hmade, hup, hrm⟩ := hrun
  exact ⟨horder, hmade, hserial.upLast horder (UpPhase.exists_of_isOk hup)
    ⟨_, RmPhase.returned_of_isOk hrm⟩⟩

/-- If an `up` comes in after the `rm` has released the lock, its service config is removed. If it
comes in before the `rm` has obtained the lock, but after that one has read `meta.json`, its service
config is left. -/
theorem not_serial_racing :
    ¬(racing.after (rmActs 8 ++ upActs ++ rmActs 7)).Serial servedInput ∧
      ¬(racingFresh.after (rmActs 2 ++ upActs ++ rmActs 12)).Serial servedInput := by
  constructor
  · intro h
    have hrun : (racing.after (rmActs 8 ++ upActs ++ rmActs 7)).order = [.up, .rm] ∧
        (racing.after (rmActs 8 ++ upActs ++ rmActs 7)).made = ⟨true, true, true⟩ ∧
        (racing.after (rmActs 8 ++ upActs ++ rmActs 7)).up.isOk = true ∧
        (racing.after (rmActs 8 ++ upActs ++ rmActs 7)).rm.isOk = true ∧
        (racing.after (rmActs 8 ++ upActs ++ rmActs 7)).sites servedInput.projectRoot =
          .empty := by decide +kernel
    obtain ⟨horder, hmade, hup, hrm, hgone⟩ := hrun
    have hpresent := h.upLast horder (UpPhase.exists_of_isOk hup)
      ⟨_, RmPhase.returned_of_isOk hrm⟩
    refine hpresent.config (by rw [hmade]) ?_
    rw [hgone]
    rfl
  · intro h
    have hrun : (racingFresh.after (rmActs 2 ++ upActs ++ rmActs 12)).order = [.rm, .up] ∧
        (racingFresh.after (rmActs 2 ++ upActs ++ rmActs 12)).made = ⟨true, true, true⟩ ∧
        (racingFresh.after (rmActs 2 ++ upActs ++ rmActs 12)).rm.isOk = true ∧
        (racingFresh.after (rmActs 2 ++ upActs ++ rmActs 12)).sites servedInput.projectRoot =
          ⟨some [("p", [(SERVICES_CONFIG, sampleConfig)])]⟩ := by decide +kernel
    obtain ⟨horder, hmade, hrm, hleft⟩ := hrun
    have habsent := h.rmLast horder (RmPhase.returned_of_isOk hrm)
    have hnone := habsent.artifacts (by rw [hmade]; rfl)
    rw [hleft] at hnone
    cases hnone

end Devcroft.Lifecycle
