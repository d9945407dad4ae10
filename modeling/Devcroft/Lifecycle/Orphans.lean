import Devcroft.Lifecycle.Fading

/-!
# No orphaned processes

A live keeper or proxy that no pidfile names is out of reach of every later command.
The invariant is that each one is named by the pidfile of its kind. A plain `up` breaks
it when it clears the pidfiles of a stale keeper without stopping the processes, or
starts a proxy over one that it cannot reuse; every other path keeps it, as long as the
pidfiles and start times can be read and written where processes are signalled and
recorded.
-/

namespace Devcroft.Lifecycle

open Program

/-- The live process that a pidfile names, if it is of the pidfile's kind. -/
def Host.recorded (h : Host) (r : Role) : Bool :=
  match h.pidfile r with
  | none => false
  | some (pid, start) =>
    match h.procs pid with
    | none => false
    | some p => decide (p.kind.role = some r) && start == h.startOf p

/-- Every live process of the sandbox is named by the pidfile of its kind. -/
def Accounted (h : Host) : Prop :=
  ∀ pid p r, h.procs pid = some p → p.kind.role = some r → h.pidfile r = some (pid, h.startOf p)

/-- No process of a kind is alive. -/
def Vacant (r : Role) (h : Host) : Prop := ∀ pid p, h.procs pid = some p → p.kind.role ≠ some r

/-- Every live process of the sandbox is the one that a pidfile names by pid and start time, and at
most one keeper and one proxy are alive. -/
structure NoOrphans (h : Host) : Prop where
  named : ∀ pid p, h.procs pid = some p → p.kind.role ≠ none →
    ∃ r, h.pidfile r = some (pid, h.startOf p)
  unique : ∀ r pid p pid' p', h.procs pid = some p → p.kind.role = some r →
    h.procs pid' = some p' → p'.kind.role = some r → pid = pid'

theorem Accounted.noOrphans {h : Host} (hacc : Accounted h) : NoOrphans h where
  named := by
    intro pid p hp hrole
    obtain ⟨r, hr⟩ := Option.ne_none_iff_exists'.mp hrole
    exact ⟨r, hacc pid p r hp hr⟩
  unique := by
    intro r pid p pid' p' hp hr hp' hr'
    have h₁ := hacc pid p r hp hr
    have h₂ := hacc pid' p' r hp' hr'
    rw [h₁] at h₂
    exact (Prod.mk.inj (Option.some.inj h₂)).1

theorem Accounted.fades {h h' : Host} (hacc : Accounted h) (hf : Fades h h') : Accounted h' := by
  intro pid p r hp hr
  rw [hf.pidfile, hf.startOf]
  exact hacc pid p r (hf.procs_of_role hp hr) hr

theorem Vacant.fades {r : Role} {h h' : Host} (hv : Vacant r h) (hf : Fades h h') : Vacant r h' :=
  fun pid p hp hr => hv pid p (hf.procs_of_role hp hr) hr

/-- A pidfile that names no live process of its kind leaves none. -/
theorem Accounted.vacant {h : Host} {r : Role} (hacc : Accounted h)
    (hrec : h.recorded r = false) : Vacant r h := by
  intro pid p hp hr
  have hfile := hacc pid p r hp hr
  simp [Host.recorded, hfile, hp, hr] at hrec

/-- Without live processes every host is in order. -/
theorem accounted_of_vacant {h : Host} (hv : ∀ r, Vacant r h) : Accounted h :=
  fun pid p r hp hr => (hv r pid p hp hr).elim

/-- Where a command is: the place that it entered last. -/
def latestPlace : List (Step machine) → Option Place
  | [] => none
  | step :: earlier =>
    match step.op with
    | .enter place => some place
    | _ => latestPlace earlier

/-- The condition on a step: a recovery does not forget a live process, a proxy is not started over
a live one, and pidfiles and start times are read and written without errors where live processes
are signalled and recorded. -/
def Orderly : Guard machine := fun step earlier =>
  match step.op with
  | .enter .staleRecovery =>
    step.before.recorded .keeper = false ∧ step.before.recorded .proxy = false
  | .spawnProxy _ => step.before.recorded .proxy = false
  | .readPidfile r =>
    latestPlace earlier = some (.terminateAndWait r) → step.before.recorded r = true →
      step.choice.fails = none
  | .processStartTime pid =>
    match latestPlace earlier with
    | some (.terminateAndWait r) => step.before.recorded r = true → step.choice.fails = none
    | some (.writePidfile _) => (step.before.procs pid).isSome = true → step.choice.fails = none
    | _ => True
  | .writeRecord _ pid _ => (step.before.procs pid).isSome = true → step.choice.fails = none
  | _ => True

instance (step : Step machine) (earlier : List (Step machine)) :
    Decidable (Orderly step earlier) := by
  unfold Orderly
  split
  · infer_instance
  · infer_instance
  · infer_instance
  · split <;> infer_instance
  · infer_instance
  · infer_instance

section Terminate

variable {c : Config machine} {r : Role} {pid start : ℕ}

/-- The process in the pidfile is gone if its start time cannot be read, where nothing fails while
it is alive. -/
theorem not_recorded_of_error {h : Host} {t : Moment} {e : String}
    (hpidfile : h.pidfile r = some (pid, start)) (hok : h.recorded r = true → t.fails = none)
    (hfound : h.processStartTime pid t = .error e) : h.recorded r = false := by
  by_contra hrec
  have hrec : h.recorded r = true := by simpa using hrec
  have hfails := hok hrec
  cases hp : h.procs pid with
  | none => simp [Host.recorded, hpidfile, hp] at hrec
  | some p =>
    rw [Host.processStartTime_of_none hp hfails] at hfound
    cases hfound

/-- And if another start time is read. -/
theorem not_recorded_of_ne {h : Host} {t : Moment} {current : ℕ}
    (hpidfile : h.pidfile r = some (pid, start))
    (hfound : h.processStartTime pid t = .ok current) (hne : current ≠ start) :
    h.recorded r = false := by
  cases hp : h.procs pid with
  | none => simp [Host.recorded, hpidfile, hp]
  | some p =>
    have hstartOf : start ≠ h.startOf p := by
      rw [Host.startOf_of_processStartTime hp hfound]
      exact Ne.symm hne
    simp [Host.recorded, hpidfile, hp, hstartOf]

/-- In `terminate_and_wait`, a process that is not found to be the recorded one is not alive. -/
theorem isSameProcess_spec (hplace : latestPlace c.trace = some (.terminateAndWait r))
    (hfile : c.state.pidfile r = some (pid, start)) (E : UpError → Config machine → Prop) :
    wp Orderly (fun same c' => Fades c.state c'.state ∧ latestPlace c'.trace = latestPlace c.trace ∧
      (same = false → c'.state.recorded r = false)) E (isSameProcess pid start) c := by
  unfold isSameProcess
  split
  · refine (wp_perform _ _ _ _).mpr fun t _ => ?_
    have hfades := fades_before c (.isProcessAlive pid) t
    refine ⟨hfades, rfl, fun hdead => ?_⟩
    have hnone : (c.step (.isProcessAlive pid) t).before.procs pid = none :=
      Option.not_isSome_iff_eq_none.mp (Bool.eq_false_iff.mp hdead)
    have hpidfile : (c.step (.isProcessAlive pid) t).before.pidfile r = some (pid, start) := by
      rw [hfades.pidfile, hfile]
    show (c.step (.isProcessAlive pid) t).before.recorded r = false
    simp [Host.recorded, hpidfile, hnone]
  · refine (wp_perform_bind _ _ _ _ _).mpr fun t hguard => ?_
    have hfades := fades_before c (.processStartTime pid) t
    have hpidfile : (c.step (.processStartTime pid) t).before.pidfile r = some (pid, start) := by
      rw [hfades.pidfile, hfile]
    have hok : (c.step (.processStartTime pid) t).before.recorded r = true → t.fails = none := by
      have h := hguard
      simp only [Orderly, Config.step, hplace] at h
      exact h
    generalize hbefore : (c.step (.processStartTime pid) t).before = before at hfades hpidfile hok
    have hanswer : c.answer (.processStartTime pid) t = before.processStartTime pid t := by
      rw [← hbefore]
      rfl
    have hnext : (c.next (.processStartTime pid) t).state = before := hbefore
    rw [hanswer]
    have hresult : ∀ same, (same = false → before.recorded r = false) →
        Fades c.state (c.next (.processStartTime pid) t).state ∧
          latestPlace (c.next (.processStartTime pid) t).trace = latestPlace c.trace ∧
          (same = false → (c.next (.processStartTime pid) t).state.recorded r = false) := by
      intro same h
      rw [hnext]
      exact ⟨hfades, rfl, h⟩
    cases hfound : before.processStartTime pid t with
    | error e => exact hresult false fun _ => not_recorded_of_error hpidfile hok hfound
    | ok current =>
      exact hresult _ fun hne => not_recorded_of_ne hpidfile hfound (by simpa using hne)

/-- Polling ends early only when the recorded process is gone. -/
theorem pollUntilGone_spec (rounds : ℕ)
    (hplace : latestPlace c.trace = some (.terminateAndWait r))
    (hfile : c.state.pidfile r = some (pid, start)) (E : UpError → Config machine → Prop) :
    wp Orderly (fun gone c' => Fades c.state c'.state ∧ latestPlace c'.trace = latestPlace c.trace ∧
      (gone = true → c'.state.recorded r = false)) E (pollUntilGone pid start rounds) c := by
  induction rounds generalizing c with
  | zero => exact ⟨Fades.refl _, rfl, fun h => by cases h⟩
  | succ rounds ih =>
    refine (wp_perform_bind _ _ _ _ _).mpr fun t _ => ?_
    have hfades := fades_next (o := .deadlinePassed) trivial c t
    have hplace' : latestPlace (c.next .deadlinePassed t).trace = some (.terminateAndWait r) :=
      hplace
    split
    · exact ⟨hfades, rfl, fun h => by cases h⟩
    · have hsame := isSameProcess_spec hplace' (hfades.pidfile ▸ hfile) E
      refine wp_seq hsame fun same c₁ ⟨hfades₁, hplace₁, hgone⟩ => ?_
      have hfades' := hfades.trans hfades₁
      split
      · have hrest := ih (hplace₁.trans hplace') (hfades'.pidfile ▸ hfile)
        refine wp_mono hrest (fun gone c₂ ⟨hfades₂, hplace₂, h⟩ => ?_) fun e c he => he
        exact ⟨hfades'.trans hfades₂, hplace₂.trans hplace₁, h⟩
      · next hne => exact ⟨hfades', hplace₁, fun _ => hgone (by simpa using hne)⟩

/-- Signalling a recorded process ends with it gone. -/
theorem terminateAndWaitPid_spec (hplace : latestPlace c.trace = some (.terminateAndWait r))
    (hfile : c.state.pidfile r = some (pid, start)) (E : UpError → Config machine → Prop) :
    wp Orderly (fun _ c' => Fades c.state c'.state ∧ c'.state.recorded r = false) E
      (terminateAndWaitPid pid start) c := by
  refine (wp_perform_bind _ _ _ _ _).mpr fun t _ => ?_
  have hfades := fades_next (o := .kill pid .term) trivial c t
  have hplace' : latestPlace (c.next (.kill pid .term) t).trace = some (.terminateAndWait r) :=
    hplace
  have hpoll := pollUntilGone_spec POLLS hplace' (hfades.pidfile ▸ hfile) E
  refine wp_seq hpoll fun gone c₁ ⟨hfades₁, hplace₁, hgone⟩ => ?_
  have hfades₁ := hfades.trans hfades₁
  split
  · next h => exact ⟨hfades₁, hgone h⟩
  · have hsame := isSameProcess_spec (hplace₁.trans hplace') (hfades₁.pidfile ▸ hfile) E
    refine wp_seq hsame fun same c₂ ⟨hfades₂, _, hdead⟩ => ?_
    have hfades₂ := hfades₁.trans hfades₂
    split
    · refine (wp_perform _ _ _ _).mpr fun t _ => ?_
      have hfades₃ := hfades₂.trans (fades_next (o := .kill pid .kill) trivial c₂ t)
      have hpidfile : (c₂.next (.kill pid .kill) t).state.pidfile r = some (pid, start) := by
        rw [hfades₃.pidfile, hfile]
      have hnone : (c₂.next (.kill pid .kill) t).state.procs pid = none := if_pos rfl
      exact ⟨hfades₃, by simp [Host.recorded, hpidfile, hnone]⟩
    · next hne => exact ⟨hfades₂, hdead (by simpa using hne)⟩

/-- `terminate_and_wait` leaves no recorded process alive. -/
theorem terminateAndWait_spec (r : Role) (c : Config machine)
    (E : UpError → Config machine → Prop) :
    wp Orderly (fun _ c' => Fades c.state c'.state ∧ c'.state.recorded r = false) E
      (terminateAndWait r) c := by
  refine (wp_perform_bind _ _ _ _ _).mpr fun t _ => ?_
  have hfades := fades_next (o := .enter (.terminateAndWait r)) trivial c t
  have hplace : latestPlace (c.next (.enter (.terminateAndWait r)) t).trace =
      some (.terminateAndWait r) := rfl
  generalize c.next (.enter (.terminateAndWait r)) t = c₁ at hfades hplace
  refine (wp_perform_bind _ _ _ _ _).mpr fun t hguard => ?_
  have hfades₁ := hfades.trans (fades_next (o := .readPidfile r) trivial c₁ t)
  have hplace₁ : latestPlace (c₁.next (.readPidfile r) t).trace = some (.terminateAndWait r) :=
    hplace
  have hok : (c₁.next (.readPidfile r) t).state.recorded r = true → t.fails = none := hguard hplace
  have hanswer : c₁.answer (.readPidfile r) t =
      t.fallible ((c₁.next (.readPidfile r) t).state.pidfile r) := rfl
  rw [hanswer]
  generalize c₁.next (.readPidfile r) t = c₂ at hfades₁ hplace₁ hok
  unfold Moment.fallible
  cases hfails : t.fails with
  | some e =>
    refine ⟨hfades₁, ?_⟩
    by_contra hrec
    rw [hok (by simpa using hrec)] at hfails
    cases hfails
  | none =>
    cases hfile : c₂.state.pidfile r with
    | none => exact ⟨hfades₁, by simp [Host.recorded, hfile]⟩
    | some entry =>
      obtain ⟨pid, start⟩ := entry
      refine wp_seq (isSameProcess_spec hplace₁ hfile E) fun same c₃ ⟨hfades₃, hplace₃, hdead⟩ => ?_
      have hfades₃' := hfades₁.trans hfades₃
      split
      · have hpid := terminateAndWaitPid_spec (hplace₃.trans hplace₁) (hfades₃.pidfile ▸ hfile) E
        refine wp_mono hpid (fun _ c₄ ⟨hfades₄, h⟩ => ?_) fun e c he => he
        exact ⟨hfades₃'.trans hfades₄, h⟩
      · next hne => exact ⟨hfades₃', hdead (by simpa using hne)⟩

end Terminate

/-- Every live process of the sandbox is accounted for, but those of one kind only by a pid: that of
a process just started, which is still to be recorded. -/
def Pending (r : Role) (pid : ℕ) (h : Host) : Prop :=
  ∀ q p r', h.procs q = some p → p.kind.role = some r' →
    (r' = r → q = pid) ∧ (r' ≠ r → h.pidfile r' = some (q, h.startOf p))

theorem Pending.fades {r : Role} {pid : ℕ} {h h' : Host} (hpend : Pending r pid h)
    (hf : Fades h h') : Pending r pid h' := by
  intro q p r' hp hr
  rw [hf.pidfile, hf.startOf]
  exact hpend q p r' (hf.procs_of_role hp hr) hr

/-- Recording the pending process with the start time that it has, or did not outlive, settles it.
-/
theorem Pending.record {r : Role} {pid start : ℕ} {h : Host} (hpend : Pending r pid h)
    (hstart : ∀ p, h.procs pid = some p → p.kind.role = some r → h.startOf p = start) :
    Accounted (h.record r (some (pid, start))) := by
  intro q p r' hp hr
  obtain ⟨hpid, hother⟩ := hpend q p r' hp hr
  by_cases hr' : r' = r
  · obtain rfl := hpid hr'
    subst hr'
    have hstartOf : (h.record r' (some (q, start))).startOf p = start := hstart p hp hr
    rw [hstartOf]
    exact if_pos rfl
  · exact (if_neg hr').trans (hother hr')

/-- A pending process that is gone needs no record. -/
theorem Pending.of_dead {r : Role} {pid : ℕ} {h : Host} (hpend : Pending r pid h)
    (hdead : h.procs pid = none) (entry : Option (ℕ × ℕ)) :
    Accounted h ∧ Accounted (h.record r entry) := by
  have hne : ∀ q p r', h.procs q = some p → p.kind.role = some r' → r' ≠ r := by
    rintro q p r' hp hr rfl
    rw [(hpend q p r' hp hr).1 rfl, hdead] at hp
    cases hp
  constructor
  · intro q p r' hp hr
    exact (hpend q p r' hp hr).2 (hne q p r' hp hr)
  · intro q p r' hp hr
    exact (if_neg (hne q p r' hp hr)).trans ((hpend q p r' hp hr).2 (hne q p r' hp hr))

/-- Starting a process of a kind of which none is alive makes it pending. -/
theorem Accounted.born {h : Host} {r : Role} {pid : ℕ} {kind : Kind} (hacc : Accounted h)
    (hv : Vacant r h) (hkind : kind.role = some r) : Pending r pid (h.born pid kind) := by
  intro q p r' hp hr
  unfold Host.born at hp
  dsimp only at hp
  split at hp
  · next hq =>
    obtain rfl := Option.some.inj hp
    obtain rfl := Option.some.inj (hkind.symm.trans hr)
    exact ⟨fun _ => hq, fun h => (h rfl).elim⟩
  · refine ⟨?_, fun _ => hacc q p r' hp hr⟩
    rintro rfl
    exact (hv q p hp hr).elim

/-- A process of which reading the start time fails, where nothing fails while it is alive, is gone.
-/
theorem procs_eq_none_of_error {h : Host} {pid : ℕ} {t : Moment} {e : String}
    (hok : (h.procs pid).isSome = true → t.fails = none)
    (hfound : h.processStartTime pid t = .error e) : h.procs pid = none := by
  cases hp : h.procs pid with
  | none => rfl
  | some p =>
    have hfails := hok (by rw [hp]; rfl)
    rw [Host.processStartTime_of_none hp hfails] at hfound
    cases hfound

/-- The record of a pending process is written, unless that is gone. -/
theorem Pending.writeRecord {r : Role} {pid start : ℕ} {c : Config machine} {t : Moment}
    (hpend : Pending r pid c.state)
    (hstart : ∀ p, c.state.procs pid = some p → c.state.startOf p = start)
    (hguard : Orderly (c.step (.writeRecord r pid start) t) c.trace) :
    Accounted (c.next (.writeRecord r pid start) t).state := by
  have hfades := fades_before c (.writeRecord r pid start) t
  have hok : ((c.step (.writeRecord r pid start) t).before.procs pid).isSome = true →
      t.fails = none := hguard
  have hact : (c.next (.writeRecord r pid start) t).state =
      ((c.step (.writeRecord r pid start) t).before.act (.writeRecord r pid start) t).2 := rfl
  rw [hact]
  generalize (c.step (.writeRecord r pid start) t).before = before at hfades hok ⊢
  have hpend := hpend.fades hfades
  cases hfails : t.fails with
  | none =>
    simp only [Host.act, hfails]
    refine hpend.record fun p hp hr => ?_
    rw [hfades.startOf]
    exact hstart p (hfades.procs_of_role hp hr)
  | some e =>
    have hdead : before.procs pid = none := by
      cases hp : before.procs pid with
      | none => rfl
      | some p =>
        rw [hok (by rw [hp]; rfl)] at hfails
        cases hfails
    obtain ⟨hacc, hacc'⟩ := hpend.of_dead hdead none
    simp only [Host.act, hfails]
    split
    · exact hacc'
    · exact hacc

/-- `write_pidfile` accounts for a pending process, unless that is gone. -/
theorem writePidfile_spec {r : Role} {pid : ℕ} {c : Config machine}
    (hpend : Pending r pid c.state) :
    wp Orderly (fun _ c' => Accounted c'.state) (fun _ c' => Accounted c'.state)
      (writePidfile r pid) c := by
  refine (wp_perform_bind _ _ _ _ _).mpr fun t _ => ?_
  have hpend := hpend.fades (fades_next (o := .enter (.writePidfile r)) trivial c t)
  have hplace : latestPlace (c.next (.enter (.writePidfile r)) t).trace =
      some (.writePidfile r) := rfl
  generalize c.next (.enter (.writePidfile r)) t = c₁ at hpend hplace
  refine (wp_perform_bind _ _ _ _ _).mpr fun t hguard => ?_
  have hpend := hpend.fades (fades_next (o := .processStartTime pid) trivial c₁ t)
  have hok : ((c₁.next (.processStartTime pid) t).state.procs pid).isSome = true →
      t.fails = none := by
    have h := hguard
    simp only [Orderly, Config.step, hplace] at h
    exact h
  have hanswer : c₁.answer (.processStartTime pid) t =
      (c₁.next (.processStartTime pid) t).state.processStartTime pid t := rfl
  rw [hanswer]
  generalize c₁.next (.processStartTime pid) t = c₂ at hpend hok
  cases hfound : c₂.state.processStartTime pid t with
  | error e => exact (hpend.of_dead (procs_eq_none_of_error hok hfound) none).1
  | ok start =>
    refine (wp_perform_bind _ _ _ _ _).mpr fun t hguard => ?_
    have hacc := hpend.writeRecord (fun p hp => Host.startOf_of_processStartTime hp hfound) hguard
    cases c₂.answer (.writeRecord r pid start) t with
    | error e => exact hacc
    | ok a => exact hacc

/-- The kind of process that an operation starts. -/
def Op.spawns : Op → Option Role
  | .spawnProxy _ => some .proxy
  | .spawnKeeper _ => some .keeper
  | _ => none

theorem Vacant.born {r : Role} {h : Host} {pid : ℕ} {kind : Kind} (hv : Vacant r h)
    (hkind : kind.role ≠ some r) : Vacant r (h.born pid kind) := by
  intro q p hp
  unfold Host.born at hp
  dsimp only at hp
  split at hp
  · obtain rfl := Option.some.inj hp
    exact hkind
  · exact hv q p hp

theorem Vacant.of_procs_eq {r : Role} {h h' : Host} (hv : Vacant r h)
    (hprocs : h'.procs = h.procs) : Vacant r h' := by
  intro pid p hp
  rw [hprocs] at hp
  exact hv pid p hp

/-- Nothing but the start of a process of a kind brings one. -/
theorem Vacant.next {r : Role} {c : Config machine} {o : Op} (hv : Vacant r c.state)
    (ho : o.spawns ≠ some r) (t : Moment) : Vacant r (c.next o t).state := by
  have hbefore : Vacant r (c.step o t).before := hv.fades (fades_before c o t)
  show Vacant r ((c.step o t).before.act o t).2
  generalize (c.step o t).before = h at hbefore
  have hacts := acts o t h
  generalize (h.act o t).2 = h' at hacts ⊢
  cases hacts with
  | stays => exact hbefore
  | ends pid signal => exact hbefore.fades (fades_died h pid)
  | removes f => exact hbefore.of_procs_eq (procs_remove h f)
  | drops => exact hbefore.of_procs_eq (procs_foldl_remove t.drops h)
  | clears => exact hbefore
  | startsProxy allow hfree => exact hbefore.born ho
  | startsKeeper launch hfree => exact hbefore.born ho
  | records r pid start entry => exact hbefore
  | writes m => exact hbefore

/-- The operations of the proxy's part of `up` start no keeper. -/
theorem noKeeper_egressProxy (input : UpInput) :
    Only (fun o => o.spawns ≠ some .keeper) (egressProxy input) := by
  have hwrite : ∀ r pid, Only (fun o => o.spawns ≠ some .keeper)
      (writePidfile r pid) := fun r pid =>
    only_bind (only_perform (by simp [Op.spawns])) fun _ =>
      only_bind (only_perform (by simp [Op.spawns])) fun _ => only_bind (only_orFail _ _) fun _ =>
        only_bind (only_perform (by simp [Op.spawns])) fun _ => only_orFail _ _
  have hstart : Only (fun o => o.spawns ≠ some .keeper) (startEgressProxy input) := by
    refine only_bind (only_orFail _ _) fun _ => ?_
    refine only_bind (only_perform (by simp [Op.spawns])) fun spawned => ?_
    split
    · exact only_raise _
    · exact only_bind (hwrite _ _) fun _ => only_pure _
  have hquiet : ∀ o : Op, o.Quiet → o.spawns ≠ some .keeper := by
    intro o ho
    cases o <;> simp [Op.spawns, Op.Quiet] at ho ⊢
  unfold egressProxy
  split
  · refine only_bind ?_ fun _ => only_pure _
    refine only_bind (only_perform (by simp [Op.spawns])) fun _ => ?_
    refine only_bind (only_readPidfile (by simp [Op.spawns])) fun found => ?_
    split
    · exact hstart
    · refine only_bind (only_isSameProcess (by simp [Op.spawns]) (by simp [Op.spawns]))
        fun same => ?_
      split
      · refine only_bind ?_ fun found => ?_
        · exact only_bind (only_perform (by simp [Op.spawns])) fun _ => only_orFail _ _
        · split
          · exact hstart
          · split
            · exact only_bind (only_perform (by simp [Op.spawns])) fun _ => only_pure _
            · exact hstart
      · exact hstart
  · refine only_bind ?_ fun _ => only_pure _
    exact only_bind ((quiet_terminateAndWait .proxy).mono hquiet) fun _ =>
      only_perform (by simp [Op.spawns])

/-- `proxy::spawn` and the record of its pid. -/
theorem startEgressProxy_spec (input : UpInput) {c : Config machine} (hacc : Accounted c.state) :
    wp Orderly (fun _ c' => Accounted c'.state) (fun _ c' => Accounted c'.state)
      (startEgressProxy input) c := by
  refine wp_orFail_bind (fun _ _ => ?_) fun _ _ => hacc
  refine (wp_perform_bind _ _ _ _ _).mpr fun t hguard => ?_
  have hbefore := hacc.fades (fades_before c (.spawnProxy input.manifest.network.allow) t)
  have hvacant := hbefore.vacant hguard
  have hact : (c.answer (.spawnProxy input.manifest.network.allow) t,
      (c.next (.spawnProxy input.manifest.network.allow) t).state) =
      (c.step (.spawnProxy input.manifest.network.allow) t).before.spawn t
        (.proxy t.port t.token input.manifest.network.allow) (t.pid, t.port, t.token) := rfl
  rcases spawn_cases (c.step (.spawnProxy input.manifest.network.allow) t).before t
    (.proxy t.port t.token input.manifest.network.allow) (t.pid, t.port, t.token)
    with ⟨e, he, -⟩ | ⟨he, -⟩
  · rw [he] at hact
    obtain ⟨hanswer, hstate⟩ := Prod.mk.inj hact
    rw [hanswer]
    show Accounted (c.next (.spawnProxy input.manifest.network.allow) t).state
    rw [hstate]
    exact hbefore
  · rw [he] at hact
    obtain ⟨hanswer, hstate⟩ := Prod.mk.inj hact
    rw [hanswer]
    have hpend :
        Pending .proxy t.pid (c.next (.spawnProxy input.manifest.network.allow) t).state := by
      rw [hstate]
      exact hbefore.born hvacant rfl
    exact wp_seq (writePidfile_spec hpend) fun _ _ h => h

/-- The proxy's part of `up`. -/
theorem egressProxy_spec (input : UpInput) {c : Config machine} (hacc : Accounted c.state)
    (hv : Vacant .keeper c.state) :
    wp Orderly (fun _ c' => Accounted c'.state ∧ Vacant .keeper c'.state)
      (fun _ c' => Accounted c'.state) (egressProxy input) c := by
  have hkeeper : wp Orderly (fun _ c' => Vacant .keeper c'.state)
      (fun _ c' => Vacant .keeper c'.state) (egressProxy input) c :=
    wp_of_only (noKeeper_egressProxy input) (fun o c t ho hv _ => hv.next ho t) hv
  refine wp_mono (wp_and ?_ hkeeper) (fun _ _ h => h) fun _ _ h => h.1
  unfold egressProxy
  split
  · refine wp_seq (M := fun _ c' => Accounted c'.state) ?_ fun _ _ h => h
    refine (wp_perform_bind _ _ _ _ _).mpr fun t _ => ?_
    have hacc := hacc.fades (fades_next (o := .enter .ensureEgressProxy) trivial c t)
    have hread := wp_fades (G := Orderly) (p := readPidfile .proxy) (only_readPidfile trivial)
      (c.next (.enter .ensureEgressProxy) t)
    refine wp_seq (wp_mono hread (fun _ _ hf => hacc.fades hf) fun _ _ hf => hacc.fades hf)
      fun found c₁ hacc => ?_
    split
    · exact startEgressProxy_spec input hacc
    · next pid start =>
      have hsame := wp_fades (G := Orderly) (p := isSameProcess pid start)
        (only_isSameProcess trivial trivial) c₁
      refine wp_seq (wp_mono hsame (fun _ _ hf => hacc.fades hf) fun _ _ hf => hacc.fades hf)
        fun same c₂ hacc => ?_
      split
      · have hmeta := wp_fades (G := Orderly) (p := readMeta)
          (only_bind (only_perform trivial) fun _ => only_orFail _ _) c₂
        refine wp_seq (wp_mono hmeta (fun _ _ hf => hacc.fades hf) fun _ _ hf => hacc.fades hf)
          fun found c₃ hacc => ?_
        split
        · exact startEgressProxy_spec input hacc
        · split
          · refine (wp_perform_bind _ _ _ _ _).mpr fun t _ => ?_
            exact hacc.fades (fades_next (o := .enter (.reuseEgressProxy _)) trivial c₃ t)
          · exact startEgressProxy_spec input hacc
      · exact startEgressProxy_spec input hacc
  · refine wp_seq (M := fun _ c' => Accounted c'.state) ?_ fun _ _ h => h
    refine wp_seq (terminateAndWait_spec .proxy c _) fun _ c₁ ⟨hfades, hrec⟩ => ?_
    have hacc := hacc.fades hfades
    have hproxy := hacc.vacant hrec
    have hkeeper := hv.fades hfades
    refine (wp_perform _ _ _ _).mpr fun t _ => accounted_of_vacant fun r => ?_
    cases r with
    | keeper => exact hkeeper.next (by simp [Op.spawns]) t
    | proxy => exact hproxy.next (by simp [Op.spawns]) t

/-- The start of a keeper and the record of its pid. -/
theorem upProcess_spec (input : UpInput) (root : String) (outcome : UpOutcome)
    (resolution : Resolution) (shell : ResolvedShell) (proxy : Option (UInt16 × String))
    {c : Config machine} (hacc : Accounted c.state) (hv : Vacant .keeper c.state) :
    wp Orderly (fun _ c' => Accounted c'.state) (fun _ c' => Accounted c'.state)
      (upProcess input root outcome resolution shell proxy) c := by
  refine wp_orFail_bind (fun exe _ => ?_) fun _ _ => hacc
  split
  · exact hacc
  · refine wp_orFail_bind (fun kind _ => ?_) fun _ _ => hacc
    generalize upPolicy input _ kind.staticName resolution shell proxy = compiled
    have hprepare := wp_plain (G := Orderly) (plain_prepareKeeper input resolution compiled) c
    refine wp_seq (wp_mono hprepare (fun _ _ hf => hf) fun _ _ hf => hacc.fades hf)
      fun services c₁ hfades => ?_
    have hacc := hacc.fades hfades
    have hv := hv.fades hfades
    have hprobe := wp_plain (G := Orderly) (plain_isolateNetwork compiled services proxy) c₁
    refine wp_seq (wp_mono hprobe (fun _ _ hf => hf) fun _ _ hf => hacc.fades hf)
      fun isolated c₂ hfades => ?_
    have hacc := hacc.fades hfades
    have hv := hv.fades hfades
    generalize keeperLaunch input root exe resolution shell compiled proxy services isolated =
      launch
    refine (wp_perform_bind _ _ _ _ _).mpr fun t _ => ?_
    have hbefore := hacc.fades (fades_before c₂ (.spawnKeeper launch) t)
    have hvacant := hv.fades (fades_before c₂ (.spawnKeeper launch) t)
    have hact : (c₂.answer (.spawnKeeper launch) t, (c₂.next (.spawnKeeper launch) t).state) =
        (c₂.step (.spawnKeeper launch) t).before.spawn t (.keeper launch) t.pid := rfl
    rcases spawn_cases (c₂.step (.spawnKeeper launch) t).before t (.keeper launch) t.pid with
      ⟨e, he, -⟩ | ⟨he, -⟩
    · rw [he] at hact
      obtain ⟨hanswer, hstate⟩ := Prod.mk.inj hact
      rw [hanswer]
      show Accounted (c₂.next (.spawnKeeper launch) t).state
      rw [hstate]
      exact hbefore
    · rw [he] at hact
      obtain ⟨hanswer, hstate⟩ := Prod.mk.inj hact
      rw [hanswer]
      have hpend : Pending .keeper t.pid (c₂.next (.spawnKeeper launch) t).state := by
        rw [hstate]
        exact hbefore.born hvacant rfl
      refine wp_seq (writePidfile_spec hpend) fun _ c₃ hacc => ?_
      have hhooks := wp_plain (G := Orderly) (plain_runHooks input outcome resolution) c₃
      exact wp_seq (wp_mono hhooks (fun _ _ hf => hacc.fades hf) fun _ _ hf => hacc.fades hf)
        fun _ _ h => h

/-- `up` after it has settled on an outcome: no keeper is alive then. -/
theorem bringUp_spec (input : UpInput) (root : String) (outcome : UpOutcome) {c : Config machine}
    (hacc : Accounted c.state) (hv : Vacant .keeper c.state) :
    wp Orderly (fun _ c' => Accounted c'.state) (fun _ c' => Accounted c'.state)
      (bringUp input root outcome) c := by
  refine wp_orFail_bind (fun _ _ => ?_) fun _ _ => hacc
  refine wp_orFail_bind (fun resolution _ => ?_) fun _ _ => hacc
  refine wp_orFail_bind (fun fingerprint _ => ?_) fun _ _ => hacc
  refine wp_seq (wp_mono (wp_plain (G := Orderly) (plain_attempt .createRoot .state) c)
    (fun _ _ hf => hf) fun _ _ hf => hacc.fades hf) fun _ c₁ hfades => ?_
  refine wp_seq (egressProxy_spec input (hacc.fades hfades) (hv.fades hfades))
    fun proxy c₂ ⟨hacc, hv⟩ => ?_
  split
  · exact hacc
  · next shell _ =>
    have hmeta : wp Orderly (fun _ c' => Accounted c'.state ∧ Vacant .keeper c'.state)
        (fun _ c' => Accounted c'.state)
        (writeMeta (upMeta input resolution fingerprint shell proxy)) c₂ := by
      generalize upMeta input resolution fingerprint shell proxy = m
      refine (wp_perform_bind _ _ _ _ _).mpr fun t _ => ?_
      have hbefore := hacc.fades (fades_before c₂ (.writeMeta m) t)
      have hnext : Accounted (c₂.next (.writeMeta m) t).state := by
        show Accounted ((c₂.step (.writeMeta m) t).before.act (.writeMeta m) t).2
        simp only [Host.act]
        split <;> exact hbefore
      refine wp_orFail (fun _ _ => ?_) fun _ _ => hnext
      exact ⟨hnext, hv.next (by simp [Op.spawns]) t⟩
    exact wp_seq hmeta fun _ c₃ ⟨hacc, hv⟩ =>
      upProcess_spec input root outcome resolution shell proxy hacc hv

/-- `clear_runtime_state` where no process of the sandbox is alive. -/
theorem clearRuntimeState_spec {c : Config machine} (hv : ∀ r, Vacant r c.state)
    (E : UpError → Config machine → Prop) :
    wp Orderly (fun _ c' => ∀ r, Vacant r c'.state) E clearRuntimeState c := by
  have hstep : ∀ (f : StateFile) {c : Config machine}, (∀ r, Vacant r c.state) →
      wp Orderly (fun _ c' => ∀ r, Vacant r c'.state) E (perform (Op.removeFile f) : Cmd Unit) c :=
    fun f c hv => (wp_perform _ _ _ _).mpr fun t _ r => (hv r).next (by simp [Op.spawns]) t
  refine wp_seq (hstep _ hv) fun _ _ hv => wp_seq (hstep _ hv) fun _ _ hv => ?_
  exact wp_seq (hstep _ hv) fun _ _ hv => wp_seq (hstep _ hv) fun _ _ hv => hstep _ hv

/-- Signalling both recorded processes leaves none of the sandbox alive. -/
theorem stopIfRunning_spec {c : Config machine} (hacc : Accounted c.state)
    (E : UpError → Config machine → Prop) :
    wp Orderly (fun _ c' => ∀ r, Vacant r c'.state) E stopIfRunning c := by
  refine wp_seq (terminateAndWait_spec .keeper c E) fun _ c₁ ⟨hfades, hkeeper⟩ => ?_
  have hacc := hacc.fades hfades
  refine wp_mono (terminateAndWait_spec .proxy c₁ E) (fun _ c₂ ⟨hfades, hproxy⟩ r => ?_)
    fun _ _ he => he
  cases r with
  | keeper => exact (hacc.vacant hkeeper).fades hfades
  | proxy => exact (hacc.fades hfades).vacant hproxy

/-- `health` finds no record only where there is none. -/
theorem health_spec (c : Config machine) :
    wp Orderly (fun found c' => Fades c.state c'.state ∧
      (found = .none → c'.state.pidfile .keeper = none))
      (fun _ c' => Fades c.state c'.state) health c := by
  refine (wp_perform_bind _ _ _ _ _).mpr fun t _ => ?_
  have hfades := fades_next (o := .enter .health) trivial c t
  have hread :
      wp Orderly (fun found c' => Fades c.state c'.state ∧ c'.state.pidfile .keeper = found)
      (fun _ c' => Fades c.state c'.state) (readPidfile .keeper) (c.next (.enter .health) t) := by
    refine (wp_perform_bind _ _ _ _ _).mpr fun t' _ => ?_
    have hfades := hfades.trans (fades_next (o := .readPidfile .keeper) trivial _ t')
    refine wp_orFail (fun found hfound => ⟨hfades, ?_⟩) fun _ _ => hfades
    have hanswer :
        t'.fallible (((c.next (.enter .health) t).next (.readPidfile .keeper) t').state.pidfile
        .keeper) = .ok found := hfound
    exact Moment.eq_of_fallible hanswer
  refine wp_seq hread fun found c₁ ⟨hfades, hfile⟩ => ?_
  cases found with
  | none => exact ⟨hfades, fun _ => hfile⟩
  | some entry =>
    obtain ⟨pid, start⟩ := entry
    refine wp_seq (wp_mono (wp_fades (G := Orderly) (p := isSameProcess pid start)
      (only_isSameProcess trivial trivial) c₁) (fun _ _ hf => hfades.trans hf)
      fun _ _ hf => hfades.trans hf) fun same c₂ hfades => ?_
    split
    · refine (wp_perform_bind _ _ _ _ _).mpr fun t _ => ?_
      have hfades := hfades.trans (fades_next (o := .connect) trivial c₂ t)
      split <;> exact ⟨hfades, fun h => by cases h⟩
    · exact ⟨hfades, fun h => by cases h⟩

/-- The beginning of a command: nothing of the sandbox changes. -/
theorem acquireLock_spec {c : Config machine} (hacc : Accounted c.state) :
    wp Orderly (fun _ c' => Accounted c'.state) (fun _ c' => Accounted c'.state)
      acquireLifecycleLock c := by
  refine (wp_perform_bind _ _ _ _ _).mpr fun t _ => ?_
  have hacc := hacc.fades (fades_next (o := .acquireLock) trivial c t)
  exact wp_orFail (fun _ _ => hacc) fun _ _ => hacc

/-- `up` keeps every process accounted for. -/
theorem up_spec (input : UpInput) {c : Config machine} (hacc : Accounted c.state) :
    wp Orderly (fun _ c' => Accounted c'.state) (fun _ c' => Accounted c'.state) (up input) c := by
  refine (wp_perform_bind _ _ _ _ _).mpr fun t _ => ?_
  have hacc := hacc.fades (fades_next (o := .enter .command) trivial c t)
  refine wp_orFail_bind (fun root _ => ?_) fun _ _ => hacc
  refine wp_seq (acquireLock_spec hacc) fun _ c₁ hacc => ?_
  split
  · -- `--recreate` signals both processes before it clears their pidfiles.
    refine wp_seq (terminateAndWait_spec .keeper c₁ _) fun _ c₂ ⟨hfades, hkeeper⟩ => ?_
    have hacc := hacc.fades hfades
    have hkeeper := hacc.vacant hkeeper
    refine wp_seq (terminateAndWait_spec .proxy c₂ _) fun _ c₃ ⟨hfades, hproxy⟩ => ?_
    have hacc := hacc.fades hfades
    have hv : ∀ r, Vacant r c₃.state := by
      intro r
      cases r with
      | keeper => exact hkeeper.fades hfades
      | proxy => exact hacc.vacant hproxy
    refine wp_seq (clearRuntimeState_spec hv _) fun _ c₄ hv => ?_
    exact bringUp_spec input root .recreated (accounted_of_vacant hv) (hv .keeper)
  · refine wp_seq (wp_mono (health_spec c₁) (fun _ _ h => h) fun _ _ hf => hacc.fades hf)
      fun found c₂ ⟨hfades, hnone⟩ => ?_
    have hacc := hacc.fades hfades
    cases found with
    | healthy pid => exact hacc
    | stale pid =>
      -- The condition on a recovery: nothing that is still alive is recorded.
      refine (wp_perform_bind _ _ _ _ _).mpr fun t hguard => ?_
      have hbefore := hacc.fades (fades_before c₂ (.enter .staleRecovery) t)
      obtain ⟨hkeeper, hproxy⟩ := hguard
      have hv : ∀ r, Vacant r (c₂.next (.enter .staleRecovery) t).state := by
        intro r
        cases r with
        | keeper => exact hbefore.vacant hkeeper
        | proxy => exact hbefore.vacant hproxy
      refine wp_seq (clearRuntimeState_spec hv _) fun _ c₃ hv => ?_
      exact bringUp_spec input root .recovered (accounted_of_vacant hv) (hv .keeper)
    | none =>
      have hrec : c₂.state.recorded .keeper = false := by simp [Host.recorded, hnone rfl]
      exact bringUp_spec input root .started hacc (hacc.vacant hrec)

/-- `down` keeps every process accounted for: none is left alive. -/
theorem down_spec (homeVar : Option String) (sandboxName : String) {c : Config machine}
    (hacc : Accounted c.state) :
    wp Orderly (fun _ c' => Accounted c'.state) (fun _ c' => Accounted c'.state)
      (down homeVar sandboxName) c := by
  refine (wp_perform_bind _ _ _ _ _).mpr fun t _ => ?_
  have hacc := hacc.fades (fades_next (o := .enter .command) trivial c t)
  refine wp_orFail_bind (fun _ _ => ?_) fun _ _ => hacc
  refine wp_seq (acquireLock_spec hacc) fun _ c₁ hacc => ?_
  refine wp_seq (stopIfRunning_spec hacc _) fun _ c₂ hv => ?_
  exact wp_mono (clearRuntimeState_spec hv _) (fun _ _ hv => accounted_of_vacant hv)
    fun _ _ h => h

/-- `rm` keeps every process accounted for: none is left alive. -/
theorem rm_spec (homeVar : Option String) (sandboxName : String) {c : Config machine}
    (hacc : Accounted c.state) :
    wp Orderly (fun _ c' => Accounted c'.state) (fun _ c' => Accounted c'.state)
      (rm homeVar sandboxName) c := by
  refine (wp_perform_bind _ _ _ _ _).mpr fun t _ => ?_
  have hacc := hacc.fades (fades_next (o := .enter .command) trivial c t)
  refine wp_orFail_bind (fun _ _ => ?_) fun _ _ => hacc
  refine (wp_perform_bind _ _ _ _ _).mpr fun t' _ => ?_
  have hacc := hacc.fades (fades_next (o := .readMeta) trivial _ t')
  refine wp_seq (acquireLock_spec hacc) fun _ c₁ hacc => ?_
  refine wp_seq (stopIfRunning_spec hacc _) fun _ c₂ hv => ?_
  refine (wp_perform_bind _ _ _ _ _).mpr fun t _ => ?_
  have hv : ∀ r, Vacant r (c₂.next .removeRoot t).state :=
    fun r => (hv r).next (by simp [Op.spawns]) t
  have hacc := accounted_of_vacant hv
  refine wp_orFail_bind (fun _ _ => ?_) fun _ _ => hacc
  split
  · exact wp_mono (wp_plain (plain_attempt .removeArtifacts .state) _)
      (fun _ _ hf => hacc.fades hf) fun _ _ hf => hacc.fades hf
  · exact hacc

/-- Every command keeps every process accounted for. -/
theorem prog_spec (cmd : Command) {c : Config machine} (hacc : Accounted c.state) :
    wp Orderly (fun _ c' => Accounted c'.state) (fun _ c' => Accounted c'.state) cmd.prog c := by
  cases cmd with
  | up input => exact wp_seq (up_spec input hacc) fun _ _ h => h
  | down homeVar sandboxName => exact wp_seq (down_spec homeVar sandboxName hacc) fun _ _ h => h
  | rm homeVar sandboxName => exact wp_seq (rm_spec homeVar sandboxName hacc) fun _ _ h => h

/-- In every session of lifecycle commands from a host on which the sandbox has never been, after
every command whose steps so far were orderly, no process of the sandbox is an orphan. -/
theorem no_orphans {h : Host} (hfresh : h.Fresh) {cmds : List Command} {moments : List Moment}
    {d : Done machine Command UpError (Option UpOutcome)}
    (hd : d ∈ session Command.prog cmds moments ⟨[], h⟩)
    (horderly : Guarded Orderly d.config.trace) : NoOrphans d.config.state := by
  have hstart : Accounted h := by
    intro pid p r hp hr
    rw [hfresh.1 pid p hp] at hr
    cases hr
  have hacc := session_invariant (I := fun c => Accounted c.state)
    (fun cmd _ hacc => prog_spec cmd hacc) hstart hd horderly
  exact hacc.noOrphans

/-- The kind of process that is alive under a pid. -/
def Host.roleAt (h : Host) (pid : ℕ) : Option Role := (h.procs pid).bind fun p => p.kind.role

theorem Host.exists_of_roleAt {h : Host} {pid : ℕ} {r : Role} (hr : h.roleAt pid = some r) :
    ∃ p, h.procs pid = some p ∧ p.kind.role = some r := Option.bind_eq_some_iff.mp hr

/-- A first `up` is orderly, and leaves a keeper and a proxy that are both recorded. -/
theorem no_orphans_up :
    ∃ d ∈ session (m := machine) Command.prog [.up (sampleInput ["a.org"])] (sampleMoments [] [])
      ⟨[], freshHost⟩, d.outcome = .ok (some .started) ∧
        d.config.state.recorded .keeper = true ∧ d.config.state.recorded .proxy = true ∧
        NoOrphans d.config.state := by
  have hrun : (session (m := machine) Command.prog [.up (sampleInput ["a.org"])]
      (sampleMoments [] []) ⟨[], freshHost⟩).any (fun d => decide (d.outcome = .ok (some .started) ∧
        d.config.state.recorded .keeper = true ∧ d.config.state.recorded .proxy = true ∧
        Guarded Orderly d.config.trace)) = true := by decide +kernel
  obtain ⟨d, hd, h⟩ := List.any_eq_true.mp hrun
  obtain ⟨houtcome, hkeeper, hproxy, horderly⟩ := of_decide_eq_true h
  exact ⟨d, hd, houtcome, hkeeper, hproxy, no_orphans freshHost_fresh hd horderly⟩

/-- A keeper that lives but does not answer when the next `up` asks stays behind beside a second
one. -/
theorem not_noOrphans_recovered :
    ∃ d ∈ session (m := machine) Command.prog [.up (sampleInput []), .up (sampleInput [])]
      (sampleMoments [27] []) ⟨[], freshHost⟩, d.outcome = .ok (some .recovered) ∧
        ¬NoOrphans d.config.state := by
  have hrun : (session (m := machine) Command.prog [.up (sampleInput []), .up (sampleInput [])]
      (sampleMoments [27] []) ⟨[], freshHost⟩).any (fun d =>
        decide (d.outcome = .ok (some .recovered) ∧ d.config.state.roleAt 18 = some .keeper ∧
          d.config.state.roleAt 48 = some .keeper)) = true := by decide +kernel
  obtain ⟨d, hd, h⟩ := List.any_eq_true.mp hrun
  obtain ⟨houtcome, hfirst, hsecond⟩ := of_decide_eq_true h
  refine ⟨d, hd, houtcome, fun hnone => ?_⟩
  obtain ⟨p, hp, hr⟩ := Host.exists_of_roleAt hfirst
  obtain ⟨p', hp', hr'⟩ := Host.exists_of_roleAt hsecond
  exact absurd (hnone.unique .keeper 18 p 48 p' hp hr hp' hr') (by decide)

end Devcroft.Lifecycle
