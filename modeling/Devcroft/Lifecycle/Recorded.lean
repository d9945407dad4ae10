import Devcroft.Lifecycle.Outcome

/-!
# The keeper that the records are about

`status`, `policy --render` and the clients of a sandbox read `meta.json` beside the pidfile of
the keeper, and none of them takes the lifecycle lock. At every moment of a session of lifecycle
commands a live keeper that the pidfile names and the `meta.json` beside it come from the same
`up`. This rests on the order in which `up` goes about: the old record is removed before
`meta.json` is replaced, and the new one follows when the keeper runs.
-/

namespace Devcroft.Lifecycle

open Config Policy Program Provider

/-- What a keeper was started with. -/
def Kind.launch : Kind → Option Launch
  | keeper launch => some launch
  | proxy _ _ _ => none
  | foreign => none

/-- The live keeper that its pidfile names, as `read_pidfile` and `is_same_process` see it. -/
def Host.recordedKeeper (h : Host) : Option Launch :=
  (h.pidfile .keeper).bind fun entry =>
    (h.procs entry.1).bind fun p =>
      if entry.2 = 0 ∨ entry.2 = h.startOf p then p.kind.launch else none

/-- The values come from the input. -/
structure Values.From (v : Values) (input : UpInput) : Prop where
  root : statePaths input.host.homeVar input.manifest.sandbox.name = .ok v.root
  exe : input.keeperExe = .ok v.exe
  exeDir : parent v.exe = some v.exeDir
  provider : ProviderKind.fromName input.manifest.env.provider = .ok v.provider
  resolution : input.resolution = .ok v.resolution
  fingerprint : input.fingerprint = .ok v.fingerprint
  shell : input.shell v.resolution.env = some v.shell
  proxy : v.proxy.isSome = (compile input.platform input.manifest).wantsEgressProxy

/-- A keeper and a `meta.json` come from the same values of one of these inputs. -/
def OneUp (S : UpInput → Prop) (launch : Launch) (m : Meta) : Prop :=
  ∃ input, ∃ v : Values, S input ∧ v.From input ∧ launch = v.launch input ∧ m = v.metaFile input

/-- What can be read of a host fits together. -/
def Consistent (S : UpInput → Prop) (h : Host) : Prop :=
  ∀ launch m, h.recordedKeeper = some launch → h.metaFile = some m → OneUp S launch m

/-- A failed removal of the keeper's pidfile is not noticed: it must not leave a live keeper's
record behind. -/
def Unrecords : Guard machine := fun step _ =>
  step.op = .removeFile (.pidfile .keeper) →
    step.choice.fails = none ∨ step.before.recordedKeeper = none

instance (step : Step machine) (earlier : List (Step machine)) :
    Decidable (Unrecords step earlier) :=
  inferInstanceAs (Decidable (_ → _ ∨ _))

theorem recordedKeeper_eq_some_iff {h : Host} {launch : Launch} :
    h.recordedKeeper = some launch ↔ ∃ pid start p, h.pidfile .keeper = some (pid, start) ∧
      h.procs pid = some p ∧ (start = 0 ∨ start = h.startOf p) ∧ p.kind.launch = some launch := by
  unfold Host.recordedKeeper
  constructor
  · intro h
    obtain ⟨⟨pid, start⟩, hfile, h⟩ := Option.bind_eq_some_iff.mp h
    obtain ⟨p, hp, h⟩ := Option.bind_eq_some_iff.mp h
    dsimp only at hp h
    split at h
    · next hstart => exact ⟨pid, start, p, hfile, hp, hstart, h⟩
    · cases h
  · rintro ⟨pid, start, p, hfile, hp, hstart, hkind⟩
    simp [hfile, hp, hstart, hkind]

theorem Kind.role_of_launch {kind : Kind} {launch : Launch} (h : kind.launch = some launch) :
    kind.role = some .keeper := by
  cases kind with
  | keeper launch' => rfl
  | proxy port token allow => cases h
  | foreign => cases h

/-- Nothing is recorded in `h'` that was not in `h`. -/
structure Recedes (h h' : Host) : Prop where
  keeper : ∀ launch, h'.recordedKeeper = some launch → h.recordedKeeper = some launch
  metaFile : ∀ m, h'.metaFile = some m → h.metaFile = some m

theorem Recedes.refl (h : Host) : Recedes h h := ⟨fun _ h => h, fun _ h => h⟩

theorem Recedes.trans {h h' h'' : Host} (h₁ : Recedes h h') (h₂ : Recedes h' h'') :
    Recedes h h'' :=
  ⟨fun launch hl => h₁.keeper launch (h₂.keeper launch hl),
    fun m hm => h₁.metaFile m (h₂.metaFile m hm)⟩

/-- It is enough that no record and no keeper is new. -/
theorem Recedes.of_kept {h h' : Host}
    (hfile : ∀ entry, h'.pidfile .keeper = some entry → h.pidfile .keeper = some entry)
    (hprocs : ∀ pid p, h'.procs pid = some p → p.kind.role = some .keeper → h.procs pid = some p)
    (hprocfs : h'.procfs = h.procfs) (hmeta : ∀ m, h'.metaFile = some m → h.metaFile = some m) :
    Recedes h h' := by
  refine ⟨fun launch hl => ?_, hmeta⟩
  obtain ⟨pid, start, p, hentry, hp, hstart, hkind⟩ := recordedKeeper_eq_some_iff.mp hl
  have hsame : h'.startOf p = h.startOf p := by
    unfold Host.startOf
    rw [hprocfs]
  rw [hsame] at hstart
  exact recordedKeeper_eq_some_iff.mpr ⟨pid, start, p, hfile _ hentry,
    hprocs pid p hp (Kind.role_of_launch hkind), hstart, hkind⟩

theorem Fades.recedes {h h' : Host} (hf : Fades h h') : Recedes h h' := by
  have hfile := hf.pidfile
  have hmeta := hf.metaFile
  refine .of_kept (fun entry he => ?_) (fun pid p hp hr => hf.procs_of_role hp hr) hf.procfs ?_
  · rwa [hfile] at he
  · intro m hm
    rwa [hmeta] at hm

theorem recedes_remove (h : Host) (f : StateFile) : Recedes h (h.remove f) := by
  refine .of_kept ?_ (fun pid p hp _ => ?_) ?_ ?_
  · intro entry he
    cases f with
    | pidfile r =>
      simp only [Host.remove, Host.record] at he
      split at he
      · cases he
      · exact he
    | _ => exact he
  · rwa [procs_remove] at hp
  · cases f <;> rfl
  · intro m hm
    cases f with
    | metaFile => cases hm
    | _ => exact hm

/-- The operations that neither start nor record a keeper and leave `meta.json` as it is, or
remove it. -/
def Op.Sparing : Op → Prop
  | .spawnKeeper _ => False
  | .writeMeta _ => False
  | .writeRecord r _ _ => r = .proxy
  | _ => True

theorem recedes_act {o : Op} (ho : o.Sparing) (t : Moment) (h : Host) :
    Recedes h (h.act o t).2 := by
  have hacts := acts o t h
  generalize (h.act o t).2 = after at hacts ⊢
  cases hacts with
  | stays => exact .refl h
  | ends pid signal => exact (fades_died h pid).recedes
  | removes f => exact recedes_remove h f
  | drops =>
    generalize t.drops = drops
    induction drops generalizing h with
    | nil => exact .refl h
    | cons f rest ih => exact (recedes_remove h f).trans (ih _)
  | clears =>
    exact .of_kept (fun _ he => nomatch he) (fun _ _ hp _ => hp) rfl (fun _ hm => nomatch hm)
  | startsProxy allow hfree =>
    refine .of_kept (fun _ he => he) (fun pid p hp hr => ?_) rfl (fun _ hm => hm)
    simp only [Host.born] at hp
    split at hp
    · obtain rfl := Option.some.inj hp
      cases hr
    · exact hp
  | startsKeeper launch hfree => exact ho.elim
  | records r pid start entry =>
    obtain rfl : r = .proxy := ho
    exact .of_kept (fun _ he => he) (fun _ _ hp _ => hp) rfl (fun _ hm => hm)
  | writes m => exact ho.elim

/-- Whatever was met so far fits together, and the host is as `P` says. -/
def Known (S : UpInput → Prop) (P : Host → Prop) (c : Config machine) : Prop :=
  (∀ step ∈ c.trace, Consistent S step.before) ∧ P c.state

variable {S : UpInput → Prop} {P Q : Host → Prop} {G : Guard machine}

theorem Consistent.recedes {h h' : Host} (hc : Consistent S h) (hr : Recedes h h') :
    Consistent S h' :=
  fun launch m hl hm => hc launch m (hr.keeper launch hl) (hr.metaFile m hm)

theorem Known.mono {c : Config machine} (hk : Known S P c) (h : ∀ h, P h → Q h) : Known S Q c :=
  ⟨hk.1, h _ hk.2⟩

/-- One operation: what the surroundings do first keeps `P`, the operation itself leads to `Q`. -/
theorem Known.next {c : Config machine} {o : Op} {t : Moment} (hk : Known S P c)
    (hconsistent : ∀ h, P h → Consistent S h) (hfades : ∀ h h', Fades h h' → P h → P h')
    (hact : ∀ h, P h → h = (c.step o t).before → Q (h.act o t).2) : Known S Q (c.next o t) := by
  have hbefore : P (c.step o t).before := hfades _ _ (fades_before c o t) hk.2
  refine ⟨fun step hstep => ?_, hact _ hbefore rfl⟩
  rcases List.mem_cons.mp hstep with rfl | hstep
  · exact hconsistent _ hbefore
  · exact hk.1 step hstep

/-- A program of operations that keep `P`. -/
theorem wp_known {T : Op → Prop} {α : Type} {p : Cmd α} (hp : Only T p)
    (hconsistent : ∀ h, P h → Consistent S h) (hfades : ∀ h h', Fades h h' → P h → P h')
    (hact : ∀ o t h, T o → P h → P (h.act o t).2) {c : Config machine} (hk : Known S P c) :
    wp G (fun _ => Known S P) (fun _ => Known S P) p c :=
  wp_of_only hp (fun o _ t ho hk _ => hk.next hconsistent hfades fun h hP _ => hact o t h ho hP) hk

/-- No live keeper is recorded. -/
def Host.Unrecorded (h : Host) : Prop := h.recordedKeeper = none

theorem Host.Unrecorded.consistent {h : Host} (hu : h.Unrecorded) : Consistent S h :=
  fun _ _ hl _ => nomatch hu.symm.trans hl

theorem Host.Unrecorded.recedes {h h' : Host} (hu : h.Unrecorded) (hr : Recedes h h') :
    h'.Unrecorded := by
  cases hl : h'.recordedKeeper with
  | none => exact hl
  | some launch => exact (nomatch hu.symm.trans (hr.keeper launch hl))

theorem Host.unrecorded_of_pidfile {h : Host} (hfile : h.pidfile .keeper = none) :
    h.Unrecorded := by
  unfold Host.Unrecorded Host.recordedKeeper
  rw [hfile]
  rfl

/-- Operations that record nothing of a keeper keep what fits together. -/
theorem wp_sparing {α : Type} {p : Cmd α} (hp : Only Op.Sparing p) {c : Config machine}
    (hk : Known S (Consistent S) c) :
    wp G (fun _ => Known S (Consistent S)) (fun _ => Known S (Consistent S)) p c :=
  wp_known hp (fun _ h => h) (fun _ _ hf h => h.recedes hf.recedes)
    (fun _ t h ho hc => hc.recedes (recedes_act ho t h)) hk

/-- They record no keeper where none is recorded. -/
theorem wp_sparing_unrecorded {α : Type} {p : Cmd α} (hp : Only Op.Sparing p)
    {c : Config machine} (hk : Known S Host.Unrecorded c) :
    wp G (fun _ => Known S Host.Unrecorded) (fun _ => Known S Host.Unrecorded) p c :=
  wp_known hp (fun _ h => h.consistent) (fun _ _ hf h => h.recedes hf.recedes)
    (fun _ t h ho hu => hu.recedes (recedes_act ho t h)) hk

theorem Known.consistent {c : Config machine} (hk : Known S Host.Unrecorded c) :
    Known S (Consistent S) c := hk.mono fun _ h => h.consistent

section Parts

theorem Op.Watching.sparing {o : Op} (ho : o.Watching) : o.Sparing := by
  cases o <;> trivial

theorem Op.Plain.sparing {o : Op} (ho : o.Plain) : o.Sparing := by
  cases o <;> trivial

theorem sparing_terminateAndWait (r : Role) : Only Op.Sparing (terminateAndWait r) :=
  (watching_terminateAndWait r).mono fun _ => Op.Watching.sparing

theorem sparing_acquireLifecycleLock : Only Op.Sparing acquireLifecycleLock :=
  only_bind (only_perform trivial) fun _ => only_orFail _ _

theorem sparing_health : Only Op.Sparing health :=
  only_health trivial trivial (fun _ => trivial) (fun _ => trivial) trivial

theorem sparing_startEgressProxy (input : UpInput) : Only Op.Sparing (startEgressProxy input) := by
  refine only_bind (only_orFail _ _) fun _ => only_bind (only_perform trivial) fun started => ?_
  split
  · exact only_raise _
  · refine only_bind (only_bind (only_perform trivial) fun _ => ?_) fun _ => only_pure _
    refine only_bind (only_perform trivial) fun _ => only_bind (only_orFail _ _) fun _ => ?_
    exact only_bind (only_perform rfl) fun _ => only_orFail _ _

theorem sparing_ensureEgressProxy (input : UpInput) :
    Only Op.Sparing (ensureEgressProxy input) := by
  have hstart := sparing_startEgressProxy input
  refine only_bind (only_perform trivial) fun _ => ?_
  refine only_bind (only_readPidfile trivial) fun found => ?_
  split
  · exact hstart
  · refine only_bind (only_isSameProcess trivial trivial) fun same => ?_
    split
    · refine only_bind (only_bind (only_perform trivial) fun _ => only_orFail _ _) fun found => ?_
      split
      · exact hstart
      · split
        · exact only_bind (only_perform trivial) fun _ => only_pure _
        · exact hstart
    · exact hstart

theorem sparing_egressProxy (input : UpInput) : Only Op.Sparing (egressProxy input) := by
  unfold egressProxy
  split
  · exact only_bind (sparing_ensureEgressProxy input) fun _ => only_pure _
  · refine only_bind ?_ fun _ => only_pure _
    exact only_bind (sparing_terminateAndWait .proxy) fun _ => only_perform trivial

end Parts

/-- `clear_runtime_state` leaves no live keeper recorded. -/
theorem clearRuntimeState_unrecorded {c : Config machine} (hk : Known S (Consistent S) c) :
    wp Unrecords (fun _ => Known S Host.Unrecorded) (fun _ => Known S (Consistent S))
      clearRuntimeState c := by
  refine (wp_perform_bind _ _ _ _ _).mpr fun t hguard => ?_
  have hgone : Known S Host.Unrecorded (c.next (.removeFile (.pidfile .keeper)) t) := by
    refine hk.next (fun _ h => h) (fun _ _ hf h => h.recedes hf.recedes) fun h _ hh => ?_
    rcases hguard rfl with hfails | hnone
    · apply Host.unrecorded_of_pidfile
      have hfails : t.fails = none := hfails
      simp [Host.act, hfails, Host.remove, Host.record]
    · have hu : h.Unrecorded := by rwa [hh]
      exact hu.recedes (recedes_act (o := .removeFile (.pidfile .keeper)) trivial t h)
  have hrest : Only Op.Sparing (do
      perform (Op.removeFile .socket)
      perform (Op.removeFile (.pidfile .proxy))
      perform (Op.removeFile .sshSocket)
      perform (Op.removeFile .proxySocket) : Cmd Unit) :=
    only_bind (only_perform trivial) fun _ => only_bind (only_perform trivial) fun _ =>
      only_bind (only_perform trivial) fun _ => only_perform trivial
  exact wp_mono (wp_sparing_unrecorded hrest hgone) (fun _ _ h => h) fun _ _ h => h.consistent

/-- `health` reports that there is no keeper only where the pidfile has no record. -/
theorem health_unrecorded {c : Config machine} (hk : Known S (Consistent S) c) :
    wp G (fun found c' => Known S (Consistent S) c' ∧
        (found = .none → Known S Host.Unrecorded c'))
      (fun _ => Known S (Consistent S)) health c := by
  have hread : wp G (fun found c' => found = .none → c'.state.pidfile .keeper = none)
      (fun _ _ => True) health c := by
    refine (wp_perform_bind _ _ _ _ _).mpr fun _ _ => ?_
    refine (wp_bind _ _ _ _).mpr ((wp_perform_bind _ _ _ _ _).mpr fun t _ => ?_)
    refine wp_orFail (fun found hfound => ?_) fun _ _ => trivial
    cases found with
    | none => exact fun _ => Moment.eq_of_fallible hfound
    | some entry =>
      refine wp_seq (wp_true _ _) fun same c₁ _ => ?_
      split
      · refine (wp_perform_bind _ _ _ _ _).mpr fun t _ => ?_
        split <;> exact fun h => nomatch h
      · exact fun h => nomatch h
  refine wp_mono (wp_and (wp_sparing sparing_health hk) hread) (fun found c' h => ?_)
    fun _ _ h => h.1
  exact ⟨h.1, fun hnone => ⟨h.1.1, Host.unrecorded_of_pidfile (h.2 hnone)⟩⟩

/-- Around the start of a keeper: none is recorded, and `meta.json` says what it is to be. -/
def Host.Awaits (m : Meta) (h : Host) : Prop := h.Unrecorded ∧ h.metaFile = some m

theorem Host.Awaits.fades {m : Meta} {h h' : Host} (ha : h.Awaits m) (hf : Fades h h') :
    h'.Awaits m :=
  ⟨ha.1.recedes hf.recedes, hf.metaFile.trans ha.2⟩

theorem wp_awaits {α : Type} {p : Cmd α} (hp : Only Op.Plain p) {m : Meta} {c : Config machine}
    (hk : Known S (Host.Awaits m) c) :
    wp G (fun _ => Known S (Host.Awaits m)) (fun _ => Known S (Consistent S)) p c :=
  wp_mono (wp_known hp (fun _ h => h.1.consistent) (fun _ _ hf h => h.fades hf)
    (fun _ t h ho ha => ha.fades (fades_act ho.quiet t h)) hk) (fun _ _ h => h)
    fun _ _ h => h.mono fun _ h => h.1.consistent

/-- `write_meta` replaces the file while no keeper is recorded. -/
theorem writeMeta_awaits {m : Meta} {c : Config machine} (hk : Known S Host.Unrecorded c) :
    wp G (fun _ => Known S (Host.Awaits m)) (fun _ => Known S (Consistent S)) (writeMeta m) c := by
  have hkeeps : ∀ t : Moment, ∀ h : Host, h.Unrecorded → (h.act (.writeMeta m) t).2.Unrecorded := by
    intro t h hu
    simp only [Host.act]
    split <;> exact hu
  refine wp_mono (wp_and (writeMeta_written m c) (wp_known (T := fun o => o = .writeMeta m)
    (P := Host.Unrecorded) ?_ (fun _ h => h.consistent) (fun _ _ hf h => h.recedes hf.recedes)
    (fun o t h ho hu => ?_) hk)) (fun _ _ h => ⟨h.2.1, h.2.2, h.1⟩) fun _ _ h => h.2.consistent
  · exact only_bind (only_perform rfl) fun _ => only_orFail _ _
  · subst ho
    exact hkeeps t h hu

/-- A keeper that is recorded, or runs under this pid, comes from the same `up` as `meta.json`. -/
structure Host.Owned (S : UpInput → Prop) (m : Meta) (pid : ℕ) (h : Host) : Prop where
  metaFile : h.metaFile = some m
  recorded : ∀ launch, h.recordedKeeper = some launch → OneUp S launch m
  running : ∀ p launch, h.procs pid = some p → p.kind.launch = some launch → OneUp S launch m

theorem Host.Owned.consistent {m : Meta} {pid : ℕ} {h : Host} (ho : h.Owned S m pid) :
    Consistent S h := by
  intro launch m' hl hm
  obtain rfl : m = m' := Option.some.inj (ho.metaFile.symm.trans hm)
  exact ho.recorded launch hl

theorem Host.Owned.fades {m : Meta} {pid : ℕ} {h h' : Host} (ho : h.Owned S m pid)
    (hf : Fades h h') : h'.Owned S m pid where
  metaFile := hf.metaFile.trans ho.metaFile
  recorded launch hl := ho.recorded launch (hf.recedes.keeper launch hl)
  running p launch hp hl :=
    ho.running p launch (hf.procs_of_role hp (Kind.role_of_launch hl)) hl

/-- The keeper is started. -/
theorem Host.Awaits.spawn {m : Meta} {h : Host} {launch : Launch} (ha : h.Awaits m)
    (hone : OneUp S launch m) (t : Moment) :
    (h.born t.pid (.keeper launch)).Owned S m t.pid := by
  refine ⟨ha.2, fun launch' hl => ?_, fun p launch' hp hl => ?_⟩
  · obtain ⟨pid, start, p, hfile, hp, hstart, hkind⟩ := recordedKeeper_eq_some_iff.mp hl
    simp only [Host.born] at hfile hp
    split at hp
    · obtain rfl := Option.some.inj hp
      obtain rfl := Option.some.inj hkind
      exact hone
    · have hbefore : h.recordedKeeper = some launch' :=
        recordedKeeper_eq_some_iff.mpr ⟨pid, start, p, hfile, hp, hstart, hkind⟩
      exact (nomatch ha.1.symm.trans hbefore)
  · simp only [Host.born, if_pos] at hp
    obtain rfl := Option.some.inj hp
    obtain rfl := Option.some.inj hl
    exact hone

/-- Where the start fails, nothing has changed. -/
theorem spawnKeeper_known {launch : Launch} {m : Meta} (hone : OneUp S launch m)
    {c : Config machine} (hk : Known S (Host.Awaits m) c) :
    wp G (fun spawned c' => Known S (Consistent S) c' ∧
        ∀ pid, spawned = .ok pid → Known S (Host.Owned S m pid) c')
      (fun _ : UpError => Known S (Consistent S)) (perform (Op.spawnKeeper launch)) c := by
  refine (wp_perform _ _ _ _).mpr fun t _ => ?_
  have hnext : ∀ Q : Host → Prop, (∀ h : Host, h.Awaits m →
      h = (c.step (.spawnKeeper launch) t).before → Q (h.act (.spawnKeeper launch) t).2) →
      Known S Q (c.next (.spawnKeeper launch) t) :=
    fun Q => hk.next (fun _ h => h.1.consistent) (fun _ _ hf h => h.fades hf)
  rcases spawn_cases (c.step (.spawnKeeper launch) t).before t (.keeper launch) t.pid with
    ⟨e, he, -⟩ | ⟨he, -, -⟩
  · have hanswer : c.answer (.spawnKeeper launch) t = .error e := congrArg Prod.fst he
    refine ⟨hnext _ fun h ha hh => ?_, fun pid hpid => nomatch hanswer.symm.trans hpid⟩
    have hstays : (h.act (.spawnKeeper launch) t).2 = h := by
      rw [hh]
      exact congrArg Prod.snd he
    rw [hstays]
    exact ha.1.consistent
  · have hanswer : c.answer (.spawnKeeper launch) t = .ok t.pid := congrArg Prod.fst he
    have howned : Known S (Host.Owned S m t.pid) (c.next (.spawnKeeper launch) t) := by
      refine hnext _ fun h ha hh => ?_
      have hborn : (h.act (.spawnKeeper launch) t).2 = h.born t.pid (.keeper launch) := by
        rw [hh]
        exact congrArg Prod.snd he
      rw [hborn]
      exact ha.spawn hone t
    refine ⟨howned.mono fun _ h => h.consistent, fun pid hpid => ?_⟩
    obtain rfl : t.pid = pid := Except.ok.inj (hanswer.symm.trans hpid)
    exact howned

/-- What follows the start of the keeper with this pid. -/
def Op.Follows (pid : ℕ) : Op → Prop
  | .writeRecord r pid' _ => r = .keeper ∧ pid' = pid
  | o => o.Quiet

/-- Its record is written, or lost. -/
theorem Host.Owned.act {m : Meta} {pid : ℕ} {h : Host} (ho : h.Owned S m pid) {o : Op}
    (hfollows : o.Follows pid) (t : Moment) : (h.act o t).2.Owned S m pid := by
  by_cases hquiet : o.Quiet
  · exact ho.fades (fades_act hquiet t h)
  · cases o with
    | writeRecord r pid' start =>
      obtain ⟨rfl, rfl⟩ := hfollows
      have hlost : (h.record .keeper none).Owned S m pid' :=
        ⟨ho.metaFile, fun _ hl => (nomatch hl), ho.running⟩
      have hwritten : (h.record .keeper (some (pid', start))).Owned S m pid' := by
        refine ⟨ho.metaFile, fun launch hl => ?_, ho.running⟩
        obtain ⟨pid, start', p, hfile, hp, -, hkind⟩ := recordedKeeper_eq_some_iff.mp hl
        obtain ⟨rfl, rfl⟩ : pid' = pid ∧ start = start' := by
          simpa [Host.record] using hfile
        exact ho.running p launch hp hkind
      simp only [Host.act]
      split
      · split
        · exact hlost
        · exact ho
      · exact hwritten
    | _ => exact (hquiet hfollows).elim

theorem Op.Plain.follows {o : Op} (ho : o.Plain) (pid : ℕ) : o.Follows pid := by
  cases o with
  | writeRecord r pid' start => exact ho.elim
  | _ => exact ho.quiet

theorem follows_writePidfile (pid : ℕ) : Only (Op.Follows pid) (writePidfile .keeper pid) := by
  refine only_bind (only_perform trivial) fun _ => only_bind (only_perform trivial) fun _ => ?_
  refine only_bind (only_orFail _ _) fun _ => ?_
  exact only_bind (only_perform ⟨rfl, rfl⟩) fun _ => only_orFail _ _

/-- `up_process` starts the keeper that `meta.json` is about, if it starts one. -/
theorem upProcess_known {input : UpInput} {root fingerprint : String} {outcome : UpOutcome}
    {resolution : Resolution} {shell : ResolvedShell} {proxy : Option (UInt16 × String)}
    (hin : S input) (hroot : statePaths input.host.homeVar input.manifest.sandbox.name = .ok root)
    (hresolution : input.resolution = .ok resolution)
    (hfingerprint : input.fingerprint = .ok fingerprint)
    (hshell : input.shell resolution.env = some shell)
    (hproxy : proxy.isSome = (compile input.platform input.manifest).wantsEgressProxy)
    {c : Config machine}
    (hk : Known S (Host.Awaits (upMeta input resolution fingerprint shell proxy)) c) :
    wp G (fun _ => Known S (Consistent S)) (fun _ => Known S (Consistent S))
      (upProcess input root outcome resolution shell proxy) c := by
  have hfailed : ∀ c : Config machine,
      Known S (Host.Awaits (upMeta input resolution fingerprint shell proxy)) c →
      Known S (Consistent S) c := fun c hk => hk.mono fun _ h => h.1.consistent
  refine wp_orFail_bind (fun exe hexe => ?_) fun _ _ => hfailed c hk
  cases hdir : parent exe with
  | none => exact hfailed c hk
  | some exeDir =>
    refine wp_orFail_bind (fun kind hkind => ?_) fun _ _ => hfailed c hk
    refine wp_seq (wp_awaits (plain_prepareKeeper _ _ _) hk) fun services c₁ hk => ?_
    refine wp_seq (wp_awaits (plain_isolateNetwork _ _ _) hk) fun isolated c₂ hk => ?_
    have hone : OneUp S (keeperLaunch input root exe resolution shell
        (upPolicy input exeDir kind.staticName resolution shell proxy) proxy services isolated)
        (upMeta input resolution fingerprint shell proxy) :=
      ⟨input, ⟨root, exe, exeDir, kind, resolution, fingerprint, shell, proxy, services, isolated⟩,
        hin, ⟨hroot, hexe, hdir, hkind, hresolution, hfingerprint, hshell, hproxy⟩, rfl, rfl⟩
    refine wp_seq (spawnKeeper_known hone hk) fun spawned c₃ ⟨hk, howned⟩ => ?_
    cases spawned with
    | error e => exact hk
    | ok pid =>
      have hafter : Only (Op.Follows pid) (do
          writePidfile .keeper pid
          runHooks input outcome resolution
          return outcome : Cmd UpOutcome) :=
        only_bind (follows_writePidfile pid) fun _ =>
          only_bind ((plain_runHooks input outcome resolution).mono fun _ ho => ho.follows pid)
            fun _ => only_pure _
      exact wp_mono (wp_known hafter (fun _ h => h.consistent) (fun _ _ hf h => h.fades hf)
        (fun _ t h ho hP => hP.act ho t) (howned pid rfl))
        (fun _ _ h => h.mono fun _ h => h.consistent) fun _ _ h => h.mono fun _ h => h.consistent

/-- There is a proxy where the manifest wants one. -/
theorem egressProxy_wants (input : UpInput) (c : Config machine) :
    wp G (fun proxy _ => proxy.isSome =
      (compile input.platform input.manifest).wantsEgressProxy) (fun _ _ => True)
      (egressProxy input) c := by
  unfold egressProxy
  split
  · next hwants => exact wp_seq (wp_true _ c) fun _ _ _ => hwants.symm
  · next hwants =>
    refine wp_seq (wp_true _ c) fun _ _ _ => ?_
    exact (Bool.eq_false_iff.mpr hwants).symm

/-- An `up` that has seen to it that no live keeper is recorded. -/
theorem bringUp_known {input : UpInput} {root : String} {outcome : UpOutcome} (hin : S input)
    (hroot : statePaths input.host.homeVar input.manifest.sandbox.name = .ok root)
    {c : Config machine} (hk : Known S Host.Unrecorded c) :
    wp G (fun _ => Known S (Consistent S)) (fun _ => Known S (Consistent S))
      (bringUp input root outcome) c := by
  have hsparing : ∀ {α : Type} {p : Cmd α} {c : Config machine}, Only Op.Sparing p →
      Known S Host.Unrecorded c →
      wp G (fun _ => Known S Host.Unrecorded) (fun _ => Known S (Consistent S)) p c :=
    fun hp hk => wp_mono (wp_sparing_unrecorded hp hk) (fun _ _ h => h) fun _ _ h => h.consistent
  refine wp_orFail_bind (fun _ _ => ?_) fun _ _ => hk.consistent
  refine wp_orFail_bind (fun resolution hresolution => ?_) fun _ _ => hk.consistent
  refine wp_orFail_bind (fun fingerprint hfingerprint => ?_) fun _ _ => hk.consistent
  refine wp_seq (hsparing (only_attempt _ trivial) hk) fun _ c₁ hk => ?_
  refine wp_seq (wp_mono (wp_and (hsparing (sparing_egressProxy input) hk)
    (egressProxy_wants input c₁)) (fun _ _ h => h) fun _ _ h => h.1) fun proxy c₂ ⟨hk, hproxy⟩ => ?_
  cases hshell : input.shell resolution.env with
  | none => exact hk.consistent
  | some shell =>
    refine wp_seq (writeMeta_awaits hk) fun _ c₃ hk => ?_
    exact upProcess_known hin hroot hresolution hfingerprint hshell hproxy hk

theorem up_known {input : UpInput} (hin : S input) {c : Config machine}
    (hk : Known S (Consistent S) c) :
    wp Unrecords (fun _ => Known S (Consistent S)) (fun _ => Known S (Consistent S))
      (up input) c := by
  have hsparing : ∀ {α : Type} {p : Cmd α} {c : Config machine}, Only Op.Sparing p →
      Known S (Consistent S) c → wp Unrecords (fun _ => Known S (Consistent S))
        (fun _ => Known S (Consistent S)) p c :=
    fun hp hk => wp_sparing hp hk
  refine wp_seq (hsparing (only_perform trivial) hk) fun _ c hk => ?_
  refine wp_orFail_bind (fun root hroot => ?_) fun _ _ => hk
  refine wp_seq (hsparing sparing_acquireLifecycleLock hk) fun _ c hk => ?_
  split
  · refine wp_seq (hsparing (sparing_terminateAndWait .keeper) hk) fun _ c hk => ?_
    refine wp_seq (hsparing (sparing_terminateAndWait .proxy) hk) fun _ c hk => ?_
    refine wp_seq (clearRuntimeState_unrecorded hk) fun _ c hk => ?_
    exact bringUp_known hin hroot hk
  · refine wp_seq (health_unrecorded hk) fun found c hfound => ?_
    cases found with
    | healthy pid => exact hfound.1
    | stale pid =>
      refine wp_seq (hsparing (only_perform trivial) hfound.1) fun _ c hk => ?_
      refine wp_seq (clearRuntimeState_unrecorded hk) fun _ c hk => ?_
      exact bringUp_known hin hroot hk
    | none => exact bringUp_known hin hroot (hfound.2 rfl)

theorem sparing_down (homeVar : Option String) (sandboxName : String) :
    Only Op.Sparing (down homeVar sandboxName) := by
  refine only_bind (only_perform trivial) fun _ => only_bind (only_orFail _ _) fun _ => ?_
  refine only_bind sparing_acquireLifecycleLock fun _ => ?_
  refine only_bind (only_bind (sparing_terminateAndWait .keeper) fun _ =>
    sparing_terminateAndWait .proxy) fun _ => ?_
  exact only_clearRuntimeState fun _ => trivial

theorem sparing_rm (homeVar : Option String) (sandboxName : String) :
    Only Op.Sparing (rm homeVar sandboxName) := by
  refine only_bind (only_perform trivial) fun _ => only_bind (only_orFail _ _) fun _ => ?_
  refine only_bind (only_perform trivial) fun found => ?_
  refine only_bind sparing_acquireLifecycleLock fun _ => ?_
  refine only_bind (only_bind (sparing_terminateAndWait .keeper) fun _ =>
    sparing_terminateAndWait .proxy) fun _ => ?_
  refine only_bind (only_perform trivial) fun _ => only_bind (only_orFail _ _) fun _ => ?_
  split
  · exact only_attempt _ trivial
  · exact only_pure _

theorem prog_known {cmd : Command} (hup : ∀ input, cmd = .up input → S input)
    {c : Config machine} (hk : Known S (Consistent S) c) :
    wp Unrecords (fun _ => Known S (Consistent S)) (fun _ => Known S (Consistent S))
      cmd.prog c := by
  cases cmd with
  | up input => exact wp_seq (up_known (hup input rfl) hk) fun _ _ hk => hk
  | down homeVar name => exact wp_seq (wp_sparing (sparing_down homeVar name) hk) fun _ _ hk => hk
  | rm homeVar name => exact wp_seq (wp_sparing (sparing_rm homeVar name) hk) fun _ _ hk => hk

/-- What is found at some moment of a session: before one of its operations, or at its end. -/
def Seen (c : Config machine) (h : Host) : Prop := h = c.state ∨ ∃ step ∈ c.trace, h = step.before

/-- Whoever looks at a sandbox, at whatever moment of a session, while commands, operations and
processes fail and pids are reused: where the pidfile names a live keeper and there is a
`meta.json`, one and the same `up` of the session has written this file and started this keeper,
from one resolution of the environment and under one policy. -/
theorem recordedKeeper_described {cmds : List Command} {moments : List Moment} {h : Host}
    (hfresh : h.Fresh) {d : Done machine Command UpError (Option UpOutcome)}
    (hd : d ∈ session Command.prog cmds moments ⟨[], h⟩)
    (hremoved : Guarded Unrecords d.config.trace) {seen : Host} (hseen : Seen d.config seen)
    {launch : Launch} {m : Meta} (hkeeper : seen.recordedKeeper = some launch)
    (hmeta : seen.metaFile = some m) :
    ∃ input, ∃ v : Values, Command.up input ∈ cmds ∧ v.From input ∧ launch = v.launch input ∧
      m = v.metaFile input := by
  let S : UpInput → Prop := fun input => Command.up input ∈ cmds
  have hstart : Known S (Consistent S) ⟨[], h⟩ :=
    ⟨fun _ hstep => (nomatch hstep), (Host.unrecorded_of_pidfile (hfresh.2.1 .keeper)).consistent⟩
  have hend : Known S (Consistent S) d.config := by
    -- The commands that are left are among those of the session.
    refine session_spec_left
      (I := fun rest c => (∀ cmd ∈ rest, cmd ∈ cmds) ∧ Known S (Consistent S) c)
      (P := fun _ _ c => Known S (Consistent S) c) (fun cmd rest c hc => ?_)
      ⟨fun _ h => h, hstart⟩ hd hremoved
    have hrest : ∀ cmd' ∈ rest, cmd' ∈ cmds :=
      fun cmd' h => hc.1 cmd' (List.mem_cons_of_mem _ h)
    have hup : ∀ input, cmd = .up input → S input := by
      rintro input rfl
      exact hc.1 _ List.mem_cons_self
    exact wp_mono (prog_known hup hc.2) (fun _ _ hk => ⟨⟨hrest, hk⟩, hk⟩)
      fun _ _ hk => ⟨⟨hrest, hk⟩, hk⟩
  rcases hseen with rfl | ⟨step, hstep, rfl⟩
  · exact hend.2 launch m hkeeper hmeta
  · exact hend.1 step hstep launch m hkeeper hmeta

/-- A second `up --recreate` for other domains: afterwards `meta.json` is about its keeper. -/
theorem recordedKeeper_described_recreated :
    ∃ d ∈ session (m := machine) Command.prog [.up (sampleInput ["a.org"]),
        .up { sampleInput ["b.org"] with opts := ⟨true, false⟩ }] (sampleMoments [] [])
        ⟨[], freshHost⟩, d.outcome = .ok (some .recreated) ∧
      ∃ launch m, d.config.state.recordedKeeper = some launch ∧ d.config.state.metaFile = some m ∧
        ∃ input, ∃ v : Values, Command.up input ∈ [Command.up (sampleInput ["a.org"]),
          .up { sampleInput ["b.org"] with opts := ⟨true, false⟩ }] ∧ v.From input ∧
          launch = v.launch input ∧ m = v.metaFile input := by
  have hrun : (session (m := machine) Command.prog [.up (sampleInput ["a.org"]),
      .up { sampleInput ["b.org"] with opts := ⟨true, false⟩ }] (sampleMoments [] [])
      ⟨[], freshHost⟩).any (fun d => decide (d.outcome = .ok (some .recreated) ∧
        d.config.state.recordedKeeper.isSome = true ∧ d.config.state.metaFile.isSome = true ∧
        Guarded Unrecords d.config.trace)) = true := by decide +kernel
  obtain ⟨d, hd, h⟩ := List.any_eq_true.mp hrun
  obtain ⟨houtcome, hkeeper, hmeta, hremoved⟩ := of_decide_eq_true h
  obtain ⟨launch, hkeeper⟩ := Option.isSome_iff_exists.mp hkeeper
  obtain ⟨m, hmeta⟩ := Option.isSome_iff_exists.mp hmeta
  exact ⟨d, hd, houtcome, launch, m, hkeeper, hmeta,
    recordedKeeper_described freshHost_fresh hd hremoved (Or.inl rfl) hkeeper hmeta⟩

end Devcroft.Lifecycle
