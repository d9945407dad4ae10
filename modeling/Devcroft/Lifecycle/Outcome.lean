import Devcroft.Lifecycle.Fading

/-!
# What a successful `up` leaves behind

An `up` that does not find a healthy sandbox and returns without an error has written
`meta.json` and started a keeper, both from the same values.
-/

namespace Devcroft.Lifecycle

open Config Policy Program Provider

/-- What the latest keeper was started with, or was meant to be. -/
def latestLaunch : List (Step machine) → Option Launch
  | [] => none
  | step :: earlier =>
    match step.op with
    | .spawnKeeper launch => some launch
    | _ => latestLaunch earlier

/-- The values that an `up` works with. -/
structure Values where
  root : String
  exe : String
  exeDir : String
  provider : ProviderKind
  resolution : Resolution
  fingerprint : String
  shell : ResolvedShell
  proxy : Option (UInt16 × String)
  services : Bool
  isolated : Bool

/-- The policy from these values. -/
def Values.policy (v : Values) (input : UpInput) : CompiledPolicy :=
  upPolicy input v.exeDir v.provider.staticName v.resolution v.shell v.proxy

/-- The `meta.json` from these values. -/
def Values.metaFile (v : Values) (input : UpInput) : Meta :=
  upMeta input v.resolution v.fingerprint v.shell v.proxy

/-- The start of the keeper from these values. -/
def Values.launch (v : Values) (input : UpInput) : Launch :=
  keeperLaunch input v.root v.exe v.resolution v.shell (v.policy input) v.proxy v.services
    v.isolated

/-- The values come from the input, `meta.json` was written and the latest keeper started from
them. -/
structure Values.Fit (v : Values) (input : UpInput) (c : Config machine) : Prop where
  root : statePaths input.host.homeVar input.manifest.sandbox.name = .ok v.root
  exe : input.keeperExe = .ok v.exe
  exeDir : parent v.exe = some v.exeDir
  provider : ProviderKind.fromName input.manifest.env.provider = .ok v.provider
  resolution : input.resolution = .ok v.resolution
  fingerprint : input.fingerprint = .ok v.fingerprint
  shell : input.shell v.resolution.env = some v.shell
  proxy : v.proxy.isSome = (compile input.platform input.manifest).wantsEgressProxy
  written : c.state.metaFile = some (v.metaFile input)
  launched : latestLaunch c.trace = some (v.launch input)

variable {G : Guard machine}

/-- Around the start of the keeper nothing else is written to `meta.json`. -/
def Op.KeepsMeta : Op → Prop
  | .spawnKeeper _ => True
  | .writeRecord _ _ _ => True
  | o => o.Quiet

theorem metaFile_next {c : Config machine} {o : Op} (ho : o.KeepsMeta) (t : Moment) :
    (c.next o t).state.metaFile = c.state.metaFile := by
  have hbefore := (fades_before c o t).metaFile
  by_cases hquiet : o.Quiet
  · exact (fades_next hquiet c t).metaFile
  · refine Eq.trans ?_ hbefore
    show ((c.step o t).before.act o t).2.metaFile = (c.step o t).before.metaFile
    have hacts := acts o t (c.step o t).before
    generalize ((c.step o t).before.act o t).2 = after at hacts ⊢
    cases hacts with
    | stays => rfl
    | startsKeeper launch hfree => rfl
    | records r pid start entry => rfl
    | _ => exact (hquiet ho).elim

/-- What follows the start of the keeper. -/
def Op.FollowsLaunch (o : Op) : Prop := o.KeepsMeta ∧ ∀ launch, o ≠ .spawnKeeper launch

theorem latestLaunch_next {c : Config machine} {o : Op} (ho : ∀ launch, o ≠ .spawnKeeper launch)
    (t : Moment) : latestLaunch (c.next o t).trace = latestLaunch c.trace := by
  cases o <;> first | rfl | exact (ho _ rfl).elim

theorem followsLaunch_writePidfile (r : Role) (pid : ℕ) :
    Only Op.FollowsLaunch (writePidfile r pid) := by
  have hperform : ∀ o : Op, o.KeepsMeta → (∀ launch, o ≠ .spawnKeeper launch) →
      Only Op.FollowsLaunch (perform o : Cmd (Answer o)) := fun o h h' => only_perform ⟨h, h'⟩
  refine only_bind (hperform _ trivial (by simp)) fun _ => ?_
  refine only_bind (hperform _ trivial (by simp)) fun _ => only_bind (only_orFail _ _) fun _ => ?_
  exact only_bind (hperform _ trivial (by simp)) fun _ => only_orFail _ _

theorem Op.Plain.followsLaunch {o : Op} (ho : o.Plain) : o.FollowsLaunch := by
  cases o with
  | removeFile f => exact ⟨ho.quiet, by simp⟩
  | attempt a => exact ⟨trivial, by simp⟩
  | probeNetns => exact ⟨trivial, by simp⟩
  | _ => exact ho.elim

/-- `up_process` starts the keeper from the values that it is given, and leaves `meta.json`. -/
theorem upProcess_fit (input : UpInput) (root : String) (outcome : UpOutcome)
    {resolution : Resolution} {shell : ResolvedShell} {proxy : Option (UInt16 × String)}
    {c : Config machine} {m : Meta} (hmeta : c.state.metaFile = some m) :
    wp G (fun _ c' => c'.state.metaFile = some m ∧ ∃ exe exeDir kind services isolated,
        input.keeperExe = .ok exe ∧ parent exe = some exeDir ∧
        ProviderKind.fromName input.manifest.env.provider = .ok kind ∧
        latestLaunch c'.trace = some (keeperLaunch input root exe resolution shell
          (upPolicy input exeDir kind.staticName resolution shell proxy) proxy services isolated))
      (fun _ _ => True) (upProcess input root outcome resolution shell proxy) c := by
  refine wp_orFail_bind (fun exe hexe => ?_) fun _ _ => trivial
  cases hdir : parent exe with
  | none => trivial
  | some exeDir =>
    refine wp_orFail_bind (fun kind hkind => ?_) fun _ _ => trivial
    refine wp_seq (wp_mono (wp_plain (plain_prepareKeeper input resolution _) c)
      (fun _ _ hf => hf.metaFile.trans hmeta) fun _ _ _ => trivial) fun services c₁ hmeta => ?_
    refine wp_seq (wp_mono (wp_plain (plain_isolateNetwork _ services proxy) c₁)
      (fun _ _ hf => hf.metaFile.trans hmeta) fun _ _ _ => trivial) fun isolated c₂ hmeta => ?_
    refine (wp_perform_bind _ _ _ _ _).mpr fun t _ => ?_
    split
    · trivial
    · next pid _ =>
      -- From here on both files and the latest start stay as they are.
      have hkept : ∀ o (c : Config machine) (t : Moment), o.FollowsLaunch →
          (c.state.metaFile = some m ∧ latestLaunch c.trace = some (keeperLaunch input root exe
            resolution shell (upPolicy input exeDir kind.staticName resolution shell proxy) proxy
            services isolated)) → G (c.step o t) c.trace →
          ((c.next o t).state.metaFile = some m ∧ latestLaunch (c.next o t).trace = some
            (keeperLaunch input root exe resolution shell
              (upPolicy input exeDir kind.staticName resolution shell proxy) proxy services
              isolated)) := fun o c t ho h _ =>
        ⟨(metaFile_next ho.1 t).trans h.1, (latestLaunch_next ho.2 t).trans h.2⟩
      have hafter : Only Op.FollowsLaunch (do
          writePidfile .keeper pid
          runHooks input outcome resolution
          return outcome : Cmd UpOutcome) :=
        only_bind (followsLaunch_writePidfile _ _) fun _ =>
          only_bind ((plain_runHooks input outcome resolution).mono fun _ => Op.Plain.followsLaunch)
            fun _ => only_pure _
      refine wp_mono (wp_of_only hafter hkept ⟨?_, rfl⟩) (fun _ _ h => ?_) fun _ _ _ => trivial
      · exact (metaFile_next (o := .spawnKeeper _) trivial t).trans hmeta
      · exact ⟨h.1, exe, exeDir, kind, services, isolated, hexe, hdir, hkind, h.2⟩

/-- `write_meta` replaces the whole file. -/
theorem writeMeta_written (m : Meta) (c : Config machine) :
    wp G (fun _ c' => c'.state.metaFile = some m) (fun _ _ => True) (writeMeta m) c := by
  refine (wp_perform_bind _ _ _ _ _).mpr fun t _ => ?_
  refine wp_orFail (fun a ha => ?_) fun _ _ => trivial
  show ((c.step (.writeMeta m) t).before.act (.writeMeta m) t).2.metaFile = some m
  have hanswer : ((c.step (.writeMeta m) t).before.act (.writeMeta m) t).1 = .ok a := ha
  simp only [Host.act] at hanswer ⊢
  split at hanswer
  · cases hanswer
  · rfl

/-- What a successful `up` leaves behind, unless it found the sandbox healthy. -/
theorem up_fit (input : UpInput) (c : Config machine) :
    wp G (fun outcome c' => outcome ≠ .alreadyUp → ∃ v : Values, v.Fit input c') (fun _ _ => True)
      (up input) c := by
  have hproxy : ∀ c : Config machine, wp G (fun proxy _ => proxy.isSome =
      (compile input.platform input.manifest).wantsEgressProxy) (fun _ _ => True)
      (egressProxy input) c := by
    intro c
    unfold egressProxy
    split
    · next hwants => exact wp_seq (wp_true _ c) fun _ _ _ => hwants.symm
    · next hwants =>
      refine wp_seq (wp_true _ c) fun _ _ _ => ?_
      exact (Bool.eq_false_iff.mpr hwants).symm
  have hbring : ∀ root outcome (c : Config machine),
      statePaths input.host.homeVar input.manifest.sandbox.name = .ok root →
      wp G (fun _ c' => ∃ v : Values, v.Fit input c') (fun _ _ => True)
        (bringUp input root outcome) c := by
    intro root outcome c hroot
    refine wp_orFail_bind (fun _ _ => ?_) fun _ _ => trivial
    refine wp_orFail_bind (fun resolution hresolution => ?_) fun _ _ => trivial
    refine wp_orFail_bind (fun fingerprint hfingerprint => ?_) fun _ _ => trivial
    refine wp_seq (wp_true _ c) fun _ c₁ _ => wp_seq (hproxy c₁) fun proxy c₂ hproxy => ?_
    cases hshell : input.shell resolution.env with
    | none => trivial
    | some shell =>
      refine wp_seq (writeMeta_written _ c₂) fun _ c₃ hmeta => ?_
      refine wp_mono (upProcess_fit input root outcome hmeta) (fun _ c₄ h => ?_) fun _ _ h => h
      obtain ⟨hwritten, exe, exeDir, kind, services, isolated, hexe, hdir, hkind, hlaunch⟩ := h
      exact ⟨⟨root, exe, exeDir, kind, resolution, fingerprint, shell, proxy, services, isolated⟩,
        hroot, hexe, hdir, hkind, hresolution, hfingerprint, hshell, hproxy, hwritten, hlaunch⟩
  refine (wp_perform_bind _ _ _ _ _).mpr fun t _ => ?_
  refine wp_orFail_bind (fun root hroot => ?_) fun _ _ => trivial
  refine wp_seq (wp_true _ _) fun _ c₁ _ => ?_
  split
  · refine wp_seq (wp_true _ c₁) fun _ c₂ _ => wp_seq (wp_true _ c₂) fun _ c₃ _ => ?_
    refine wp_seq (wp_true _ c₃) fun _ c₄ _ => ?_
    exact wp_mono (hbring root _ c₄ hroot) (fun _ _ h _ => h) fun _ _ h => h
  · refine wp_seq (wp_true _ c₁) fun found c₂ _ => ?_
    cases found with
    | healthy pid => exact fun hne => (hne rfl).elim
    | stale pid =>
      refine wp_seq (wp_true _ c₂) fun _ c₃ _ => wp_seq (wp_true _ c₃) fun _ c₄ _ => ?_
      exact wp_mono (hbring root _ c₄ hroot) (fun _ _ h _ => h) fun _ _ h => h
    | none => exact wp_mono (hbring root _ c₂ hroot) (fun _ _ h _ => h) fun _ _ h => h

end Devcroft.Lifecycle
