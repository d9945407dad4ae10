import Devcroft.Lifecycle.Outcome
import Devcroft.Policy.Rejection

/-!
# What keepers are started with

Every keeper that an `up` starts gets the policy compiled from the manifest, with the
proxy that this `up` has obtained, and only after this policy has passed the checks of
`to_capability_set`. What the checks and the network part of the policy say about a
manifest therefore holds of every keeper in every run.
-/

namespace Devcroft.Lifecycle

open Config Policy Program Provider

/-- The proxy that a step obtains: the one it starts, or the one it reads of in `meta.json`. -/
def obtainedBy (step : Step machine) : Option (UInt16 × String) :=
  match step.op with
  | .spawnProxy allow =>
    match (step.before.act (.spawnProxy allow) step.choice).1 with
    | .ok (_, port, token) => some (port, token)
    | .error _ => none
  | .readMeta =>
    match (step.before.act .readMeta step.choice).1 with
    | .ok (some found) => found.proxyPort.bind fun port => found.proxyToken.map (port, ·)
    | _ => none
  | _ => none

/-- The proxy that was obtained last. -/
def obtainedProxy : List (Step machine) → Option (UInt16 × String)
  | [] => none
  | step :: earlier => (obtainedBy step).or (obtainedProxy earlier)

/-- No keeper is started in a trace. -/
def Unlaunched (trace : List (Step machine)) : Prop :=
  ∀ step ∈ trace, ∀ launch, step.op ≠ .spawnKeeper launch

/-- What a keeper is started with: a plan of the compiled policy with this proxy, which is there
exactly when the policy wants one, and the plan has passed the checks of `to_capability_set`. -/
def Launched (input : UpInput) (proxy : Option (UInt16 × String)) (launch : Launch) : Prop :=
  (∃ exeDir provider resolution shell, launch.plan =
    (upPolicy input exeDir provider resolution shell proxy).toCapabilityPlan) ∧
  proxy.isSome = (compile input.platform input.manifest).wantsEgressProxy ∧
  ∃ caps, launch.plan.toCapabilitySet input.nono input.host input.projectRoot = .ok caps

/-- Every keeper of a trace is started so. -/
def Launches (input : UpInput) (trace : List (Step machine)) : Prop :=
  ∀ step ∈ trace, ∀ launch, step.op = .spawnKeeper launch →
    Launched input (obtainedProxy trace) launch

/-- Before the start of the keeper. -/
structure Before (proxy : Option (UInt16 × String)) (trace : List (Step machine)) : Prop where
  unlaunched : Unlaunched trace
  obtained : obtainedProxy trace = proxy

theorem Unlaunched.launches {trace : List (Step machine)} (h : Unlaunched trace)
    (input : UpInput) : Launches input trace :=
  fun step hstep launch hop => (h step hstep launch hop).elim

/-- The operations that neither start a keeper nor obtain a proxy. -/
def Op.Unrelated : Op → Prop
  | .spawnKeeper _ => False
  | .spawnProxy _ => False
  | .readMeta => False
  | _ => True

theorem Op.Watching.unrelated {o : Op} (ho : o.Watching) : o.Unrelated := by
  cases o <;> trivial

theorem Op.Plain.unrelated {o : Op} (ho : o.Plain) : o.Unrelated := by
  cases o <;> trivial

variable {G : Guard machine}

/-- A proxy that is started is obtained. -/
theorem obtainedProxy_spawn {c : Config machine} {allow : List String} {t : Moment} {pid : ℕ}
    {port : UInt16} {token : String}
    (h : c.answer (.spawnProxy allow) t = .ok (pid, port, token)) :
    obtainedProxy (c.next (.spawnProxy allow) t).trace = some (port, token) := by
  have hact : ((c.step (.spawnProxy allow) t).before.act (.spawnProxy allow) t).1 =
      .ok (pid, port, token) := h
  show (obtainedBy (c.step (.spawnProxy allow) t)).or (obtainedProxy c.trace) = _
  unfold obtainedBy
  dsimp only [Config.step] at hact ⊢
  rw [hact, Option.some_or]

/-- Of `meta.json` the proxy is obtained that it has both the port and the token of. -/
theorem obtainedProxy_readMeta {c : Config machine} {t : Moment} {found : Option Meta}
    (h : c.answer .readMeta t = .ok found) :
    obtainedProxy (c.next .readMeta t).trace =
      (found.bind fun m => m.proxyPort.bind fun port => m.proxyToken.map (port, ·)).or
        (obtainedProxy c.trace) := by
  have hact : ((c.step .readMeta t).before.act .readMeta t).1 = .ok found := h
  show (obtainedBy (c.step .readMeta t)).or (obtainedProxy c.trace) = _
  unfold obtainedBy
  dsimp only [Config.step] at hact ⊢
  rw [hact]
  cases found <;> rfl

theorem obtainedProxy_next {o : Op} (ho : o.Unrelated) (c : Config machine) (t : Moment) :
    obtainedProxy (c.next o t).trace = obtainedProxy c.trace := by
  cases o <;> first | rfl | exact ho.elim

/-- An operation that starts no keeper. -/
theorem Unlaunched.next {c : Config machine} (h : Unlaunched c.trace) {o : Op}
    (ho : ∀ launch, o ≠ .spawnKeeper launch) (t : Moment) : Unlaunched (c.next o t).trace := by
  intro step hstep
  rcases List.mem_cons.mp hstep with rfl | hstep
  · exact ho
  · exact h step hstep

theorem Op.Unrelated.not_spawnKeeper {o : Op} (ho : o.Unrelated) (launch : Launch) :
    o ≠ .spawnKeeper launch := by
  rintro rfl
  exact ho

/-- A part of a command that comes before the start of the keeper. -/
theorem wp_before {α : Type} {p : Cmd α} (hp : Only Op.Unrelated p) {c : Config machine}
    {proxy : Option (UInt16 × String)} (hc : Before proxy c.trace) :
    wp G (fun _ c' => Before proxy c'.trace) (fun _ c' => Before proxy c'.trace) p c := by
  refine wp_of_only hp (fun o c t ho h _ => ?_) hc
  exact ⟨h.unlaunched.next ho.not_spawnKeeper t, (obtainedProxy_next ho c t).trans h.obtained⟩

/-- Where such a part comes first, a failure leaves no keeper behind. -/
theorem wp_before_bind {α β : Type} {p : Cmd α} (hp : Only Op.Unrelated p) {f : α → Cmd β}
    {Q : β → Config machine → Prop} {input : UpInput} {c : Config machine}
    {proxy : Option (UInt16 × String)} (hc : Before proxy c.trace)
    (hf : ∀ a c, Before proxy c.trace → wp G Q (fun _ c' => Launches input c'.trace) (f a) c) :
    wp G Q (fun _ c' => Launches input c'.trace) (p >>= f) c :=
  wp_seq (wp_mono (wp_before hp hc) (fun _ _ h => h) fun _ _ h => h.unlaunched.launches input) hf

/-- A part of a command that comes after the start of the keeper. -/
theorem wp_launches {α : Type} {p : Cmd α} (hp : Only Op.Unrelated p) {input : UpInput}
    {c : Config machine} (hc : Launches input c.trace) :
    wp G (fun _ c' => Launches input c'.trace) (fun _ c' => Launches input c'.trace) p c := by
  refine wp_of_only hp (fun o c t ho h _ => ?_) hc
  intro step hstep launch hop
  rw [obtainedProxy_next ho c t]
  rcases List.mem_cons.mp hstep with rfl | hstep
  · exact (ho.not_spawnKeeper launch hop).elim
  · exact h step hstep launch hop

section Parts

theorem unrelated_enter (place : Place) :
    Only Op.Unrelated (perform (Op.enter place) : Cmd Unit) := only_perform trivial

theorem unrelated_writePidfile (r : Role) (pid : ℕ) : Only Op.Unrelated (writePidfile r pid) := by
  refine only_bind (only_perform trivial) fun _ => only_bind (only_perform trivial) fun _ => ?_
  refine only_bind (only_orFail _ _) fun _ => only_bind (only_perform trivial) fun _ => ?_
  exact only_orFail _ _

theorem unrelated_terminateAndWait (r : Role) : Only Op.Unrelated (terminateAndWait r) :=
  (watching_terminateAndWait r).mono fun _ => Op.Watching.unrelated

theorem unrelated_health : Only Op.Unrelated health :=
  only_health trivial trivial (fun _ => trivial) (fun _ => trivial) trivial

end Parts

/-- Starting a proxy obtains it. -/
theorem startEgressProxy_obtained (input : UpInput) {c : Config machine}
    (hc : Before none c.trace) :
    wp G (fun proxy c' => Before (some proxy) c'.trace) (fun _ c' => Launches input c'.trace)
      (startEgressProxy input) c := by
  refine wp_orFail_bind (fun _ _ => ?_) fun _ _ => hc.unlaunched.launches input
  refine (wp_perform_bind _ _ _ _ _).mpr fun t _ => ?_
  have hunlaunched : Unlaunched (c.next (.spawnProxy input.manifest.network.allow) t).trace :=
    hc.unlaunched.next (by simp) t
  split
  · exact hunlaunched.launches input
  · next pid port token hanswer =>
    exact wp_before_bind (unrelated_writePidfile _ _) ⟨hunlaunched, obtainedProxy_spawn hanswer⟩
      fun _ _ h => h

/-- The proxy that an `up` works with is the one that it has obtained. -/
theorem egressProxy_obtained (input : UpInput) {c : Config machine} (hc : Before none c.trace) :
    wp G (fun proxy c' => Before proxy c'.trace ∧
        proxy.isSome = (compile input.platform input.manifest).wantsEgressProxy)
      (fun _ c' => Launches input c'.trace) (egressProxy input) c := by
  have hensure : wp G (fun proxy c' => Before (some proxy) c'.trace)
      (fun _ c' => Launches input c'.trace) (ensureEgressProxy input) c := by
    refine wp_before_bind (unrelated_enter _) hc fun _ c₁ hc₁ => ?_
    refine wp_before_bind (only_readPidfile trivial) hc₁ fun recorded c₂ hc₂ => ?_
    cases recorded with
    | none => exact startEgressProxy_obtained input hc₂
    | some entry =>
      refine wp_before_bind (only_isSameProcess trivial trivial) hc₂ fun same c₃ hc₃ => ?_
      cases same with
      | false => exact startEgressProxy_obtained input hc₃
      | true =>
        refine (wp_bind _ _ _ _).mpr ((wp_perform_bind _ _ _ _ _).mpr fun t _ => ?_)
        have hunlaunched : Unlaunched (c₃.next .readMeta t).trace :=
          hc₃.unlaunched.next (by simp) t
        refine wp_orFail (fun found hanswer => ?_) fun _ _ => hunlaunched.launches input
        have hobtained := obtainedProxy_readMeta hanswer
        rw [hc₃.obtained, Option.or_none] at hobtained
        cases found with
        | none => exact startEgressProxy_obtained input ⟨hunlaunched, hobtained⟩
        | some found =>
          rw [Option.bind_some] at hobtained
          dsimp only
          split
          · next port token hport htoken =>
            rw [hport, htoken] at hobtained
            exact wp_before_bind (unrelated_enter _) ⟨hunlaunched, hobtained⟩ fun _ _ h => h
          · next hmissing =>
            refine startEgressProxy_obtained input ⟨hunlaunched, hobtained.trans ?_⟩
            cases hport : found.proxyPort with
            | none => rfl
            | some port =>
              cases htoken : found.proxyToken with
              | none => rfl
              | some token => exact (hmissing port token hport htoken).elim
  unfold egressProxy
  split
  · next hwants =>
    exact wp_seq hensure fun proxy c' h => ⟨h, hwants.symm⟩
  · next hwants =>
    have hstop : Only Op.Unrelated stopOrphanedEgressProxy :=
      only_bind (unrelated_terminateAndWait _) fun _ => only_perform trivial
    exact wp_before_bind hstop hc fun _ c' h => ⟨h, (Bool.eq_false_iff.mpr hwants).symm⟩

/-- The plan has passed its checks before anything is prepared under it. -/
theorem prepareKeeper_checked (input : UpInput) (resolution : Resolution)
    (compiled : CompiledPolicy) (c : Config machine) :
    wp G (fun _ _ => ∃ caps, compiled.toCapabilityPlan.toCapabilitySet input.nono input.host
      input.projectRoot = .ok caps) (fun _ _ => True) (prepareKeeper input resolution compiled)
      c := by
  refine wp_seq (wp_true _ c) fun _ c₁ _ => ?_
  refine wp_orFail_bind (fun caps hcaps => ?_) fun _ _ => trivial
  exact wp_mono (wp_true _ c₁) (fun _ _ _ => ⟨caps, hcaps⟩) fun _ _ h => h

/-- `up_process` starts its keeper with the proxy that it is given. -/
theorem upProcess_launches (input : UpInput) (root : String) (outcome : UpOutcome)
    (resolution : Resolution) (shell : ResolvedShell) {proxy : Option (UInt16 × String)}
    (hwants : proxy.isSome = (compile input.platform input.manifest).wantsEgressProxy)
    {c : Config machine} (hc : Before proxy c.trace) :
    wp G (fun _ c' => Launches input c'.trace) (fun _ c' => Launches input c'.trace)
      (upProcess input root outcome resolution shell proxy) c := by
  refine wp_orFail_bind (fun exe _ => ?_) fun _ _ => hc.unlaunched.launches input
  cases parent exe with
  | none => exact hc.unlaunched.launches input
  | some exeDir =>
    refine wp_orFail_bind (fun kind _ => ?_) fun _ _ => hc.unlaunched.launches input
    generalize hcompiled : upPolicy input exeDir kind.staticName resolution shell proxy = compiled
    have hprepare : Only Op.Unrelated (prepareKeeper input resolution compiled) :=
      (plain_prepareKeeper input resolution compiled).mono fun _ => Op.Plain.unrelated
    have hisolate : ∀ services, Only Op.Unrelated (isolateNetwork compiled services proxy) :=
      fun services =>
        (plain_isolateNetwork compiled services proxy).mono fun _ => Op.Plain.unrelated
    refine wp_seq (wp_mono (wp_and (wp_before hprepare hc)
      (prepareKeeper_checked input resolution compiled c)) (fun _ _ h => h)
      fun _ _ h => h.1.unlaunched.launches input) fun services c₁ ⟨hc₁, hchecked⟩ => ?_
    refine wp_before_bind (hisolate services) hc₁ fun isolated c₂ hc₂ => ?_
    refine (wp_perform_bind _ _ _ _ _).mpr fun t _ => ?_
    -- The one step that starts a keeper.
    have hlaunches : Launches input (c₂.next (.spawnKeeper (keeperLaunch input root exe resolution
        shell compiled proxy services isolated)) t).trace := by
      intro step hstep launch hop
      have hobtained : obtainedProxy (c₂.next (.spawnKeeper (keeperLaunch input root exe
          resolution shell compiled proxy services isolated)) t).trace = proxy := hc₂.obtained
      rw [hobtained]
      rcases List.mem_cons.mp hstep with rfl | hstep
      · obtain rfl := Op.spawnKeeper.inj hop
        refine ⟨⟨exeDir, kind.staticName, resolution, shell, ?_⟩, hwants, hchecked⟩
        rw [hcompiled]
        rfl
      · exact (hc₂.unlaunched step hstep launch hop).elim
    split
    · exact hlaunches
    · next pid _ =>
      have hhooks : Only Op.Unrelated (runHooks input outcome resolution) :=
        (plain_runHooks input outcome resolution).mono fun _ => Op.Plain.unrelated
      exact wp_launches (only_bind (unrelated_writePidfile _ _) fun _ =>
        only_bind hhooks fun _ => only_pure _) hlaunches

/-- Every keeper that an `up` starts gets the policy of its manifest with the proxy that this `up`
has obtained. -/
theorem up_launches (input : UpInput) {c : Config machine} (hc : Before none c.trace) :
    wp G (fun _ c' => Launches input c'.trace) (fun _ c' => Launches input c'.trace)
      (up input) c := by
  have hbring : ∀ root outcome (c : Config machine), Before none c.trace →
      wp G (fun _ c' => Launches input c'.trace) (fun _ c' => Launches input c'.trace)
        (bringUp input root outcome) c := by
    intro root outcome c hc
    refine wp_orFail_bind (fun _ _ => ?_) fun _ _ => hc.unlaunched.launches input
    refine wp_orFail_bind (fun resolution _ => ?_) fun _ _ => hc.unlaunched.launches input
    refine wp_orFail_bind (fun fingerprint _ => ?_) fun _ _ => hc.unlaunched.launches input
    refine wp_before_bind (only_attempt _ trivial) hc fun _ c₁ hc₁ => ?_
    refine wp_seq (egressProxy_obtained input hc₁) fun proxy c₂ ⟨hc₂, hwants⟩ => ?_
    cases input.shell resolution.env with
    | none => exact hc₂.unlaunched.launches input
    | some shell =>
      have hwrite : ∀ m, Only Op.Unrelated (writeMeta m) :=
        fun m => only_bind (only_perform trivial) fun _ => only_orFail _ _
      refine wp_before_bind (hwrite _) hc₂ fun _ c₃ hc₃ => ?_
      exact upProcess_launches input root outcome resolution shell hwants hc₃
  have hlock : Only Op.Unrelated acquireLifecycleLock :=
    only_bind (only_perform trivial) fun _ => only_orFail _ _
  have hclear : Only Op.Unrelated clearRuntimeState := only_clearRuntimeState fun _ => trivial
  refine wp_before_bind (unrelated_enter _) hc fun _ c₁ hc₁ => ?_
  refine wp_orFail_bind (fun root _ => ?_) fun _ _ => hc₁.unlaunched.launches input
  refine wp_before_bind hlock hc₁ fun _ c₂ hc₂ => ?_
  split
  · refine wp_before_bind (unrelated_terminateAndWait _) hc₂ fun _ c₃ hc₃ => ?_
    refine wp_before_bind (unrelated_terminateAndWait _) hc₃ fun _ c₄ hc₄ => ?_
    exact wp_before_bind hclear hc₄ fun _ c₅ hc₅ => hbring root _ c₅ hc₅
  · refine wp_before_bind unrelated_health hc₂ fun found c₃ hc₃ => ?_
    cases found with
    | healthy pid => exact hc₃.unlaunched.launches input
    | stale pid =>
      refine wp_before_bind (unrelated_enter _) hc₃ fun _ c₄ hc₄ => ?_
      exact wp_before_bind hclear hc₄ fun _ c₅ hc₅ => hbring root _ c₅ hc₅
    | none => exact hbring root _ c₃ hc₃

end Devcroft.Lifecycle
