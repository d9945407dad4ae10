import Devcroft.Lifecycle.Outcome

/-!
# What a reused proxy enforces

The port and token of a running proxy are in `meta.json`, its pid is in a pidfile of
its own, and its allowlist is in the process alone. An `up` that finds the pidfile
naming a live process trusts `meta.json` for the rest. The invariant is that the two
files agree about the proxy that was started last, once `meta.json` was written after
its start.
-/

namespace Devcroft.Lifecycle

open Policy Program

/-- A proxy that was started: its process, and what it was started with. -/
structure Spawned where
  pid : ℕ
  start : ℕ
  port : UInt16
  token : String
  allow : List String
  deriving DecidableEq

/-- The proxy that a step starts. -/
def spawnedBy (step : Step machine) (allow : List String) : Option Spawned :=
  match step.before.procs step.choice.pid, step.choice.fails with
  | none, none =>
    some ⟨step.choice.pid, step.before.clock + 1, step.choice.port, step.choice.token, allow⟩
  | _, _ => none

/-- The proxy that was started last, and whether `meta.json` was written since. -/
def lastProxy : List (Step machine) → Option (Spawned × Bool)
  | [] => none
  | step :: earlier =>
    match step.op with
    | .spawnProxy allow =>
      match spawnedBy step allow with
      | some s => some (s, false)
      | none => lastProxy earlier
    | .writeMeta _ =>
      if step.choice.fails.isSome then lastProxy earlier
      else (lastProxy earlier).map fun entry => (entry.1, true)
    | _ => lastProxy earlier

/-- Whether the command has come to `ensure_egress_proxy`. -/
def sinceEnsure : List (Step machine) → Bool
  | [] => false
  | step :: earlier =>
    match step.op with
    | .enter .command => false
    | .enter .ensureEgressProxy => true
    | _ => sinceEnsure earlier

/-- The condition on a step: a proxy is reused only if `meta.json` was written after its start and
the allowlist is the one that it was started with (and its pid is still its own, where start times
do not tell); and the proxy does not die while an `up` works with it. -/
def Agreeing : Guard machine := fun step earlier =>
  (match step.op with
  | .enter (.reuseEgressProxy allow) =>
    match lastProxy earlier with
    | some (s, true) =>
      s.allow = allow ∧ (step.before.procfs = true ∨
        ((step.before.procs s.pid).bind fun p => p.kind.role) = some .proxy)
    | _ => False
  | _ => True) ∧
  (sinceEnsure earlier = true → step.op ≠ .enter .command →
    match lastProxy earlier with
    | some (s, _) => .death s.pid ∉ step.choice.events
    | none => True)

/-- The allowlist with which a proxy is about to be reused. -/
def reusedAllow : Op → Option (List String)
  | .enter (.reuseEgressProxy allow) => some allow
  | _ => none

theorem agreeing_iff (step : Step machine) (earlier : List (Step machine)) :
    Agreeing step earlier ↔
      (∀ allow ∈ reusedAllow step.op, ∃ last ∈ lastProxy earlier, last.2 = true ∧
        last.1.allow = allow ∧ (step.before.procfs = true ∨
          ((step.before.procs last.1.pid).bind fun p => p.kind.role) = some .proxy)) ∧
      (sinceEnsure earlier = true → step.op ≠ .enter .command →
        ∀ last ∈ lastProxy earlier, .death last.1.pid ∉ step.choice.events) := by
  unfold Agreeing
  refine and_congr ?_ (imp_congr_right fun _ => imp_congr_right fun _ => ?_)
  · split
    · next allow hop =>
      rw [hop]
      rcases lastProxy earlier with - | ⟨s, since⟩
      · simp [reusedAllow]
      · cases since <;> simp [reusedAllow]
    · next hother =>
      have hnone : reusedAllow step.op = none := by
        unfold reusedAllow
        split
        · next allow hop => exact (hother allow hop).elim
        · rfl
      simp [hnone]
  · rcases lastProxy earlier with - | ⟨s, since⟩
    · simp
    · simp

instance (step : Step machine) (earlier : List (Step machine)) :
    Decidable (Agreeing step earlier) :=
  decidable_of_iff' _ (agreeing_iff step earlier)

/-- The start time that is recorded of a proxy. -/
def Host.recordOf (h : Host) (s : Spawned) : ℕ := if h.procfs then s.start else 0

/-- What a trace knows of the last proxy, on the host: its pid is not another proxy's, its pid and
start time are not another process's, and if `meta.json` was written since its start then both files
are about it. -/
structure Knows (h : Host) (s : Spawned) (since : Bool) : Prop where
  own : ∀ p, h.procs s.pid = some p → p.kind.role = some .proxy →
    p.kind = .proxy s.port s.token s.allow
  same : ∀ p, h.procs s.pid = some p → p.start = s.start → p.kind = .proxy s.port s.token s.allow
  positive : 0 < s.start
  clock : s.start ≤ h.clock
  agree : since = true → ∀ m port token, h.metaFile = some m → m.proxyPort = some port →
    m.proxyToken = some token → port = s.port ∧ token = s.token ∧
      ∀ entry, h.pidfile .proxy = some entry → entry = (s.pid, h.recordOf s)

/-- The invariant of the runs. -/
def Settled (c : Config machine) : Prop :=
  ∀ s since, lastProxy c.trace = some (s, since) → Knows c.state s since

theorem Knows.fades {h h' : Host} {s : Spawned} {since : Bool} (hk : Knows h s since)
    (hf : Fades h h') : Knows h' s since where
  own := fun p hp hr => hk.own p (hf.procs_of_role hp hr) hr
  same := by
    intro p hp hstart
    rcases hf.procs _ p hp with hp | ⟨-, hlt⟩
    · exact hk.same p hp hstart
    · have hle := hk.clock
      omega
  positive := hk.positive
  clock := hk.clock.trans hf.clock
  agree := by
    intro hsince m port token hm hport htoken
    rw [hf.metaFile] at hm
    obtain ⟨hp, ht, hentry⟩ := hk.agree hsince m port token hm hport htoken
    refine ⟨hp, ht, fun entry hfile => ?_⟩
    rw [hf.pidfile] at hfile
    unfold Host.recordOf
    rw [hf.procfs]
    exact hentry entry hfile

/-- Removing files leaves nothing to disagree about. -/
theorem Knows.remove {h : Host} {s : Spawned} {since : Bool} (hk : Knows h s since)
    (f : StateFile) : Knows (h.remove f) s since := by
  cases f with
  | pidfile r =>
    refine ⟨hk.own, hk.same, hk.positive, hk.clock, fun hsince m port token hm hport htoken => ?_⟩
    obtain ⟨hp, ht, hentry⟩ := hk.agree hsince m port token hm hport htoken
    refine ⟨hp, ht, fun entry hfile => ?_⟩
    simp only [Host.remove, Host.record] at hfile
    split at hfile
    · cases hfile
    · exact hentry entry hfile
  | metaFile =>
    exact ⟨hk.own, hk.same, hk.positive, hk.clock, fun _ m _ _ hm => by cases hm⟩
  | socket => exact hk
  | sshSocket => exact hk
  | proxySocket => exact hk

/-- A new process that is no proxy, or has another pid. -/
theorem Knows.born {h : Host} {s : Spawned} {since : Bool} {pid : ℕ} {kind : Kind}
    (hk : Knows h s since) (hkind : kind.role ≠ some .proxy) :
    Knows (h.born pid kind) s since where
  own := by
    intro p hp hr
    unfold Host.born at hp
    dsimp only at hp
    split at hp
    · obtain rfl := Option.some.inj hp
      exact (hkind hr).elim
    · exact hk.own p hp hr
  same := by
    intro p hp hstart
    unfold Host.born at hp
    dsimp only at hp
    split at hp
    · obtain rfl := Option.some.inj hp
      have hle := hk.clock
      dsimp only at hstart
      omega
    · exact hk.same p hp hstart
  positive := hk.positive
  clock := Nat.le_succ_of_le hk.clock
  agree := hk.agree

/-- The operations that leave the last proxy and its files alone, or remove files. -/
def Op.Steady : Op → Prop
  | .spawnProxy _ => False
  | .writeRecord r _ _ => r = .keeper
  | .writeMeta _ => False
  | _ => True

theorem lastProxy_next {c : Config machine} {o : Op} (ho : o.Steady) (t : Moment) :
    lastProxy (c.next o t).trace = lastProxy c.trace := by
  cases o <;> first | rfl | exact ho.elim

/-- Such an operation keeps the invariant. -/
theorem Settled.next {c : Config machine} {o : Op} (hc : Settled c) (ho : o.Steady) (t : Moment) :
    Settled (c.next o t) := by
  intro s since hlast
  rw [lastProxy_next ho] at hlast
  have hbefore := (hc s since hlast).fades (fades_before c o t)
  show Knows ((c.step o t).before.act o t).2 s since
  generalize (c.step o t).before = h at hbefore
  have hacts := acts o t h
  generalize (h.act o t).2 = h' at hacts ⊢
  cases hacts with
  | stays => exact hbefore
  | ends pid signal => exact hbefore.fades (fades_died h pid)
  | removes f => exact hbefore.remove f
  | drops =>
    generalize t.drops = drops
    induction drops generalizing h with
    | nil => exact hbefore
    | cons f rest ih => exact ih _ (hbefore.remove f)
  | clears =>
    refine ⟨hbefore.own, hbefore.same, hbefore.positive, hbefore.clock, ?_⟩
    intro _ m _ _ hm
    cases hm
  | startsKeeper launch hfree => exact hbefore.born (by simp [Kind.role])
  | records r pid start entry =>
    obtain rfl : r = .keeper := ho
    exact ⟨hbefore.own, hbefore.same, hbefore.positive, hbefore.clock, hbefore.agree⟩
  | startsProxy allow hfree => exact ho.elim
  | writes m => exact ho.elim

/-- A program of such operations keeps the invariant. -/
theorem wp_settled {G : Guard machine} {α : Type} {p : Cmd α} (hp : Only Op.Steady p)
    {c : Config machine} (hc : Settled c) :
    wp G (fun _ => Settled) (fun _ => Settled) p c :=
  wp_of_only hp (fun _ _ t ho hc _ => hc.next ho t) hc

/-- The operations that an `up` uses beside the proxy: they signal nothing and leave the proxy's
pidfile and `meta.json` alone. -/
def Op.Gentle : Op → Prop
  | .enter place => place ≠ .command
  | .kill _ _ => False
  | .removeFile f => f = .socket ∨ f = .sshSocket
  | .removeRoot => False
  | .spawnProxy _ => False
  | .writeRecord r _ _ => r = .keeper
  | .writeMeta _ => False
  | _ => True

theorem Op.Gentle.steady {o : Op} (ho : o.Gentle) : o.Steady := by
  cases o <;> trivial

/-- A process that does not die is there after the events. -/
theorem procs_foldl_after {events : List Event} {h : Host} {pid : ℕ} {p : Proc}
    (hp : h.procs pid = some p) (hevents : .death pid ∉ events) :
    (events.foldl Host.after h).procs pid = some p := by
  induction events generalizing h with
  | nil => exact hp
  | cons e rest ih =>
    obtain ⟨hne, hrest⟩ := not_or.mp (mt List.mem_cons.mpr hevents)
    refine ih ?_ hrest
    cases e with
    | death q =>
      have hq : pid ≠ q := fun heq => hne (by rw [heq])
      exact (if_neg hq).trans hp
    | birth q =>
      simp only [Host.after]
      split
      · next hfree =>
        have hq : pid ≠ q := by
          rintro rfl
          rw [hp] at hfree
          cases hfree
        exact (if_neg hq).trans hp
      · exact hp

/-- A new process has a free pid. -/
theorem procs_born {h : Host} {pid q : ℕ} {p : Proc} (hp : h.procs pid = some p)
    (hfree : h.procs q = none) (kind : Kind) : (h.born q kind).procs pid = some p := by
  have hne : pid ≠ q := by
    rintro rfl
    rw [hp] at hfree
    cases hfree
  exact (if_neg hne).trans hp

/-- A process that no event and no signal ends stays alive. -/
theorem procs_next {c : Config machine} {o : Op} {pid : ℕ} {p : Proc} {t : Moment}
    (hp : c.state.procs pid = some p) (hkill : ∀ pid signal, o ≠ .kill pid signal)
    (hevents : .death pid ∉ t.events) : (c.next o t).state.procs pid = some p := by
  have hbefore : (c.step o t).before.procs pid = some p := procs_foldl_after hp hevents
  show ((c.step o t).before.act o t).2.procs pid = some p
  generalize (c.step o t).before = h at hbefore
  have hacts := acts o t h
  generalize (h.act o t).2 = h' at hacts ⊢
  cases hacts with
  | stays => exact hbefore
  | ends pid signal => exact (hkill pid signal rfl).elim
  | removes f =>
    rw [procs_remove]
    exact hbefore
  | drops =>
    rw [procs_foldl_remove]
    exact hbefore
  | clears => exact hbefore
  | startsProxy allow hfree => exact procs_born hbefore hfree _
  | startsKeeper launch hfree => exact procs_born hbefore hfree _
  | records r pid start entry => exact hbefore
  | writes m => exact hbefore

theorem Op.Gentle.keepsMeta {o : Op} (ho : o.Gentle) : o.KeepsMeta := by
  cases o with
  | removeFile f => exact Op.Plain.quiet (o := .removeFile f) ho
  | _ => trivial

theorem Op.Gentle.not_kill {o : Op} (ho : o.Gentle) : ∀ pid signal, o ≠ .kill pid signal := by
  rintro pid signal rfl
  exact ho

/-- What a gentle operation leaves as it is. -/
structure Kept (c c' : Config machine) : Prop where
  pidfile : c'.state.pidfile .proxy = c.state.pidfile .proxy
  metaFile : c'.state.metaFile = c.state.metaFile
  procfs : c'.state.procfs = c.state.procfs
  lastProxy : lastProxy c'.trace = lastProxy c.trace
  sinceEnsure : sinceEnsure c.trace = true → sinceEnsure c'.trace = true

/-- What such an operation does is nothing to the pidfile of the proxy and to `/proc`. -/
theorem act_gentle {o : Op} (ho : o.Gentle) (hquiet : ¬o.Quiet) (h : Host) (t : Moment) :
    (h.act o t).2.pidfile .proxy = h.pidfile .proxy ∧ (h.act o t).2.procfs = h.procfs := by
  have hacts := acts o t h
  generalize (h.act o t).2 = h' at hacts ⊢
  cases hacts with
  | stays => exact ⟨rfl, rfl⟩
  | ends pid signal => exact ⟨rfl, rfl⟩
  | startsKeeper launch hfree => exact ⟨rfl, rfl⟩
  | records r pid start entry =>
    obtain rfl : r = .keeper := ho
    exact ⟨rfl, rfl⟩
  | removes f => exact (hquiet (Op.Plain.quiet (o := .removeFile f) ho)).elim
  | drops => exact ho.elim
  | clears => exact ho.elim
  | startsProxy allow hfree => exact ho.elim
  | writes m => exact ho.elim

theorem kept_next {c : Config machine} {o : Op} (ho : o.Gentle) (t : Moment) :
    Kept c (c.next o t) where
  metaFile := metaFile_next ho.keepsMeta t
  lastProxy := lastProxy_next ho.steady t
  sinceEnsure := by
    intro hsince
    cases o with
    | enter place =>
      cases place with
      | command => exact (ho rfl).elim
      | ensureEgressProxy => rfl
      | _ => exact hsince
    | _ => exact hsince
  pidfile := by
    have hbefore := (fades_before c o t).pidfile
    by_cases hquiet : o.Quiet
    · rw [(fades_next hquiet c t).pidfile]
    · exact (act_gentle ho hquiet _ t).1.trans (congrFun hbefore .proxy)
  procfs := by
    have hbefore := (fades_before c o t).procfs
    by_cases hquiet : o.Quiet
    · rw [(fades_next hquiet c t).procfs]
    · exact (act_gentle ho hquiet _ t).2.trans hbefore

/-- While an `up` works with it, the last proxy stays alive. -/
theorem procs_next_of_agreeing {c : Config machine} {o : Op} {t : Moment} {s : Spawned}
    {since : Bool} {p : Proc} (hguard : Agreeing (c.step o t) c.trace)
    (hensure : sinceEnsure c.trace = true) (hlast : lastProxy c.trace = some (s, since))
    (hcommand : o ≠ .enter .command) (hkill : ∀ pid signal, o ≠ .kill pid signal)
    (hp : c.state.procs s.pid = some p) : (c.next o t).state.procs s.pid = some p := by
  have hevents := hguard.2 hensure hcommand
  rw [hlast] at hevents
  exact procs_next hp hkill hevents

/-- The proxy that was started last is alive, has this port, token and allowlist, and is the one in
the pidfile; the `up` is working with it. -/
structure Serving (port : UInt16) (token : String) (allow : List String) (c : Config machine) :
    Prop where
  working : sinceEnsure c.trace = true
  running : ∃ s since p, lastProxy c.trace = some (s, since) ∧ s.port = port ∧ s.token = token ∧
    c.state.pidfile .proxy = some (s.pid, c.state.recordOf s) ∧ c.state.procs s.pid = some p ∧
    p.kind = .proxy port token allow ∧ c.state.startOf p = c.state.recordOf s

/-- It goes on serving while it is the last one, alive and the one in the pidfile. -/
theorem Serving.transfer {port : UInt16} {token : String} {allow : List String}
    {c c' : Config machine} (hs : Serving port token allow c)
    (hworking : sinceEnsure c'.trace = true)
    (hlast : ∀ s since, lastProxy c.trace = some (s, since) →
      ∃ since', lastProxy c'.trace = some (s, since'))
    (hfile : c'.state.pidfile .proxy = c.state.pidfile .proxy)
    (hprocfs : c'.state.procfs = c.state.procfs)
    (hprocs : ∀ s since p, lastProxy c.trace = some (s, since) → c.state.procs s.pid = some p →
      c'.state.procs s.pid = some p) : Serving port token allow c' := by
  obtain ⟨s, since, p, hl, hport, htoken, hentry, hp, hkind, hstart⟩ := hs.running
  obtain ⟨since', hl'⟩ := hlast s since hl
  have hrecord : c'.state.recordOf s = c.state.recordOf s := by
    unfold Host.recordOf
    rw [hprocfs]
  have hstart' : c'.state.startOf p = c.state.startOf p := by
    unfold Host.startOf
    rw [hprocfs]
  refine ⟨hworking, s, since', p, hl', hport, htoken, ?_, hprocs s since p hl hp, hkind, ?_⟩
  · rw [hfile, hentry, hrecord]
  · rw [hstart', hstart, hrecord]

theorem Serving.next {port : UInt16} {token : String} {allow : List String} {c : Config machine}
    {o : Op} {t : Moment} (hs : Serving port token allow c) (ho : o.Gentle)
    (hguard : Agreeing (c.step o t) c.trace) : Serving port token allow (c.next o t) := by
  have hkept := kept_next (c := c) ho t
  have hcommand : o ≠ .enter .command := by
    rintro rfl
    exact ho rfl
  exact hs.transfer (hkept.sinceEnsure hs.working)
    (fun s since hl => ⟨since, hkept.lastProxy.trans hl⟩) hkept.pidfile hkept.procfs
    fun s since p hl hp =>
      procs_next_of_agreeing hguard hs.working hl hcommand ho.not_kill hp

/-- Before `meta.json` is written, the record of the last proxy is free to change. -/
theorem Knows.record {h : Host} {s : Spawned} {since : Bool} (hk : Knows h s since)
    (r : Role) (entry : Option (ℕ × ℕ)) : Knows (h.record r entry) s false :=
  ⟨hk.own, hk.same, hk.positive, hk.clock, fun hsince => by cases hsince⟩

/-- What starting a proxy comes to in the invariant. -/
theorem spawnProxy_cases {c : Config machine} (allow : List String) (t : Moment)
    (hc : Settled c) :
    (∃ e, c.answer (.spawnProxy allow) t = .error e ∧ Settled (c.next (.spawnProxy allow) t)) ∨
    (∃ s, c.answer (.spawnProxy allow) t = .ok (s.pid, s.port, s.token) ∧ s.allow = allow ∧
      lastProxy (c.next (.spawnProxy allow) t).trace = some (s, false) ∧
      (c.next (.spawnProxy allow) t).state.procs s.pid =
        some ⟨s.start, .proxy s.port s.token s.allow⟩ ∧
      Settled (c.next (.spawnProxy allow) t)) := by
  have hact : (c.answer (.spawnProxy allow) t, (c.next (.spawnProxy allow) t).state) =
      (c.step (.spawnProxy allow) t).before.spawn t (.proxy t.port t.token allow)
        (t.pid, t.port, t.token) := rfl
  have hfades := fades_before c (.spawnProxy allow) t
  have hlast : lastProxy (c.next (.spawnProxy allow) t).trace =
      match spawnedBy (c.step (.spawnProxy allow) t) allow with
      | some s => some (s, false)
      | none => lastProxy c.trace := rfl
  have hby : spawnedBy (c.step (.spawnProxy allow) t) allow =
      match (c.step (.spawnProxy allow) t).before.procs t.pid, t.fails with
      | none, none => some ⟨t.pid, (c.step (.spawnProxy allow) t).before.clock + 1, t.port, t.token,
          allow⟩
      | _, _ => none := rfl
  generalize (c.step (.spawnProxy allow) t).before = h at hact hfades hby
  rcases spawn_cases h t (.proxy t.port t.token allow) (t.pid, t.port, t.token) with
    ⟨e, he, hfailed⟩ | ⟨he, hfree, hfails⟩
  · rw [he] at hact
    obtain ⟨hanswer, hstate⟩ := Prod.mk.inj hact
    refine Or.inl ⟨e, hanswer, fun s since hs => ?_⟩
    have hnone : spawnedBy (c.step (.spawnProxy allow) t) allow = none := by
      rw [hby]
      split
      · next hfree hfails => exact (hfailed ⟨hfree, hfails⟩).elim
      · rfl
    rw [hlast, hnone] at hs
    rw [hstate]
    exact (hc s since hs).fades hfades
  · rw [he] at hact
    obtain ⟨hanswer, hstate⟩ := Prod.mk.inj hact
    rw [hfree, hfails] at hby
    rw [hby] at hlast
    refine Or.inr ⟨_, hanswer, rfl, hlast, ?_, fun s since hs => ?_⟩
    · rw [hstate]
      exact if_pos rfl
    · rw [hlast] at hs
      obtain ⟨rfl, rfl⟩ := Prod.mk.inj (Option.some.inj hs)
      have hprocs : ∀ p, (h.born t.pid (.proxy t.port t.token allow)).procs t.pid = some p →
          p.kind = .proxy t.port t.token allow := by
        intro p hp
        obtain rfl := Option.some.inj ((if_pos rfl).symm.trans hp)
        rfl
      rw [hstate]
      exact ⟨fun p hp _ => hprocs p hp, fun p hp _ => hprocs p hp, Nat.succ_pos _, le_refl _,
        fun hsince => by cases hsince⟩

/-- The `up` is working with this proxy, which was just started. -/
structure Fresh (s : Spawned) (c : Config machine) : Prop where
  settled : Settled c
  working : sinceEnsure c.trace = true
  last : lastProxy c.trace = some (s, false)
  running : c.state.procs s.pid = some ⟨s.start, .proxy s.port s.token s.allow⟩

theorem Fresh.next {s : Spawned} {c : Config machine} {o : Op} {t : Moment} (hf : Fresh s c)
    (ho : o.Gentle) (hcommand : o ≠ .enter .command) (hguard : Agreeing (c.step o t) c.trace) :
    Fresh s (c.next o t) where
  settled := hf.settled.next ho.steady t
  working := (kept_next ho t).sinceEnsure hf.working
  last := (kept_next ho t).lastProxy.trans hf.last
  running := procs_next_of_agreeing hguard hf.working hf.last hcommand ho.not_kill hf.running

/-- Its pidfile is written, or is not. -/
theorem Fresh.writeRecord {s : Spawned} {c : Config machine} {start : ℕ} {t : Moment}
    (hf : Fresh s c) (hstart : start = c.state.recordOf s)
    (hguard : Agreeing (c.step (.writeRecord .proxy s.pid start) t) c.trace) :
    Settled (c.next (.writeRecord .proxy s.pid start) t) ∧
      (c.answer (.writeRecord .proxy s.pid start) t = .ok () →
        Serving s.port s.token s.allow (c.next (.writeRecord .proxy s.pid start) t)) := by
  have hfades := fades_before c (.writeRecord .proxy s.pid start) t
  have hknows := (hf.settled s false hf.last).fades hfades
  have hp := procs_next_of_agreeing hguard hf.working hf.last (by simp) (by simp) hf.running
  have hlast : lastProxy (c.next (.writeRecord .proxy s.pid start) t).trace = some (s, false) :=
    hf.last
  have hworking : sinceEnsure (c.next (.writeRecord .proxy s.pid start) t).trace = true :=
    hf.working
  have hact : (c.answer (.writeRecord .proxy s.pid start) t,
      (c.next (.writeRecord .proxy s.pid start) t).state) =
      (c.step (.writeRecord .proxy s.pid start) t).before.act (.writeRecord .proxy s.pid start) t :=
    rfl
  generalize c.next (.writeRecord .proxy s.pid start) t = c' at hp hlast hworking hact ⊢
  generalize (c.step (.writeRecord .proxy s.pid start) t).before = h at hfades hact hknows
  have hsettled : Knows c'.state s false → Settled c' := by
    intro hk s' since' hs'
    rw [hlast] at hs'
    obtain ⟨rfl, rfl⟩ := Prod.mk.inj (Option.some.inj hs')
    exact hk
  simp only [Host.act] at hact
  cases hfails : t.fails with
  | some e =>
    rw [hfails] at hact
    obtain ⟨hanswer, hstate⟩ := Prod.mk.inj hact
    rw [hanswer]
    refine ⟨hsettled ?_, fun hok => by cases hok⟩
    rw [hstate]
    split
    · exact hknows.record .proxy none
    · exact hknows
  | none =>
    rw [hfails] at hact
    obtain ⟨-, hstate⟩ := Prod.mk.inj hact
    have hprocfs : c'.state.procfs = c.state.procfs := by
      rw [hstate]
      exact hfades.procfs
    constructor
    · apply hsettled
      rw [hstate]
      exact hknows.record .proxy _
    · intro _
      refine ⟨hworking, s, false, _, hlast, rfl, rfl, ?_, hp, rfl, rfl⟩
      rw [hstart] at hstate
      unfold Host.recordOf at hstate ⊢
      rw [hprocfs, hstate]
      rfl

/-- Recording a proxy that was just started makes it serve. -/
theorem writePidfile_serving {c : Config machine} {s : Spawned} (hf : Fresh s c) :
    wp Agreeing (fun _ c' => Settled c' ∧ Serving s.port s.token s.allow c')
      (fun _ => Settled) (writePidfile .proxy s.pid) c := by
  refine (wp_perform_bind _ _ _ _ _).mpr fun t hguard => ?_
  have hf₁ := hf.next (o := .enter (.writePidfile .proxy)) (by simp [Op.Gentle]) (by simp) hguard
  generalize c.next (.enter (.writePidfile .proxy)) t = c₁ at hf₁
  refine (wp_perform_bind _ _ _ _ _).mpr fun t hguard => ?_
  have hf₂ := hf₁.next (o := .processStartTime s.pid) trivial (by simp) hguard
  have hanswer : c₁.answer (.processStartTime s.pid) t =
      (c₁.next (.processStartTime s.pid) t).state.processStartTime s.pid t := rfl
  rw [hanswer]
  generalize c₁.next (.processStartTime s.pid) t = c₂ at hf₂
  refine wp_orFail_bind (fun start hstart => ?_) fun _ _ => hf₂.settled
  have hrecord : start = c₂.state.recordOf s :=
    (Host.startOf_of_processStartTime hf₂.running hstart).symm
  refine (wp_perform_bind _ _ _ _ _).mpr fun t hguard => ?_
  obtain ⟨hsettled, hserving⟩ := hf₂.writeRecord hrecord hguard
  cases hanswer : c₂.answer (.writeRecord .proxy s.pid start) t with
  | error e => exact hsettled
  | ok a => exact ⟨hsettled, hserving hanswer⟩

/-- A proxy that is started and recorded serves. -/
theorem startEgressProxy_serving (input : UpInput) {c : Config machine} (hc : Settled c)
    (hensure : sinceEnsure c.trace = true) :
    wp Agreeing (fun proxy c' => Settled c' ∧
        Serving proxy.1 proxy.2 input.manifest.network.allow c')
      (fun _ => Settled) (startEgressProxy input) c := by
  refine wp_orFail_bind (fun _ _ => ?_) fun _ _ => hc
  generalize input.manifest.network.allow = allow
  refine (wp_perform_bind _ _ _ _ _).mpr fun t _ => ?_
  rcases spawnProxy_cases allow t hc with
    ⟨e, hanswer, hsettled⟩ | ⟨s, hanswer, rfl, hlast, hp, hsettled⟩
  · rw [hanswer]
    exact hsettled
  · rw [hanswer]
    exact wp_seq (writePidfile_serving ⟨hsettled, hensure, hlast, hp⟩) fun _ _ h => h

/-- The pidfile of the proxy names a live process, if that of the last proxy. -/
structure Found (pid start : ℕ) (c : Config machine) : Prop where
  working : sinceEnsure c.trace = true
  pidfile : c.state.pidfile .proxy = some (pid, start)
  alive : ∀ s since, lastProxy c.trace = some (s, since) → s.pid = pid →
    ∃ p, c.state.procs pid = some p ∧ (start ≠ 0 → c.state.startOf p = start)

theorem Found.next {pid start : ℕ} {c : Config machine} {o : Op} {t : Moment}
    (hf : Found pid start c) (ho : o.Gentle) (hguard : Agreeing (c.step o t) c.trace) :
    Found pid start (c.next o t) := by
  have hkept := kept_next (c := c) ho t
  have hcommand : o ≠ .enter .command := by
    rintro rfl
    exact ho rfl
  refine ⟨hkept.sinceEnsure hf.working, hkept.pidfile.trans hf.pidfile, ?_⟩
  rintro s since hlast rfl
  rw [hkept.lastProxy] at hlast
  obtain ⟨p, hp, hstart⟩ := hf.alive s since hlast rfl
  refine ⟨p, procs_next_of_agreeing hguard hf.working hlast hcommand ho.not_kill hp, fun hne => ?_⟩
  unfold Host.startOf at hstart ⊢
  rw [hkept.procfs]
  exact hstart hne

/-- A process that `is_same_process` confirms is alive, with the recorded start time. -/
theorem isSameProcess_found {pid start : ℕ} {c : Config machine} (hc : Settled c)
    (hensure : sinceEnsure c.trace = true) (hfile : c.state.pidfile .proxy = some (pid, start)) :
    wp Agreeing (fun same c' => Settled c' ∧ sinceEnsure c'.trace = true ∧
        (same = true → Found pid start c')) (fun _ => Settled) (isSameProcess pid start) c := by
  unfold isSameProcess
  split
  · next hstart =>
    refine (wp_perform _ _ _ _).mpr fun t _ => ?_
    have hkept := kept_next (c := c) (o := .isProcessAlive pid) trivial t
    have hsettled := hc.next (o := .isProcessAlive pid) trivial t
    refine ⟨hsettled, hkept.sinceEnsure hensure, fun halive => ?_⟩
    refine ⟨hkept.sinceEnsure hensure, hkept.pidfile.trans hfile, fun s since _ _ => ?_⟩
    have hsome : ((c.next (.isProcessAlive pid) t).state.procs pid).isSome = true := halive
    obtain ⟨p, hp⟩ := Option.isSome_iff_exists.mp hsome
    exact ⟨p, hp, fun hne => (hne hstart).elim⟩
  · next hstart =>
    refine (wp_perform_bind _ _ _ _ _).mpr fun t _ => ?_
    have hkept := kept_next (c := c) (o := .processStartTime pid) trivial t
    have hsettled := hc.next (o := .processStartTime pid) trivial t
    have hanswer : c.answer (.processStartTime pid) t =
        (c.next (.processStartTime pid) t).state.processStartTime pid t := rfl
    rw [hanswer]
    cases hfound : (c.next (.processStartTime pid) t).state.processStartTime pid t with
    | error e => exact ⟨hsettled, hkept.sinceEnsure hensure, fun h => by cases h⟩
    | ok current =>
      refine ⟨hsettled, hkept.sinceEnsure hensure, fun hsame => ?_⟩
      obtain rfl : current = start := by simpa using hsame
      refine ⟨hkept.sinceEnsure hensure, hkept.pidfile.trans hfile, fun s since _ _ => ?_⟩
      cases hp : (c.next (.processStartTime pid) t).state.procs pid with
      | some p => exact ⟨p, rfl, fun _ => Host.startOf_of_processStartTime hp hfound⟩
      | none =>
        unfold Host.processStartTime at hfound
        rw [hp] at hfound
        split at hfound
        · cases hfound
        · exact (hstart (Except.ok.inj hfound).symm).elim

/-- A proxy that is reused under the condition serves. -/
theorem reuse_serving {pid start : ℕ} {m : Meta} {port : UInt16} {token : String}
    {allow : List String} {c : Config machine} {t : Moment} (hc : Settled c)
    (hf : Found pid start c) (hmeta : c.state.metaFile = some m) (hport : m.proxyPort = some port)
    (htoken : m.proxyToken = some token)
    (hguard : Agreeing (c.step (.enter (.reuseEgressProxy allow)) t) c.trace) :
    Serving port token allow (c.next (.enter (.reuseEgressProxy allow)) t) := by
  have hkept := kept_next (c := c) (o := .enter (.reuseEgressProxy allow)) (by simp [Op.Gentle]) t
  have hf' := hf.next (o := .enter (.reuseEgressProxy allow)) (by simp [Op.Gentle]) hguard
  have hc' := hc.next (o := .enter (.reuseEgressProxy allow)) trivial t
  have hlast : ∃ s, lastProxy c.trace = some (s, true) ∧ s.allow = allow ∧
      ((c.next (.enter (.reuseEgressProxy allow)) t).state.procfs = true ∨
        (((c.next (.enter (.reuseEgressProxy allow)) t).state.procs s.pid).bind fun p =>
          p.kind.role) = some .proxy) := by
    have h := hguard.1
    cases hl : lastProxy c.trace with
    | none => simp only [Config.step, hl] at h
    | some entry =>
      obtain ⟨s, since⟩ := entry
      cases since with
      | false => simp only [Config.step, hl] at h
      | true =>
        simp only [hl] at h
        exact ⟨s, rfl, h⟩
  obtain ⟨s, hlast, hallow, hown⟩ := hlast
  obtain ⟨rfl, rfl, hentry⟩ := (hc s true hlast).agree rfl m port token hmeta hport htoken
  obtain ⟨rfl, hrecord⟩ := Prod.mk.inj (hentry _ hf.pidfile)
  generalize c.next (.enter (.reuseEgressProxy allow)) t = c' at hkept hf' hc' hown
  have hlast' := hkept.lastProxy.trans hlast
  have hrecord' : start = c'.state.recordOf s := by
    rw [hrecord]
    unfold Host.recordOf
    rw [hkept.procfs]
  have hknows := hc' s true hlast'
  obtain ⟨p, hp, hstart⟩ := hf'.alive s true hlast' rfl
  have hresult :
      p.kind = .proxy s.port s.token s.allow ∧ c'.state.startOf p = c'.state.recordOf s := by
    unfold Host.recordOf at hrecord'
    by_cases hprocfs : c'.state.procfs = true
    · rw [if_pos hprocfs] at hrecord'
      have hpositive := hknows.positive
      have hstart := hstart (by omega)
      unfold Host.startOf Host.recordOf at *
      rw [if_pos hprocfs] at hstart
      rw [if_pos hprocfs, if_pos hprocfs]
      exact ⟨hknows.same p hp (hstart.trans hrecord'), hstart.trans hrecord'⟩
    · have hrole := hown.resolve_left hprocfs
      rw [hp] at hrole
      refine ⟨hknows.own p hp hrole, ?_⟩
      unfold Host.startOf Host.recordOf
      rw [if_neg hprocfs, if_neg hprocfs]
  refine ⟨hf'.working, s, true, p, hlast', rfl, rfl, ?_, hp, hallow ▸ hresult.1, hresult.2⟩
  rw [hf'.pidfile, hrecord']

/-- `ensure_egress_proxy` under the condition. -/
theorem ensureEgressProxy_serving (input : UpInput) {c : Config machine} (hc : Settled c) :
    wp Agreeing (fun proxy c' => Settled c' ∧
        Serving proxy.1 proxy.2 input.manifest.network.allow c')
      (fun _ => Settled) (ensureEgressProxy input) c := by
  refine (wp_perform_bind _ _ _ _ _).mpr fun t _ => ?_
  have hc := hc.next (o := .enter .ensureEgressProxy) trivial t
  have hensure : sinceEnsure (c.next (.enter .ensureEgressProxy) t).trace = true := rfl
  generalize c.next (.enter .ensureEgressProxy) t = c₁ at hc hensure
  have hread : wp Agreeing (fun found c' => Settled c' ∧ sinceEnsure c'.trace = true ∧
      c'.state.pidfile .proxy = found) (fun _ => Settled) (readPidfile .proxy) c₁ := by
    refine (wp_perform_bind _ _ _ _ _).mpr fun t _ => ?_
    have hsettled := hc.next (o := .readPidfile .proxy) trivial t
    refine wp_orFail (fun found hfound => ⟨hsettled, hensure, ?_⟩) fun _ _ => hsettled
    have hanswer :
        t.fallible ((c₁.next (.readPidfile .proxy) t).state.pidfile .proxy) = .ok found :=
      hfound
    exact Moment.eq_of_fallible hanswer
  refine wp_seq hread fun found c₂ ⟨hc, hensure, hfile⟩ => ?_
  cases found with
  | none => exact startEgressProxy_serving input hc hensure
  | some entry =>
    obtain ⟨pid, start⟩ := entry
    refine wp_seq (isSameProcess_found hc hensure hfile) fun same c₃ ⟨hc, hensure, hfound⟩ => ?_
    cases same with
    | false => exact startEgressProxy_serving input hc hensure
    | true =>
      have hmeta : wp Agreeing (fun found c' => Settled c' ∧ Found pid start c' ∧
          c'.state.metaFile = found) (fun _ => Settled) readMeta c₃ := by
        refine (wp_perform_bind _ _ _ _ _).mpr fun t hguard => ?_
        have hsettled := hc.next (o := .readMeta) trivial t
        have hfound := (hfound rfl).next (o := .readMeta) trivial hguard
        refine wp_orFail (fun found hread => ⟨hsettled, hfound, ?_⟩) fun _ _ => hsettled
        have hanswer : t.fallible (c₃.next .readMeta t).state.metaFile = .ok found := hread
        exact Moment.eq_of_fallible hanswer
      refine wp_seq hmeta fun found c₄ ⟨hc, hfound, hmeta⟩ => ?_
      cases found with
      | none => exact startEgressProxy_serving input hc hfound.working
      | some m =>
        cases hport : m.proxyPort with
        | none =>
          simp only [hport]
          exact startEgressProxy_serving input hc hfound.working
        | some port =>
          cases htoken : m.proxyToken with
          | none =>
            simp only [hport, htoken]
            exact startEgressProxy_serving input hc hfound.working
          | some token =>
            simp only [hport, htoken]
            refine (wp_perform_bind _ _ _ _ _).mpr fun t hguard => ?_
            have hsettled := hc.next (o := .enter (.reuseEgressProxy input.manifest.network.allow))
              trivial t
            exact ⟨hsettled, reuse_serving hc hfound hmeta hport htoken hguard⟩

/-- The proxy that an `up` works with, if it has one, serves its allowlist. -/
def ServingProxy (input : UpInput) (proxy : Option (UInt16 × String)) (c : Config machine) : Prop :=
  ∀ port token, proxy = some (port, token) → Serving port token input.manifest.network.allow c

theorem Op.Quiet.steady {o : Op} (ho : o.Quiet) : o.Steady := by
  cases o with
  | writeRecord r pid start => exact ho.elim
  | spawnProxy allow => exact ho.elim
  | writeMeta m => exact ho.elim
  | _ => trivial

/-- The proxy's part of `up` under the condition. -/
theorem egressProxy_serving (input : UpInput) {c : Config machine} (hc : Settled c) :
    wp Agreeing (fun proxy c' => Settled c' ∧ ServingProxy input proxy c')
      (fun _ => Settled) (egressProxy input) c := by
  unfold egressProxy
  split
  · refine wp_seq (ensureEgressProxy_serving input hc) fun proxy c₁ ⟨hc, hs⟩ => ⟨hc, ?_⟩
    rintro port token heq
    obtain rfl := Option.some.inj heq
    exact hs
  · have hstop : Only Op.Steady stopOrphanedEgressProxy :=
      only_bind ((quiet_terminateAndWait .proxy).mono fun _ => Op.Quiet.steady)
        fun _ => only_perform trivial
    exact wp_seq (wp_settled hstop hc) fun _ _ hc => ⟨hc, fun _ _ h => by cases h⟩

/-- What a `meta.json` says of the proxy that serves agrees with the one that was started last. -/
theorem ServingProxy.agrees {input : UpInput} {proxy : Option (UInt16 × String)} {m : Meta}
    {c : Config machine} {s : Spawned} {since : Bool} (hs : ServingProxy input proxy c)
    (hm : m.proxyPort = proxy.map Prod.fst ∧ m.proxyToken = proxy.map Prod.snd)
    (hl : lastProxy c.trace = some (s, since)) {port : UInt16} {token : String}
    (hport : m.proxyPort = some port) (htoken : m.proxyToken = some token) :
    port = s.port ∧ token = s.token ∧
      ∀ entry, c.state.pidfile .proxy = some entry → entry = (s.pid, c.state.recordOf s) := by
  rw [hm.1] at hport
  obtain ⟨⟨port', token'⟩, hproxy, rfl⟩ := Option.map_eq_some_iff.mp hport
  rw [hm.2, hproxy] at htoken
  obtain rfl := Option.some.inj htoken
  obtain ⟨-, s', since', p, hl', rfl, rfl, hfile, -, -, -⟩ := hs port' token' hproxy
  rw [hl] at hl'
  obtain ⟨rfl, -⟩ := Prod.mk.inj (Option.some.inj hl')
  refine ⟨rfl, rfl, fun entry hentry => ?_⟩
  rw [hfile] at hentry
  exact (Option.some.inj hentry).symm

/-- A `meta.json` that agrees with the last proxy is written. -/
theorem Knows.writeMeta {h : Host} {s : Spawned} {since : Bool} {m : Meta} (hk : Knows h s since)
    (hagree : ∀ port token, m.proxyPort = some port → m.proxyToken = some token →
      port = s.port ∧ token = s.token ∧
        ∀ entry, h.pidfile .proxy = some entry → entry = (s.pid, h.recordOf s)) :
    Knows { h with metaFile := some m } s true where
  own := hk.own
  same := hk.same
  positive := hk.positive
  clock := hk.clock
  agree := by
    intro _ m' port token hm' hport htoken
    obtain rfl := Option.some.inj hm'
    exact hagree port token hport htoken

/-- Writing `meta.json` with the port and token of the proxy that serves, or without any, settles
what it says. -/
theorem writeMeta_serving (input : UpInput) {proxy : Option (UInt16 × String)} {m : Meta}
    {c : Config machine} (hm : m.proxyPort = proxy.map Prod.fst ∧ m.proxyToken = proxy.map Prod.snd)
    (hc : Settled c) (hs : ServingProxy input proxy c) :
    wp Agreeing (fun _ c' => Settled c' ∧ ServingProxy input proxy c')
      (fun _ => Settled) (writeMeta m) c := by
  refine (wp_perform_bind _ _ _ _ _).mpr fun t hguard => ?_
  have hfades := fades_before c (.writeMeta m) t
  have hlast : lastProxy (c.next (.writeMeta m) t).trace =
      if t.fails.isSome then lastProxy c.trace
      else (lastProxy c.trace).map fun entry => (entry.1, true) := rfl
  have hprocs : ∀ s since p, sinceEnsure c.trace = true → lastProxy c.trace = some (s, since) →
      c.state.procs s.pid = some p → (c.next (.writeMeta m) t).state.procs s.pid = some p :=
    fun s since p hensure hl hp =>
      procs_next_of_agreeing hguard hensure hl (by simp) (by simp) hp
  have hact : (c.answer (.writeMeta m) t, (c.next (.writeMeta m) t).state) =
      (c.step (.writeMeta m) t).before.act (.writeMeta m) t := rfl
  have hensure : sinceEnsure (c.next (.writeMeta m) t).trace = sinceEnsure c.trace := rfl
  generalize c.next (.writeMeta m) t = c' at hlast hprocs hact hensure
  generalize (c.step (.writeMeta m) t).before = h at hfades hact
  simp only [Host.act] at hact
  cases hfails : t.fails with
  | some e =>
    rw [hfails] at hact hlast
    obtain ⟨hanswer, hstate⟩ := Prod.mk.inj hact
    rw [hanswer]
    intro s since hl
    rw [hlast] at hl
    rw [hstate]
    exact (hc s since hl).fades hfades
  | none =>
    rw [hfails] at hact hlast
    obtain ⟨hanswer, hstate⟩ := Prod.mk.inj hact
    rw [hanswer]
    have hserving : ServingProxy input proxy c' := by
      intro port token hproxy
      have hworking := (hs port token hproxy).working
      apply (hs port token hproxy).transfer (hensure.trans hworking)
      · intro s since hl
        rw [hlast, hl]
        exact ⟨true, rfl⟩
      · rw [hstate]
        exact congrFun hfades.pidfile .proxy
      · rw [hstate]
        exact hfades.procfs
      · exact fun s since p hl hp => hprocs s since p hworking hl hp
    refine ⟨?_, hserving⟩
    intro s since hl
    obtain ⟨⟨s', since'⟩, hl', heq⟩ := Option.map_eq_some_iff.mp (hlast.symm.trans hl)
    obtain ⟨rfl, rfl⟩ := Prod.mk.inj heq
    rw [hstate]
    apply ((hc s' since' hl').fades hfades).writeMeta
    intro port token hport htoken
    have hagrees := hserving.agrees hm hl hport htoken
    rw [hstate] at hagrees
    exact hagrees

/-- The start of the keeper goes on beside the proxy. -/
theorem gentle_upProcess (input : UpInput) (root : String) (outcome : UpOutcome)
    (resolution : Resolution) (shell : ResolvedShell) (proxy : Option (UInt16 × String)) :
    Only Op.Gentle (upProcess input root outcome resolution shell proxy) := by
  have hplain : ∀ o : Op, o.Plain → o.Gentle := by
    intro o ho
    cases o with
    | removeFile f => exact ho
    | attempt a => trivial
    | probeNetns => trivial
    | _ => exact ho.elim
  refine only_bind (only_orFail _ _) fun exe => ?_
  split
  · exact only_raise _
  · refine only_bind (only_orFail _ _) fun kind => ?_
    refine only_bind ((plain_prepareKeeper input resolution _).mono hplain) fun services => ?_
    refine only_bind ((plain_isolateNetwork _ services proxy).mono hplain) fun isolated => ?_
    refine only_bind (only_perform trivial) fun spawned => ?_
    split
    · exact only_raise _
    · refine only_bind ?_ fun _ => only_bind ((plain_runHooks _ _ _).mono hplain)
        fun _ => only_pure _
      refine only_bind (only_perform (by simp [Op.Gentle])) fun _ => ?_
      refine only_bind (only_perform trivial) fun _ => only_bind (only_orFail _ _) fun _ => ?_
      exact only_bind (only_perform (by simp [Op.Gentle])) fun _ => only_orFail _ _

/-- `up` after it has settled on an outcome, under the condition: the proxy whose port and token are
in `meta.json` serves. -/
theorem bringUp_serving (input : UpInput) (root : String) (outcome : UpOutcome) {c : Config machine}
    (hc : Settled c) :
    wp Agreeing (fun _ c' => Settled c' ∧ ∀ m port token, c'.state.metaFile = some m →
        m.proxyPort = some port → m.proxyToken = some token →
        Serving port token input.manifest.network.allow c')
      (fun _ => Settled) (bringUp input root outcome) c := by
  refine wp_orFail_bind (fun _ _ => ?_) fun _ _ => hc
  refine wp_orFail_bind (fun resolution _ => ?_) fun _ _ => hc
  refine wp_orFail_bind (fun fingerprint _ => ?_) fun _ _ => hc
  have hroot : Only Op.Steady (attempt .createRoot .state) := only_attempt _ trivial
  refine wp_seq (wp_settled hroot hc) fun _ c₁ hc => ?_
  refine wp_seq (egressProxy_serving input hc) fun proxy c₂ ⟨hc, hs⟩ => ?_
  split
  · exact hc
  · next shell _ =>
    have hwrite := wp_and (writeMeta_serving input
      (m := upMeta input resolution fingerprint shell proxy) ⟨rfl, rfl⟩ hc hs)
      (writeMeta_written (G := Agreeing) (upMeta input resolution fingerprint shell proxy) c₂)
    refine wp_seq (wp_mono hwrite (fun _ _ h => h) fun _ _ h => h.1)
      fun _ c₃ ⟨⟨hc, hs⟩, hmeta⟩ => ?_
    -- The rest leaves `meta.json` and the proxy as they are.
    have hrest : wp Agreeing (fun _ c' => (Settled c' ∧ ServingProxy input proxy c') ∧
        c'.state.metaFile = some (upMeta input resolution fingerprint shell proxy))
        (fun _ c' => (Settled c' ∧ ServingProxy input proxy c') ∧
          c'.state.metaFile = some (upMeta input resolution fingerprint shell proxy))
        (upProcess input root outcome resolution shell proxy) c₃ := by
      refine wp_of_only (gentle_upProcess input root outcome resolution shell proxy)
        (fun o c t ho h hguard => ⟨⟨h.1.1.next ho.steady t, ?_⟩, ?_⟩) ⟨⟨hc, hs⟩, hmeta⟩
      · exact fun port token hproxy => (h.1.2 port token hproxy).next ho hguard
      · exact (metaFile_next ho.keepsMeta t).trans h.2
    refine wp_mono hrest (fun _ c₄ ⟨⟨hc, hs⟩, hmeta⟩ => ⟨hc, ?_⟩) fun _ _ h => h.1.1
    intro m port token hm hport htoken
    obtain rfl := Option.some.inj (hm.symm.trans hmeta)
    obtain ⟨⟨port', token'⟩, hproxy, rfl⟩ := Option.map_eq_some_iff.mp hport
    have htoken' : proxy.map Prod.snd = some token := htoken
    rw [hproxy] at htoken'
    obtain rfl := Option.some.inj htoken'
    exact hs port' token' hproxy

theorem steady_acquireLifecycleLock : Only Op.Steady acquireLifecycleLock :=
  only_bind (only_perform trivial) fun _ => only_orFail _ _

theorem steady_clearRuntimeState : Only Op.Steady clearRuntimeState :=
  only_clearRuntimeState fun _ => trivial

theorem steady_stopIfRunning : Only Op.Steady stopIfRunning :=
  only_bind ((quiet_terminateAndWait .keeper).mono fun _ => Op.Quiet.steady) fun _ =>
    (quiet_terminateAndWait .proxy).mono fun _ => Op.Quiet.steady

theorem steady_down (homeVar : Option String) (sandboxName : String) :
    Only Op.Steady (down homeVar sandboxName) :=
  only_bind (only_perform trivial) fun _ => only_bind (only_orFail _ _) fun _ =>
    only_bind steady_acquireLifecycleLock fun _ => only_bind steady_stopIfRunning fun _ =>
      steady_clearRuntimeState

theorem steady_rm (homeVar : Option String) (sandboxName : String) :
    Only Op.Steady (rm homeVar sandboxName) := by
  refine only_bind (only_perform trivial) fun _ => only_bind (only_orFail _ _) fun _ => ?_
  refine only_bind (only_perform trivial) fun found => ?_
  refine only_bind steady_acquireLifecycleLock fun _ => only_bind steady_stopIfRunning fun _ => ?_
  refine only_bind (only_perform trivial) fun _ => only_bind (only_orFail _ _) fun _ => ?_
  split
  · exact only_attempt _ trivial
  · exact only_pure _

/-- `up` under the condition. -/
theorem up_serving (input : UpInput) {c : Config machine} (hc : Settled c) :
    wp Agreeing (fun outcome c' => Settled c' ∧ (outcome ≠ .alreadyUp → ∀ m port token,
        c'.state.metaFile = some m → m.proxyPort = some port → m.proxyToken = some token →
        Serving port token input.manifest.network.allow c'))
      (fun _ => Settled) (up input) c := by
  have hquiet : ∀ o : Op, o.Quiet → o.Steady := fun _ => Op.Quiet.steady
  have hbring : ∀ root outcome {c : Config machine}, Settled c →
      wp Agreeing (fun outcome c' => Settled c' ∧ (outcome ≠ .alreadyUp → ∀ m port token,
          c'.state.metaFile = some m → m.proxyPort = some port → m.proxyToken = some token →
          Serving port token input.manifest.network.allow c'))
        (fun _ => Settled) (bringUp input root outcome) c := fun root outcome c hc =>
    wp_mono (bringUp_serving input root outcome hc) (fun _ _ h => ⟨h.1, fun _ => h.2⟩)
      fun _ _ h => h
  refine (wp_perform_bind _ _ _ _ _).mpr fun t _ => ?_
  have hc := hc.next (o := .enter .command) trivial t
  refine wp_orFail_bind (fun root _ => ?_) fun _ _ => hc
  refine wp_seq (wp_settled steady_acquireLifecycleLock hc) fun _ c₁ hc => ?_
  split
  · refine wp_seq (wp_settled ((quiet_terminateAndWait .keeper).mono hquiet) hc) fun _ c₂ hc => ?_
    refine wp_seq (wp_settled ((quiet_terminateAndWait .proxy).mono hquiet) hc) fun _ c₃ hc => ?_
    exact wp_seq (wp_settled steady_clearRuntimeState hc) fun _ c₄ hc => hbring root _ hc
  · refine wp_seq (wp_settled (quiet_health.mono hquiet) hc) fun found c₂ hc => ?_
    cases found with
    | healthy pid => exact ⟨hc, fun hne => (hne rfl).elim⟩
    | stale pid =>
      refine (wp_perform_bind _ _ _ _ _).mpr fun t _ => ?_
      have hc := hc.next (o := .enter .staleRecovery) trivial t
      exact wp_seq (wp_settled steady_clearRuntimeState hc) fun _ c₃ hc => hbring root _ hc
    | none => exact hbring root _ hc

/-- A variable of an environment. -/
def var (env : List (String × String)) (key : String) : Option String :=
  (env.find? fun entry => entry.1 = key).map Prod.snd

theorem var_insertVar (env : List (String × String)) (key value key' : String) :
    var (insertVar env key value) key' = if key' = key then some value else var env key' := by
  unfold var insertVar
  rw [List.find?_append, List.find?_filter]
  split
  · next heq =>
    subst heq
    have hnone : env.find? (fun _ => false) = none := List.find?_eq_none.mpr (by simp)
    simp [hnone]
  · next hne =>
    have hsame : (fun a : String × String => decide (a.1 = key')) =
        fun a => decide (decide (a.1 ≠ key) = true ∧ decide (a.1 = key') = true) := by
      funext a
      by_cases ha : a.1 = key'
      · simp [ha, hne]
      · simp [ha]
    rw [hsame]
    simp [Ne.symm hne]

/-- A proxy's variables lead every client to it. -/
theorem var_keeperEnv (input : UpInput) (resolution : Resolution) (port : UInt16) (token : String)
    {key : String} (hkey : key ∈ PROXY_VARS) :
    var (keeperEnv input resolution (some (port, token))) key =
      some (proxyEndpoint port token) := by
  unfold keeperEnv
  generalize input.manifest.env.vars.foldl _ resolution.env = env
  simp only [PROXY_VARS, NO_PROXY_VARS, List.foldl, var_insertVar]
  simp only [PROXY_VARS, List.mem_cons, List.not_mem_nil, or_false] at hkey
  rcases hkey with rfl | rfl | rfl | rfl <;> rfl

/-- The port and token that an `up` hands out are those of the live proxy that the pidfile names,
and that proxy enforces the manifest's allowlist. -/
structure Current (input : UpInput) (c : Config machine) (port : UInt16) (token : String) :
    Prop where
  /-- In `meta.json`. -/
  written : ∃ m, c.state.metaFile = some m ∧ m.proxyPort = some port ∧ m.proxyToken = some token
  /-- In the policy and the environment that the latest keeper was started with. -/
  launched : ∃ launch, latestLaunch c.trace = some launch ∧
    launch.plan.networkProxyPort = some port ∧
    ∀ key ∈ PROXY_VARS, var launch.env key = some (proxyEndpoint port token)
  /-- In the process. -/
  running : ∃ pid p, c.state.pidfile .proxy = some (pid, c.state.startOf p) ∧
    c.state.procs pid = some p ∧ p.kind = .proxy port token input.manifest.network.allow

theorem upPolicy_networkProxyPort (input : UpInput) (exeDir provider : String)
    (resolution : Resolution) (shell : ResolvedShell) (port : UInt16) (token : String) :
    (upPolicy input exeDir provider resolution shell (some (port, token))).networkProxyPort =
      some port := by
  unfold upPolicy
  dsimp only
  split <;> rfl

/-- After an `up` that wants a proxy and did not find the sandbox healthy, the proxy is current. -/
def CurrentAfter (cmd : Command) (result : Except UpError (Option UpOutcome))
    (c : Config machine) : Prop :=
  ∀ input outcome, cmd = .up input → result = .ok (some outcome) → outcome ≠ .alreadyUp →
    (compile input.platform input.manifest).wantsEgressProxy = true →
    ∃ port token, Current input c port token

/-- Every command keeps the invariant, and the proxy current. -/
theorem prog_current (cmd : Command) {c : Config machine} (hc : Settled c) :
    wp Agreeing (fun outcome c' => Settled c' ∧ CurrentAfter cmd (.ok outcome) c')
      (fun e c' => Settled c' ∧ CurrentAfter cmd (.error e) c') cmd.prog c := by
  cases cmd with
  | up input =>
    have hup := wp_and (up_serving input hc) (up_fit (G := Agreeing) input c)
    refine wp_seq (wp_mono hup (fun _ _ h => h) fun _ _ h => ⟨h.1, ?_⟩)
      fun outcome c' ⟨⟨hc, hserving⟩, hfit⟩ => ⟨hc, ?_⟩
    · rintro _ _ _ hresult
      cases hresult
    · rintro input' outcome' hcmd hresult hne hwants
      obtain rfl := Command.up.inj hcmd
      obtain rfl := Option.some.inj (Except.ok.inj hresult)
      obtain ⟨v, hv⟩ := hfit hne
      have hsome : v.proxy.isSome = true := hv.proxy.trans hwants
      obtain ⟨⟨port, token⟩, hproxy⟩ := Option.isSome_iff_exists.mp hsome
      have hport : (v.metaFile input).proxyPort = some port := congrArg (Option.map Prod.fst) hproxy
      have htoken : (v.metaFile input).proxyToken = some token :=
        congrArg (Option.map Prod.snd) hproxy
      obtain ⟨-, s, since, p, -, -, -, hfile, hp, hkind, hstart⟩ :=
        hserving hne _ port token hv.written hport htoken
      have hplan : (v.launch input).plan.networkProxyPort = some port := by
        have hpolicy := upPolicy_networkProxyPort input v.exeDir v.provider.staticName v.resolution
          v.shell port token
        rw [← hproxy] at hpolicy
        exact hpolicy
      have henv : ∀ key ∈ PROXY_VARS,
          var (v.launch input).env key = some (proxyEndpoint port token) := by
        intro key hkey
        have hvar := var_keeperEnv input v.resolution port token hkey
        rw [← hproxy] at hvar
        exact hvar
      refine ⟨port, token, ⟨_, hv.written, hport, htoken⟩, ⟨_, hv.launched, hplan, henv⟩, s.pid, p,
        ?_, hp, hkind⟩
      rw [hfile, hstart]
  | down homeVar sandboxName =>
    refine wp_seq (wp_mono (wp_settled (steady_down homeVar sandboxName) hc) (fun _ _ h => h)
      fun _ _ h => ⟨h, ?_⟩) fun _ _ h => ⟨h, ?_⟩
    · rintro _ _ hcmd
      cases hcmd
    · rintro _ _ hcmd
      cases hcmd
  | rm homeVar sandboxName =>
    refine wp_seq (wp_mono (wp_settled (steady_rm homeVar sandboxName) hc) (fun _ _ h => h)
      fun _ _ h => ⟨h, ?_⟩) fun _ _ h => ⟨h, ?_⟩
    · rintro _ _ hcmd
      cases hcmd
    · rintro _ _ hcmd
      cases hcmd

/-- In every session of lifecycle commands, after every command whose steps so far met the
condition: if it was an `up` that wants a proxy and returned without having found the sandbox
healthy, the proxy is current. -/
theorem proxy_current {h : Host} {cmds : List Command} {moments : List Moment}
    {d : Done machine Command UpError (Option UpOutcome)}
    (hd : d ∈ session Command.prog cmds moments ⟨[], h⟩)
    (hagree : Guarded Agreeing d.config.trace) : CurrentAfter d.cmd d.outcome d.config := by
  have hstart : Settled ⟨[], h⟩ := fun s since hlast => by cases hlast
  exact (session_spec (fun cmd c hc => prog_current cmd hc) hstart hd hagree).2

/-- An `up` that fails after it has written `meta.json` leaves its proxy to the next one, which may
reuse it for the same domains. -/
theorem proxy_current_up :
    ∃ d ∈ session (m := machine) Command.prog
      [.up (sampleInput ["a.org"]), .up (sampleInput ["a.org"])] (sampleMoments [] [12])
      ⟨[], freshHost⟩, d.outcome = .ok (some .started) ∧
        CurrentAfter d.cmd d.outcome d.config := by
  have hrun : (session (m := machine) Command.prog
      [.up (sampleInput ["a.org"]), .up (sampleInput ["a.org"])] (sampleMoments [] [12])
      ⟨[], freshHost⟩).any (fun d => decide (d.outcome = .ok (some .started) ∧
        Guarded Agreeing d.config.trace)) = true := by decide +kernel
  obtain ⟨d, hd, h⟩ := List.any_eq_true.mp hrun
  obtain ⟨houtcome, hagree⟩ := of_decide_eq_true h
  exact ⟨d, hd, houtcome, proxy_current hd hagree⟩

/-- Is this a command that wants a proxy for these domains? -/
def Command.wants (allow : List String) : Command → Bool
  | .up input => decide (input.manifest.network.allow = allow ∧
      (compile input.platform input.manifest).wantsEgressProxy = true)
  | _ => false

/-- When the manifest was edited in between, the next `up` hands out the same proxy. -/
theorem not_current_edited :
    ∃ d ∈ session (m := machine) Command.prog
      [.up (sampleInput ["a.org"]), .up (sampleInput ["b.org"])] (sampleMoments [] [12])
      ⟨[], freshHost⟩, d.outcome = .ok (some .started) ∧
        ¬CurrentAfter d.cmd d.outcome d.config := by
  have hrun : (session (m := machine) Command.prog
      [.up (sampleInput ["a.org"]), .up (sampleInput ["b.org"])] (sampleMoments [] [12])
      ⟨[], freshHost⟩).any (fun d => decide (d.outcome = .ok (some .started) ∧
        d.cmd.wants ["b.org"] = true ∧ d.config.state.pidfile .proxy = some (8, 1) ∧
        (d.config.state.procs 8).map Proc.kind = some (.proxy 40007 "7" ["a.org"]))) = true := by
    decide +kernel
  obtain ⟨d, hd, h⟩ := List.any_eq_true.mp hrun
  obtain ⟨houtcome, hwants, hfile, hkind⟩ := of_decide_eq_true h
  refine ⟨d, hd, houtcome, fun hcurrent => ?_⟩
  cases hcmd : d.cmd with
  | up input =>
    rw [hcmd] at hwants
    obtain ⟨hallow, hproxy⟩ := of_decide_eq_true hwants
    obtain ⟨port, token, hc⟩ := hcurrent input .started hcmd houtcome (by decide) hproxy
    obtain ⟨pid, p, hpid, hp, hcurrentKind⟩ := hc.running
    obtain ⟨rfl, -⟩ := Prod.mk.inj (Option.some.inj (hfile.symm.trans hpid))
    rw [hp] at hkind
    have heq := hcurrentKind.symm.trans (Option.some.inj hkind)
    injection heq with _ _ hdomains
    rw [hallow] at hdomains
    exact absurd hdomains (by decide)
  | down homeVar sandboxName => rw [hcmd] at hwants; cases hwants
  | rm homeVar sandboxName => rw [hcmd] at hwants; cases hwants

end Devcroft.Lifecycle
