import Mathlib.Algebra.Ring.Int.Defs
import Devcroft.Keeper.Shutdown
import Devcroft.Services.State

/-!
# Whom a shutdown kills for the services

The handler asks the services' supervisor, which the sandbox controls, and ends both of
its loops with a `kill` for every pid of the response. A pid goes through a narrowing
cast on its way, and comes out as it went in only where it fits.
-/

namespace Devcroft.Keeper

open Interleaving Lifecycle Services

/-- The socket that `service_process_groups` asks. -/
def servicesSocket (env : KeeperEnv) : String :=
  socketPath (env.servicesRoot.getD ".") (env.sandboxName.getD "")

/-- `service_process_groups`, with what the supervisor answers. -/
def servicesOf (env : KeeperEnv) (peer : Peer) : List Int32 :=
  serviceProcessGroups env (peer.answer (servicesSocket env))

/-- The supervisor answers the handler with its response. -/
def Answered (env : KeeperEnv) (peer : Peer) : Guard KeeperState Act := fun _ a =>
  ∀ answer, a = .handler (.ask answer) → answer = peer.answer (servicesSocket env)

/-- The argument of the `kill` that a step of the handler makes for a service: the services are the
last calls of its loops. -/
def serviceKill (services : List Int32) (s : KeeperState) : Act → Option ℤ
  | .handler .proceed =>
    match s.handler with
    | .terminating _ (target :: rest) _ =>
      if rest.length < services.length then some target else none
    | .killing (target :: rest) _ => if rest.length < services.length then some target else none
    | _ => none
  | _ => none

/-- An integer that items have as a pid. -/
def HasPid (items : List Json.Value) (p : ℤ) : Prop := ∃ v ∈ items, pid? v = some p

/-- What the handler kills for a service is the group of a reported pid, from 2 on. -/
def KillsReported (env : KeeperEnv) (peer : Peer) (s : KeeperState) (a : Act) : Prop :=
  ∀ target, serviceKill (servicesOf env peer) s a = some target →
    ∃ p, HasPid (peer.reported (servicesSocket env)) p ∧ 2 ≤ p ∧ p < 2 ^ 31 ∧ target = -p

/-- The condition on the response: the positive pids of its named items are, as far as 64 bits hold
them, modulo 2^32 among its pids from 2 to 2^31 - 1. -/
def PidsFit (items : List Json.Value) : Prop :=
  ∀ v ∈ items, isNamed v = true → ∀ q, pid? v = some q → 0 < q → q < 2 ^ 63 →
    HasPid items (q % 2 ^ 32) ∧ 2 ≤ q % 2 ^ 32 ∧ q % 2 ^ 32 < 2 ^ 31

/-- Which argument the cast and the negation make of a pid. -/
theorem neg_toInt32_eq_iff {q : Int64} {p : ℤ} (hlow : 0 < p) (hhigh : p < 2 ^ 31) :
    (-q.toInt32).toInt = -p ↔ q.toInt % 2 ^ 32 = p := by
  have hmodulus : ((2 ^ 32 : ℕ) : ℤ) = 2 ^ 32 := rfl
  rw [Int32.toInt_neg, Int64.toInt_toInt32, Int.bmod_def, Int.bmod_def, hmodulus]
  constructor
  · intro h
    split at h <;> split at h <;> omega
  · intro h
    have hfits : q.toInt % 2 ^ 32 < (2 ^ 32 + 1) / 2 := by omega
    rw [if_pos hfits, h]
    split <;> omega

/-- The services that the handler kills, from the items of the response. -/
theorem mem_servicesOf {env : KeeperEnv} {peer : Peer} {pgid : Int32} :
    pgid ∈ servicesOf env peer ↔ env.startServices = true ∧
      ∃ v ∈ peer.reported (servicesSocket env), isNamed v = true ∧
        ∃ q : Int64, pid? v = some q.toInt ∧ 0 < q.toInt ∧ q.toInt32 = pgid := by
  unfold servicesOf serviceProcessGroups
  split
  · next hstart =>
    simp only [List.mem_map, List.mem_filter, List.mem_filterMap, id_eq, exists_eq_right,
      decide_eq_true_eq, Peer.mem_answer, hstart, true_and, Int64.lt_iff_toInt_lt]
    constructor
    · rintro ⟨q, ⟨⟨v, hv, hnamed, hpid, hpositive⟩, -⟩, hpgid⟩
      exact ⟨v, hv, hnamed, q, hpid, hpositive, hpgid⟩
    · rintro ⟨v, hv, hnamed, q, hpid, hpositive, hpgid⟩
      exact ⟨q, ⟨⟨v, hv, hnamed, hpid, hpositive⟩, hpositive⟩, hpgid⟩
  · next hstart => simp [hstart]

/-- The invariant: the calls that are left in a loop end with the services. -/
def Handler.EndsWith (services : List Int32) : Handler → Prop
  | asked sv => sv = services
  | terminating sv calls _ => sv = services ∧ ∃ registry, calls <:+ sweep registry services
  | grace sv _ => sv = services
  | killing calls _ => ∃ registry, calls <:+ sweep registry services
  | _ => True

variable {env : KeeperEnv} {peer : Peer} {s next : KeeperState} {a : Act}

/-- A step of the handler's thread keeps the invariant. -/
theorem Handler.EndsWith.handler (hs : s.handler.EndsWith (servicesOf env peer)) {b : HandlerAct}
    (hanswered : Answered env peer s (.handler b)) (h : HandlerStep env s b next) :
    next.handler.EndsWith (servicesOf env peer) := by
  cases h with
  | signal => trivial
  | ask =>
    rw [hanswered _ rfl]
    rfl
  | @collect services hhandler =>
    rw [hhandler] at hs
    obtain rfl := hs
    exact ⟨rfl, s.shared.registry, List.suffix_rfl⟩
  | @terminate services target calls terminated hhandler =>
    rw [hhandler] at hs
    obtain ⟨hservices, registry, hsuffix⟩ := hs
    exact ⟨hservices, registry, (List.suffix_cons _ _).trans hsuffix⟩
  | @pause services terminated hhandler =>
    rw [hhandler] at hs
    exact hs.1
  | @recollect services terminated hhandler =>
    rw [hhandler] at hs
    obtain rfl := hs
    exact ⟨s.shared.registry, List.suffix_rfl⟩
  | @kill target calls terminated hhandler =>
    rw [hhandler] at hs
    obtain ⟨registry, hsuffix⟩ := hs
    exact ⟨registry, (List.suffix_cons _ _).trans hsuffix⟩
  | exit => exact hs

theorem Handler.EndsWith.step (hs : s.handler.EndsWith (servicesOf env peer))
    (hanswered : Answered env peer s a) (h : s.step env a = some next) :
    next.handler.EndsWith (servicesOf env peer) := by
  by_cases hhandler : ∃ b, a = .handler b
  · obtain ⟨b, rfl⟩ := hhandler
    cases KeeperState.step_cases h with
    | handler _ hstep => exact hs.handler hanswered hstep
  · rw [handler_step h fun b hb => hhandler ⟨b, hb⟩]
    exact hs

/-- The last calls of a loop are for the services. -/
theorem mem_services_of_suffix {registry : Registry} {services : List Int32} {target : ℤ}
    {rest : List ℤ} (hsuffix : target :: rest <:+ sweep registry services)
    (hlength : rest.length < services.length) :
    ∃ pgid ∈ services, (-pgid).toInt = target := by
  have hservices : services.map (fun pgid => (-pgid).toInt) <:+ sweep registry services :=
    List.suffix_append _ _
  have hlast := List.suffix_of_suffix_length_le hsuffix hservices (by
    rw [List.length_map, List.length_cons]
    omega)
  exact List.mem_map.mp (hlast.subset List.mem_cons_self)

/-- What the handler kills for a service is made of a service's group. -/
theorem Handler.EndsWith.target (hs : s.handler.EndsWith (servicesOf env peer)) {target : ℤ}
    (h : serviceKill (servicesOf env peer) s a = some target) :
    ∃ pgid ∈ servicesOf env peer, (-pgid).toInt = target := by
  unfold serviceKill at h
  split at h
  · split at h
    · next sv calls rest terminated hphase =>
      rw [hphase] at hs
      obtain ⟨-, registry, hsuffix⟩ := hs
      split at h
      · next hlength =>
        obtain rfl := Option.some.inj h
        exact mem_services_of_suffix hsuffix hlength
      · cases h
    · next calls rest terminated hphase =>
      rw [hphase] at hs
      obtain ⟨registry, hsuffix⟩ := hs
      split at h
      · next hlength =>
        obtain rfl := Option.some.inj h
        exact mem_services_of_suffix hsuffix hlength
      · cases h
    · cases h
  · cases h

/-- A service is killed rightly where its pid fits. -/
theorem PidsFit.target (hfit : env.startServices = true →
    PidsFit (peer.reported (servicesSocket env))) {pgid : Int32}
    (hpgid : pgid ∈ servicesOf env peer) :
    ∃ p, HasPid (peer.reported (servicesSocket env)) p ∧ 2 ≤ p ∧ p < 2 ^ 31 ∧
      (-pgid).toInt = -p := by
  obtain ⟨hstart, v, hv, hnamed, q, hpid, hpositive, rfl⟩ := mem_servicesOf.mp hpgid
  obtain ⟨hhas, hlow, hhigh⟩ := hfit hstart v hv hnamed q.toInt hpid hpositive q.toInt_lt
  exact ⟨_, hhas, hlow, hhigh, (neg_toInt32_eq_iff (by omega) hhigh).mpr rfl⟩

/-- The handler gets to every call of its first loop. -/
theorem reaches_call (env : KeeperEnv) {services : List Int32} (before : List ℤ) {target : ℤ}
    {rest terminated : List ℤ} (hexited : s.exited = false)
    (hphase : s.handler = .terminating services (before ++ target :: rest) terminated) :
    ∃ p ∈ steps (KeeperState.step env)
        (List.replicate (before.length + 1) (.handler .proceed)) s,
      p.2 = .handler .proceed ∧
        p.1.handler = .terminating services (target :: rest) terminated := by
  induction before generalizing s with
  | nil =>
    have hstep : s.step env (.handler .proceed) = some { s with
        shared := { s.shared with groups := kill target SIGTERM s.shared.groups }
        handler := .terminating services rest terminated } := by
      simp only [KeeperState.step, hexited, KeeperState.stepHandler, hphase, List.nil_append,
        Bool.false_eq_true, if_false]
    refine ⟨(s, .handler .proceed), ?_, rfl, hphase⟩
    rw [List.length_nil, List.replicate_succ, steps_cons_of_step hstep]
    exact List.mem_cons_self
  | cons first before ih =>
    have hstep : s.step env (.handler .proceed) = some { s with
        shared := { s.shared with groups := kill first SIGTERM s.shared.groups }
        handler := .terminating services (before ++ target :: rest) terminated } := by
      simp only [KeeperState.step, hexited, KeeperState.stepHandler, hphase, List.cons_append,
        Bool.false_eq_true, if_false]
    rw [List.length_cons, List.replicate_succ, steps_cons_of_step hstep]
    obtain ⟨p, hp, hreached⟩ := ih (s := { s with
        shared := { s.shared with groups := kill first SIGTERM s.shared.groups }
        handler := .terminating services (before ++ target :: rest) terminated }) hexited rfl
    exact ⟨p, List.mem_cons_of_mem _ hp, hreached⟩

/-- A response whose pids do not fit makes the handler kill something else. -/
theorem exists_serviceKill {pgid : Int32} (hpgid : pgid ∈ servicesOf env peer) :
    ∃ acts, Guarded (Answered env peer) (steps (KeeperState.step env) acts .start) ∧
      ∃ p ∈ steps (KeeperState.step env) acts .start,
        serviceKill (servicesOf env peer) p.1 p.2 = some (-pgid).toInt := by
  obtain ⟨before, rest, hservices⟩ := List.append_of_mem hpgid
  have hsignal : KeeperState.start.step env (.handler .signal) =
      some { KeeperState.start with handler := .signalled } := rfl
  have hask : KeeperState.step env { KeeperState.start with handler := .signalled }
      (.handler (.ask (peer.answer (servicesSocket env)))) =
        some { KeeperState.start with handler := .asked (servicesOf env peer) } := rfl
  -- The registry is empty, so that the first loop is over the services alone.
  have hcollect : KeeperState.step env
      { KeeperState.start with handler := .asked (servicesOf env peer) } (.handler .proceed) =
        some { KeeperState.start with
          handler := .terminating (servicesOf env peer)
            ((servicesOf env peer).map fun pgid => (-pgid).toInt)
            ((servicesOf env peer).map fun pgid => (-pgid).toInt) } := rfl
  have hcalls : (servicesOf env peer).map (fun pgid => (-pgid).toInt) =
      (before.map fun pgid => (-pgid).toInt) ++ (-pgid).toInt ::
        rest.map fun pgid => (-pgid).toInt := by
    rw [hservices, List.map_append, List.map_cons]
  obtain ⟨p, hp, hact, hphase⟩ := reaches_call env (before.map fun pgid => (-pgid).toInt)
    (s := { KeeperState.start with
      handler := .terminating (servicesOf env peer)
        ((servicesOf env peer).map fun pgid => (-pgid).toInt)
        ((servicesOf env peer).map fun pgid => (-pgid).toInt) }) rfl
    (congrArg (Handler.terminating _ · _) hcalls)
  refine ⟨.handler .signal :: .handler (.ask (peer.answer (servicesSocket env))) ::
    .handler .proceed ::
    List.replicate ((before.map fun pgid => (-pgid).toInt).length + 1) (.handler .proceed),
    ?_, p, ?_, ?_⟩
  · intro p hp answer hanswer
    have hmem := mem_of_mem_steps hp
    rw [hanswer] at hmem
    simpa using hmem
  · rw [steps_cons_of_step hsignal, steps_cons_of_step hask, steps_cons_of_step hcollect]
    exact List.mem_cons_of_mem _ (List.mem_cons_of_mem _ (List.mem_cons_of_mem _ hp))
  · rw [hact, serviceKill, hphase]
    have hlength : (rest.map fun pgid => (-pgid).toInt).length < (servicesOf env peer).length := by
      rw [hservices, List.length_map, List.length_append, List.length_cons]
      omega
    exact if_pos hlength

/-- In every run, the handler kills for the services groups of reported pids only, if and only if
the pids of the response fit or no services were started. -/
theorem killsReported_iff {env : KeeperEnv} {peer : Peer} :
    (∀ acts, Guarded (Answered env peer) (steps (KeeperState.step env) acts .start) →
      ∀ p ∈ steps (KeeperState.step env) acts .start, KillsReported env peer p.1 p.2) ↔
    (env.startServices = true → PidsFit (peer.reported (servicesSocket env))) := by
  constructor
  · intro hruns hstart v hv hnamed q hpid hpositive hq
    have hvalue : (Int64.ofInt q).toInt = q := Int64.toInt_ofInt_of_le (by omega) hq
    have hpgid : (Int64.ofInt q).toInt32 ∈ servicesOf env peer :=
      mem_servicesOf.mpr ⟨hstart, v, hv, hnamed, Int64.ofInt q, by rw [hvalue, hpid],
        by rw [hvalue]; exact hpositive, rfl⟩
    obtain ⟨acts, hanswered, p, hp, hkill⟩ := exists_serviceKill hpgid
    obtain ⟨n, hhas, hlow, hhigh, htarget⟩ := hruns acts hanswered p hp _ hkill
    have hmod := (neg_toInt32_eq_iff (by omega) hhigh).mp htarget
    rw [hvalue] at hmod
    rw [hmod]
    exact ⟨hhas, hlow, hhigh⟩
  · intro hfit acts hanswered
    refine forall_steps (I := fun s => s.handler.EndsWith (servicesOf env peer))
      (fun _ _ _ hs hanswered h => hs.step hanswered h) ?_ trivial hanswered
    intro s a next hs _ _ target hkill
    obtain ⟨pgid, hpgid, rfl⟩ := hs.target hkill
    exact PidsFit.target hfit hpgid

/-- A keeper with services. -/
def sampleServices : KeeperEnv := { sampleEnv with
  startServices := true
  servicesRoot := some "/home/u/p"
  sandboxName := some "p" }

/-- A process of the sandbox that listens on the supervisor's socket, and reports the pid 1. -/
def sampleImpostor : Peer where
  metadata := some (true, 1000)
  uid := 1000
  connect := .ok ()
  timeouts := .ok ()
  write := .ok ()
  read := .ok (Utf8.encode
    "HTTP/1.1 200 OK\r\n\r\n\x7b\"data\":[\x7b\"name\":\"db\",\"pid\":1\x7d]\x7d")
  late := false
  fromStr := fun text =>
    if text = "\x7b\"data\":[\x7b\"name\":\"db\",\"pid\":1\x7d]\x7d" then
      .ok (.object [("data", .array [.object [("name", .string "db"), ("pid", .number (.posInt 1))]])])
    else .error "expected value at line 1 column 1"

/-- The handler then kills every process that it may kill. -/
theorem not_killsReported_one :
    Guarded (Answered sampleServices sampleImpostor) (steps (KeeperState.step sampleServices)
      [.handler .signal, .handler (.ask (some [some 1])), .handler .proceed, .handler .proceed]
      .start) ∧
    ∃ p ∈ steps (KeeperState.step sampleServices)
      [.handler .signal, .handler (.ask (some [some 1])), .handler .proceed, .handler .proceed]
      .start, serviceKill (servicesOf sampleServices sampleImpostor) p.1 p.2 = some (-1) ∧
        ¬KillsReported sampleServices sampleImpostor p.1 p.2 := by
  have hanswer : sampleImpostor.answer (servicesSocket sampleServices) = some [some 1] := by
    decide +kernel
  constructor
  · intro p hp answer hanswered
    have hmem := mem_of_mem_steps hp
    rw [hanswered] at hmem
    rw [hanswer]
    simpa using hmem
  · have hrun : ∃ p ∈ steps (KeeperState.step sampleServices)
        [.handler .signal, .handler (.ask (some [some 1])), .handler .proceed, .handler .proceed]
        .start, serviceKill (servicesOf sampleServices sampleImpostor) p.1 p.2 = some (-1) := by
      decide +kernel
    obtain ⟨p, hp, hkill⟩ := hrun
    refine ⟨p, hp, hkill, fun hreported => ?_⟩
    obtain ⟨n, -, hlow, -, hn⟩ := hreported _ hkill
    omega

end Devcroft.Keeper
