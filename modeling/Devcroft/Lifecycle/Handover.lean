import Devcroft.Library.Environ
import Devcroft.Lifecycle.Terminate

/-!
# What `up` hands to its keeper

`spawn_keeper` passes everything through the keeper's environment: the variables of the
sessions first, which it overlays on the caller's own, and then the variables that
control the keeper itself.
-/

namespace Devcroft.Lifecycle

open Environ Config Policy Provider

/-- `SshHandoff`, as far as it goes through the environment. -/
structure SshHandoff where
  hostKeyPem : String
  authorizedKeyPem : String
  deriving DecidableEq

/-- The calls of `spawn_keeper` that hand over what controls the keeper. `toJson` is
`serde_json::to_string`. -/
def Launch.controlCalls (launch : Launch) (ssh : SshHandoff) (toJson : CapabilityPlan → String) :
    List Call :=
  [.env "DEVCROFT_CAPABILITY_PLAN" (toJson launch.plan),
    .env "DEVCROFT_SSH_HOST_KEY" ssh.hostKeyPem,
    .env "DEVCROFT_SSH_AUTHORIZED_KEY" ssh.authorizedKeyPem,
    .env "DEVCROFT_SHELL" launch.shell,
    .env "DEVCROFT_START_SERVICES" (if launch.services.isSome then "1" else "0"),
    .env "DEVCROFT_SANDBOX_NAME" (launch.services.getD ""),
    .env "DEVCROFT_SERVICES_ROOT" launch.projectRoot] ++
  match launch.relay with
  | some (port, socket) =>
    [.env "DEVCROFT_PROXY_RELAY_PORT" (Nat.repr port.toNat), .env "DEVCROFT_PROXY_SOCKET" socket]
  | none => []

/-- The environment of the keeper that `spawn_keeper` starts, when `up` runs in this one. -/
def Launch.environ (launch : Launch) (ssh : SshHandoff) (toJson : CapabilityPlan → String)
    (ambient : Vars) : Vars :=
  inherit ambient (overlay launch.env launch.unset ++ launch.controlCalls ssh toJson)

/-- What the keeper reads of its environment to control itself. -/
structure Control where
  capabilityPlan : Option String
  sshHostKey : Option String
  sshAuthorizedKey : Option String
  shell : Option String
  startServices : Option String
  sandboxName : Option String
  servicesRoot : Option String
  proxyRelayPort : Option String
  proxySocket : Option String
  deriving DecidableEq

/-- The reads of `keeper_main`, `self_restrict`, `start_services_if_requested` and
`ssh::start_from_env`. -/
def Control.read (vars : Vars) : Control where
  capabilityPlan := getenv vars "DEVCROFT_CAPABILITY_PLAN"
  sshHostKey := getenv vars "DEVCROFT_SSH_HOST_KEY"
  sshAuthorizedKey := getenv vars "DEVCROFT_SSH_AUTHORIZED_KEY"
  shell := getenv vars "DEVCROFT_SHELL"
  startServices := getenv vars "DEVCROFT_START_SERVICES"
  sandboxName := getenv vars "DEVCROFT_SANDBOX_NAME"
  servicesRoot := getenv vars "DEVCROFT_SERVICES_ROOT"
  proxyRelayPort := getenv vars "DEVCROFT_PROXY_RELAY_PORT"
  proxySocket := getenv vars "DEVCROFT_PROXY_SOCKET"

/-- The port that `keeper_main` binds for its relay, before it restricts itself, and the socket to
which it relays. -/
def Control.relay (control : Control) : Option (UInt16 × String) :=
  match control.proxyRelayPort.bind Text.parseU16, control.proxySocket with
  | some port, some socket => some (port, socket)
  | _, _ => none

/-- What `up` means the keeper to read. -/
def Launch.control (launch : Launch) (ssh : SshHandoff) (toJson : CapabilityPlan → String) :
    Control where
  capabilityPlan := some (toJson launch.plan)
  sshHostKey := some ssh.hostKeyPem
  sshAuthorizedKey := some ssh.authorizedKeyPem
  shell := some launch.shell
  startServices := some (if launch.services.isSome then "1" else "0")
  sandboxName := some (launch.services.getD "")
  servicesRoot := some launch.projectRoot
  proxyRelayPort := launch.relay.map fun relay => Nat.repr relay.1.toNat
  proxySocket := launch.relay.map Prod.snd

/-- No variable that the manifest or the provider sets, or that the caller of `up` has and the
provider does not remove, is found under a name. -/
def NotSet (ambient : Vars) (input : UpInput) (resolution : Resolution) (name : String) : Prop :=
  ∀ key, Names name key → key ∉ input.manifest.env.vars.map Prod.fst ∧
    (key ∈ resolution.unset ∨ (key ∉ resolution.env.map Prod.fst ∧ ambient[key]? = none))

/-- A control variable that is set last is read as it was set. -/
theorem getenv_environ {launch : Launch} {ssh : SshHandoff} {toJson : CapabilityPlan → String}
    {ambient : Vars} {name value : String} (hname : '=' ∉ name.toList)
    (h : lastCall name (launch.controlCalls ssh toJson) = some (.env name value)) :
    getenv (launch.environ ssh toJson ambient) name = some value := by
  refine getenv_inherit hname ?_
  rw [lastCall_append, h, Option.some_or]

/-- The names of the relay's variables. -/
def RELAY_VARS : List String := ["DEVCROFT_PROXY_RELAY_PORT", "DEVCROFT_PROXY_SOCKET"]

theorem insertVar_keys (env : List (String × String)) (key value name : String) :
    name ∈ (insertVar env key value).map Prod.fst ↔ name = key ∨ name ∈ env.map Prod.fst := by
  by_cases hkey : name = key
  · simp [insertVar, hkey]
  · simp [insertVar, hkey]

theorem foldl_insertVar_keys {α : Type} (f : α → String) (g : α → String) (entries : List α)
    (env : List (String × String)) (name : String) :
    name ∈ (entries.foldl (fun env entry => insertVar env (f entry) (g entry)) env).map Prod.fst ↔
      name ∈ entries.map f ∨ name ∈ env.map Prod.fst := by
  induction entries generalizing env with
  | nil => simp
  | cons entry entries ih =>
    rw [List.foldl_cons, ih, insertVar_keys, List.map_cons, List.mem_cons]
    tauto

/-- The variables that `up_process` sets for the sessions. -/
theorem keeperEnv_keys (input : UpInput) (resolution : Resolution)
    (proxy : Option (UInt16 × String)) (name : String)
    (hname : name ∉ PROXY_VARS ++ NO_PROXY_VARS) :
    name ∈ (keeperEnv input resolution proxy).map Prod.fst ↔
      name ∈ input.manifest.env.vars.map Prod.fst ∨ name ∈ resolution.env.map Prod.fst := by
  simp only [List.mem_append, not_or] at hname
  cases proxy with
  | none => exact foldl_insertVar_keys Prod.fst Prod.snd _ _ name
  | some proxy =>
    have hproxy := foldl_insertVar_keys (fun key : String => key)
    simp only [keeperEnv]
    rw [hproxy, hproxy, List.map_id', List.map_id', foldl_insertVar_keys Prod.fst Prod.snd]
    simp [hname]

theorem mem_keeperUnset {input : UpInput} {resolution : Resolution} {name : String} :
    name ∈ keeperUnset input resolution ↔
      name ∈ resolution.unset ∧ name ∉ input.manifest.env.vars.map Prod.fst := by
  rw [keeperUnset, List.mem_filter]
  refine and_congr_right fun _ => ?_
  rw [Bool.not_eq_true', ← Bool.not_eq_true, List.any_eq_true, List.mem_map]
  simp only [beq_iff_eq]

/-- The variables that the other control calls and `up`'s own proxy settings are about. -/
def OTHER_VARS : List String :=
  ["DEVCROFT_CAPABILITY_PLAN", "DEVCROFT_SSH_HOST_KEY", "DEVCROFT_SSH_AUTHORIZED_KEY",
    "DEVCROFT_SHELL", "DEVCROFT_START_SERVICES", "DEVCROFT_SANDBOX_NAME",
    "DEVCROFT_SERVICES_ROOT"] ++ (PROXY_VARS ++ NO_PROXY_VARS)

/-- None of them is found under the name of a variable for the relay. -/
theorem not_names_of_mem_relayVars {name key : String} (hname : name ∈ RELAY_VARS)
    (hkey : Names name key) : key ∉ OTHER_VARS := by
  have hall : ∀ name ∈ RELAY_VARS, ∀ key ∈ OTHER_VARS, ¬Names name key := by decide +kernel
  exact fun hmem => hall name hname key hmem hkey

section Relay

variable {input : UpInput} {root exe : String} {resolution : Resolution} {shell : ResolvedShell}
  {compiled : CompiledPolicy} {proxy : Option (UInt16 × String)} {services isolated : Bool}
  {ssh : SshHandoff} {toJson : CapabilityPlan → String} {ambient : Vars}

/-- Without a relay, the keeper reads of its variables what it happens to inherit. -/
theorem getenv_environ_eq_none_iff
    (hrelay :
      (keeperLaunch input root exe resolution shell compiled proxy services isolated).relay =
      none) {name : String} (hname : name ∈ RELAY_VARS) :
    getenv ((keeperLaunch input root exe resolution shell compiled proxy services isolated).environ
      ssh toJson ambient) name = none ↔ NotSet ambient input resolution name := by
  have heq : '=' ∉ name.toList := by
    have hall : ∀ name ∈ RELAY_VARS, '=' ∉ name.toList := by decide
    exact hall name hname
  rw [getenv_eq_none_iff heq]
  refine forall_congr' fun key => forall_congr' fun hkey => ?_
  have hother := not_names_of_mem_relayVars hname hkey
  have hcontrol :
      lastCall key ((keeperLaunch input root exe resolution shell compiled proxy services
      isolated).controlCalls ssh toJson) = none := by
    rw [lastCall_eq_none_iff, Launch.controlCalls, hrelay]
    rintro c hc rfl
    refine hother (List.mem_append_left _ ?_)
    rw [List.append_nil] at hc
    have hmem := List.mem_map_of_mem (f := Call.key) hc
    exact hmem
  have hkeys := keeperEnv_keys input resolution proxy key fun hmem =>
    hother (List.mem_append_right _ hmem)
  rw [Launch.environ, inherit_append, getElem?_inherit, hcontrol]
  dsimp only
  rw [getElem?_overlay_eq_none_iff]
  change key ∈ keeperUnset input resolution ∨
    (key ∉ (keeperEnv input resolution proxy).map Prod.fst ∧ ambient[key]? = none) ↔ _
  rw [mem_keeperUnset, hkeys]
  tauto

end Relay

/-- All but the variables of the relay are read as `up` set them. -/
theorem read_environ (launch : Launch) (ssh : SshHandoff) (toJson : CapabilityPlan → String)
    (ambient : Vars) :
    Control.read (launch.environ ssh toJson ambient) =
      { launch.control ssh toJson with
        proxyRelayPort := getenv (launch.environ ssh toJson ambient) "DEVCROFT_PROXY_RELAY_PORT"
        proxySocket := getenv (launch.environ ssh toJson ambient) "DEVCROFT_PROXY_SOCKET" } := by
  have hset : ∀ name value, '=' ∉ name.toList →
      lastCall name (launch.controlCalls ssh toJson) = some (.env name value) →
      getenv (launch.environ ssh toJson ambient) name = some value :=
    fun _ _ hname h => getenv_environ hname h
  unfold Control.read Launch.control
  congr 1
  all_goals
    refine hset _ _ (by decide) ?_
    rw [Launch.controlCalls]
    cases launch.relay <;> simp [lastCall, Call.key]

/-- With a relay, its variables are read as `up` set them too. -/
theorem read_environ_relay {launch : Launch} {relay : UInt16 × String}
    (hrelay : launch.relay = some relay) (ssh : SshHandoff) (toJson : CapabilityPlan → String)
    (ambient : Vars) :
    Control.read (launch.environ ssh toJson ambient) = launch.control ssh toJson := by
  rw [read_environ]
  have hport : getenv (launch.environ ssh toJson ambient) "DEVCROFT_PROXY_RELAY_PORT" =
      some (Nat.repr relay.1.toNat) := by
    refine getenv_environ (by decide) ?_
    rw [Launch.controlCalls, hrelay]
    simp [lastCall, Call.key]
  have hsocket : getenv (launch.environ ssh toJson ambient) "DEVCROFT_PROXY_SOCKET" =
      some relay.2 := by
    refine getenv_environ (by decide) ?_
    rw [Launch.controlCalls, hrelay]
    simp [lastCall, Call.key]
  rw [hport, hsocket, Launch.control, hrelay]
  rfl

/-- With a relay, the keeper reads what `up` set, and without one it does so exactly when nothing
else sets the relay's variables. -/
theorem read_environ_iff {input : UpInput} {root exe : String} {resolution : Resolution}
    {shell : ResolvedShell} {compiled : CompiledPolicy} {proxy : Option (UInt16 × String)}
    {services isolated : Bool} {ssh : SshHandoff} {toJson : CapabilityPlan → String}
    {ambient : Vars} :
    Control.read ((keeperLaunch input root exe resolution shell compiled proxy services
        isolated).environ ssh toJson ambient) =
      (keeperLaunch input root exe resolution shell compiled proxy services isolated).control
        ssh toJson ↔
    (isolated = true ∧ proxy.isSome = true) ∨
      ∀ name ∈ RELAY_VARS, NotSet ambient input resolution name := by
  cases hrelay :
      (keeperLaunch input root exe resolution shell compiled proxy services isolated).relay with
  | some relay =>
    refine iff_of_true (read_environ_relay hrelay ssh toJson ambient) (Or.inl ?_)
    have hsome : (if isolated then proxy.map _ else none) = some relay := hrelay
    cases isolated with
    | false => cases hsome
    | true =>
      obtain ⟨p, hp, -⟩ := Option.map_eq_some_iff.mp hsome
      exact ⟨rfl, by rw [hp]; rfl⟩
  | none =>
    have hnone : ¬(isolated = true ∧ proxy.isSome = true) := by
      rintro ⟨rfl, hp⟩
      obtain ⟨p, rfl⟩ := Option.isSome_iff_exists.mp hp
      cases hrelay
    have hread :
        ∀ name ∈ RELAY_VARS, (getenv ((keeperLaunch input root exe resolution shell compiled
        proxy services isolated).environ ssh toJson ambient) name = none ↔
          NotSet ambient input resolution name) :=
      fun name hname => getenv_environ_eq_none_iff hrelay hname
    rw [read_environ, Launch.control, hrelay, or_iff_right hnone]
    simp only [Option.map_none, Control.mk.injEq, true_and]
    simp only [RELAY_VARS, List.forall_mem_cons] at hread ⊢
    obtain ⟨hport, hsocket, -⟩ := hread
    rw [hport, hsocket]
    simp

/-- A manifest that sets the relay's variables for its sessions. -/
def relayingInput : UpInput :=
  { sampleInput [] with
    manifest :=
      { (sampleInput []).manifest with
        env := ⟨"flox", [("DEVCROFT_PROXY_RELAY_PORT", "8080"),
          ("DEVCROFT_PROXY_SOCKET", "/home/u/p/.sock")]⟩ } }

/-- A keeper for which `up` has no relay. -/
def relayingLaunch : Launch :=
  keeperLaunch relayingInput "/home/u/.local/share/devcroft/p" "/opt/devcroft/devcroft"
    ⟨[("PATH", "/nix/store/s/bin")], [], ["/nix/store"], none, .declared [], false⟩
    ⟨"/nix/store/b/bin/sh", none⟩ (compile .linux relayingInput.manifest) none false false

/-- A plan as JSON, if its paths need no escapes. -/
def planJson (plan : CapabilityPlan) : String :=
  let array := fun items : List String => "[" ++ ",".intercalate items ++ "]"
  let texts := fun items : List String => array (items.map fun item => "\"" ++ item ++ "\"")
  "\x7b\"filesystem_allow\":" ++ texts plan.filesystemAllow ++
    ",\"filesystem_read\":" ++ texts plan.filesystemRead ++
    ",\"filesystem_deny\":" ++ texts plan.filesystemDeny ++
    ",\"network_block\":" ++ toString plan.networkBlock ++
    ",\"network_ports\":" ++ array (plan.networkPorts.map fun port => Nat.repr port.toNat) ++
    ",\"network_proxy_port\":" ++
      (plan.networkProxyPort.elim "null" fun port => Nat.repr port.toNat) ++
    ",\"unix_socket_bind\":" ++ texts plan.unixSocketBind ++
    ",\"signal_mode\":\"" ++ plan.signalMode ++ "\"\x7d"

/-- It binds a port and relays it all the same. -/
theorem not_read_environ_relaying :
    relayingLaunch.relay = none ∧
    (Control.read (relayingLaunch.environ ⟨"host key", "client key"⟩ planJson ∅)).relay =
      some (8080, "/home/u/p/.sock") ∧
    Control.read (relayingLaunch.environ ⟨"host key", "client key"⟩ planJson ∅) ≠
      relayingLaunch.control ⟨"host key", "client key"⟩ planJson := by
  have hport : getenv (relayingLaunch.environ ⟨"host key", "client key"⟩ planJson ∅)
      "DEVCROFT_PROXY_RELAY_PORT" = some "8080" := getenv_inherit (by decide) (by decide +kernel)
  have hsocket : getenv (relayingLaunch.environ ⟨"host key", "client key"⟩ planJson ∅)
      "DEVCROFT_PROXY_SOCKET" = some "/home/u/p/.sock" :=
    getenv_inherit (by decide) (by decide +kernel)
  rw [read_environ, hport, hsocket]
  refine ⟨rfl, by decide +kernel, fun heq => ?_⟩
  cases congrArg Control.proxyRelayPort heq

end Devcroft.Lifecycle
