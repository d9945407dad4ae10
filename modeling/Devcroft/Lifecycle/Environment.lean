import Devcroft.Lifecycle.Handover

/-!
# Which variables a keeper has

The environment of a keeper is put together from six sources: what controls the keeper, what the
provider takes away, the settings for the proxy, the manifest, the provider, and the caller of `up`.
For each variable one of them decides.
-/

namespace Devcroft.Lifecycle

open Environ Config Policy Provider

section Inserting

variable {env : List (String × String)} {key name value : String}

/-- A map with another entry. -/
theorem lastValue_insertVar :
    lastValue name (insertVar env key value) = if name = key then some value else
      lastValue name env := by
  rw [insertVar, lastValue_append, lastValue_singleton]
  split
  · rfl
  · next hkey => rw [Option.none_or, lastValue_filter hkey]

/-- A map with the entries of another one. -/
theorem lastValue_insertVars (entries : List (String × String)) :
    lastValue name (entries.foldl (fun env entry => insertVar env entry.1 entry.2) env) =
      (lastValue name entries).or (lastValue name env) := by
  induction entries generalizing env with
  | nil => rfl
  | cons entry entries ih =>
    rw [List.foldl_cons, ih, lastValue_insertVar, ← List.singleton_append, lastValue_append,
      lastValue_singleton]
    split <;> simp

/-- A map with one value for several keys. -/
theorem lastValue_insertSame (keys : List String) :
    lastValue name (keys.foldl (fun env key => insertVar env key value) env) =
      if name ∈ keys then some value else lastValue name env := by
  induction keys generalizing env with
  | nil => simp
  | cons key keys ih =>
    rw [List.foldl_cons, ih, lastValue_insertVar]
    by_cases hkey : name = key <;> by_cases hmem : name ∈ keys <;> simp [hkey, hmem]

end Inserting

/-- The variables for clients of the proxy. -/
def proxyVariable (proxy : Option (UInt16 × String)) (key : String) : Option String :=
  match proxy with
  | none => none
  | some (port, token) =>
    if key ∈ NO_PROXY_VARS then some "localhost,127.0.0.1,::1"
    else if key ∈ PROXY_VARS then some (proxyEndpoint port token)
    else none

/-- The variables that control the keeper. -/
def Launch.controlVariable (launch : Launch) (ssh : SshHandoff) (toJson : CapabilityPlan → String)
    (key : String) : Option String :=
  (lastCall key (launch.controlCalls ssh toJson)).bind Call.value

/-- The variables that the sessions are meant to have, where the caller of `up` has these. -/
def sessionVariable (input : UpInput) (resolution : Resolution) (proxy : Option (UInt16 × String))
    (ambient : Vars) (key : String) : Option String :=
  if key ∈ resolution.unset ∧ key ∉ input.manifest.env.vars.map Prod.fst then none
  else (proxyVariable proxy key).or ((lastValue key input.manifest.env.vars).or
    ((lastValue key resolution.env).or ambient[key]?))

section Keepers

variable {input : UpInput} {root exe : String} {resolution : Resolution} {shell : ResolvedShell}
  {compiled : CompiledPolicy} {proxy : Option (UInt16 × String)} {services isolated : Bool}

/-- The variables that `up_process` sets for the sessions: the proxy's before the manifest's, the
manifest's before the provider's. -/
theorem lastValue_keeperEnv (key : String) :
    lastValue key (keeperEnv input resolution proxy) =
      (proxyVariable proxy key).or
        ((lastValue key input.manifest.env.vars).or (lastValue key resolution.env)) := by
  cases proxy with
  | none => exact lastValue_insertVars _
  | some proxy =>
    obtain ⟨port, token⟩ := proxy
    simp only [keeperEnv, proxyVariable, lastValue_insertSame, lastValue_insertVars]
    split
    · rfl
    · split <;> simp

/-- A control call sets its variable. -/
theorem Launch.value_of_mem_controlCalls {launch : Launch} {ssh : SshHandoff}
    {toJson : CapabilityPlan → String} {c : Call} (hc : c ∈ launch.controlCalls ssh toJson) :
    ∃ value, c.value = some value := by
  rw [Launch.controlCalls] at hc
  rcases List.mem_append.mp hc with hc | hc
  · simp only [List.mem_cons, List.not_mem_nil, or_false] at hc
    obtain rfl | rfl | rfl | rfl | rfl | rfl | rfl := hc <;> exact ⟨_, rfl⟩
  · cases hrelay : launch.relay with
    | none =>
      rw [hrelay] at hc
      cases hc
    | some relay =>
      rw [hrelay] at hc
      simp only [List.mem_cons, List.not_mem_nil, or_false] at hc
      obtain rfl | rfl := hc <;> exact ⟨_, rfl⟩

/-- Each variable of the keeper that `up` starts, by what decides about it. -/
theorem getElem?_environ (ssh : SshHandoff) (toJson : CapabilityPlan → String) (ambient : Vars)
    (key : String) :
    ((keeperLaunch input root exe resolution shell compiled proxy services isolated).environ ssh
        toJson ambient)[key]? =
      ((keeperLaunch input root exe resolution shell compiled proxy services
        isolated).controlVariable ssh toJson key).or
          (sessionVariable input resolution proxy ambient key) := by
  rw [Launch.environ, inherit_append, getElem?_inherit, Launch.controlVariable]
  cases hlast : lastCall key ((keeperLaunch input root exe resolution shell compiled proxy services
      isolated).controlCalls ssh toJson) with
  | some c =>
    have hmem := List.mem_reverse.mp (List.mem_of_find?_eq_some hlast)
    obtain ⟨value, hvalue⟩ := Launch.value_of_mem_controlCalls hmem
    simp [hvalue]
  | none =>
    rw [Option.bind_none, Option.none_or]
    change (inherit ambient (overlay (keeperEnv input resolution proxy)
      (keeperUnset input resolution)))[key]? = _
    rw [getElem?_overlay, lastValue_keeperEnv, sessionVariable]
    simp only [mem_keeperUnset, Option.or_assoc]

end Keepers

end Devcroft.Lifecycle
