import Devcroft.Lifecycle.Handover

/-!
# Whether an activation depends on the caller

A provider reports how its activation differs from a fixed environment, and the keeper
gets the difference on top of the environment in which `up` runs. What the activation
left as it was is in no difference.
-/

namespace Devcroft.Lifecycle

open Environ Provider

/-- The environment that `spawn_keeper` makes of an activation, before the control variables. -/
def activationEnviron (ambient baseline activated : Vars) : Vars :=
  inherit ambient (overlay (changedEnv baseline activated).toList (unsetEnv baseline activated))

/-- It is the one of a keeper, when the manifest sets no variables and there is no proxy. -/
theorem inherit_overlay_keeperLaunch {input : UpInput} {root exe : String} {resolution : Resolution}
    {shell : ResolvedShell} {compiled : Policy.CompiledPolicy} {services isolated : Bool}
    {ambient baseline activated : Vars} (hvars : input.manifest.env.vars = [])
    (henv : resolution.env = (changedEnv baseline activated).toList)
    (hunset : resolution.unset = unsetEnv baseline activated) :
    inherit ambient (overlay
        (keeperLaunch input root exe resolution shell compiled none services isolated).env
        (keeperLaunch input root exe resolution shell compiled none services isolated).unset) =
      activationEnviron ambient baseline activated := by
  have hall : ∀ key, (!input.manifest.env.vars.any fun entry => entry.1 == key) = true := by
    rw [hvars]
    exact fun _ => rfl
  have hkeep : keeperUnset input resolution = resolution.unset :=
    List.filter_eq_self.mpr fun key _ => hall key
  have hsame : keeperEnv input resolution none = resolution.env := by
    rw [keeperEnv, hvars]
    rfl
  change inherit ambient
    (overlay (keeperEnv input resolution none) (keeperUnset input resolution)) = _
  rw [hkeep, hsame, henv, hunset, activationEnviron]

/-- Every variable that the activation was given or gave has the value that the activation gave. -/
def Reproduces (ambient baseline activated : Vars) : Prop :=
  ∀ key, key ∈ baseline ∨ key ∈ activated →
    (activationEnviron ambient baseline activated)[key]? = activated[key]?

/-- One variable of the keeper's environment. -/
theorem getElem?_activationEnviron (ambient baseline activated : Vars) (key : String) :
    (activationEnviron ambient baseline activated)[key]? =
      if key ∈ baseline ∧ key ∉ activated then none
      else (activated[key]?.filter fun value => baseline[key]? ≠ some value).or ambient[key]? := by
  rw [activationEnviron, getElem?_overlay, lastValue_toList, getElem?_changedEnv]
  exact if_congr mem_unsetEnv rfl rfl

/-- Exactly when the keeper's environment does not depend on the caller: the caller has the same
value of every variable that the activation left as it was. -/
theorem reproduces_iff {ambient baseline activated : Vars} :
    Reproduces ambient baseline activated ↔
      ∀ key value : String, baseline[key]? = some value → activated[key]? = some value →
        ambient[key]? = some value := by
  have hmem : ∀ (vars : Vars) key, key ∈ vars ↔ vars[key]? ≠ none := by
    intro vars key
    rw [Std.TreeMap.mem_iff_isSome_getElem?, Option.isSome_iff_ne_none]
  unfold Reproduces
  refine forall_congr' fun key => ?_
  rw [getElem?_activationEnviron]
  simp only [hmem]
  cases hactivated : activated[key]? with
  | none =>
    -- Removed, or of neither map.
    cases baseline[key]? <;> simp
  | some value =>
    by_cases hsame : baseline[key]? = some value
    · simp [hsame]
    · have hfilter :
          (some value).filter (fun v => decide (baseline[key]? ≠ some v)) = some value := by
        simp [hsame]
      rw [hfilter]
      simp only [reduceCtorEq, ne_eq, not_false_eq_true, not_true_eq_false, and_false, if_false,
        Option.some_or, or_true, true_implies, true_iff]
      rintro value' hbaseline heq
      exact (hsame (heq ▸ hbaseline)).elim

/-- The environment with which an activation runs. -/
def sampleBaseline : Vars := .ofList [("HOME", "/home/u"), ("PATH", CANONICAL_PATH)]

/-- An activation that sets a variable of its own, and leaves `PATH` as it was. -/
def sampleActivated : Vars :=
  .ofList [("HOME", "/home/u"), ("PATH", CANONICAL_PATH), ("RUST_BACKTRACE", "1")]

/-- A shell with tools of the operator's own. -/
def sampleAmbient : Vars :=
  .ofList [("HOME", "/home/u"), ("PATH", "/home/u/.cargo/bin:/usr/bin"), ("RUST_BACKTRACE", "full")]

/-- The sandbox gets them. -/
theorem not_reproduces_path :
    (activationEnviron sampleAmbient sampleBaseline sampleActivated)["PATH"]? =
      some "/home/u/.cargo/bin:/usr/bin" ∧
    sampleActivated["PATH"]? = some CANONICAL_PATH ∧
    ¬Reproduces sampleAmbient sampleBaseline sampleActivated := by
  have hpath : (activationEnviron sampleAmbient sampleBaseline sampleActivated)["PATH"]? =
      some "/home/u/.cargo/bin:/usr/bin" := by
    rw [getElem?_activationEnviron]
    decide +kernel
  have hactivated : sampleActivated["PATH"]? = some CANONICAL_PATH := by decide +kernel
  refine ⟨hpath, hactivated, fun h => ?_⟩
  have heq := h "PATH" (Or.inl (by decide +kernel))
  rw [hpath, hactivated] at heq
  revert heq
  decide +kernel

end Devcroft.Lifecycle
