import Devcroft.Library.Text

/-!
# Provider names

Which values of `env.provider` devcroft accepts, why it refuses the others, and the
implementations that the accepted names stand for.
-/

namespace Devcroft.Provider

/-- `ProviderError`. -/
inductive ProviderError where
  /-- The name stands for something that devcroft will never support. -/
  | outOfScope (name reason : String)
  /-- The name is a toolchain manager of one ecosystem. -/
  | versionManager (name reason : String)
  /-- The provider is on the roadmap but not built. -/
  | notYetSupported (name reason : String)
  /-- Nothing is known under the name. -/
  | unknown (name : String)
  /-- The provider's binary is not on `PATH`. -/
  | missingBinary (provider hint : String)
  /-- The project has no environment to activate. -/
  | noEnvironment (provider hint : String)
  /-- The environment has no lockfile. -/
  | missingLock (provider hint : String)
  /-- The provider's own resolution failed. -/
  | resolutionFailed (msg : String)
  deriving DecidableEq

/-- A `ProviderError` as it is displayed. -/
def ProviderError.display : ProviderError → String
  | outOfScope name reason => "provider `" ++ name ++ "` is out of scope: " ++ reason
  | versionManager name reason => "provider `" ++ name ++ "` is not supported: " ++ reason
  | notYetSupported name reason => "provider `" ++ name ++ "` is not yet supported: " ++ reason
  | unknown name =>
    "unknown provider `" ++ name ++
      "`; devcroft supports `flox`, `nix`, and `devbox` in this release"
  | missingBinary provider hint =>
    "`" ++ provider ++ "` is not installed or not on PATH; run `" ++ hint ++ "`"
  | noEnvironment provider hint =>
    "no " ++ provider ++ " environment found in this project; run `" ++ hint ++ "`"
  | missingLock provider hint =>
    "no lockfile found for the " ++ provider ++ " environment; run `" ++ hint ++ "`"
  | resolutionFailed msg => "provider resolution failed: " ++ msg

def OUT_OF_SCOPE_REASON : String :=
  "devcroft has no non-reproducible mode; every sandbox is backed " ++
    "by a declarative environment. Run `flox init`, not a degraded mode."

def OUT_OF_SCOPE : List String := ["host", "none"]

def VERSION_MANAGER_REASON : String :=
  "version managers install imperatively and cannot guarantee " ++
    "a restorable lockfile, a complete build environment, and preconditions verifiable at `up`; " ++
    "see docs/decisions.md §1"

def VERSION_MANAGERS : List String :=
  ["rustup", "nvm", "pyenv", "rbenv", "sdkman", "ghcup", "asdf", "proto"]

/-- Provider names that devcroft resolves, the aliases of `nix` included. -/
def SUPPORTED : List String := ["flox", "nix", "flake", "flakes", "devbox"]

def NOT_YET_SUPPORTED : List (String × String) :=
  [("mise", "mise is a qualified provider (artifact tier) but not yet scheduled"),
    ("devenv", "devenv is a qualified provider (closure tier) but not yet scheduled"),
    ("pixi", "pixi is a qualified provider (artifact tier) but not yet scheduled"),
    ("hermit", "hermit is a qualified provider (artifact tier) but not yet scheduled")]

/-- `validate_provider`. -/
def validateProvider (name : String) : Except ProviderError Unit :=
  if SUPPORTED.contains name then .ok ()
  else if OUT_OF_SCOPE.contains name then .error (.outOfScope name OUT_OF_SCOPE_REASON)
  else if VERSION_MANAGERS.contains name then .error (.versionManager name VERSION_MANAGER_REASON)
  else
    match NOT_YET_SUPPORTED.find? fun entry => entry.1 == name with
    | some (_, reason) => .error (.notYetSupported name reason)
    | none => .error (.unknown name)

/-- `normalize_provider_name`: the aliases of `nix` fold into it. -/
def normalizeProviderName (name : String) : String :=
  if name = "flake" ∨ name = "flakes" then "nix" else name

/-- `ProviderKind`. -/
inductive ProviderKind where
  | flox
  | nix
  | devbox
  deriving DecidableEq

/-- `ProviderKind::from_name`. -/
def ProviderKind.fromName (name : String) : Except ProviderError ProviderKind :=
  if name = "flox" then .ok .flox
  else if name = "nix" then .ok .nix
  else if name = "devbox" then .ok .devbox
  else .error (.unknown name)

/-- `ProviderKind::static_name`. -/
def ProviderKind.staticName : ProviderKind → String
  | flox => "flox"
  | nix => "nix"
  | devbox => "devbox"

/-- Every accepted name, once normalized, stands for an implementation of the same name. -/
theorem fromName_normalizeProviderName {name : String} (h : validateProvider name = .ok ()) :
    ∃ kind, ProviderKind.fromName (normalizeProviderName name) = .ok kind ∧
      kind.staticName = normalizeProviderName name := by
  have hsupported : name ∈ SUPPORTED := by
    unfold validateProvider at h
    split at h
    · next hmem => simpa using hmem
    · split at h
      · cases h
      · split at h
        · cases h
        · split at h <;> cases h
  simp only [SUPPORTED, List.mem_cons, List.not_mem_nil, or_false] at hsupported
  rcases hsupported with rfl | rfl | rfl | rfl | rfl
  · exact ⟨.flox, by decide⟩
  · exact ⟨.nix, by decide⟩
  · exact ⟨.nix, by decide⟩
  · exact ⟨.nix, by decide⟩
  · exact ⟨.devbox, by decide⟩

end Devcroft.Provider
