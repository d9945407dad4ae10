import Devcroft.Policy.Denials

/-!
# Warnings about credential directories

A credential directory that the manifest grants gets no baseline denial; the compiler
relies on the validator to have warned about the grant. The compiler looks through the
`allow` and the `read` entries, the validator through the `allow` entries only.
-/

namespace Devcroft.Policy

open Config Paths

/-- A warning names an entry of the manifest that covers a path. -/
def WarnedAbout (manifest : Manifest) (warnings : List Warning) (s : String) : Prop :=
  ∃ field path, Warning.sensitivePath field path ∈ warnings ∧
    ((field = "allow" ∧ path ∈ manifest.filesystem.allow) ∨
      (field = "read" ∧ path ∈ manifest.filesystem.read)) ∧ isWithin s path = true

/-- A credential directory is denied by the compiled policy, or its grant is warned about. -/
def DeniedOrWarned (platform : Platform) (manifest : Manifest) (warnings : List Warning)
    (s : String) : Prop :=
  ⟨s, .baseline⟩ ∈ (compile platform manifest).filesystemDeny ∨ WarnedAbout manifest warnings s

/-- The baseline denies a credential directory exactly where no entry of the manifest covers it. -/
theorem mem_compile_deny_iff {platform : Platform} {manifest : Manifest} {s : String}
    (hs : s ∈ SENSITIVE_PATHS) :
    ⟨s, .baseline⟩ ∈ (compile platform manifest).filesystemDeny ↔
      ∀ g ∈ manifest.filesystem.allow ++ manifest.filesystem.read, isWithin s g = false := by
  have hdata : s ≠ DEVCROFT_DATA_DIR := by
    rintro rfl
    exact absurd hs (by decide)
  have hsensitive : s ∈ sensitiveDenials (manifest.filesystem.allow ++ manifest.filesystem.read) ↔
      ∀ g ∈ manifest.filesystem.allow ++ manifest.filesystem.read, isWithin s g = false := by
    simp [sensitiveDenials, hs, or_imp, forall_and]
  rw [← hsensitive]
  simp [compile, hdata]

/-- A warning names exactly the `allow` entries that cover a credential directory. -/
theorem sensitivePath_mem_collectWarnings (env : Env) (fs : Filesystem) (field path : String) :
    Warning.sensitivePath field path ∈ collectWarnings env fs ↔
      field = "allow" ∧ path ∈ fs.allow ∧ ∃ s ∈ SENSITIVE_PATHS, isWithin s path = true := by
  have htail : Warning.sensitivePath field path ∉
      (if env.vars.any fun entry => entry.2.toList.contains '$' then [Warning.noInterpolation]
        else []) := by
    split <;> simp
  rw [collectWarnings, List.mem_append, or_iff_left htail]
  simp only [List.mem_map, List.mem_filter, List.any_eq_true, Warning.sensitivePath.injEq]
  constructor
  · rintro ⟨entry, ⟨hallow, hcovers⟩, rfl, rfl⟩
    exact ⟨rfl, hallow, hcovers⟩
  · rintro ⟨rfl, hallow, hcovers⟩
    exact ⟨path, ⟨hallow, hcovers⟩, rfl, rfl⟩

/-- There is a warning about a credential directory exactly when an `allow` entry covers it. -/
theorem warnedAbout_iff {manifest : Manifest} {s : String} (hs : s ∈ SENSITIVE_PATHS) :
    WarnedAbout manifest (collectWarnings manifest.env manifest.filesystem) s ↔
      ∃ g ∈ manifest.filesystem.allow, isWithin s g = true := by
  constructor
  · rintro ⟨field, path, hwarning, -, hwithin⟩
    exact ⟨path, ((sensitivePath_mem_collectWarnings _ _ _ _).mp hwarning).2.1, hwithin⟩
  · rintro ⟨g, hg, hwithin⟩
    have hwarning := (sensitivePath_mem_collectWarnings manifest.env manifest.filesystem "allow"
      g).mpr ⟨rfl, hg, s, hs, hwithin⟩
    exact ⟨"allow", g, hwarning, Or.inl ⟨rfl, hg⟩, hwithin⟩

/-- Exactly when a credential directory is denied or its grant is warned about: if a `read` entry
covers it, then an `allow` entry does, too. -/
theorem deniedOrWarned_iff {toml : Toml} {text : String} {manifest : Manifest}
    {warnings : List Warning} (hparse : parse toml text = .ok (manifest, warnings))
    (platform : Platform) {s : String} (hs : s ∈ SENSITIVE_PATHS) :
    DeniedOrWarned platform manifest warnings s ↔
      ((∃ g ∈ manifest.filesystem.read, isWithin s g = true) →
        ∃ g ∈ manifest.filesystem.allow, isWithin s g = true) := by
  rw [DeniedOrWarned, mem_compile_deny_iff hs, parse_warnings hparse, warnedAbout_iff hs]
  constructor
  · rintro (hnone | hallow) ⟨g, hg, hwithin⟩
    · rw [hnone g (List.mem_append_right _ hg)] at hwithin
      cases hwithin
    · exact hallow
  · intro hread
    by_cases hallow : ∃ g ∈ manifest.filesystem.allow, isWithin s g = true
    · exact Or.inr hallow
    · left
      intro g hg
      by_contra hwithin
      rw [Bool.not_eq_false] at hwithin
      rcases List.mem_append.mp hg with hg | hg
      · exact hallow ⟨g, hg, hwithin⟩
      · exact hallow (hread ⟨g, hg, hwithin⟩)

/-- A manifest text with these `read` entries. -/
def readToml (read : List String) : Toml where
  parse _ := .ok []
  tryInto _ := .ok { RawManifest.default with
    sandbox := ⟨some "p", none⟩
    filesystem := ⟨["."], read, []⟩ }

/-- The manifest with these `read` entries. -/
def readManifest (read : List String) : Manifest :=
  { sampleManifest ["."] with filesystem := ⟨["."], read, []⟩ }

/-- Where nothing below the home directory is granted, the keys are denied. -/
theorem deniedOrWarned_project :
    DeniedOrWarned .linux (readManifest []) [] "~/.ssh" := by
  have hparse : parse (readToml []) "" = .ok (readManifest [], []) := by decide
  exact (deniedOrWarned_iff hparse .linux (by decide)).mpr (by decide)

/-- Reading `~/.ssh` is granted without a denial and without a warning. -/
theorem not_deniedOrWarned_read :
    parse (readToml ["~/.ssh"]) "" = .ok (readManifest ["~/.ssh"], []) ∧
      "~/.ssh" ∈ SENSITIVE_PATHS ∧
      ¬DeniedOrWarned .linux (readManifest ["~/.ssh"]) [] "~/.ssh" := by
  refine ⟨by decide, by decide, ?_⟩
  rintro (hdenied | ⟨field, path, hwarning, -⟩)
  · exact absurd hdenied (by decide)
  · exact (nomatch hwarning)

end Devcroft.Policy
