import Devcroft.Policy.Denials

/-!
# Lexical paths and resolved paths

Every lexical check of the policy reads a path string as a root marker with components.
`resolve` reads the same string again, by stripping a prefix and joining the rest to a
directory. The two readings agree except on values of the form `~//...`.
-/

namespace Devcroft.Policy

open Config Paths Posix

/-- The directory that each root marker stands for. -/
def Host.dirOf (host : Host) (projectRoot : String) : Root → String
  | .home => host.home
  | .absolute => "/"
  | .project => projectRoot

/-- Whether a path lies at or under another one, component by component. -/
def AtOrUnder (path base : String) : Prop :=
  isAbsolute path = isAbsolute base ∧ names base <+: names path

instance (path base : String) : Decidable (AtOrUnder path base) :=
  inferInstanceAs (Decidable (_ ∧ _))

/-- A value is resolved as it is written: to the directory of its root marker, followed by exactly
its components. -/
def ResolvedAsWritten (host : Host) (projectRoot value : String) : Prop :=
  isAbsolute (resolve host projectRoot value).1 = true ∧
    names (resolve host projectRoot value).1 =
      names (host.dirOf projectRoot (components value).1) ++ (components value).2

/-- The lexical model agrees with path resolution on two values. -/
def LexicalAgrees (host : Host) (projectRoot a b : String) : Prop :=
  ((components a).1 = (components b).1 →
    (isWithin a b = true ↔
      AtOrUnder (resolve host projectRoot a).1 (resolve host projectRoot b).1)) ∧
    ResolvedAsWritten host projectRoot a ∧ ResolvedAsWritten host projectRoot b

@[simp] theorem names_slash : names "/" = [] := by decide

/-- A resolved value has the names of its real root's directory and then its components. -/
theorem names_resolve (host : Host) (projectRoot value : String) :
    names (resolve host projectRoot value).1 =
      names (host.dirOf projectRoot (realRoot value)) ++ (components value).2 := by
  rcases rootOf_cases value with rfl | ⟨rest, rfl⟩ | habs | ⟨hne, hstrip, hrel, hroot⟩
  · have hreal : realRoot "~" = .home := by decide
    have hcomponents : (components "~").2 = [] := by decide
    rw [hreal, hcomponents, resolve, if_pos rfl, List.append_nil]
    rfl
  · rw [resolve_tilde_append, components_snd, rootOf_tilde_append, realRoot,
      isDoubled_tilde_append]
    cases habs : isAbsolute rest with
    | true =>
      simp [join, habs, Host.dirOf]
    | false =>
      rw [names_join _ habs]
      simp [components, Host.dirOf]
  · rw [resolve_of_isAbsolute habs, realRoot_of_isAbsolute habs, components_of_isAbsolute habs,
      Host.dirOf, names_slash, List.nil_append]
  · have hreal : realRoot value = .project := by
      simp [realRoot, isDoubled_of_stripPrefix hstrip, components, hroot]
    rw [resolve_of_relative hne hstrip hrel, names_join _ hrel, hreal, components_snd, hroot]
    rfl

/-- Below an absolute `HOME` and project root, every value is resolved to an absolute path. -/
theorem isAbsolute_resolve {host : Host} {projectRoot : String}
    (hhome : isAbsolute host.home = true) (hroot : isAbsolute projectRoot = true)
    (value : String) : isAbsolute (resolve host projectRoot value).1 = true := by
  rcases rootOf_cases value with rfl | ⟨rest, rfl⟩ | habs | ⟨hne, hstrip, hrel, -⟩
  · rwa [resolve, if_pos rfl]
  · rw [resolve_tilde_append]
    exact isAbsolute_join hhome rest
  · rwa [resolve_of_isAbsolute habs]
  · rw [resolve_of_relative hne hstrip hrel]
    exact isAbsolute_join hroot value

/-- A value of the form `~//...` is lexically home-relative. -/
theorem components_of_isDoubled {value : String} (h : isDoubled value = true) :
    (components value).1 = .home := by
  rcases rootOf_cases value with rfl | ⟨rest, rfl⟩ | habs | ⟨-, hstrip, -, -⟩
  · rfl
  · rw [components, rootOf_tilde_append]
  · obtain ⟨rest, rfl⟩ := isAbsolute_iff.mp habs
    simp [isDoubled, Text.startsWith, String.toList_append, List.isPrefixOf] at h
  · rw [isDoubled_of_stripPrefix hstrip] at h
    cases h

/-- Exactly when a value is resolved as it is written: it is not of the form `~//...`, or the home
directory is the root of the tree. -/
theorem resolvedAsWritten_iff {host : Host} {projectRoot : String}
    (hhome : isAbsolute host.home = true) (hroot : isAbsolute projectRoot = true)
    (value : String) :
    ResolvedAsWritten host projectRoot value ↔ (isDoubled value = true → names host.home = []) := by
  have hslash : names (host.dirOf projectRoot .absolute) = [] := names_slash
  rw [ResolvedAsWritten, and_iff_right (isAbsolute_resolve hhome hroot value), names_resolve,
    List.append_left_inj]
  by_cases hdoubled : isDoubled value = true
  · rw [realRoot, if_pos hdoubled, components_of_isDoubled hdoubled, hslash]
    exact ⟨fun h _ => h.symm, fun h => (h hdoubled).symm⟩
  · rw [realRoot, if_neg hdoubled]
    exact ⟨fun _ h => (hdoubled h).elim, fun _ => rfl⟩

/-- Of two values that are resolved as they are written, under one root marker, one is within the
other exactly when its path lies at or under the other's. -/
theorem ResolvedAsWritten.isWithin_iff {host : Host} {projectRoot a b : String}
    (ha : ResolvedAsWritten host projectRoot a) (hb : ResolvedAsWritten host projectRoot b)
    (hsame : (components a).1 = (components b).1) :
    isWithin a b = true ↔
      AtOrUnder (resolve host projectRoot a).1 (resolve host projectRoot b).1 := by
  rw [Paths.isWithin_iff, AtOrUnder, ha.1, hb.1, ha.2, hb.2, hsame, List.prefix_append_right_inj]
  simp

/-- Exactly when the lexical model agrees with path resolution: neither value is of the form
`~//...`, unless the home directory is the root of the tree. -/
theorem lexicalAgrees_iff {host : Host} {projectRoot : String}
    (hhome : isAbsolute host.home = true) (hroot : isAbsolute projectRoot = true)
    (a b : String) :
    LexicalAgrees host projectRoot a b ↔
      (isDoubled a = true ∨ isDoubled b = true → names host.home = []) := by
  rw [or_imp, ← resolvedAsWritten_iff hhome hroot a, ← resolvedAsWritten_iff hhome hroot b]
  constructor
  · intro h
    exact h.2
  · intro h
    exact ⟨h.1.isWithin_iff h.2, h⟩

/-- On a file of the project and the project itself the readings agree. -/
theorem lexicalAgrees_project : LexicalAgrees sampleHost "/home/u/p" "./src//x" "." := by
  have hhome : isAbsolute sampleHost.home = true := by decide
  have hroot : isAbsolute "/home/u/p" = true := by decide
  refine (lexicalAgrees_iff hhome hroot "./src//x" ".").mpr ?_
  decide

/-- `~//etc` is accepted and counts as a path below the home directory, but leads to `/etc`. -/
theorem not_lexicalAgrees_doubled :
    checkFilesystem ⟨["~", "~//etc"], [], []⟩ = .ok () ∧
    isAbsolute sampleHost.home = true ∧ isWithin "~//etc" "~" = true ∧
    resolve sampleHost "/home/u/p" "~//etc" = ("/etc", false) ∧
    resolve sampleHost "/home/u/p" "~" = ("/home/u", false) ∧
    ¬AtOrUnder (resolve sampleHost "/home/u/p" "~//etc").1
      (resolve sampleHost "/home/u/p" "~").1 ∧
    ¬LexicalAgrees sampleHost "/home/u/p" "~//etc" "~" := by
  have hunder : ¬AtOrUnder (resolve sampleHost "/home/u/p" "~//etc").1
      (resolve sampleHost "/home/u/p" "~").1 := by
    decide
  refine ⟨by decide, by decide, by decide, by decide, by decide, hunder, fun h => ?_⟩
  exact hunder ((h.1 (by decide)).mp (by decide))

end Devcroft.Policy
