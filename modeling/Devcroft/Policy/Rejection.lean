import Devcroft.Policy.CapabilitySet

/-!
# Which manifests the denials reject

An accepted manifest can only deny what it grants, and a denial within a grant rejects
the whole plan. Of the baseline denials, the ones of credential directories step back
where the manifest grants them, and only the one of the data directory stays.
-/

namespace Devcroft.Policy

open Config Paths Posix

/-- What later steps of `up` fold into a compiled policy. -/
inductive Fold where
  | provider (name : String) (grants : List String)
  | keeperExe (exeDir : String)
  deriving DecidableEq

/-- The paths that a fold grants. -/
def Fold.paths : Fold → List String
  | provider _ grants => grants
  | keeperExe exeDir => [exeDir]

/-- Fold one of them in. -/
def CompiledPolicy.fold (p : CompiledPolicy) : Fold → CompiledPolicy
  | .provider name grants => p.withProviderGrants name grants
  | .keeperExe exeDir => p.withKeeperExeGrant exeDir

/-- Fold several of them in, one after the other. -/
def CompiledPolicy.folded (p : CompiledPolicy) (folds : List Fold) : CompiledPolicy :=
  folds.foldl CompiledPolicy.fold p

/-- Folds add to what is read, and to nothing else that is compared with the denials. -/
theorem folded_plan (p : CompiledPolicy) (folds : List Fold) :
    (p.folded folds).toCapabilityPlan.filesystemDeny = p.toCapabilityPlan.filesystemDeny ∧
    (p.folded folds).toCapabilityPlan.filesystemAllow = p.toCapabilityPlan.filesystemAllow ∧
    (p.folded folds).toCapabilityPlan.filesystemRead =
      p.toCapabilityPlan.filesystemRead ++ folds.flatMap Fold.paths := by
  induction folds generalizing p with
  | nil => simp [CompiledPolicy.folded]
  | cons f rest ih =>
    have hstep : (p.fold f).toCapabilityPlan.filesystemDeny = p.toCapabilityPlan.filesystemDeny ∧
        (p.fold f).toCapabilityPlan.filesystemAllow = p.toCapabilityPlan.filesystemAllow ∧
        (p.fold f).toCapabilityPlan.filesystemRead =
          p.toCapabilityPlan.filesystemRead ++ f.paths := by
      cases f <;>
        simp [CompiledPolicy.fold, CompiledPolicy.withProviderGrants, Fold.paths,
          CompiledPolicy.withKeeperExeGrant, CompiledPolicy.toCapabilityPlan, Function.comp_def]
    obtain ⟨hdeny, hallow, hread⟩ := ih (p.fold f)
    rw [hstep.1] at hdeny
    rw [hstep.2.1] at hallow
    rw [hstep.2.2] at hread
    refine ⟨hdeny, hallow, ?_⟩
    rw [List.flatMap_cons, ← List.append_assoc]
    exact hread

/-- A path below the home directory is not lexically within an absolute one. -/
theorem isWithin_of_absolute {d g : String} (hd : (components d).1 = .home)
    (hg : (components g).1 = .absolute) : isWithin d g = false := by
  by_contra hwithin
  have hsame := (isWithin_iff.mp (Bool.not_eq_false _ ▸ hwithin)).1
  rw [hd, hg] at hsame
  cases hsame

/-- What is granted beside the entries of the manifest covers no path below the home directory. -/
theorem isWithin_of_folded {platform : Platform} {manifest : Manifest} {folds : List Fold}
    (hfolds : ∀ f ∈ folds, ∀ path ∈ f.paths, isAbsolute path = true) {d g : String}
    (hd : (components d).1 = .home)
    (hg : g ∈ ((compile platform manifest).folded folds).toCapabilityPlan.filesystemAllow ++
      ((compile platform manifest).folded folds).toCapabilityPlan.filesystemRead)
    (hwithin : isWithin d g = true) :
    g ∈ manifest.filesystem.allow ++ manifest.filesystem.read := by
  obtain ⟨-, hallow, hread⟩ := folded_plan (compile platform manifest) folds
  rw [hallow, hread, ← List.append_assoc, List.mem_append] at hg
  have habsolute : (components g).1 ≠ .absolute := by
    intro habs
    rw [isWithin_of_absolute hd habs] at hwithin
    cases hwithin
  rcases hg with hg | hg
  · rcases mem_compile_grants.mp hg with hg | hg
    · exact hg
    · exact (habsolute (keeper_absolute platform hg).1).elim
  · obtain ⟨f, hf, hpath⟩ := List.mem_flatMap.mp hg
    have habs := components_of_isAbsolute (hfolds f hf g hpath)
    exact (habsolute (congrArg Prod.fst habs)).elim

/-- An entry of the manifest is granted, whatever is folded in. -/
theorem mem_folded_grants {platform : Platform} {manifest : Manifest} (folds : List Fold)
    {g : String}
    (hg : g ∈ manifest.filesystem.allow ++ manifest.filesystem.read) :
    g ∈ ((compile platform manifest).folded folds).toCapabilityPlan.filesystemAllow ++
      ((compile platform manifest).folded folds).toCapabilityPlan.filesystemRead := by
  obtain ⟨-, hallow, hread⟩ := folded_plan (compile platform manifest) folds
  rw [hallow, hread, ← List.append_assoc]
  exact List.mem_append_left _ (mem_compile_grants.mpr (Or.inl hg))

/-- The baseline denials of credential directories overlap with nothing: they are only there where
the manifest does not grant the directory. -/
theorem sensitiveDenials_apart {platform : Platform} {manifest : Manifest} {folds : List Fold}
    (hfolds : ∀ f ∈ folds, ∀ path ∈ f.paths, isAbsolute path = true) {d g : String}
    (hd : d ∈ sensitiveDenials (manifest.filesystem.allow ++ manifest.filesystem.read))
    (hg : g ∈ ((compile platform manifest).folded folds).toCapabilityPlan.filesystemAllow ++
      ((compile platform manifest).folded folds).toCapabilityPlan.filesystemRead) :
    isWithin d g = false := by
  obtain ⟨hsensitive, huncovered⟩ := List.mem_filter.mp hd
  have hhome := (baseline_home (Or.inr hsensitive)).1
  by_contra hwithin
  rw [Bool.not_eq_false] at hwithin
  have hmanifest := isWithin_of_folded hfolds hhome hg hwithin
  have hany : (manifest.filesystem.allow ++ manifest.filesystem.read).any (isWithin d) = true :=
    List.any_eq_true.mpr ⟨g, hmanifest, hwithin⟩
  simp only [hany, Bool.not_true, Bool.false_eq_true] at huncovered

/-- Exactly when the denials of an accepted manifest do not reject its plan: it denies nothing
itself, and none of its grants covers the data directory. -/
theorem checkNoDenyOverlapsAllow_folded {platform : Platform} {manifest : Manifest}
    (haccepted : manifest.filesystem.Accepted) {folds : List Fold}
    (hfolds : ∀ f ∈ folds, ∀ path ∈ f.paths, isAbsolute path = true) :
    checkNoDenyOverlapsAllow ((compile platform manifest).folded folds).toCapabilityPlan = .ok () ↔
      manifest.filesystem.deny = [] ∧
        ∀ g ∈ manifest.filesystem.allow ++ manifest.filesystem.read,
          isWithin DEVCROFT_DATA_DIR g = false := by
  rw [checkNoDenyOverlapsAllow_eq_ok_iff, (folded_plan (compile platform manifest) folds).1,
    compile_deny]
  constructor
  · intro hapart
    constructor
    · -- A denial of an accepted manifest lies within one of its grants.
      refine List.eq_nil_iff_forall_not_mem.mpr fun d hd => ?_
      obtain ⟨g, hg, hwithin⟩ := haccepted.deny_within d hd
      rw [hapart d (List.mem_append_left _ hd) g (mem_folded_grants folds hg)] at hwithin
      cases hwithin
    · intro g hg
      have hmem : DEVCROFT_DATA_DIR ∈ manifest.filesystem.deny ++ DEVCROFT_DATA_DIR ::
          sensitiveDenials (manifest.filesystem.allow ++ manifest.filesystem.read) := by
        simp
      exact hapart _ hmem g (mem_folded_grants folds hg)
  · rintro ⟨hnone, hdata⟩ d hd g hg
    rw [hnone, List.nil_append, List.mem_cons] at hd
    rcases hd with rfl | hd
    · have hhome := (baseline_home (Or.inl (Eq.refl DEVCROFT_DATA_DIR))).1
      by_contra hwithin
      rw [Bool.not_eq_false] at hwithin
      rw [hdata g (isWithin_of_folded hfolds hhome hg hwithin)] at hwithin
      cases hwithin
    · exact sensitiveDenials_apart hfolds hd hg

/-- An accepted manifest that denies something is rejected, whatever is folded in. -/
theorem checkNoDenyOverlapsAllow_of_deny (platform : Platform) {manifest : Manifest}
    (haccepted : manifest.filesystem.Accepted) (hdeny : manifest.filesystem.deny ≠ [])
    (folds : List Fold) :
    checkNoDenyOverlapsAllow ((compile platform manifest).folded folds).toCapabilityPlan ≠
      .ok () := by
  intro hok
  obtain ⟨d, hd⟩ := List.exists_mem_of_ne_nil _ hdeny
  obtain ⟨g, hg, hwithin⟩ := haccepted.deny_within d hd
  have hplan := (folded_plan (compile platform manifest) folds).1
  rw [compile_deny] at hplan
  have hmem : d ∈ ((compile platform manifest).folded folds).toCapabilityPlan.filesystemDeny := by
    rw [hplan]
    exact List.mem_append_left _ hd
  rw [checkNoDenyOverlapsAllow_eq_ok_iff.mp hok d hmem g (mem_folded_grants folds hg)] at hwithin
  cases hwithin

end Devcroft.Policy
