import Devcroft.Policy.CapabilitySet

/-!
# What the baseline denials keep out

The denials of a compiled policy are not enforced by the library; they hold only as
far as no grant touches a denied place. The overlap check compares strings under one
root marker, in one direction. Against the places that the paths lead to, that leaves
the entries below a denial and the entries of the other namespaces.
-/

namespace Devcroft.Policy

open Config Paths Posix

/-- A value of the form `~//...`: joining its absolute rest to the home directory replaces the home
directory, so that it stands for an absolute path. -/
def isDoubled (value : String) : Bool := Text.startsWith "~//" value

/-- The root that a value is really resolved under. -/
def realRoot (value : String) : Root := if isDoubled value then .absolute else (components value).1

/-- The place of each root. -/
def Host.base (host : Host) (projectRoot : String) : Root → Location
  | .home => locate host.cwd host.home
  | .absolute => []
  | .project => locate host.cwd projectRoot

/-- The place that a value leads to. -/
def Host.placeOf (host : Host) (projectRoot value : String) : Location :=
  locate host.cwd (resolve host projectRoot value).1

/-- A home-relative value is doubled when its rest is absolute. -/
theorem isDoubled_tilde_append (rest : String) :
    isDoubled ("~/" ++ rest) = isAbsolute rest := by
  simp [isDoubled, isAbsolute, Text.startsWith, String.toList_append]

/-- A value that is not home-relative is not doubled. -/
theorem isDoubled_of_stripPrefix {value : String} (h : Text.stripPrefix "~/" value = none) :
    isDoubled value = false := by
  cases hdoubled : isDoubled value with
  | false => rfl
  | true =>
    have hpre := List.isPrefixOf_iff_prefix.mp hdoubled
    have htilde : Text.startsWith "~/" value = true :=
      List.isPrefixOf_iff_prefix.mpr (List.IsPrefix.trans (by decide) hpre)
    rw [Text.stripPrefix_eq_none_iff.mp h] at htilde
    cases htilde

/-- The real root of an absolute value. -/
theorem realRoot_of_isAbsolute {value : String} (h : isAbsolute value = true) :
    realRoot value = .absolute := by
  simp [realRoot, components_of_isAbsolute h]

/-- A value leads from its real root down its components. -/
theorem placeOf_eq_descend (host : Host) (projectRoot value : String) :
    host.placeOf projectRoot value =
      descend (host.base projectRoot (realRoot value)) (components value).2 := by
  unfold Host.placeOf
  rcases rootOf_cases value with rfl | ⟨rest, rfl⟩ | habs | ⟨hne, hstrip, hrel, hroot⟩
  · have hreal : realRoot "~" = .home := by decide
    have hcomponents : (components "~").2 = [] := by decide
    rw [hreal, hcomponents, resolve, if_pos rfl]
    rfl
  · rw [resolve_tilde_append, components_snd, rootOf_tilde_append, realRoot,
      isDoubled_tilde_append]
    cases habs : isAbsolute rest with
    | true =>
      rw [join, if_pos habs, locate, habs]
      rfl
    | false =>
      rw [locate_join _ _ habs]
      simp [components, Host.base]
  · rw [resolve_of_isAbsolute habs, realRoot_of_isAbsolute habs, components_of_isAbsolute habs,
      locate, habs]
    rfl
  · have hreal : realRoot value = .project := by
      simp [realRoot, isDoubled_of_stripPrefix hstrip, components, hroot]
    rw [resolve_of_relative hne hstrip hrel, locate_join _ _ hrel, hreal, components_snd, hroot]
    rfl

/-- A value without `..` leads to the place of its real root, extended by its components. -/
theorem placeOf_eq_append {host : Host} {projectRoot value : String}
    (h : hasTraversal value = false) :
    host.placeOf projectRoot value =
      host.base projectRoot (realRoot value) ++ (components value).2 := by
  rw [placeOf_eq_descend, descend_components h]

/-- Two places that do not touch: neither is the other one or below it. -/
def Apart (a b : Location) : Prop := ¬a <+: b ∧ ¬b <+: a

instance (a b : Location) : Decidable (Apart a b) := inferInstanceAs (Decidable (_ ∧ _))

/-- Under one real root that is also the lexical one, places touch exactly when one value is
lexically within the other. -/
theorem apart_iff_isWithin {host : Host} {projectRoot a b : String}
    (ha : hasTraversal a = false) (hb : hasTraversal b = false)
    (hroot : realRoot a = realRoot b) (hreal : realRoot a = (components a).1)
    (hreal' : realRoot b = (components b).1) :
    Apart (host.placeOf projectRoot a) (host.placeOf projectRoot b) ↔
      isWithin b a = false ∧ isWithin a b = false := by
  have hsame : (components a).1 = (components b).1 := by rw [← hreal, ← hreal', hroot]
  rw [placeOf_eq_append ha, placeOf_eq_append hb, hroot, Apart, List.prefix_append_right_inj,
    List.prefix_append_right_inj, ← Bool.not_eq_true, ← Bool.not_eq_true, isWithin_iff,
    isWithin_iff]
  simp [hsame]

/-- The denials of a plan hold against what is granted for the entries of the manifest. -/
def DenialsWin (host : Host) (projectRoot : String) (manifest : Manifest) (plan : CapabilityPlan)
    (caps : CapabilitySet) : Prop :=
  ∀ d ∈ plan.filesystemDeny, ∀ value ∈ manifest.filesystem.allow ++ manifest.filesystem.read,
    ∀ c ∈ caps.fs, c.original = (resolve host projectRoot value).1 →
      Apart c.resolved (host.placeOf projectRoot d)

/-- Where an entry of the manifest leaves a denial alone: below the home directory, where it is not
lexically within the denied path; elsewhere, where its place neither leads to the denied place nor
lies in it. -/
def Spares (host : Host) (projectRoot value d : String) : Prop :=
  if realRoot value = .home then isWithin value d = false
  else
    Apart (host.base projectRoot (realRoot value) ++ (components value).2)
      (locate host.cwd host.home ++ (components d).2)

instance (host : Host) (projectRoot value d : String) :
    Decidable (Spares host projectRoot value d) :=
  inferInstanceAs (Decidable (if realRoot value = .home then _ else Apart _ _))

/-- The denials of an accepted manifest whose plan has no overlap are the baseline ones: a denial
of its own lies within a grant. -/
theorem baseline_of_mem_deny {platform : Platform} {manifest : Manifest}
    (haccepted : manifest.filesystem.Accepted)
    (hoverlap : ∀ deny ∈ (compile platform manifest).toCapabilityPlan.filesystemDeny,
      ∀ allow ∈ (compile platform manifest).toCapabilityPlan.filesystemAllow ++
        (compile platform manifest).toCapabilityPlan.filesystemRead, isWithin deny allow = false)
    {d : String} (hd : d ∈ (compile platform manifest).toCapabilityPlan.filesystemDeny) :
    d = DEVCROFT_DATA_DIR ∨ d ∈ SENSITIVE_PATHS := by
  have hmem := hd
  rw [compile_deny, List.mem_append, List.mem_cons] at hmem
  rcases hmem with hown | rfl | hsensitive
  · obtain ⟨g, hg, hwithin⟩ := haccepted.deny_within d hown
    rw [hoverlap d hd g (mem_compile_grants.mpr (Or.inl hg))] at hwithin
    cases hwithin
  · exact Or.inl rfl
  · exact Or.inr (List.mem_filter.mp hsensitive).1

/-- For one entry and one denial of an accepted manifest, sparing is keeping the places apart. -/
theorem spares_iff_apart {platform : Platform} {manifest : Manifest} {host : Host}
    {projectRoot : String} (haccepted : manifest.filesystem.Accepted)
    (hoverlap : ∀ deny ∈ (compile platform manifest).toCapabilityPlan.filesystemDeny,
      ∀ allow ∈ (compile platform manifest).toCapabilityPlan.filesystemAllow ++
        (compile platform manifest).toCapabilityPlan.filesystemRead, isWithin deny allow = false)
    {value d : String} (hvalue : value ∈ manifest.filesystem.allow ++ manifest.filesystem.read)
    (hd : d ∈ (compile platform manifest).toCapabilityPlan.filesystemDeny) :
    Spares host projectRoot value d ↔
      Apart (host.placeOf projectRoot value) (host.placeOf projectRoot d) := by
  obtain ⟨hdHome, hdTraversal, hdPlain⟩ :=
    baseline_home (baseline_of_mem_deny haccepted hoverlap hd)
  have hdReal : realRoot d = .home := by simp [realRoot, isDoubled, hdPlain, hdHome]
  have htraversal : hasTraversal value = false :=
    haccepted.no_traversal value (List.mem_append_left _ hvalue)
  unfold Spares
  split
  · next hhome =>
    have hlexical : realRoot value = (components value).1 := by
      unfold realRoot at hhome ⊢
      split at hhome
      · cases hhome
      · next hplain => rw [if_neg hplain]
    have hgranted : value ∈ (compile platform manifest).toCapabilityPlan.filesystemAllow ++
        (compile platform manifest).toCapabilityPlan.filesystemRead :=
      mem_compile_grants.mpr (Or.inl hvalue)
    rw [apart_iff_isWithin htraversal hdTraversal (hhome.trans hdReal.symm) hlexical
      (hdReal.trans hdHome.symm)]
    simp [hoverlap d hd value hgranted]
  · rw [placeOf_eq_append htraversal, placeOf_eq_append hdTraversal, hdReal]
    rfl

/-- Every existing entry of a manifest is granted in the place where it is. -/
theorem exists_mem_fs_of_grant {platform : Platform} {manifest : Manifest} {host : Host}
    {projectRoot : String} {caps : CapabilitySet}
    (hfs : caps.fs =
      capabilities host projectRoot .readWrite
          (compile platform manifest).toCapabilityPlan.filesystemAllow ++
        capabilities host projectRoot .read
          (compile platform manifest).toCapabilityPlan.filesystemRead)
    {value : String} (hvalue : value ∈ manifest.filesystem.allow ++ manifest.filesystem.read)
    (hexists : host.tree.exists host.cwd (resolve host projectRoot value).1 = true) :
    ∃ c ∈ caps.fs, c.original = (resolve host projectRoot value).1 ∧
      c.resolved = host.placeOf projectRoot value := by
  rw [hfs]
  rcases List.mem_append.mp hvalue with hvalue | hvalue
  · refine ⟨capabilityOf host _ .readWrite, List.mem_append_left _ ?_, rfl, rfl⟩
    refine List.mem_map_of_mem (List.mem_filter.mpr ⟨?_, hexists⟩)
    exact List.mem_map_of_mem (by simp [CompiledPolicy.toCapabilityPlan, compile, hvalue])
  · refine ⟨capabilityOf host _ .read, List.mem_append_right _ ?_, rfl, rfl⟩
    refine List.mem_map_of_mem (List.mem_filter.mpr ⟨?_, hexists⟩)
    exact List.mem_map_of_mem (by simp [CompiledPolicy.toCapabilityPlan, compile, hvalue])

/-- What is granted exists, in the place where it is. -/
theorem located_of_mem_capabilities {host : Host} {projectRoot : String} {mode : AccessMode}
    {paths : List String} {c : FsCapability} (hc : c ∈ capabilities host projectRoot mode paths) :
    host.tree.exists host.cwd c.original = true ∧ c.resolved = locate host.cwd c.original := by
  simp only [capabilities, List.mem_map, List.mem_filter] at hc
  obtain ⟨path, ⟨-, hexists⟩, rfl⟩ := hc
  exact ⟨hexists, rfl⟩

/-- Exactly when the baseline denials hold against what is really granted: every existing entry of
the manifest spares every denial. -/
theorem denialsWin_iff {platform : Platform} {toml : Toml} {text : String} {manifest : Manifest}
    {warnings : List Warning} {nono : Nono} {host : Host} {projectRoot : String}
    {caps : CapabilitySet} (hparse : parse toml text = .ok (manifest, warnings))
    (hcaps : (compile platform manifest).toCapabilityPlan.toCapabilitySet nono host projectRoot =
      .ok caps) :
    DenialsWin host projectRoot manifest (compile platform manifest).toCapabilityPlan caps ↔
      ∀ value ∈ manifest.filesystem.allow ++ manifest.filesystem.read,
        host.tree.exists host.cwd (resolve host projectRoot value).1 = true →
        ∀ d ∈ (compile platform manifest).toCapabilityPlan.filesystemDeny,
          Spares host projectRoot value d := by
  have haccepted := (parse_ok hparse).filesystem
  obtain ⟨hoverlap, hfs⟩ := CapabilityPlan.toCapabilitySet_ok hcaps
  constructor
  · intro hwin value hvalue hexists d hd
    rw [spares_iff_apart haccepted hoverlap hvalue hd]
    obtain ⟨c, hc, horiginal, hresolved⟩ := exists_mem_fs_of_grant hfs hvalue hexists
    rw [← hresolved]
    exact hwin d hd value hvalue c hc horiginal
  · intro hall d hd value hvalue c hc horiginal
    have hcap : host.tree.exists host.cwd c.original = true ∧
        c.resolved = locate host.cwd c.original := by
      rw [hfs] at hc
      rcases List.mem_append.mp hc with hc | hc
      · exact located_of_mem_capabilities hc
      · exact located_of_mem_capabilities hc
    rw [hcap.2, horiginal]
    have hspares := hall value hvalue (horiginal ▸ hcap.1) d hd
    exact (spares_iff_apart haccepted hoverlap hvalue hd).mp hspares

/-- A host with a home directory, a project and some credentials. -/
def sampleHost : Host where
  homeVar := some "/home/u"
  cwd := ["home", "u", "p"]
  tree := Tree.ofEntries [["home", "u", "p", "src"], ["home", "u", ".ssh"], ["dev"]] [] (by simp)

/-- A library that refuses nothing. -/
def sampleNono : Nono := ⟨fun _ => none, fun _ => none⟩

/-- A manifest text that stands for these grants. -/
def sampleToml (allow : List String) : Toml where
  parse _ := .ok []
  tryInto _ := .ok { RawManifest.default with
    sandbox := ⟨some "p", none⟩
    filesystem := ⟨allow, [], []⟩ }

/-- The manifest with these grants and the defaults elsewhere. -/
def sampleManifest (allow : List String) : Manifest :=
  ⟨⟨"p"⟩, Env.default, ⟨allow, [], []⟩, Network.default', ⟨false⟩, ⟨none, none⟩⟩

/-- The capability set of a plan that grants one directory. -/
def sampleCaps (path : String) (place : Location) : CapabilitySet :=
  ⟨[⟨path, place, .readWrite, false⟩], .blocked, [], [], true⟩

/-- Granting the project alone leaves every denied place alone. -/
theorem denialsWin_project :
    DenialsWin sampleHost "/home/u/p" (sampleManifest ["."])
      (compile .linux (sampleManifest ["."])).toCapabilityPlan
      (sampleCaps "/home/u/p/." ["home", "u", "p"]) := by
  have hparse : parse (sampleToml ["."]) "" = .ok (sampleManifest ["."], []) := by decide
  have hcaps : (compile .linux (sampleManifest ["."])).toCapabilityPlan.toCapabilitySet sampleNono
      sampleHost "/home/u/p" = .ok (sampleCaps "/home/u/p/." ["home", "u", "p"]) := by decide
  exact (denialsWin_iff hparse hcaps).mpr (by decide)

/-- Granting the root of the tree compiles, and grants the denied data directory with it. -/
theorem not_denialsWin_root :
    parse (sampleToml ["/"]) "" = .ok (sampleManifest ["/"], []) ∧
    (compile .linux (sampleManifest ["/"])).toCapabilityPlan.toCapabilitySet sampleNono sampleHost
      "/home/u/p" = .ok (sampleCaps "/" []) ∧
    ¬DenialsWin sampleHost "/home/u/p" (sampleManifest ["/"])
      (compile .linux (sampleManifest ["/"])).toCapabilityPlan (sampleCaps "/" []) := by
  refine ⟨by decide, by decide, fun hwin => ?_⟩
  have hapart := hwin DEVCROFT_DATA_DIR (by decide) "/" (by decide) ⟨"/", [], .readWrite, false⟩
    (by decide) (by decide)
  exact hapart.1 List.nil_prefix

end Devcroft.Policy
