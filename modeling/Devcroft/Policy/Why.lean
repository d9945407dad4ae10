import Devcroft.Policy.Denials

/-!
# Explaining a decision

`devcroft why --path` answers from the compiled rules alone, by lexical containment with
denials first. What is enforced is the capability set. The two are compared for one
query at a time, in every spelling that reaches `why_path`.
-/

namespace Devcroft.Policy

open Config Paths Posix

/-- The operations that `why` is asked about. -/
inductive Op where
  | read
  | write
  | readWrite
  deriving DecidableEq

/-- The answer of `why`. -/
structure Explanation where
  allowed : Bool
  /-- The rule responsible, `none` when nothing grants the path at all. -/
  origin : Option Origin
  detail : String
  deriving DecidableEq

/-- The first rule that a path is within. -/
def matching (rules : List AnnotatedValue) (path : String) : Option AnnotatedValue :=
  rules.find? fun rule => isWithin path rule.value

/-- `why_path`. -/
def whyPath (compiled : CompiledPolicy) (path : String) (op : Op) : Explanation :=
  match matching compiled.filesystemDeny path with
  | some rule => ⟨false, some rule.origin, "denied by rule " ++ rule.origin.display⟩
  | none =>
    let allow :=
      if op = .write ∨ op = .readWrite then matching compiled.filesystemAllow path
      else (matching compiled.filesystemAllow path).or (matching compiled.filesystemRead path)
    match allow with
    | some rule => ⟨true, some rule.origin, "allowed by rule " ++ rule.origin.display⟩
    | none => ⟨false, none, "denied: not granted by any rule"⟩

/-- `normalize_path_for_policy`: a path below `HOME` is rewritten with `~`. -/
def normalizePathForPolicy (host : Host) (path : String) : String :=
  match host.homeVar with
  | none => path
  | some home =>
    if path = home then "~"
    else
      match (Text.stripPrefix home path).bind (Text.stripPrefix "/") with
      | some rest => "~/" ++ rest
      | none => path

/-- The entries of a compiled policy that grant an operation. -/
def CompiledPolicy.grantsFor (compiled : CompiledPolicy) (op : Op) : List String :=
  compiled.toCapabilityPlan.filesystemAllow ++
    if op = .read then compiled.toCapabilityPlan.filesystemRead else []

private theorem matching_isSome (rules : List AnnotatedValue) (path : String) :
    (matching rules path).isSome = true ↔
      ∃ g ∈ rules.map AnnotatedValue.value, isWithin path g = true := by
  simp [matching, List.find?_isSome]

/-- `why` allows exactly what is within a granting entry and not within a denied one. -/
theorem whyPath_allowed_iff (compiled : CompiledPolicy) (path : String) (op : Op) :
    (whyPath compiled path op).allowed = true ↔
      (∀ d ∈ compiled.toCapabilityPlan.filesystemDeny, isWithin path d = false) ∧
        ∃ g ∈ compiled.grantsFor op, isWithin path g = true := by
  have hdenied := matching_isSome compiled.filesystemDeny path
  have hallowed := matching_isSome compiled.filesystemAllow path
  have hreadable := matching_isSome compiled.filesystemRead path
  unfold whyPath
  cases hdeny : matching compiled.filesystemDeny path with
  | some rule =>
    obtain ⟨d, hd, hwithin⟩ := hdenied.mp (by rw [hdeny]; rfl)
    simp only [Bool.false_eq_true, false_iff, not_and]
    intro hnone
    rw [hnone d hd] at hwithin
    cases hwithin
  | none =>
    have hnone : ∀ d ∈ compiled.toCapabilityPlan.filesystemDeny, isWithin path d = false := by
      intro d hd
      by_contra hwithin
      have hsome := hdenied.mpr ⟨d, hd, by simpa using hwithin⟩
      simp [hdeny] at hsome
    have hgrants : (∃ g ∈ compiled.grantsFor op, isWithin path g = true) ↔
        (if op = .write ∨ op = .readWrite then matching compiled.filesystemAllow path
          else (matching compiled.filesystemAllow path).or
            (matching compiled.filesystemRead path)).isSome = true := by
      have hsplit : ∀ xs ys : List String, (∃ g ∈ xs ++ ys, isWithin path g = true) ↔
          (∃ g ∈ xs, isWithin path g = true) ∨ ∃ g ∈ ys, isWithin path g = true := by
        intro xs ys
        simp only [List.mem_append, or_and_right, exists_or]
      rw [CompiledPolicy.grantsFor, hsplit]
      cases op with
      | read =>
        rw [if_pos rfl, if_neg (by simp), Option.isSome_or, Bool.or_eq_true, hallowed, hreadable]
        rfl
      | write =>
        rw [if_neg (by simp), if_pos (Or.inl rfl), hallowed]
        simp [CompiledPolicy.toCapabilityPlan]
      | readWrite =>
        rw [if_neg (by simp), if_pos (Or.inr rfl), hallowed]
        simp [CompiledPolicy.toCapabilityPlan]
    rw [hgrants]
    dsimp only
    generalize (if op = .write ∨ op = .readWrite then matching compiled.filesystemAllow path
      else (matching compiled.filesystemAllow path).or
        (matching compiled.filesystemRead path)) = allow
    cases allow with
    | none => simp
    | some rule =>
      simp only [Option.isSome_some, and_true, true_iff]
      exact hnone

/-- The spellings under which a query reaches `why_path`: as it was given, or rewritten by the
command line. -/
def AskedAs (host : Host) (query asked : String) : Prop :=
  asked = query ∨ asked = normalizePathForPolicy host query

/-- A spelling that means what its root marker says: it does not start with `~//`, and if it was
rewritten, then below an absolute `HOME`. -/
def Straight (host : Host) (query asked : String) : Prop :=
  if asked = query then isDoubled query = false else isAbsolute host.home = true

instance (host : Host) (query asked : String) : Decidable (Straight host query asked) :=
  inferInstanceAs (Decidable (if asked = query then _ else _))

/-- A rewritten query is `HOME` itself or a path below it. -/
theorem normalizePathForPolicy_cases {host : Host} {query : String}
    (h : normalizePathForPolicy host query ≠ query) :
    (normalizePathForPolicy host query = "~" ∧ query = host.home) ∨
    ∃ rest, normalizePathForPolicy host query = "~/" ++ rest ∧
      query = host.home ++ "/" ++ rest := by
  unfold normalizePathForPolicy at h ⊢
  unfold Host.home
  cases hhome : host.homeVar with
  | none =>
    rw [hhome] at h
    exact (h rfl).elim
  | some home =>
    simp only [hhome, Option.getD_some] at h ⊢
    split at h
    · next hq => exact Or.inl ⟨by rw [if_pos hq], hq⟩
    · next hq =>
      rw [if_neg hq]
      cases hrest : (Text.stripPrefix home query).bind (Text.stripPrefix "/") with
      | none => exact (h (by rw [hrest])).elim
      | some rest =>
        obtain ⟨middle, hmiddle, hslash⟩ := Option.bind_eq_some_iff.mp hrest
        refine Or.inr ⟨rest, rfl, ?_⟩
        rw [Text.stripPrefix_eq_some_iff.mp hmiddle, Text.stripPrefix_eq_some_iff.mp hslash,
          String.append_assoc]

/-- A straight spelling leads to the place of the query. -/
theorem placeOf_eq_of_straight {host : Host} {projectRoot query asked : String}
    (hasked : AskedAs host query asked) (hstraight : Straight host query asked)
    (htraversal : hasTraversal query = false) :
    host.placeOf projectRoot query =
      host.base projectRoot (components asked).1 ++ (components asked).2 := by
  unfold Straight at hstraight
  split at hstraight
  · next hsame =>
    rw [hsame, placeOf_eq_append htraversal, realRoot, hstraight]
    rfl
  · next hne =>
    have hrewritten := hasked.resolve_left hne
    obtain ⟨tail, htail⟩ := isAbsolute_iff.mp hstraight
    have hhome : host.base projectRoot .home = descend [] (names host.home) := by
      rw [Host.base, locate, hstraight]
      rfl
    rcases normalizePathForPolicy_cases (hrewritten ▸ hne) with ⟨hnorm, hq⟩ | ⟨rest, hnorm, hq⟩
    · -- The query is `HOME` itself, asked as `~`.
      have hcomponents : components asked = (.home, []) := by
        rw [hrewritten, hnorm]
        decide
      have habs : isAbsolute query = true := by rw [hq, hstraight]
      rw [placeOf_eq_descend, realRoot_of_isAbsolute habs, components_of_isAbsolute habs,
        hcomponents, hhome, hq, List.append_nil]
      rfl
    · -- The query is below `HOME`, asked as `~/` and the rest.
      have hcomponents : components asked = (.home, names rest) := by
        rw [hrewritten, hnorm, components, rootOf_tilde_append]
        rfl
      have habs : isAbsolute query = true :=
        isAbsolute_iff.mpr ⟨tail ++ ("/" ++ rest), by
          rw [hq, htail, String.append_assoc, String.append_assoc]⟩
      have hnames : ".." ∉ names rest := by
        intro hmem
        rw [hasTraversal, components_of_isAbsolute habs, hq, names_append_slash] at htraversal
        simp [hmem] at htraversal
      rw [placeOf_eq_descend, realRoot_of_isAbsolute habs, components_of_isAbsolute habs,
        hcomponents, hhome, hq, names_append_slash, descend_append, descend_of_not_mem hnames]
      rfl

/-- An entry that lexical containment may misjudge for a query: its root marker is another one, or
one of the two spellings does not mean what its root marker says. -/
def Misread (host : Host) (query asked g : String) : Prop :=
  (components g).1 ≠ (components asked).1 ∨ isDoubled g = true ∨ ¬Straight host query asked

instance (host : Host) (query asked g : String) : Decidable (Misread host query asked g) :=
  inferInstanceAs (Decidable (_ ∨ _ ∨ _))

/-- Where nothing is misread, lexical containment is containment of places. -/
theorem isWithin_iff_prefix {host : Host} {projectRoot query asked g : String}
    (hasked : AskedAs host query asked) (htraversal : hasTraversal query = false)
    (hg : hasTraversal g = false) (hread : ¬Misread host query asked g) :
    isWithin asked g = true ↔ host.placeOf projectRoot g <+: host.placeOf projectRoot query := by
  unfold Misread at hread
  simp only [ne_eq, not_or, not_not, Bool.not_eq_true] at hread
  obtain ⟨hsame, hplain, hstraight⟩ := hread
  rw [placeOf_eq_of_straight hasked hstraight htraversal, placeOf_eq_append hg, realRoot, hplain,
    isWithin_iff, hsame]
  simp [List.prefix_append_right_inj]

/-- Whether the access of a capability covers an operation. -/
def AccessMode.covers : AccessMode → Op → Bool
  | .readWrite, _ => true
  | .read, op => op = .read

/-- What is enforced: some capability covers the operation at or above the place of the query. -/
def Enforced (host : Host) (projectRoot : String) (caps : CapabilitySet) (query : String)
    (op : Op) : Prop :=
  ∃ c ∈ caps.fs, c.access.covers op = true ∧ c.resolved <+: host.placeOf projectRoot query

/-- `why` and enforcement agree on a query. -/
def Agrees (host : Host) (projectRoot : String) (compiled : CompiledPolicy)
    (caps : CapabilitySet) (query asked : String) (op : Op) : Prop :=
  (whyPath compiled asked op).allowed = true ↔ Enforced host projectRoot caps query op

/-- Some granting entry leads to a place at or above the place of the query. -/
def Covered (host : Host) (projectRoot : String) (compiled : CompiledPolicy) (query : String)
    (op : Op) : Prop :=
  ∃ g ∈ compiled.grantsFor op, host.placeOf projectRoot g <+: host.placeOf projectRoot query

instance (host : Host) (projectRoot : String) (compiled : CompiledPolicy) (query : String)
    (op : Op) : Decidable (Covered host projectRoot compiled query op) :=
  inferInstanceAs (Decidable (∃ g ∈ compiled.grantsFor op, _ <+: _))

/-- When all granted paths exist, what is enforced is what the entries cover. -/
theorem enforced_iff_covered {compiled : CompiledPolicy} {nono : Nono} {host : Host}
    {projectRoot : String} {caps : CapabilitySet}
    (hcaps : compiled.toCapabilityPlan.toCapabilitySet nono host projectRoot = .ok caps)
    (hexists : ∀ g ∈ compiled.toCapabilityPlan.filesystemAllow ++
      compiled.toCapabilityPlan.filesystemRead,
      host.tree.exists host.cwd (resolve host projectRoot g).1 = true)
    (query : String) (op : Op) :
    Enforced host projectRoot caps query op ↔ Covered host projectRoot compiled query op := by
  have hmem : ∀ (access : AccessMode) (values : List String),
      (∀ g ∈ values, host.tree.exists host.cwd (resolve host projectRoot g).1 = true) →
      ((∃ c ∈ capabilities host projectRoot access values, c.access.covers op = true ∧
          c.resolved <+: host.placeOf projectRoot query) ↔
        access.covers op = true ∧
          ∃ g ∈ values, host.placeOf projectRoot g <+: host.placeOf projectRoot query) := by
    intro access values hvalues
    constructor
    · rintro ⟨c, hc, hcovers, hpre⟩
      simp only [capabilities, List.mem_map, List.mem_filter] at hc
      obtain ⟨path, ⟨⟨g, hg, rfl⟩, -⟩, rfl⟩ := hc
      exact ⟨hcovers, g, hg, hpre⟩
    · rintro ⟨hcovers, g, hg, hpre⟩
      refine ⟨capabilityOf host _ access, ?_, hcovers, hpre⟩
      exact List.mem_map_of_mem (List.mem_filter.mpr ⟨List.mem_map_of_mem hg, hvalues g hg⟩)
  have hallow := hmem .readWrite _ fun g hg => hexists g (List.mem_append_left _ hg)
  have hread := hmem .read _ fun g hg => hexists g (List.mem_append_right _ hg)
  rw [Enforced, (CapabilityPlan.toCapabilitySet_ok hcaps).2]
  simp only [List.mem_append, or_and_right, exists_or]
  rw [hallow, hread, Covered, CompiledPolicy.grantsFor]
  simp only [List.mem_append, or_and_right, exists_or]
  cases op <;> simp [AccessMode.covers]

/-- What makes an explanation agree with enforcement, query by query. -/
structure Explains (host : Host) (projectRoot : String) (compiled : CompiledPolicy)
    (query asked : String) (op : Op) : Prop where
  /-- A query that is lexically within a denied path is not covered by any grant. -/
  denied : (∃ d ∈ compiled.toCapabilityPlan.filesystemDeny, isWithin asked d = true) →
    ¬Covered host projectRoot compiled query op
  /-- If an entry that is misread covers the query, some entry contains it lexically. -/
  covered : ∀ g ∈ compiled.grantsFor op, Misread host query asked g →
    host.placeOf projectRoot g <+: host.placeOf projectRoot query →
    ∃ g' ∈ compiled.grantsFor op, isWithin asked g' = true
  /-- If an entry that is misread contains a query lexically that is not denied, some entry covers
  it. -/
  contained : (∀ d ∈ compiled.toCapabilityPlan.filesystemDeny, isWithin asked d = false) →
    ∀ g ∈ compiled.grantsFor op, Misread host query asked g → isWithin asked g = true →
    Covered host projectRoot compiled query op

/-- Every entry that compiles from an accepted manifest is without `..`. -/
theorem hasTraversal_of_mem_grantsFor {platform : Platform} {manifest : Manifest}
    (h : manifest.filesystem.Accepted) {op : Op} {g : String}
    (hg : g ∈ (compile platform manifest).grantsFor op) : hasTraversal g = false := by
  have hsplit : g ∈ manifest.filesystem.allow ++ manifest.filesystem.read ∨
      g ∈ KEEPER_SYSTEM_READ platform ++ KEEPER_SYSTEM_READWRITE platform := by
    simp only [CompiledPolicy.grantsFor, CompiledPolicy.toCapabilityPlan, compile, List.map_append,
      List.map_map, Function.comp_def, List.map_id', List.mem_append] at hg ⊢
    rcases hg with (hallow | hkeeper) | hread
    · exact Or.inl (Or.inl hallow)
    · exact Or.inr (Or.inr hkeeper)
    · split at hread
      · rcases List.mem_append.mp hread with hread | hkeeper
        · exact Or.inl (Or.inr hread)
        · exact Or.inr (Or.inl hkeeper)
      · cases hread
  rcases hsplit with hown | hkeeper
  · exact h.no_traversal g (List.mem_append_left _ hown)
  · exact (keeper_absolute platform hkeeper).2.1

/-- Exactly when `devcroft why --path` agrees with enforcement on a query. -/
theorem agrees_iff {platform : Platform} {toml : Toml} {text : String} {manifest : Manifest}
    {warnings : List Warning} {nono : Nono} {host : Host} {projectRoot : String}
    {caps : CapabilitySet} (hparse : parse toml text = .ok (manifest, warnings))
    (hcaps : (compile platform manifest).toCapabilityPlan.toCapabilitySet nono host projectRoot =
      .ok caps)
    (hexists : ∀ g ∈ (compile platform manifest).toCapabilityPlan.filesystemAllow ++
      (compile platform manifest).toCapabilityPlan.filesystemRead,
      host.tree.exists host.cwd (resolve host projectRoot g).1 = true)
    {query asked : String} (htraversal : hasTraversal query = false)
    (hasked : AskedAs host query asked) (op : Op) :
    Agrees host projectRoot (compile platform manifest) caps query asked op ↔
      Explains host projectRoot (compile platform manifest) query asked op := by
  have hlexical : ∀ g ∈ (compile platform manifest).grantsFor op,
      ¬Misread host query asked g →
      (isWithin asked g = true ↔
        host.placeOf projectRoot g <+: host.placeOf projectRoot query) := fun g hg hread =>
    isWithin_iff_prefix hasked htraversal
      (hasTraversal_of_mem_grantsFor (parse_ok hparse).filesystem hg) hread
  rw [Agrees, enforced_iff_covered hcaps hexists, whyPath_allowed_iff]
  constructor
  · intro h
    refine ⟨?_, ?_, ?_⟩
    · rintro ⟨d, hd, hwithin⟩ hcovered
      rw [(h.mpr hcovered).1 d hd] at hwithin
      cases hwithin
    · intro g hg _ hpre
      exact (h.mpr ⟨g, hg, hpre⟩).2
    · intro hnone g hg _ hwithin
      exact h.mp ⟨hnone, g, hg, hwithin⟩
  · intro h
    constructor
    · rintro ⟨hnone, g, hg, hwithin⟩
      by_cases hread : Misread host query asked g
      · exact h.contained hnone g hg hread hwithin
      · exact ⟨g, hg, (hlexical g hg hread).mp hwithin⟩
    · rintro ⟨g, hg, hpre⟩
      refine ⟨fun d hd => ?_, ?_⟩
      · by_contra hwithin
        exact h.denied ⟨d, hd, by simpa using hwithin⟩ ⟨g, hg, hpre⟩
      · by_cases hread : Misread host query asked g
        · exact h.covered g hg hread hpre
        · exact ⟨g, hg, (hlexical g hg hread).mpr hpre⟩

/-- A host on which everything that the keeper is granted exists. -/
def fullHost : Host where
  homeVar := some "/home/u"
  cwd := ["home", "u", "p"]
  tree := Tree.ofEntries
    ([["home", "u", "p", "src"], ["home", "u", "x", "f"], ["etc"], ["dev"], ["dev", "pts"]] ++
      [["lib", "x86_64-linux-gnu"], ["lib", "aarch64-linux-gnu"], ["lib64"],
        ["usr", "lib", "x86_64-linux-gnu"], ["usr", "lib", "aarch64-linux-gnu"], ["usr", "lib64"]])
    [["etc", "ld.so.cache"], ["dev", "urandom"], ["dev", "ptmx"], ["dev", "null"]] (by decide)

/-- The capability set of a plan that grants one directory besides what the keeper needs. -/
def fullCaps (path : String) (place : Location) : CapabilitySet where
  fs := [⟨path, place, .readWrite, false⟩, ⟨"/dev/pts", ["dev", "pts"], .readWrite, false⟩,
    ⟨"/dev/ptmx", ["dev", "ptmx"], .readWrite, true⟩,
    ⟨"/dev/null", ["dev", "null"], .readWrite, true⟩,
    ⟨"/lib", ["lib"], .read, false⟩, ⟨"/lib64", ["lib64"], .read, false⟩,
    ⟨"/lib/x86_64-linux-gnu", ["lib", "x86_64-linux-gnu"], .read, false⟩,
    ⟨"/lib/aarch64-linux-gnu", ["lib", "aarch64-linux-gnu"], .read, false⟩,
    ⟨"/usr/lib", ["usr", "lib"], .read, false⟩, ⟨"/usr/lib64", ["usr", "lib64"], .read, false⟩,
    ⟨"/usr/lib/x86_64-linux-gnu", ["usr", "lib", "x86_64-linux-gnu"], .read, false⟩,
    ⟨"/usr/lib/aarch64-linux-gnu", ["usr", "lib", "aarch64-linux-gnu"], .read, false⟩,
    ⟨"/etc/ld.so.cache", ["etc", "ld.so.cache"], .read, true⟩,
    ⟨"/dev/urandom", ["dev", "urandom"], .read, true⟩]
  network := .blocked
  localhostPorts := []
  unixSockets := []
  signalIsolated := true

/-- A project directory asked about the way it was granted. -/
theorem agrees_project :
    Agrees fullHost "/home/u/p" (compile .linux (sampleManifest ["."]))
      (fullCaps "/home/u/p/." ["home", "u", "p"]) "src" "src" .readWrite := by
  have hparse : parse (sampleToml ["."]) "" = .ok (sampleManifest ["."], []) := by decide +kernel
  have hcaps : (compile .linux (sampleManifest ["."])).toCapabilityPlan.toCapabilitySet sampleNono
      fullHost "/home/u/p" = .ok (fullCaps "/home/u/p/." ["home", "u", "p"]) := by decide +kernel
  refine (agrees_iff hparse hcaps (by decide +kernel) (by decide +kernel) (Or.inl rfl)
    .readWrite).mpr ⟨?_, ?_, ?_⟩
  · decide +kernel
  · decide +kernel
  · intro _
    exact fun _ _ _ _ => ⟨".", by decide +kernel, by decide +kernel⟩

/-- A directory below `HOME` that is granted by its absolute path: `why` rewrites the query with
`~`, finds no rule and answers that it is denied, while it is granted. -/
theorem not_agrees_absolute :
    parse (sampleToml ["/home/u/x"]) "" = .ok (sampleManifest ["/home/u/x"], []) ∧
    (compile .linux (sampleManifest ["/home/u/x"])).toCapabilityPlan.toCapabilitySet sampleNono
      fullHost "/home/u/p" = .ok (fullCaps "/home/u/x" ["home", "u", "x"]) ∧
    (∀ g ∈ (compile .linux (sampleManifest ["/home/u/x"])).grantsFor .read,
      fullHost.tree.exists fullHost.cwd (resolve fullHost "/home/u/p" g).1 = true) ∧
    fullHost.tree.exists fullHost.cwd "/home/u/x/f" = true ∧
    normalizePathForPolicy fullHost "/home/u/x/f" = "~/x/f" ∧
    ¬Agrees fullHost "/home/u/p" (compile .linux (sampleManifest ["/home/u/x"]))
      (fullCaps "/home/u/x" ["home", "u", "x"]) "/home/u/x/f" "~/x/f" .read := by
  refine ⟨by decide +kernel, by decide +kernel, by decide +kernel, by decide +kernel,
    by decide +kernel, fun hagrees => ?_⟩
  have hallowed : (whyPath (compile .linux (sampleManifest ["/home/u/x"])) "~/x/f" .read).allowed =
      true := hagrees.mpr ⟨⟨"/home/u/x", ["home", "u", "x"], .readWrite, false⟩, by decide +kernel,
        by decide +kernel, by decide +kernel⟩
  exact absurd hallowed (by decide +kernel)

end Devcroft.Policy
