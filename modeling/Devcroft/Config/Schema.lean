import Devcroft.Config.Parse

/-!
# The schema of a manifest

Filling the raw manifest ignores keys that it does not know, so unknown keys are only
found by `check_unknown_keys`. Its walk over the table leaves out the `[env]` section as
a whole, for the sake of `env.vars`.
-/

namespace Devcroft.Config

/-- The unknown keys of one entry of a table, with their paths: the key itself if it is no section,
else the keys inside that are no fields of the section. -/
def unknownIn (entry : String × Value) : List String :=
  match SECTIONS.find? fun known => known.1 == entry.1 with
  | none => [entry.1]
  | some (_, fields) =>
    (((entry.2.asTable.getD []).map Prod.fst).filter fun subKey => !fields.contains subKey).map
      fun subKey => entry.1 ++ "." ++ subKey

/-- The unknown keys of a table. -/
def unknownKeys (table : Table) : List String := table.flatMap unknownIn

/-- The keys of one section pass exactly when each is a field. -/
theorem checkSectionKeys_eq_ok_iff {key : String} {fields subKeys : List String} :
    checkSectionKeys key fields subKeys = .ok () ↔
      subKeys.filter (fun subKey => !fields.contains subKey) = [] := by
  induction subKeys with
  | nil => simp [checkSectionKeys]
  | cons subKey rest ih =>
    unfold checkSectionKeys
    by_cases hknown : fields.contains subKey = true
    · rw [if_pos hknown, ih, List.filter_cons_of_neg (by simpa using hknown)]
    · rw [if_neg hknown, List.filter_cons_of_pos (by simpa using hknown)]
      simp

/-- A refused key of a section is not a field of it. -/
theorem checkSectionKeys_error {key : String} {fields subKeys : List String} {e : ConfigError}
    (h : checkSectionKeys key fields subKeys = .error e) :
    ∃ subKey ∈ subKeys.filter (fun subKey => !fields.contains subKey),
      e = .unknownKey (key ++ "." ++ subKey) (closest subKey fields) := by
  induction subKeys with
  | nil => cases h
  | cons subKey rest ih =>
    unfold checkSectionKeys at h
    by_cases hknown : fields.contains subKey = true
    · rw [if_pos hknown] at h
      rw [List.filter_cons_of_neg (by simpa using hknown)]
      exact ih h
    · rw [if_neg hknown] at h
      rw [List.filter_cons_of_pos (by simpa using hknown)]
      exact ⟨subKey, List.mem_cons_self, (Except.error.inj h).symm⟩

/-- The check of the first entry of a table, before the rest. -/
theorem checkUnknownKeys_cons (entry : String × Value) (rest : Table) :
    (checkUnknownKeys (entry :: rest) = checkUnknownKeys rest ∧
      (entry.1 ≠ "env" → unknownIn entry = [])) ∨
    (entry.1 ≠ "env" ∧ ∃ path ∈ unknownIn entry, ∃ suggestion,
      checkUnknownKeys (entry :: rest) = .error (.unknownKey path suggestion)) := by
  obtain ⟨key, value⟩ := entry
  rw [checkUnknownKeys, unknownIn]
  cases hfind : SECTIONS.find? fun known => known.1 == key with
  | none =>
    right
    refine ⟨?_, key, List.mem_singleton.mpr rfl, _, rfl⟩
    rintro rfl
    exact absurd hfind (by decide)
  | some known =>
    obtain ⟨_, fields⟩ := known
    dsimp only
    by_cases henv : key = "env"
    · rw [if_pos henv]
      exact Or.inl ⟨rfl, fun hne => (hne henv).elim⟩
    · rw [if_neg henv]
      cases value.asTable with
      | none => exact Or.inl ⟨rfl, fun _ => rfl⟩
      | some sub =>
        dsimp only [Option.getD_some]
        cases hcheck : checkSectionKeys key fields (sub.map Prod.fst) with
        | ok u =>
          refine Or.inl ⟨rfl, fun _ => ?_⟩
          rw [checkSectionKeys_eq_ok_iff.mp hcheck, List.map_nil]
        | error e =>
          obtain ⟨subKey, hmem, rfl⟩ := checkSectionKeys_error hcheck
          exact Or.inr ⟨henv, _, List.mem_map_of_mem hmem, _, rfl⟩

/-- A table passes exactly when no entry but that of `[env]` has an unknown key. -/
theorem checkUnknownKeys_eq_ok_iff {table : Table} :
    checkUnknownKeys table = .ok () ↔ ∀ entry ∈ table, entry.1 ≠ "env" → unknownIn entry = [] := by
  induction table with
  | nil => simp [checkUnknownKeys]
  | cons entry rest ih =>
    rw [List.forall_mem_cons, ← ih]
    rcases checkUnknownKeys_cons entry rest with ⟨hrest, hentry⟩ | ⟨hne, path, hpath, s, herror⟩
    · rw [hrest, and_iff_right hentry]
    · rw [herror]
      constructor
      · intro h
        cases h
      · rintro ⟨hentry, -⟩
        rw [hentry hne] at hpath
        cases hpath

/-- A refused key is an unknown key of the table. -/
theorem checkUnknownKeys_error {table : Table} {e : ConfigError}
    (h : checkUnknownKeys table = .error e) :
    ∃ path ∈ unknownKeys table, ∃ suggestion, e = .unknownKey path suggestion := by
  induction table with
  | nil => cases h
  | cons entry rest ih =>
    rw [unknownKeys, List.flatMap_cons]
    rcases checkUnknownKeys_cons entry rest with ⟨hrest, -⟩ | ⟨-, path, hpath, s, herror⟩
    · rw [hrest] at h
      obtain ⟨path, hpath, hsuggestion⟩ := ih h
      exact ⟨path, List.mem_append_right _ hpath, hsuggestion⟩
    · rw [herror] at h
      exact ⟨path, List.mem_append_left _ hpath, s, (Except.error.inj h).symm⟩

/-- The checks after the schema check name no unknown key. -/
theorem validate_ne_unknownKey (raw : RawManifest) (path : String) (suggestion : Option String) :
    validate raw ≠ .error (.unknownKey path suggestion) := by
  have hisolation :
      checkIsolation raw.sandbox.isolation ≠ .error (.unknownKey path suggestion) := by
    unfold checkIsolation
    split
    · simp
    · split
      · simp
      · split <;> simp
  have hfilesystem : checkFilesystem raw.filesystem ≠ .error (.unknownKey path suggestion) := by
    unfold checkFilesystem
    split
    · simp
    · split <;> simp
  rw [validate_eq]
  split
  · simp
  · split
    · simp
    · split
      · simp
      · split
        · next herror =>
          intro h
          rw [herror, Except.error.inj h] at hisolation
          exact hisolation rfl
        · split
          · next herror =>
            intro h
            rw [herror, Except.error.inj h] at hfilesystem
            exact hfilesystem rfl
          · simp

/-- No unknown key of a table gets past `parse`. -/
structure SchemaChecked (toml : Toml) (text : String) (table : Table) : Prop where
  /-- What is accepted has known keys only. -/
  accepted : ∀ manifest warnings, parse toml text = .ok (manifest, warnings) →
    unknownKeys table = []
  /-- A table with unknown keys is refused for one of them. -/
  refused : unknownKeys table ≠ [] → ∃ path ∈ unknownKeys table, ∃ suggestion,
    parse toml text = .error (.unknownKey path suggestion)

/-- Exactly when no unknown key of a table gets past `parse`: `[env]` has no unknown key, or another
part of the table has one. -/
theorem schemaChecked_iff {toml : Toml} {text : String} {table : Table}
    (htable : toml.parse text = .ok table) :
    SchemaChecked toml text table ↔
      (∀ entry ∈ table, entry.1 = "env" → unknownIn entry = []) ∨
        ∃ entry ∈ table, entry.1 ≠ "env" ∧ unknownIn entry ≠ [] := by
  cases hcheck : checkUnknownKeys table with
  | error e =>
    have hother : ∃ entry ∈ table, entry.1 ≠ "env" ∧ unknownIn entry ≠ [] := by
      by_contra hnone
      simp only [not_exists, not_and, not_not] at hnone
      rw [checkUnknownKeys_eq_ok_iff.mpr hnone] at hcheck
      cases hcheck
    obtain ⟨path, hpath, suggestion, rfl⟩ := checkUnknownKeys_error hcheck
    have hparse : parse toml text = .error (.unknownKey path suggestion) := by
      simp only [parse, htable, hcheck]
    refine iff_of_true ⟨fun manifest warnings hok => ?_, fun _ => ?_⟩ (Or.inr hother)
    · rw [hparse] at hok
      cases hok
    · exact ⟨path, hpath, suggestion, hparse⟩
  | ok u =>
    have hknown := checkUnknownKeys_eq_ok_iff.mp hcheck
    have hother : ¬∃ entry ∈ table, entry.1 ≠ "env" ∧ unknownIn entry ≠ [] := by
      rintro ⟨entry, hentry, hne, hunknown⟩
      exact hunknown (hknown entry hentry hne)
    -- What comes after the schema check names no unknown key.
    have hlater : ∀ path suggestion, parse toml text ≠ .error (.unknownKey path suggestion) := by
      intro path suggestion
      simp only [parse, htable, hcheck]
      cases toml.tryInto table with
      | error e => simp
      | ok raw => exact validate_ne_unknownKey raw path suggestion
    rw [or_iff_left hother]
    constructor
    · intro hchecked entry hentry henv
      by_contra hunknown
      have hne : unknownKeys table ≠ [] := by
        intro hnil
        exact hunknown (List.flatMap_eq_nil_iff.mp hnil entry hentry)
      obtain ⟨path, -, suggestion, hparse⟩ := hchecked.refused hne
      exact hlater path suggestion hparse
    · intro henv
      have hnil : unknownKeys table = [] := by
        refine List.flatMap_eq_nil_iff.mpr fun entry hentry => ?_
        by_cases hkey : entry.1 = "env"
        · exact henv entry hentry hkey
        · exact hknown entry hentry hkey
      exact ⟨fun _ _ _ => hnil, fun hne => (hne hnil).elim⟩

/-- What reading a manifest text gives that has `[env]` with one key, and what is made of it: a key
that is not known is ignored. -/
def envToml (key : String) : Toml where
  parse _ := .ok
    [("sandbox", .table [("name", .string "p")]), ("env", .table [(key, .string "nix")])]
  tryInto _ := .ok { RawManifest.default with
    sandbox := ⟨some "p", none⟩
    env := if key = "provider" then ⟨"nix", []⟩ else Env.default }

/-- A well-formed `[env]` is checked. -/
theorem schemaChecked_provider : SchemaChecked (envToml "provider") ""
    [("sandbox", .table [("name", .string "p")]), ("env", .table [("provider", .string "nix")])] :=
  (schemaChecked_iff rfl).mpr (Or.inl (by decide))

/-- A misspelled `env.provider` is accepted, and the provider is the default. -/
theorem not_schemaChecked_provder :
    parse (envToml "provder") "" =
        .ok (⟨⟨"p"⟩, ⟨"flox", []⟩, Filesystem.default, Network.default', ⟨false⟩, ⟨none, none⟩⟩, []) ∧
      unknownKeys [("sandbox", .table [("name", .string "p")]),
        ("env", .table [("provder", .string "nix")])] = ["env.provder"] ∧
      ¬SchemaChecked (envToml "provder") "" [("sandbox", .table [("name", .string "p")]),
        ("env", .table [("provder", .string "nix")])] := by
  have hparse : parse (envToml "provder") "" =
      .ok (⟨⟨"p"⟩, ⟨"flox", []⟩, Filesystem.default, Network.default', ⟨false⟩, ⟨none, none⟩⟩, []) := by
    decide
  have hunknown : unknownKeys [("sandbox", .table [("name", .string "p")]),
      ("env", .table [("provder", .string "nix")])] = ["env.provder"] := by
    decide
  refine ⟨hparse, hunknown, fun hchecked => ?_⟩
  have hnil := hchecked.accepted _ _ hparse
  rw [hunknown] at hnil
  cases hnil

end Devcroft.Config
