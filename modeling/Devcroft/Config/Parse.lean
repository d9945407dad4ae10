import Devcroft.Config.Validate

/-!
# Parsing manifest text

`config::parse`: TOML text to an accepted manifest with its warnings. Reading TOML
and filling the raw manifest from a table are the `toml` crate's.
-/

namespace Devcroft.Config

open Provider

/-- `MAX_LEN` of sandbox names. -/
def MAX_LEN : ℕ := 32

/-- The characters of a sandbox name: `is_ascii_lowercase`, `is_ascii_digit`. -/
def isNameChar (c : Char) : Bool := ('a' ≤ c && c ≤ 'z') || ('0' ≤ c && c ≤ '9')

/-- `is_valid_name`. -/
def isValidName (name : String) : Bool :=
  if name = "" ∨ MAX_LEN < name.utf8ByteSize then false
  else
    match name.toList with
    | [] => false
    | first :: _ => isNameChar first && name.toList.all fun c => isNameChar c || c = '-'

/-- The loop of `slugify` over the characters of a name. -/
def slugLoop (slug : List Char) : List Char → List Char
  | [] => slug
  | c :: cs =>
    let lower := if 'A' ≤ c ∧ c ≤ 'Z' then Char.ofNat (c.toNat + 32) else c
    if isNameChar lower then slugLoop (slug ++ [lower]) cs
    else if slug.getLast? ≠ some '-' ∧ slug ≠ [] then slugLoop (slug ++ ['-']) cs
    else slugLoop slug cs

/-- Drop hyphens at the end. -/
def dropHyphens (slug : List Char) : List Char := (slug.reverse.dropWhile (· = '-')).reverse

/-- `slugify`. -/
def slugify (name : String) : String :=
  let slug := dropHyphens ((dropHyphens (slugLoop [] name.toList)).take MAX_LEN)
  if slug = [] then "sandbox" else String.ofList slug

/-- What the `toml` crate does for `parse`. -/
structure Toml where
  /-- Reading TOML text. -/
  parse : String → Except String Table
  /-- Filling the raw manifest from a table. -/
  tryInto : Table → Except String RawManifest

/-- The check of `[sandbox].isolation`. -/
def checkIsolation : Option String → Except ConfigError Unit
  | none => .ok ()
  | some tier =>
    if tier = ISOLATION_TIER then .ok ()
    else if tier = "hardened" then .error (.removedIsolationTier "hardened")
    else .error (.invalidIsolationTier tier)

/-- The checks of a raw manifest, in the order in which `parse` makes them. -/
def validate (raw : RawManifest) : Except ConfigError (Manifest × List Warning) := do
  let name ← match raw.sandbox.name with
    | none => .error .missingName
    | some name => .ok name
  if !isValidName name then .error (.invalidName name (slugify name))
  match validateProvider raw.env.provider with
    | .error e => .error (.invalidProvider e)
    | .ok () => .ok ()
  checkIsolation raw.sandbox.isolation
  checkFilesystem raw.filesystem
  let env := { raw.env with provider := normalizeProviderName raw.env.provider }
  return (⟨⟨name⟩, env, raw.filesystem, raw.network, raw.ssh, raw.hooks⟩,
    collectWarnings raw.env raw.filesystem)

/-- `config::parse`. -/
def parse (toml : Toml) (text : String) : Except ConfigError (Manifest × List Warning) :=
  match toml.parse text with
  | .error e => .error (.parse e)
  | .ok table =>
    match checkUnknownKeys table with
    | .error e => .error e
    | .ok () =>
      match toml.tryInto table with
      | .error e => .error (.parse e)
      | .ok raw => validate raw

/-- What every accepted manifest satisfies. -/
structure Manifest.Accepted (manifest : Manifest) : Prop where
  /-- The name is a valid sandbox name. -/
  name : isValidName manifest.sandbox.name = true
  /-- The provider is the canonical name of an implementation. -/
  provider : ∃ kind, ProviderKind.fromName manifest.env.provider = .ok kind ∧
    kind.staticName = manifest.env.provider
  /-- The filesystem section passed its check. -/
  filesystem : manifest.filesystem.Accepted

/-- What a raw manifest passed that was accepted, and what became of it. -/
structure Passed (raw : RawManifest) (manifest : Manifest) (warnings : List Warning) : Prop where
  name : raw.sandbox.name = some manifest.sandbox.name
  validName : isValidName manifest.sandbox.name = true
  provider : validateProvider raw.env.provider = .ok ()
  filesystem : checkFilesystem raw.filesystem = .ok ()
  manifest : manifest = ⟨manifest.sandbox,
    { raw.env with provider := normalizeProviderName raw.env.provider },
    raw.filesystem, raw.network, raw.ssh, raw.hooks⟩
  warnings : warnings = collectWarnings raw.env raw.filesystem

/-- The checks as one cascade. -/
theorem validate_eq (raw : RawManifest) :
    validate raw =
      match raw.sandbox.name with
      | none => .error .missingName
      | some name =>
        if isValidName name = false then .error (.invalidName name (slugify name))
        else
          match validateProvider raw.env.provider with
          | .error e => .error (.invalidProvider e)
          | .ok () =>
            match checkIsolation raw.sandbox.isolation with
            | .error e => .error e
            | .ok () =>
              match checkFilesystem raw.filesystem with
              | .error e => .error e
              | .ok () =>
                .ok (⟨⟨name⟩, { raw.env with provider := normalizeProviderName raw.env.provider },
                  raw.filesystem, raw.network, raw.ssh, raw.hooks⟩,
                  collectWarnings raw.env raw.filesystem) := by
  unfold validate
  cases raw.sandbox.name with
  | none => rfl
  | some name =>
    cases hvalid : isValidName name with
    | false => simp [hvalid, bind, Except.bind]
    | true =>
      cases validateProvider raw.env.provider with
      | error e => simp [hvalid, bind, Except.bind]
      | ok u =>
        cases checkIsolation raw.sandbox.isolation with
        | error e => simp [hvalid, bind, Except.bind]
        | ok u =>
          cases checkFilesystem raw.filesystem with
          | error e => simp [hvalid, bind, Except.bind]
          | ok u => simp [hvalid, bind, Except.bind, pure, Except.pure]

/-- A raw manifest is accepted only if it passes every check. -/
theorem validate_passed {raw : RawManifest} {manifest : Manifest} {warnings : List Warning}
    (h : validate raw = .ok (manifest, warnings)) : Passed raw manifest warnings := by
  rw [validate_eq] at h
  split at h
  · cases h
  · next name hname =>
    split at h
    · cases h
    · next hvalid =>
      split at h
      · cases h
      · next hprovider =>
        split at h
        · cases h
        · split at h
          · cases h
          · next hfs =>
            obtain ⟨rfl, rfl⟩ := Prod.mk.inj (Except.ok.inj h)
            exact ⟨hname, by simpa using hvalid, hprovider, hfs, rfl, rfl⟩

/-- Every result of `parse` comes from a raw manifest that passed every check. -/
theorem parse_passed {toml : Toml} {text : String} {manifest : Manifest} {warnings : List Warning}
    (h : parse toml text = .ok (manifest, warnings)) : ∃ raw, Passed raw manifest warnings := by
  unfold parse at h
  split at h
  · cases h
  · split at h
    · cases h
    · split at h
      · cases h
      · exact ⟨_, validate_passed h⟩

/-- Every manifest that `parse` returns passed all of its checks. -/
theorem parse_ok {toml : Toml} {text : String} {manifest : Manifest} {warnings : List Warning}
    (h : parse toml text = .ok (manifest, warnings)) : manifest.Accepted := by
  obtain ⟨raw, hpassed⟩ := parse_passed h
  rw [hpassed.manifest]
  exact ⟨hpassed.validName, fromName_normalizeProviderName hpassed.provider,
    checkFilesystem_ok hpassed.filesystem⟩

/-- The warnings are those of the returned manifest itself. -/
theorem parse_warnings {toml : Toml} {text : String} {manifest : Manifest}
    {warnings : List Warning} (h : parse toml text = .ok (manifest, warnings)) :
    warnings = collectWarnings manifest.env manifest.filesystem := by
  obtain ⟨raw, hpassed⟩ := parse_passed h
  rw [hpassed.manifest, hpassed.warnings]
  rfl

end Devcroft.Config
