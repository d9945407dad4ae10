import Devcroft.Library.Environ
import Devcroft.Provider.Derived

/-!
# The services that a flox manifest declares

`read_service_declarations`: the `[services]` of a flox manifest, read on the host. What a
manifest declares is only read here, with the variables, the daemon flag and the shutdown
command of every service.
-/

namespace Devcroft.Config

/-- `Value::get`: the value under a key, of a table only. -/
def Value.get (key : String) (v : Value) : Option Value :=
  v.asTable.bind fun table => (table.find? fun entry => entry.1 == key).map Prod.snd

/-- `Value::as_str`. -/
def Value.asStr : Value → Option String
  | string s => some s
  | _ => none

/-- `Value::as_bool`. -/
def Value.asBool : Value → Option Bool
  | boolean b => some b
  | _ => none

/-- A value whose tables are in the order of their keys, each key once. -/
inductive Value.Sorted : Value → Prop
  | string (s : String) : Sorted (.string s)
  | integer (n : ℤ) : Sorted (.integer n)
  | float (text : String) : Sorted (.float text)
  | boolean (b : Bool) : Sorted (.boolean b)
  | datetime (text : String) : Sorted (.datetime text)
  | array {values : List Value} (h : ∀ v ∈ values, Sorted v) : Sorted (.array values)
  | table {entries : Table} (hkeys : (entries.map Prod.fst).Pairwise (· < ·))
      (h : ∀ entry ∈ entries, Sorted entry.2) : Sorted (.table entries)

end Devcroft.Config

namespace Devcroft.Provider

open Config Environ

/-- `toml::Table` is a `BTreeMap`: the tables of a document are in the order of their keys. -/
def TomlDoc.Sorts (toml : TomlDoc) : Prop :=
  ∀ text table, toml.parse text = .ok table → (Value.table table).Sorted

/-- `ServiceDecl`. -/
structure ServiceDecl where
  name : String
  command : String
  /-- Variables of this service alone. -/
  vars : Vars
  /-- Whether the command puts itself into the background. -/
  isDaemon : Bool
  /-- How to stop it. -/
  shutdownCommand : Option String

/-- `ServiceSupport`. -/
inductive ServiceSupport where
  /-- The provider has no services. -/
  | unsupported
  | declared (services : List ServiceDecl)

/-- `ServiceSupport::declared`. -/
def ServiceSupport.services : ServiceSupport → List ServiceDecl
  | unsupported => []
  | declared services => services

/-- One round of the loop over the variables of a service. -/
def readVar (name : String) (vars : Vars) (entry : String × Value) : Except ProviderError Vars :=
  match entry.2.asStr with
  | some v => .ok (vars.insert entry.1 v)
  | none =>
    .error (.resolutionFailed
      ("service `" ++ name ++ "`: var `" ++ entry.1 ++ "` must be a string"))

/-- The variables of a service. -/
def readVars (name : String) (value : Value) : Except ProviderError Vars :=
  match value.get "vars" with
  | none => .ok ∅
  | some vars =>
    match vars.asTable with
    | none => .error (.resolutionFailed ("service `" ++ name ++ "`: `vars` is not a table"))
    | some table => table.foldlM (readVar name) ∅

/-- The daemon flag of a service. -/
def readIsDaemon (name : String) (value : Value) : Except ProviderError Bool :=
  match value.get "is-daemon" with
  | none => .ok false
  | some v =>
    match v.asBool with
    | some b => .ok b
    | none =>
      .error (.resolutionFailed ("service `" ++ name ++ "`: `is-daemon` must be a boolean"))

/-- The shutdown command of a service. -/
def readShutdownCommand (name : String) (value : Value) : Except ProviderError (Option String) :=
  match (value.get "shutdown").bind (Value.get "command") with
  | none => .ok none
  | some c =>
    match c.asStr with
    | some s => .ok (some s)
    | none =>
      .error (.resolutionFailed ("service `" ++ name ++ "`: `shutdown.command` must be a string"))

/-- The command of a service. -/
def readCommand (name : String) (value : Value) : Except ProviderError String :=
  match (value.get "command").bind Value.asStr with
  | some command => .ok command
  | none =>
    .error (.resolutionFailed
      ("service `" ++ name ++ "` in the flox manifest has no string `command`"))

/-- One round of the loop over `[services]`. -/
def readService (entry : String × Value) : Except ProviderError ServiceDecl := do
  let command ← readCommand entry.1 entry.2
  let vars ← readVars entry.1 entry.2
  let isDaemon ← readIsDaemon entry.1 entry.2
  let shutdownCommand ← readShutdownCommand entry.1 entry.2
  if isDaemon && shutdownCommand.isNone then
    .error (.resolutionFailed ("service `" ++ entry.1 ++ "` sets `is-daemon` but declares no " ++
      "`shutdown.command`; it could not be stopped at teardown"))
  else return ⟨entry.1, command, vars, isDaemon, shutdownCommand⟩

/-- An error of a step of the resolution, after what the step was doing. -/
def orResolutionFailed {α : Type} (doing : String) : Except String α → Except ProviderError α
  | .ok a => .ok a
  | .error e => .error (.resolutionFailed (doing ++ ": " ++ e))

/-- `read_service_declarations`, from what reading the manifest gives. -/
def readServiceDeclarations (toml : TomlDoc) (manifestPath : String)
    (manifest : Except String String) : Except ProviderError ServiceSupport := do
  let text ← orResolutionFailed ("reading " ++ manifestPath) manifest
  let parsed ← orResolutionFailed ("parsing " ++ manifestPath) (toml.parse text)
  match lookup "services" parsed with
  | none => return .declared []
  | some value =>
    match value.asTable with
    | none =>
      .error (.resolutionFailed "`[services]` in the flox manifest is not a table")
    | some table => return .declared (← table.mapM readService)

/-- A service has the name that it is declared under. -/
theorem readService_name {entry : String × Value} {decl : ServiceDecl}
    (h : readService entry = .ok decl) : decl.name = entry.1 := by
  unfold readService at h
  obtain ⟨command, -, h⟩ := bind_eq_ok.mp h
  obtain ⟨vars, -, h⟩ := bind_eq_ok.mp h
  obtain ⟨isDaemon, -, h⟩ := bind_eq_ok.mp h
  obtain ⟨shutdownCommand, -, h⟩ := bind_eq_ok.mp h
  split at h
  · cases h
  · cases h
    rfl

/-- Every entry of the table becomes one service. -/
theorem mapM_readService_names {table : Table} {services : List ServiceDecl}
    (h : table.mapM readService = .ok services) :
    services.map ServiceDecl.name = table.map Prod.fst := by
  induction table generalizing services with
  | nil =>
    cases h
    rfl
  | cons entry table ih =>
    rw [List.mapM_cons] at h
    obtain ⟨decl, hdecl, h⟩ := bind_eq_ok.mp h
    obtain ⟨rest, hrest, h⟩ := bind_eq_ok.mp h
    cases h
    rw [List.map_cons, List.map_cons, readService_name hdecl, ih hrest]

/-- The declared services are in the order of their names, each name once. -/
theorem readServiceDeclarations_sorted {toml : TomlDoc} (htoml : toml.Sorts) {path : String}
    {manifest : Except String String} {services : List ServiceDecl}
    (h : readServiceDeclarations toml path manifest = .ok (.declared services)) :
    (services.map ServiceDecl.name).Pairwise (· < ·) := by
  unfold readServiceDeclarations at h
  obtain ⟨text, -, h⟩ := bind_eq_ok.mp h
  obtain ⟨parsed, hparsed, h⟩ := bind_eq_ok.mp h
  have hsorted : (Value.table parsed).Sorted := by
    apply htoml text
    cases hparse : toml.parse text with
    | ok table =>
      rw [hparse] at hparsed
      cases hparsed
      rfl
    | error e =>
      rw [hparse] at hparsed
      cases hparsed
  split at h
  · cases h
    exact .nil
  next value hvalue =>
    split at h
    · cases h
    next table htable =>
      obtain ⟨decls, hdecls, h⟩ := bind_eq_ok.mp h
      cases h
      cases hsorted with
      | table hkeys hentries =>
        obtain ⟨entry, hentry, heq⟩ := Option.map_eq_some_iff.mp hvalue
        have hinner := hentries entry (List.mem_of_find?_eq_some hentry)
        rw [heq] at hinner
        cases hinner with
        | table hkeys hentries =>
          cases htable
          rw [mapM_readService_names hdecls]
          exact hkeys
        | _ => cases htable

end Devcroft.Provider
