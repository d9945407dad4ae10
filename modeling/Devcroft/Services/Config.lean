import Devcroft.Library.JsonDocument
import Devcroft.Library.Utf8
import Devcroft.Provider.Declarations

/-!
# The configuration of the service supervisor

`render_config` writes the declared services as a configuration for process-compose, which
runs them. The supervisor reads the document back: the command of each process, its
environment as strings `KEY=value` that it splits at the first equals sign, whether it is a
daemon, and the command that stops it.

A declaration comes back whole unless the name of a variable has an equals sign in it.
-/

namespace Devcroft.Services

open Json Provider

/-- `SHUTDOWN_TIMEOUT_SECS`. -/
def SHUTDOWN_TIMEOUT_SECS : UInt64 := 1

section Render

-- How `serde_json` orders the entries of a map, and how it writes a float.
variable (before : String → String → Bool) (float : UInt64 → List Char)

/-- The entry `environment` of a process. -/
def environment (svc : ServiceDecl) : Value :=
  .array (svc.vars.toList.map fun entry => .string (entry.1 ++ "=" ++ entry.2))

/-- The entries of `shutdown`. -/
def shutdownEntries (svc : ServiceDecl) : List (String × Value) :=
  ("timeout", .number (.posInt SHUTDOWN_TIMEOUT_SECS)) ::
    (if svc.isDaemon then (svc.shutdownCommand.map fun cmd => ("command", Value.string cmd)).toList
    else [])

/-- The entries of a process, in the order in which they are inserted. -/
def processEntries (svc : ServiceDecl) : List (String × Value) :=
  [("command", .string svc.command)] ++
  (if svc.vars.isEmpty then [] else [("environment", environment svc)]) ++
  [("availability", .object (ofInserts before [("restart", .string "no")]))] ++
  (if svc.isDaemon then [("is_daemon", .bool true)] else []) ++
  [("shutdown", .object (ofInserts before (shutdownEntries svc)))]

/-- One round of the loop of `render_config`. -/
def renderProcess (svc : ServiceDecl) : String × Value :=
  (svc.name, .object (ofInserts before (processEntries before svc)))

/-- The document that `render_config` writes. -/
def configDocument (services : List ServiceDecl) (shell : List UInt8) : Value :=
  .object (ofInserts before [
    ("version", .string "0.5"),
    ("shell", .object (ofInserts before [
      ("shell_command", .string (Utf8.decodeLossy shell)), ("shell_argument", .string "-c")])),
    ("processes", .object (ofInserts before (services.map (renderProcess before))))])

/-- `render_config`. -/
def renderConfig (services : List ServiceDecl) (shell : List UInt8) : String :=
  String.ofList (pretty float 0 (configDocument before services shell))

end Render

/-- A process, as the supervisor reads it. -/
structure Process where
  command : String
  environment : List (String × String)
  isDaemon : Bool
  shutdownCommand : Option String
  deriving DecidableEq

/-- The environment of a process. -/
def readEnvironment (process : Value) : Option (List (String × String)) :=
  match process.get "environment" with
  | none => some []
  | some entries => do (← entries.asArray).mapM fun entry => do Text.splitOnce '=' (← entry.asStr)

/-- A process. -/
def readProcess (process : Value) : Option Process := do
  let command ← (← process.get "command").asStr
  let environment ← readEnvironment process
  let isDaemon ← match process.get "is_daemon" with
    | none => some false
    | some v => v.asBool
  let shutdownCommand := ((process.get "shutdown").bind (Value.get "command")).bind Value.asStr
  some ⟨command, environment, isDaemon, shutdownCommand⟩

/-- The configuration as the supervisor reads it: the processes by their names. -/
def readConfig (readFloat : List Char → Option UInt64) (text : String) :
    Option (List (String × Process)) := do
  let document ← read readFloat text.toList
  let processes ← (← document.get "processes").asObject
  processes.mapM fun entry => do return (entry.1, ← readProcess entry.2)

/-- A declared service as a process: a service that is no daemon is stopped by a signal. -/
def process (svc : ServiceDecl) : Process :=
  ⟨svc.command, svc.vars.toList, svc.isDaemon, if svc.isDaemon then svc.shutdownCommand else none⟩

/-- A text gives back the declared services. -/
def Recovers (readFloat : List Char → Option UInt64) (services : List ServiceDecl) (text : String) :
    Prop :=
  ∃ processes, readConfig readFloat text = some processes ∧
    processes.Perm (services.map fun svc => (svc.name, process svc))

/-- The names of the variables have no equals sign in them. -/
def PlainNames (svc : ServiceDecl) : Prop := ∀ key ∈ svc.vars.keys, '=' ∉ key.toList

/-- A variable after it was written and split. -/
def rereadEntry (entry : String × String) : String × String :=
  (Text.splitOnce '=' (entry.1 ++ "=" ++ entry.2)).getD entry

/-- A declared service after it was written and read. -/
def reread (svc : ServiceDecl) : Process :=
  { process svc with environment := svc.vars.toList.map rereadEntry }

theorem splitOnce_entry (entry : String × String) :
    Text.splitOnce '=' (entry.1 ++ "=" ++ entry.2) = some (rereadEntry entry) := by
  unfold rereadEntry
  cases hsplit : Text.splitOnce '=' (entry.1 ++ "=" ++ entry.2) with
  | some pair => rfl
  | none =>
    have hmem : '=' ∈ (entry.1 ++ "=" ++ entry.2).toList := by simp [String.toList_append]
    exact absurd hmem (Text.splitOnce_eq_none_iff.mp hsplit)

/-- A variable comes back exactly if its name has no equals sign in it. -/
theorem rereadEntry_eq_iff (entry : String × String) :
    rereadEntry entry = entry ↔ '=' ∉ entry.1.toList := by
  constructor
  · intro h
    have hsplit := splitOnce_entry entry
    rw [h] at hsplit
    exact (Text.splitOnce_eq_some hsplit).2
  · intro h
    have hsplit := splitOnce_entry entry
    rw [Text.splitOnce_append h] at hsplit
    exact (Option.some.inj hsplit).symm

/-- A service comes back exactly if the names of its variables have no equals sign in them. -/
theorem reread_eq_iff (svc : ServiceDecl) : reread svc = process svc ↔ PlainNames svc := by
  have henvironment :
      reread svc = process svc ↔ svc.vars.toList.map rereadEntry = svc.vars.toList := by
    constructor
    · intro h
      exact congrArg Process.environment h
    · intro h
      rw [reread, h]
      rfl
  have hkeys : svc.vars.toList.map Prod.fst = svc.vars.keys := Std.TreeMap.map_fst_toList_eq_keys
  rw [henvironment, PlainNames, ← hkeys]
  constructor
  · intro h key hkey
    obtain ⟨entry, hentry, rfl⟩ := List.mem_map.mp hkey
    rw [← rereadEntry_eq_iff]
    exact List.map_inj_left.mp (h.trans (List.map_id _).symm) entry hentry
  · intro h
    refine (List.map_congr_left fun entry hentry => ?_).trans (List.map_id _)
    exact (rereadEntry_eq_iff entry).mpr (h entry.1 (List.mem_map_of_mem hentry))

section Reread

variable {before : String → String → Bool}

theorem nodup_shutdownEntries (svc : ServiceDecl) : ((shutdownEntries svc).map Prod.fst).Nodup := by
  unfold shutdownEntries
  cases svc.isDaemon <;> cases svc.shutdownCommand <;> simp

theorem nodup_processEntries (svc : ServiceDecl) :
    ((processEntries before svc).map Prod.fst).Nodup := by
  unfold processEntries
  cases svc.vars.isEmpty <;> cases svc.isDaemon <;> simp

/-- A loop that may fail, over entries in another order. -/
theorem mapM_perm {α β : Type} {f : α → Option β} {l l' : List α} (h : l.Perm l') {r' : List β}
    (hr' : l'.mapM f = some r') : ∃ r, l.mapM f = some r ∧ r.Perm r' := by
  induction h generalizing r' with
  | nil => exact ⟨r', hr', .refl _⟩
  | cons a _ ih =>
    simp only [List.mapM_cons, Option.bind_eq_bind, Option.bind_eq_some_iff, Option.pure_def,
      Option.some.injEq] at hr' ⊢
    obtain ⟨b, hb, rest', hrest', rfl⟩ := hr'
    obtain ⟨rest, hrest, hperm⟩ := ih hrest'
    exact ⟨b :: rest, ⟨b, hb, rest, hrest, rfl⟩, hperm.cons b⟩
  | swap a a' l =>
    simp only [List.mapM_cons, Option.bind_eq_bind, Option.bind_eq_some_iff, Option.pure_def,
      Option.some.injEq] at hr' ⊢
    obtain ⟨b, hb, -, ⟨b', hb', rest, hrest, rfl⟩, rfl⟩ := hr'
    exact ⟨b' :: b :: rest, ⟨b', hb', b :: rest, ⟨b, hb, rest, hrest, rfl⟩, rfl⟩, .swap _ _ _⟩
  | trans _ _ ih ih' =>
    obtain ⟨between, hbetween, hperm'⟩ := ih' hr'
    obtain ⟨r, hr, hperm⟩ := ih hbetween
    exact ⟨r, hr, hperm.trans hperm'⟩

/-- The environment comes back split at the first equals signs. -/
theorem mapM_environment (entries : List (String × String)) :
    (entries.map fun entry => Value.string (entry.1 ++ "=" ++ entry.2)).mapM
        (fun entry => do Text.splitOnce '=' (← entry.asStr)) =
      some (entries.map rereadEntry) := by
  induction entries with
  | nil => rfl
  | cons entry entries ih =>
    rw [List.map_cons, List.mapM_cons, ih]
    simp [Value.asStr, splitOnce_entry]

theorem readEnvironment_renderProcess (svc : ServiceDecl) :
    readEnvironment (renderProcess before svc).2 = some (svc.vars.toList.map rereadEntry) := by
  have hget : (renderProcess before svc).2.get "environment" =
      if svc.vars.isEmpty then none else some (environment svc) := by
    rw [renderProcess, get_ofInserts (nodup_processEntries svc)]
    unfold processEntries Value.get
    cases svc.vars.isEmpty <;> cases svc.isDaemon <;> simp
  rw [readEnvironment, hget]
  cases hempty : svc.vars.isEmpty with
  | true =>
    rw [← Std.TreeMap.isEmpty_toList, List.isEmpty_iff] at hempty
    rw [if_pos rfl, hempty]
    rfl
  | false => exact mapM_environment svc.vars.toList

/-- A process comes back as its declaration, with its environment split. -/
theorem readProcess_renderProcess (svc : ServiceDecl) :
    readProcess (renderProcess before svc).2 = some (reread svc) := by
  have hget : ∀ key, (renderProcess before svc).2.get key =
      (Value.object (processEntries before svc)).get key :=
    get_ofInserts (nodup_processEntries svc)
  have hcommand : (renderProcess before svc).2.get "command" = some (.string svc.command) := by
    rw [hget]
    rfl
  have hdaemon : (renderProcess before svc).2.get "is_daemon" =
      if svc.isDaemon then some (.bool true) else none := by
    rw [hget]
    unfold processEntries Value.get
    cases svc.vars.isEmpty <;> cases svc.isDaemon <;> simp
  have hshutdown : (renderProcess before svc).2.get "shutdown" =
      some (.object (ofInserts before (shutdownEntries svc))) := by
    rw [hget]
    unfold processEntries Value.get
    cases svc.vars.isEmpty <;> cases svc.isDaemon <;> simp
  have hstop : ((Value.object (ofInserts before (shutdownEntries svc))).get "command").bind
      Value.asStr = if svc.isDaemon then svc.shutdownCommand else none := by
    rw [get_ofInserts (nodup_shutdownEntries svc)]
    unfold shutdownEntries Value.get
    cases svc.isDaemon <;> cases svc.shutdownCommand <;> simp [Value.asStr]
  simp only [readProcess, hcommand, readEnvironment_renderProcess, hdaemon, hshutdown,
    Option.bind_some, hstop, bind, Value.asStr]
  cases hflag : svc.isDaemon <;> simp [reread, process, hflag, Value.asBool]

/-- What is written reads as JSON. -/
theorem proper_configDocument {services : List ServiceDecl}
    (h : (services.map ServiceDecl.name).Nodup) (shell : List UInt8) :
    Proper (configDocument before services shell) := by
  have hshutdown : ∀ svc, Proper (.object (ofInserts before (shutdownEntries svc))) := by
    intro svc
    apply Proper.ofInserts (nodup_shutdownEntries svc)
    intro entry hentry
    rcases List.mem_cons.mp hentry with rfl | hentry
    · exact .number (.posInt _)
    · split at hentry
      · obtain ⟨cmd, -, rfl⟩ := Option.map_eq_some_iff.mp (Option.mem_toList.mp hentry)
        exact .string cmd
      · cases hentry
  have hprocess : ∀ svc, Proper (renderProcess before svc).2 := by
    intro svc
    apply Proper.ofInserts (nodup_processEntries svc)
    intro entry hentry
    simp only [processEntries, List.mem_append, List.mem_singleton] at hentry
    rcases hentry with (((rfl | hentry) | rfl) | hentry) | rfl
    · exact .string svc.command
    · split at hentry
      · cases hentry
      · rw [List.mem_singleton.mp hentry]
        refine .array fun v hv => ?_
        obtain ⟨var, -, rfl⟩ := List.mem_map.mp hv
        exact .string _
    · refine Proper.ofInserts (by simp) fun entry hentry => ?_
      rw [List.mem_singleton.mp hentry]
      exact .string _
    · split at hentry
      · rw [List.mem_singleton.mp hentry]
        exact .bool true
      · cases hentry
    · exact hshutdown svc
  refine Proper.ofInserts (by simp) fun entry hentry => ?_
  simp only [List.mem_cons, List.not_mem_nil, or_false] at hentry
  rcases hentry with rfl | rfl | rfl
  · exact .string _
  · refine Proper.ofInserts (by simp) fun entry hentry => ?_
    simp only [List.mem_cons, List.not_mem_nil, or_false] at hentry
    rcases hentry with rfl | rfl <;> exact .string _
  · refine Proper.ofInserts ?_ fun entry hentry => ?_
    · rw [List.map_map]
      exact h
    · obtain ⟨svc, -, rfl⟩ := List.mem_map.mp hentry
      exact hprocess svc

/-- The supervisor reads one process for each declared service. -/
theorem readConfig_renderConfig (before : String → String → Bool) (float : UInt64 → List Char)
    (readFloat : List Char → Option UInt64) {services : List ServiceDecl}
    (h : (services.map ServiceDecl.name).Nodup) (shell : List UInt8) :
    ∃ processes, readConfig readFloat (renderConfig before float services shell) = some processes ∧
      processes.Perm (services.map fun svc => (svc.name, reread svc)) := by
  have hnodup : ((services.map (renderProcess before)).map Prod.fst).Nodup := by
    rw [List.map_map]
    exact h
  have hget : (configDocument before services shell).get "processes" =
      some (.object (ofInserts before (services.map (renderProcess before)))) := by
    rw [configDocument, get_ofInserts (by simp)]
    rfl
  have hperm : (ofInserts before (services.map (renderProcess before))).Perm
      (services.map (renderProcess before)) := ofInserts_perm hnodup
  have hread : ∀ services : List ServiceDecl, (services.map (renderProcess before)).mapM
      (fun entry => do return (entry.1, ← readProcess entry.2)) =
        some (services.map fun svc => (svc.name, reread svc)) := by
    intro services
    induction services with
    | nil => rfl
    | cons svc services ih =>
      rw [List.map_cons, List.mapM_cons, ih, readProcess_renderProcess]
      rfl
  obtain ⟨processes, hprocesses, hsame⟩ := mapM_perm hperm (hread services)
  refine ⟨processes, ?_, hsame⟩
  rw [readConfig, renderConfig, String.toList_ofList, (proper_configDocument h shell).read_pretty]
  simp only [Option.bind_some, bind, hget, Value.asObject]
  exact hprocesses

/-- Different names make different processes. -/
theorem nodup_names {services : List ServiceDecl}
    (h : (services.map ServiceDecl.name).Pairwise (· < ·)) :
    (services.map ServiceDecl.name).Nodup :=
  h.imp fun {a b} (hlt : a < b) (heq : a = b) => String.lt_irrefl b (heq ▸ hlt)

/-- Services without an equals sign in the name of a variable are read again as they are. -/
theorem map_reread_of_plainNames {services : List ServiceDecl}
    (h : ∀ svc ∈ services, PlainNames svc) :
    (services.map fun svc => (svc.name, reread svc)) =
      services.map fun svc => (svc.name, process svc) := by
  apply List.map_congr_left
  intro svc hsvc
  rw [(reread_eq_iff svc).mpr (h svc hsvc)]

/-- The document of services in the order of their names gives them back exactly if no name of a
variable has an equals sign in it. -/
theorem recovers_renderConfig_iff (before : String → String → Bool) (float : UInt64 → List Char)
    (readFloat : List Char → Option UInt64) {services : List ServiceDecl}
    (hsorted : (services.map ServiceDecl.name).Pairwise (· < ·)) (shell : List UInt8) :
    Recovers readFloat services (renderConfig before float services shell) ↔
      ∀ svc ∈ services, PlainNames svc := by
  obtain ⟨processes, hread, hperm⟩ :=
    readConfig_renderConfig before float readFloat (nodup_names hsorted) shell
  constructor
  · rintro ⟨processes', hread', hperm'⟩ svc hsvc
    obtain rfl := Option.some.inj (hread.symm.trans hread')
    have hmem := (hperm'.symm.trans hperm).mem_iff.mp
      (List.mem_map_of_mem (f := fun svc => (svc.name, process svc)) hsvc)
    obtain ⟨svc', hsvc', heq⟩ := List.mem_map.mp hmem
    have hsame : svc' = svc :=
      List.inj_on_of_nodup_map (nodup_names hsorted) hsvc' hsvc (congrArg Prod.fst heq)
    rw [hsame] at heq
    exact (reread_eq_iff svc).mp (congrArg Prod.snd heq)
  · intro h
    rw [map_reread_of_plainNames h] at hperm
    exact ⟨processes, hread, hperm⟩

/-- Services in the order of their names that have the same document have the same processes. -/
theorem processes_eq_of_renderConfig_eq (before : String → String → Bool)
    (float : UInt64 → List Char) (readFloat : List Char → Option UInt64)
    {services services' : List ServiceDecl} {shell shell' : List UInt8}
    (hsorted : (services.map ServiceDecl.name).Pairwise (· < ·))
    (hsorted' : (services'.map ServiceDecl.name).Pairwise (· < ·))
    (hnames : ∀ svc ∈ services, PlainNames svc) (hnames' : ∀ svc ∈ services', PlainNames svc)
    (heq : renderConfig before float services shell = renderConfig before float services' shell') :
    services.map (fun svc => (svc.name, process svc)) =
      services'.map fun svc => (svc.name, process svc) := by
  have hpairs : ∀ {services : List ServiceDecl},
      (services.map ServiceDecl.name).Pairwise (· < ·) →
      (services.map fun svc => (svc.name, process svc)).Pairwise fun a b => a.1 < b.1 := by
    intro services h
    rw [List.pairwise_map] at h ⊢
    exact h
  obtain ⟨processes, hread, hperm⟩ :=
    readConfig_renderConfig before float readFloat (nodup_names hsorted) shell
  obtain ⟨processes', hread', hperm'⟩ :=
    readConfig_renderConfig before float readFloat (nodup_names hsorted') shell'
  rw [heq] at hread
  obtain rfl := Option.some.inj (hread.symm.trans hread')
  rw [map_reread_of_plainNames hnames] at hperm
  rw [map_reread_of_plainNames hnames'] at hperm'
  apply List.Perm.eq_of_pairwise _ (hpairs hsorted) (hpairs hsorted') (hperm.symm.trans hperm')
  intro a b _ _ hlt hgt
  exact absurd hgt (String.lt_asymm hlt)

end Reread

/-- A manifest with one service and one variable. -/
def sampleManifest (key value : String) : String :=
  "[services.web]\ncommand = \"run\"\nvars.\"" ++ key ++ "\" = \"" ++ value ++ "\"\n"

/-- The table of this manifest. -/
def sampleTable (key value : String) : Config.Table :=
  [("services", .table [("web", .table [("command", .string "run"),
    ("vars", .table [(key, .string value)])])])]

/-- The reading of three such manifests. -/
def sampleToml : TomlDoc where
  parse text :=
    if text = sampleManifest "A=B" "c" then .ok (sampleTable "A=B" "c")
    else if text = sampleManifest "A" "B=c" then .ok (sampleTable "A" "B=c")
    else if text = sampleManifest "PORT" "5432" then .ok (sampleTable "PORT" "5432")
    else .error "unexpected content"
  toText _ := .error "not written"

/-- The service of these manifests. -/
def sampleService (key value : String) : ServiceDecl :=
  ⟨"web", "run", (∅ : Environ.Vars).insert key value, false, none⟩

theorem sampleTable_sorted (key value : String) :
    (Config.Value.table (sampleTable key value)).Sorted := by
  have hlt : "command" < "vars" := by decide +kernel
  refine .table (List.pairwise_singleton _ _) fun entry hentry => ?_
  rw [List.mem_singleton.mp hentry]
  refine .table (List.pairwise_singleton _ _) fun entry hentry => ?_
  rw [List.mem_singleton.mp hentry]
  refine .table (List.pairwise_pair.mpr hlt) fun entry hentry => ?_
  simp only [List.mem_cons, List.not_mem_nil, or_false] at hentry
  rcases hentry with rfl | rfl
  · exact .string _
  · refine .table (List.pairwise_singleton _ _) fun entry hentry => ?_
    rw [List.mem_singleton.mp hentry]
    exact .string _

theorem sampleToml_sorts : sampleToml.Sorts := by
  intro text table h
  simp only [sampleToml] at h
  split_ifs at h <;> cases h <;> exact sampleTable_sorted _ _

end Devcroft.Services
