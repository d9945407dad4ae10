import Devcroft.Provider.Devbox

/-!
# The dump of an environment and its parse

`env -0` prints the variables of an environment one after the other, each as `key=value` and
a NUL. `parse_env_dump` reads this back, and what a provider hands on of an activation is
computed from the result.
-/

namespace Devcroft.Provider

open Environ

/-- A variable that an environment can hold and a dump carries: no `=` in the key, and a NUL in
neither. -/
structure Dumpable (key value : String) : Prop where
  key_eq : '=' ∉ key.toList
  key_nul : '\x00' ∉ key.toList
  value_nul : '\x00' ∉ value.toList

instance (key value : String) : Decidable (Dumpable key value) :=
  decidable_of_iff ('=' ∉ key.toList ∧ '\x00' ∉ key.toList ∧ '\x00' ∉ value.toList)
    ⟨fun h => ⟨h.1, h.2.1, h.2.2⟩, fun h => ⟨h.key_eq, h.key_nul, h.value_nul⟩⟩

/-- A variable as it is printed, before the NUL. -/
def entryText (entry : String × String) : String := entry.1 ++ "=" ++ entry.2

/-- What `env -0` prints of variables in this order. -/
def envDump (entries : List (String × String)) : List UInt8 :=
  entries.flatMap fun entry => Utf8.encode (entryText entry) ++ [0]

/-- A dump is the bytes of a text. -/
theorem envDump_eq_encode (entries : List (String × String)) :
    envDump entries = Utf8.encode
      (String.join ((entries.map entryText).map (· ++ String.ofList ['\x00']))) := by
  have hnul : Utf8.encode (String.ofList ['\x00']) = [0] := by decide
  simp only [envDump, Utf8.encode_join, List.flatMap_map, Utf8.encode_append, hnul]

/-- The NUL after each entry splits a dump into its entries. -/
theorem split_envDump {entries : List (String × String)}
    (h : ∀ entry ∈ entries, Dumpable entry.1 entry.2) :
    Text.split '\x00' (Utf8.decodeLossy (envDump entries)) = entries.map entryText ++ [""] := by
  rw [envDump_eq_encode, Utf8.decodeLossy_encode]
  apply Text.split_join
  intro text htext
  obtain ⟨entry, hentry, rfl⟩ := List.mem_map.mp htext
  obtain ⟨-, hkey, hvalue⟩ := h entry hentry
  have hsign : '\x00' ∉ "=".toList := by decide
  simp only [entryText, String.toList_append, List.mem_append, hkey, hvalue, hsign, or_self,
    not_false_iff]

/-- The first `=` of an entry is the one after its key. -/
theorem splitOnce_entryText {entry : String × String} (h : Dumpable entry.1 entry.2) :
    Text.splitOnce '=' (entryText entry) = some entry :=
  Text.splitOnce_append h.key_eq

/-- No entry is empty. -/
theorem entryText_ne_empty (entry : String × String) : entryText entry ≠ "" := by
  intro h
  have hmem : '=' ∈ (entryText entry).toList := by
    simp [entryText]
  rw [h] at hmem
  cases hmem

/-- A dump is parsed as its entries, the last of a key. -/
theorem parseEnvDump_eq_ofList {entries : List (String × String)}
    (h : ∀ entry ∈ entries, Dumpable entry.1 entry.2) :
    parseEnvDump (envDump entries) = Std.TreeMap.ofList entries := by
  have hfilter : (entries.map entryText).filter (· ≠ "") = entries.map entryText := by
    rw [List.filter_eq_self]
    intro text htext
    obtain ⟨entry, -, rfl⟩ := List.mem_map.mp htext
    exact decide_eq_true (entryText_ne_empty entry)
  have hpieces : (entries.map entryText).filterMap (Text.splitOnce '=') = entries := by
    rw [List.filterMap_map]
    conv_rhs => rw [← List.filterMap_some (l := entries)]
    apply List.filterMap_congr
    intro entry hentry
    exact splitOnce_entryText (h entry hentry)
  rw [parseEnvDump, split_envDump h, List.filter_append, hfilter, List.filterMap_append, hpieces]
  congr 1
  exact List.append_nil entries

/-- The dump of a map, its entries in any order, is parsed as the map. -/
theorem equiv_parseEnvDump {vars : Vars} (h : ∀ entry ∈ vars.toList, Dumpable entry.1 entry.2)
    {entries : List (String × String)} (hperm : entries.Perm vars.toList) :
    (parseEnvDump (envDump entries)).Equiv vars := by
  have hentries : ∀ entry ∈ entries, Dumpable entry.1 entry.2 :=
    fun entry hentry => h entry (hperm.mem_iff.mp hentry)
  rw [parseEnvDump_eq_ofList hentries, Std.TreeMap.equiv_iff_toList_eq]
  exact toList_ofList_of_perm hperm

/-- Parsing undoes `env -0`: exactly the variables that were printed come back. -/
theorem parseEnvDump_envDump {vars : Vars} (h : ∀ entry ∈ vars.toList, Dumpable entry.1 entry.2)
    {entries : List (String × String)} (hperm : entries.Perm vars.toList) :
    (parseEnvDump (envDump entries)).toList = vars.toList :=
  Std.TreeMap.equiv_iff_toList_eq.mp (equiv_parseEnvDump h hperm)

/-- Printed in another order than the map's, with an empty value and one that has `=` and a newline
in it. -/
theorem parseEnvDump_envDump_two :
    (parseEnvDump (envDump [("B", "x=y\nz"), ("A", "")])).toList =
      [("A", ""), ("B", "x=y\nz")] := by
  have hentries : (Std.TreeMap.ofList [("A", ""), ("B", "x=y\nz")] : Vars).toList =
      [("A", ""), ("B", "x=y\nz")] := by decide +kernel
  rw [← hentries]
  apply parseEnvDump_envDump
  · rw [hentries]
    decide +kernel
  · rw [hentries]
    exact List.Perm.swap _ _ _

/-- So a provider computes what an activation changed, and what it removed, from the variables that
the activated environment has. -/
theorem diff_parseEnvDump {vars : Vars} (h : ∀ entry ∈ vars.toList, Dumpable entry.1 entry.2)
    {entries : List (String × String)} (hperm : entries.Perm vars.toList) (baseline : Vars) :
    (changedEnv baseline (parseEnvDump (envDump entries))).toList =
        (changedEnv baseline vars).toList ∧
      unsetEnv baseline (parseEnvDump (envDump entries)) = unsetEnv baseline vars := by
  have hequiv := equiv_parseEnvDump h hperm
  constructor
  · rw [← Std.TreeMap.equiv_iff_toList_eq]
    exact hequiv.filter _
  · simp only [unsetEnv, hequiv.contains_eq]

/-- flox's `capture_activated_env`: from the `flox` on `PATH` and how running it ended. -/
def Flox.captureActivatedEnv (floxBin : Option String)
    (activate : String → Except String Output) : Except ProviderError Vars :=
  match floxBin with
  | none => .error (.missingBinary "flox" "devcroft doctor")
  | some flox =>
    match activate flox with
    | .error e => .error (.resolutionFailed ("running `flox activate`: " ++ e))
    | .ok output =>
      if output.success then .ok (parseEnvDump output.stdout)
      else
        .error (.resolutionFailed ("`flox activate` exited with " ++ output.status ++ ": " ++
          Utf8.decodeLossy output.stderr))

/-- It captures the environment that the command printed. -/
theorem Flox.captureActivatedEnv_dump {vars : Vars}
    (h : ∀ entry ∈ vars.toList, Dumpable entry.1 entry.2) {entries : List (String × String)}
    (hperm : entries.Perm vars.toList) {flox : String} {activate : String → Except String Output}
    {output : Output} (hrun : activate flox = .ok output) (hsuccess : output.success = true)
    (hstdout : output.stdout = envDump entries) :
    ∃ activated, Flox.captureActivatedEnv (some flox) activate = .ok activated ∧
      activated.toList = vars.toList := by
  refine ⟨parseEnvDump output.stdout, ?_, ?_⟩
  · simp only [Flox.captureActivatedEnv, hrun, if_pos hsuccess]
  · rw [hstdout]
    exact Std.TreeMap.equiv_iff_toList_eq.mp (equiv_parseEnvDump h hperm)

end Devcroft.Provider
