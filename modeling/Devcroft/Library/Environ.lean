import Mathlib.Tactic.Common
import Mathlib.Data.List.Induction
import Devcroft.Library.Text

/-!
# The environment of a child process

A command that is built inherits the variables of the process that builds it, changed
by calls that set or remove one variable each. The child gets them as strings
`name=value` in the order of their names, and looks a name up among these strings: it
finds the first that begins with the name and an equals sign, whatever key it was set
under.
-/

namespace Environ

/-- Variables by their keys. -/
abbrev Vars := Std.TreeMap String String

/-- A call that changes the environment of a command. -/
inductive Call where
  | env (key value : String)
  | envRemove (key : String)
  deriving DecidableEq

/-- The key that a call is about. -/
def Call.key : Call → String
  | env key _ => key
  | envRemove key => key

/-- What the variable is after it. -/
def Call.value : Call → Option String
  | env _ value => some value
  | envRemove _ => none

/-- The variables after a call. -/
def Call.apply (vars : Vars) : Call → Vars
  | env key value => vars.insert key value
  | envRemove key => vars.erase key

/-- The variables of the child of a process with these variables. -/
def inherit (ambient : Vars) (calls : List Call) : Vars := calls.foldl Call.apply ambient

/-- `getenv`. -/
def getenv (vars : Vars) (name : String) : Option String :=
  vars.toList.findSome? fun entry => Text.stripPrefix (name ++ "=") (entry.1 ++ "=" ++ entry.2)

/-- A variable under this key is found under this name. -/
def Names (name key : String) : Prop := key = name ∨ (name ++ "=").toList <+: key.toList

instance (name key : String) : Decidable (Names name key) := inferInstanceAs (Decidable (_ ∨ _))

@[simp] theorem inherit_nil (ambient : Vars) : inherit ambient [] = ambient := rfl

theorem inherit_append (ambient : Vars) (calls more : List Call) :
    inherit ambient (calls ++ more) = inherit (inherit ambient calls) more :=
  List.foldl_append

theorem getElem?_apply (vars : Vars) (c : Call) (key : String) :
    (c.apply vars)[key]? = if key = c.key then c.value else vars[key]? := by
  have hcompare : compare c.key key = .eq ↔ key = c.key := by
    rw [Std.LawfulEqCmp.compare_eq_iff_eq]
    exact eq_comm
  cases c with
  | env k v =>
    rw [Call.apply, Std.TreeMap.getElem?_insert]
    exact if_congr hcompare rfl rfl
  | envRemove k =>
    rw [Call.apply, Std.TreeMap.getElem?_erase]
    exact if_congr hcompare rfl rfl

/-- The last call about a key. -/
def lastCall (key : String) (calls : List Call) : Option Call :=
  calls.reverse.find? fun c => c.key = key

@[simp] theorem lastCall_append (key : String) (calls more : List Call) :
    lastCall key (calls ++ more) = (lastCall key more).or (lastCall key calls) := by
  simp [lastCall]

/-- No call is about a key. -/
theorem lastCall_eq_none_iff {key : String} {calls : List Call} :
    lastCall key calls = none ↔ ∀ c ∈ calls, c.key ≠ key := by
  simp [lastCall]

/-- The last call about a key decides, and without one the variable is inherited. -/
theorem getElem?_inherit (ambient : Vars) (calls : List Call) (key : String) :
    (inherit ambient calls)[key]? =
      match lastCall key calls with
      | some c => c.value
      | none => ambient[key]? := by
  induction calls using List.reverseRecOn with
  | nil => rfl
  | append_singleton calls c ih =>
    rw [inherit_append]
    change (c.apply (inherit ambient calls))[key]? = _
    rw [getElem?_apply, lastCall_append]
    by_cases hkey : key = c.key
    · simp [lastCall, hkey]
    · rw [if_neg hkey, ih]
      simp [lastCall, Ne.symm hkey]

/-- The calls that set these variables and then remove those. -/
def overlay (env : List (String × String)) (unset : List String) : List Call :=
  env.map (fun entry => .env entry.1 entry.2) ++ unset.map .envRemove

/-- The last value for a key. -/
def lastValue (key : String) (env : List (String × String)) : Option String :=
  (env.reverse.find? fun entry => entry.1 = key).map Prod.snd

theorem lastValue_eq_none_iff {key : String} {env : List (String × String)} :
    lastValue key env = none ↔ key ∉ env.map Prod.fst := by
  simp only [lastValue, Option.map_eq_none_iff, List.find?_eq_none, List.mem_reverse,
    decide_eq_true_eq, List.mem_map, not_exists, not_and]

/-- The last value behind more entries. -/
theorem lastValue_append {name : String} (env more : List (String × String)) :
    lastValue name (env ++ more) = (lastValue name more).or (lastValue name env) := by
  rw [lastValue, List.reverse_append, List.find?_append, Option.map_or]
  rfl

theorem lastValue_singleton {name key value : String} :
    lastValue name [(key, value)] = if name = key then some value else none := by
  by_cases hkey : name = key
  · simp [lastValue, hkey]
  · simp [lastValue, hkey, Ne.symm hkey]

/-- Entries of another key do not matter. -/
theorem lastValue_filter {env : List (String × String)} {name key : String} (hkey : name ≠ key) :
    lastValue name (env.filter fun entry => entry.1 ≠ key) = lastValue name env := by
  rw [lastValue, ← List.filter_reverse, List.find?_filter, lastValue]
  congr 1
  refine congrArg (fun p => List.find? p _) (funext fun entry => ?_)
  by_cases hname : entry.1 = name
  · simp [hname, hkey]
  · simp [hname]

theorem lastCall_envs (key : String) (env : List (String × String)) :
    (lastCall key (env.map fun entry => .env entry.1 entry.2)).map Call.value =
      (lastValue key env).map some := by
  rw [lastCall, ← List.map_reverse, List.find?_map, lastValue]
  change ((env.reverse.find? fun entry => entry.1 = key).map _).map _ = _
  cases env.reverse.find? fun entry => entry.1 = key <;> rfl

theorem lastCall_envRemoves (key : String) (unset : List String) :
    lastCall key (unset.map .envRemove) = if key ∈ unset then some (.envRemove key) else none := by
  cases hlast : lastCall key (unset.map .envRemove) with
  | none =>
    have hkeys := lastCall_eq_none_iff.mp hlast
    rw [if_neg fun hmem => hkeys (.envRemove key) (List.mem_map_of_mem hmem) rfl]
  | some c =>
    obtain ⟨name, hname, rfl⟩ :=
      List.mem_map.mp (List.mem_reverse.mp (List.mem_of_find?_eq_some hlast))
    have hkey := List.find?_some hlast
    obtain rfl : name = key := of_decide_eq_true hkey
    rw [if_pos hname]

/-- Of a map's own entries, the last value for a key is the only one. -/
theorem lastValue_toList (vars : Vars) (key : String) : lastValue key vars.toList = vars[key]? := by
  cases hlast : lastValue key vars.toList with
  | none =>
    rw [lastValue_eq_none_iff] at hlast
    by_contra hne
    obtain ⟨value, hvalue⟩ := Option.ne_none_iff_exists'.mp (Ne.symm hne)
    have hmem := Std.TreeMap.mem_toList_iff_getElem?_eq_some.mpr hvalue
    exact hlast (List.mem_map.mpr ⟨_, hmem, rfl⟩)
  | some value =>
    obtain ⟨⟨key', value'⟩, hfind, rfl⟩ := Option.map_eq_some_iff.mp hlast
    have hkey := List.find?_some hfind
    obtain rfl : key' = key := of_decide_eq_true hkey
    have hmem := List.mem_reverse.mp (List.mem_of_find?_eq_some hfind)
    exact (Std.TreeMap.mem_toList_iff_getElem?_eq_some.mp hmem).symm

/-- Different keys make different entries. -/
theorem nodup_of_distinct {entries : List (String × String)}
    (h : entries.Pairwise fun a b => ¬compare a.1 b.1 = .eq) : entries.Nodup := by
  apply h.imp
  rintro a b hne rfl
  exact hne Std.ReflOrd.compare_self

/-- Entries of different keys are the entries of the map that they make up. -/
theorem perm_toList_ofList {entries : List (String × String)}
    (h : entries.Pairwise fun a b => ¬compare a.1 b.1 = .eq) :
    (Std.TreeMap.ofList entries : Vars).toList.Perm entries := by
  have hnodup : (Std.TreeMap.ofList entries : Vars).toList.Nodup :=
    nodup_of_distinct Std.TreeMap.distinct_keys_toList
  rw [List.perm_ext_iff_of_nodup hnodup (nodup_of_distinct h)]
  rintro ⟨key, value⟩
  rw [Std.TreeMap.mem_toList_iff_getElem?_eq_some]
  have hget : ∀ v, (key, v) ∈ entries → (Std.TreeMap.ofList entries : Vars)[key]? = some v :=
    fun v hmem => Std.TreeMap.getElem?_ofList_of_mem Std.ReflOrd.compare_self h hmem
  constructor
  · intro hsome
    by_cases hkey : key ∈ entries.map Prod.fst
    · obtain ⟨⟨key', v⟩, hmem, rfl⟩ := List.mem_map.mp hkey
      rw [hget v hmem] at hsome
      exact Option.some.inj hsome ▸ hmem
    · rw [Std.TreeMap.getElem?_ofList_of_contains_eq_false (by simpa using hkey)] at hsome
      cases hsome
  · exact hget value

/-- A map is made up of its entries, whatever order they come in. -/
theorem toList_ofList_of_perm {vars : Vars} {entries : List (String × String)}
    (h : entries.Perm vars.toList) : (Std.TreeMap.ofList entries : Vars).toList = vars.toList := by
  have hdistinct : entries.Pairwise fun a b => ¬compare a.1 b.1 = .eq :=
    h.symm.pairwise Std.TreeMap.distinct_keys_toList fun hne heq =>
      hne (Std.OrientedCmp.eq_symm heq)
  rw [← Std.TreeMap.equiv_iff_toList_eq, Std.TreeMap.equiv_iff_toList_perm]
  exact (perm_toList_ofList hdistinct).trans h

/-- An overlaid variable: removed, set, or inherited. -/
theorem getElem?_overlay (ambient : Vars) (env : List (String × String)) (unset : List String)
    (key : String) :
    (inherit ambient (overlay env unset))[key]? =
      if key ∈ unset then none else (lastValue key env).or ambient[key]? := by
  rw [getElem?_inherit, overlay, lastCall_append, lastCall_envRemoves]
  by_cases hmem : key ∈ unset
  · rw [if_pos hmem, if_pos hmem]
    rfl
  · rw [if_neg hmem, if_neg hmem, Option.none_or]
    have henv := lastCall_envs key env
    cases hlast : lastCall key (env.map fun entry => .env entry.1 entry.2) with
    | none =>
      rw [hlast, Option.map_none] at henv
      rw [Option.map_eq_none_iff.mp henv.symm, Option.none_or]
    | some c =>
      rw [hlast, Option.map_some] at henv
      obtain ⟨value, hvalue, hc⟩ := Option.map_eq_some_iff.mp henv.symm
      rw [hvalue]
      exact hc.symm

/-- An overlaid variable is not set when it is removed, or neither set nor inherited. -/
theorem getElem?_overlay_eq_none_iff (ambient : Vars) (env : List (String × String))
    (unset : List String) (key : String) :
    (inherit ambient (overlay env unset))[key]? = none ↔
      key ∈ unset ∨ (key ∉ env.map Prod.fst ∧ ambient[key]? = none) := by
  rw [getElem?_overlay, ← lastValue_eq_none_iff]
  by_cases hmem : key ∈ unset
  · simp [hmem]
  · simp [hmem, Option.or_eq_none_iff]

/-- A key that begins with another does not come before it. -/
theorem not_lt_of_isPrefix {name key : String} (h : name.toList <+: key.toList) :
    compare key name ≠ .lt := by
  intro hlt
  have hbefore : key < name := compareOfLessAndEq_eq_lt.mp hlt
  exact h.le (String.lt_iff.mp hbefore)

/-- A string `key=value` begins with a name and an equals sign just when the key is found under
the name. -/
theorem names_of_stripPrefix {name key value rest : String} (hname : '=' ∉ name.toList)
    (h : Text.stripPrefix (name ++ "=") (key ++ "=" ++ value) = some rest) : Names name key := by
  have hsplit := congrArg String.toList (Text.stripPrefix_eq_some_iff.mp h)
  have heq : "=".toList = ['='] := rfl
  simp only [String.toList_append, heq, List.append_assoc, List.singleton_append] at hsplit
  unfold Names
  rcases List.append_eq_append_iff.mp hsplit with ⟨more, hkey, hrest⟩ | ⟨more, hkey, hrest⟩
  · -- The name goes on after the key.
    cases more with
    | nil => exact Or.inl (Text.ext (by simpa using hkey.symm))
    | cons c more =>
      obtain ⟨rfl, -⟩ := List.cons.inj hrest
      exact (hname (by simp [hkey])).elim
  · cases more with
    | nil => exact Or.inl (Text.ext (by simpa using hkey))
    | cons c more =>
      obtain ⟨rfl, -⟩ := List.cons.inj hrest
      refine Or.inr ⟨more, ?_⟩
      rw [hkey, String.toList_append, heq]
      simp

theorem exists_stripPrefix_of_names {name key : String} (h : Names name key) (value : String) :
    ∃ rest, Text.stripPrefix (name ++ "=") (key ++ "=" ++ value) = some rest := by
  rcases h with rfl | ⟨more, hmore⟩
  · exact ⟨value, Text.stripPrefix_eq_some_iff.mpr rfl⟩
  · refine ⟨String.ofList more ++ "=" ++ value, Text.stripPrefix_eq_some_iff.mpr ?_⟩
    apply Text.ext
    simp only [String.toList_append] at hmore ⊢
    simp [← hmore]

/-- A variable that is set is found under its own key, whatever else is set. -/
theorem getenv_of_getElem? {vars : Vars} {name value : String} (hname : '=' ∉ name.toList)
    (h : vars[name]? = some value) : getenv vars name = some value := by
  obtain ⟨before, after, hlist⟩ :=
    List.append_of_mem (Std.TreeMap.mem_toList_iff_getElem?_eq_some.mpr h)
  refine List.findSome?_eq_some_iff.mpr ⟨before, (name, value), after, hlist, ?_, ?_⟩
  · exact Text.stripPrefix_eq_some_iff.mpr rfl
  · intro entry hentry
    have hlt : compare entry.1 name = .lt := by
      have hordered := vars.ordered_keys_toList
      rw [hlist] at hordered
      exact (List.pairwise_append.mp hordered).2.2 entry hentry (name, value) List.mem_cons_self
    by_contra hne
    obtain ⟨rest, hrest⟩ := Option.ne_none_iff_exists'.mp hne
    rcases names_of_stripPrefix hname hrest with hkey | hprefix
    · rw [hkey] at hlt
      exact not_lt_of_isPrefix List.prefix_rfl hlt
    · refine not_lt_of_isPrefix (List.IsPrefix.trans ?_ hprefix) hlt
      rw [String.toList_append]
      exact List.prefix_append _ _

/-- A variable whose last call sets it is found. -/
theorem getenv_inherit {ambient : Vars} {calls : List Call} {name value : String}
    (hname : '=' ∉ name.toList) (h : lastCall name calls = some (.env name value)) :
    getenv (inherit ambient calls) name = some value := by
  refine getenv_of_getElem? hname ?_
  rw [getElem?_inherit, h]
  rfl

/-- Nothing is found under a name exactly when no key is found under it. -/
theorem getenv_eq_none_iff {vars : Vars} {name : String} (hname : '=' ∉ name.toList) :
    getenv vars name = none ↔ ∀ key, Names name key → vars[key]? = none := by
  unfold getenv
  rw [List.findSome?_eq_none_iff]
  constructor
  · intro h key hkey
    by_contra hne
    obtain ⟨value, hvalue⟩ := Option.ne_none_iff_exists'.mp hne
    obtain ⟨rest, hrest⟩ := exists_stripPrefix_of_names hkey value
    have hnone := h (key, value) (Std.TreeMap.mem_toList_iff_getElem?_eq_some.mpr hvalue)
    rw [hrest] at hnone
    cases hnone
  · intro h entry hentry
    by_contra hne
    obtain ⟨rest, hrest⟩ := Option.ne_none_iff_exists'.mp hne
    have hsome := Std.TreeMap.mem_toList_iff_getElem?_eq_some.mp hentry
    rw [h entry.1 (names_of_stripPrefix hname hrest)] at hsome
    cases hsome

end Environ
