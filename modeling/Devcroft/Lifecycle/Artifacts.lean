import Devcroft.Library.Program
import Devcroft.Lifecycle.State
import Devcroft.Provider.Flox

/-!
# The artifacts in a project

The directory `.devcroft` of a project is shared: `up` puts the service config of every
sandbox there, each in a directory of its name, and the derived environments, which any
sandbox of the project may use. `rm` removes the directory of its sandbox, and what
looks like a derived environment once nothing else is left.
-/

namespace Devcroft.Lifecycle

open Program Provider

/-- The files of a directory, by their paths below it. -/
abbrev Files := List (String × List UInt8)

/-- The directory `.devcroft` of a project. -/
structure Site where
  /-- Its entries with their files, if it is there. -/
  shared : Option (List (String × Files))
  deriving DecidableEq

/-- A project without one. -/
def Site.empty : Site := ⟨none⟩

/-- The files of an entry. -/
def Site.files (s : Site) (name : String) : Option Files := s.shared.bind (List.lookup name)

/-- The names of the entries. -/
def Site.names (s : Site) : List String := (s.shared.getD []).map Prod.fst

/-- A file below an entry. -/
def Site.fileAt (s : Site) (name path : String) : Option (List UInt8) :=
  (s.files name).bind (List.lookup path)

/-- An entry gets these files. -/
def Site.put (s : Site) (name : String) (files : Files) : Site :=
  ⟨s.shared.map fun entries => entries.map fun e => if e.1 = name then (name, files) else e⟩

/-- An entry is gone. -/
def Site.erase (s : Site) (name : String) : Site :=
  ⟨s.shared.map fun entries => entries.filter fun e => e.1 ≠ name⟩

/-- `create_dir_all`. -/
def Site.createDirAll (s : Site) (name : String) : Site :=
  match s.files name with
  | some _ => s
  | none => ⟨some (s.shared.getD [] ++ [(name, [])])⟩

/-- `write`, in a directory that is there. -/
def Site.write (s : Site) (name path : String) (bytes : List UInt8) : Site :=
  match s.files name with
  | some files => s.put name ((files.filter fun f => f.1 ≠ path) ++ [(path, bytes)])
  | none => s

/-- The name of a derived environment. -/
def derivedEnv (fingerprint : String) : String := DERIVED_ENV_PREFIX ++ fingerprint

/-- The service config in the directory of a sandbox. -/
def SERVICES_CONFIG : String := "services.yaml"

/-- What one `up` puts there: the derived environment of a project with a hook, by its fingerprint,
and the config of the services that it declares. -/
structure Provision where
  sandboxName : String
  derived : Option (String × Files)
  services : Option (List UInt8)

/-- `derive_hook_free_env`, as far as `.devcroft` is concerned. -/
def Site.derive (s : Site) : Option (String × Files) → Site
  | none => s
  | some (fingerprint, files) =>
    if (s.fileAt (derivedEnv fingerprint) ".flox/env/manifest.toml").isSome then s
    else
      files.foldl (fun s f => s.write (derivedEnv fingerprint) f.1 f.2)
        (s.createDirAll (derivedEnv fingerprint))

/-- `prepare_services`, as far as `.devcroft` is concerned. -/
def Site.prepareServices (s : Site) (sandboxName : String) : Option (List UInt8) → Site
  | none => s
  | some config => (s.createDirAll sandboxName).write sandboxName SERVICES_CONFIG config

/-- An `up` puts its artifacts there. -/
def Site.provide (s : Site) (p : Provision) : Site :=
  (s.derive p.derived).prepareServices p.sandboxName p.services

/-- An `io::Error`. -/
inductive IoError where
  | notFound
  | other (message : String)
  deriving DecidableEq

/-- What `rm` asks of the file system. -/
inductive SiteOp where
  /-- `remove_dir_all` of an entry, up to its last step. -/
  | removeFiles (name : String)
  /-- The last step of `remove_dir_all`. -/
  | removeDir (name : String)
  /-- `read_dir` of `.devcroft`, with its entries. -/
  | readShared
  /-- `remove_dir` of `.devcroft`. -/
  | removeShared
  deriving DecidableEq

/-- The answers. -/
@[reducible] def SiteAnswer : SiteOp → Type
  | .removeFiles _ => Except IoError Unit
  | .removeDir _ => Except IoError Unit
  | .readShared => Option (List String)
  | .removeShared => Unit

/-- What is chosen for such an operation. -/
structure SiteMoment where
  /-- The text of its error, if it fails. -/
  fails : Option String
  /-- What it leaves, or still reads, if it fails. -/
  kept : List String
  deriving DecidableEq

/-- A moment in which nothing goes wrong. -/
def SiteMoment.quiet : SiteMoment := ⟨none, []⟩

/-- What the operations do. -/
def Site.act : (o : SiteOp) → SiteMoment → Site → SiteAnswer o × Site
  | .removeFiles name, t, s =>
    match s.files name, t.fails with
    | none, _ => (.error .notFound, s)
    | some _, none => (.ok (), s.put name [])
    | some files, some e =>
      (.error (.other e), s.put name (files.filter fun f => t.kept.contains f.1))
  | .removeDir name, t, s =>
    match s.files name, t.fails with
    | none, _ => (.error .notFound, s)
    | some [], none => (.ok (), s.erase name)
    | some [], some e => (.error (.other e), s)
    | some (_ :: _), _ => (.error (.other "Directory not empty (os error 39)"), s)
  | .readShared, t, s =>
    match s.shared, t.fails with
    | none, _ => (none, s)
    | some _, none => (some s.names, s)
    | some _, some _ => (some (s.names.filter t.kept.contains), s)
  | .removeShared, t, s =>
    match s.shared, t.fails with
    | some [], none => ((), ⟨none⟩)
    | _, _ => ((), s)

/-- `.devcroft` as a machine, on which nobody else acts. -/
@[reducible] def siteMachine : Machine SiteOp SiteAnswer where
  State := Site
  Choice := SiteMoment
  idle := .quiet
  surroundings _ s := s
  act := Site.act

/-- A part of `rm` that works on `.devcroft`, with the text of its error. -/
abbrev SiteCmd (α : Type) := Prog SiteOp SiteAnswer String α

/-- `remove_dir_all`. -/
def removeDirAll (name : String) : SiteCmd (Except IoError Unit) := do
  match ← perform (SiteOp.removeFiles name) with
  | .error e => return .error e
  | .ok () => perform (SiteOp.removeDir name)

/-- Remove entries, whatever comes of it. -/
def removeEntries : List String → SiteCmd Unit
  | [] => return ()
  | entry :: rest => do
    let _ ← removeDirAll entry
    removeEntries rest

/-- The entries are removed if all of them look like derived environments. -/
def removeDerived : SiteCmd Unit := do
  match ← perform SiteOp.readShared with
  | none => return ()
  | some remaining =>
    if remaining.all (Text.startsWith DERIVED_ENV_PREFIX) then removeEntries remaining
    else return ()

/-- What `rm` does after the state directory is gone, in the project that it has found. -/
def removeArtifacts (sandboxName : String) : SiteCmd Unit := do
  match ← removeDirAll sandboxName with
  | .error (.other e) => raise e
  | _ =>
    removeDerived
    perform SiteOp.removeShared

/-- How `rm` of a sandbox leaves the directory of its project. -/
def Site.removal (s : Site) (sandboxName : String) (choices : List SiteMoment) :
    Config siteMachine :=
  (run (m := siteMachine) (removeArtifacts sandboxName) choices ⟨[], s⟩).config

section Site

variable {s : Site} {n name : String} {files : Files}

theorem lookup_cons_ite {β : Type} (n : String) (e : String × β) (rest : List (String × β)) :
    (e :: rest).lookup n = if n = e.1 then some e.2 else rest.lookup n := by
  obtain ⟨key, value⟩ := e
  by_cases h : n = key
  · simp [h]
  · rw [List.lookup_cons, beq_false_of_ne h, if_neg h]

theorem Site.files_put (s : Site) (name n : String) (files : Files) :
    (s.put name files).files n =
      if n = name then (s.files name).map fun _ => files else s.files n := by
  obtain ⟨shared⟩ := s
  cases shared with
  | none => simp [Site.put, Site.files]
  | some entries =>
    simp only [Site.put, Site.files, Option.map_some, Option.bind_some]
    induction entries with
    | nil => simp
    | cons e rest ih =>
      rw [List.map_cons, lookup_cons_ite, lookup_cons_ite, lookup_cons_ite, ih]
      by_cases hn : n = name
      · subst hn
        by_cases he : e.1 = n
        · simp [he]
        · simp [he, Ne.symm he]
      · by_cases he : e.1 = name
        · simp [hn, he]
        · simp [hn, he]

theorem Site.files_erase (s : Site) (name n : String) :
    (s.erase name).files n = if n = name then none else s.files n := by
  obtain ⟨shared⟩ := s
  cases shared with
  | none => simp [Site.erase, Site.files]
  | some entries =>
    simp only [Site.erase, Site.files, Option.map_some, Option.bind_some]
    induction entries with
    | nil => simp
    | cons e rest ih =>
      by_cases he : e.1 = name
      · rw [List.filter_cons_of_neg (by simp [he]), ih, lookup_cons_ite]
        by_cases hn : n = name
        · simp [hn]
        · simp [hn, he]
      · rw [List.filter_cons_of_pos (by simp [he]), lookup_cons_ite, lookup_cons_ite, ih]
        by_cases hn : n = name
        · subst hn
          simp [Ne.symm he]
        · simp [hn]

/-- The names are those of the entries that are there. -/
theorem Site.mem_names : n ∈ s.names ↔ (s.files n).isSome = true := by
  obtain ⟨shared⟩ := s
  cases shared with
  | none => simp [Site.names, Site.files]
  | some entries =>
    simp only [Site.names, Site.files, Option.getD_some, Option.bind_some]
    induction entries with
    | nil => simp
    | cons e rest ih =>
      rw [List.map_cons, List.mem_cons, ih, lookup_cons_ite]
      by_cases hn : n = e.1
      · simp [hn]
      · simp [hn]

/-- The entry that an operation is about. -/
def SiteOp.about : SiteOp → Option String
  | removeFiles name => some name
  | removeDir name => some name
  | _ => none

/-- An operation leaves the other entries as they are. -/
theorem Site.files_act {o : SiteOp} (h : o.about ≠ some n) (t : SiteMoment) :
    (s.act o t).2.files n = s.files n := by
  cases o with
  | removeFiles name =>
    have hne : n ≠ name := fun heq => h (by rw [heq]; rfl)
    simp only [Site.act]
    split
    · rfl
    · rw [Site.files_put, if_neg hne]
    · rw [Site.files_put, if_neg hne]
  | removeDir name =>
    have hne : n ≠ name := fun heq => h (by rw [heq]; rfl)
    simp only [Site.act]
    split
    · rfl
    · rw [Site.files_erase, if_neg hne]
    · rfl
    · rfl
  | readShared =>
    simp only [Site.act]
    split <;> rfl
  | removeShared =>
    simp only [Site.act]
    split
    · next hshared _ => simp [Site.files, hshared]
    · rfl

/-- No operation brings files back. -/
theorem Site.fileAt_act {path : String} (h : s.fileAt n path = none) (o : SiteOp)
    (t : SiteMoment) : (s.act o t).2.fileAt n path = none := by
  have hput : ∀ name files files', s.files name = some files →
      (∀ path, files.lookup path = none → files'.lookup path = none) →
      (s.put name files').fileAt n path = none := by
    intro name files files' hfiles hfewer
    unfold Site.fileAt at h ⊢
    rw [Site.files_put]
    split
    · next heq =>
      subst heq
      rw [hfiles] at h ⊢
      exact hfewer path h
    · exact h
  cases o with
  | removeFiles name =>
    simp only [Site.act]
    split
    · exact h
    · next files hfiles _ => exact hput name files _ hfiles fun _ _ => rfl
    · next files e hfiles _ =>
      refine hput name files _ hfiles fun path hpath => ?_
      exact List.lookup_eq_none_iff.mpr fun f hf =>
        List.lookup_eq_none_iff.mp hpath f (List.mem_filter.mp hf).1
  | removeDir name =>
    simp only [Site.act]
    split
    · exact h
    · unfold Site.fileAt at h ⊢
      rw [Site.files_erase]
      split
      · rfl
      · exact h
    · exact h
    · exact h
  | readShared =>
    simp only [Site.act]
    split <;> exact h
  | removeShared =>
    simp only [Site.act]
    split
    · rfl
    · exact h

/-- No operation brings an entry back. -/
theorem Site.files_act_none (h : s.files n = none) (o : SiteOp) (t : SiteMoment) :
    (s.act o t).2.files n = none := by
  by_cases habout : o.about = some n
  · cases o with
    | removeFiles name =>
      obtain rfl : name = n := Option.some.inj habout
      simp only [Site.act, h]
    | removeDir name =>
      obtain rfl : name = n := Option.some.inj habout
      simp only [Site.act, h]
    | readShared => cases habout
    | removeShared => cases habout
  · rw [Site.files_act habout]
    exact h

theorem Site.files_createDirAll (s : Site) (name : String) :
    (s.createDirAll name).files name = some ((s.files name).getD []) := by
  unfold Site.createDirAll
  cases hfiles : s.files name with
  | some files => exact hfiles
  | none =>
    have hnone : (s.shared.getD []).lookup name = none := by
      unfold Site.files at hfiles
      cases hshared : s.shared with
      | none => rfl
      | some entries => simpa [hshared] using hfiles
    simp only [Site.files, Option.bind_some, Option.getD_none]
    rw [List.lookup_append, hnone]
    simp

theorem Site.fileAt_write {bytes : List UInt8} {path : String} (h : s.files name = some files) :
    (s.write name path bytes).fileAt name path = some bytes := by
  have hnone : (files.filter fun f => f.1 ≠ path).lookup path = none := by
    refine List.lookup_eq_none_iff.mpr fun f hf => ?_
    have hne : f.1 ≠ path := by simpa using (List.mem_filter.mp hf).2
    simp [Ne.symm hne]
  unfold Site.fileAt
  simp only [Site.write, h]
  rw [Site.files_put, if_pos rfl, h, Option.map_some, Option.bind_some, List.lookup_append, hnone]
  simp

theorem Site.act_readShared {t : SiteMoment} (h : t.fails = none) :
    s.act .readShared t = (s.shared.map fun _ => s.names, s) := by
  obtain ⟨shared⟩ := s
  cases shared <;> simp [Site.act, h]

end Site

/-- The files below an entry are as before. -/
def SameFiles (n : String) (s s' : Site) : Prop := ∀ path, s'.fileAt n path = s.fileAt n path

/-- What another sandbox has there is as before: the files in its directory, and the derived
environment that its `PATH` points into. -/
def Spared (sandboxName : String) (derived : Option String) (s s' : Site) : Prop :=
  SameFiles sandboxName s s' ∧
    ∀ fingerprint ∈ derived, SameFiles (derivedEnv fingerprint) s s'

/-- There is a file below the entry. -/
def Site.Holds (s : Site) (n : String) : Prop := ∃ path, s.fileAt n path ≠ none

/-- If there are files below the entry, it is not the directory of the sandbox that is removed, and
some entry is left of which the name does not look like a derived environment's. -/
def Shielded (removed n : String) (s : Site) : Prop :=
  s.Holds n → n ≠ removed ∧
    ∃ entry ∈ s.names, entry ≠ removed ∧ Text.startsWith DERIVED_ENV_PREFIX entry = false

/-- `read_dir` reads all entries. -/
def Listed : Guard siteMachine := fun step _ => step.op = .readShared → step.choice.fails = none

/-- Nothing goes wrong. -/
def Quietly : Guard siteMachine := fun step _ => step.choice = .quiet

/-- Where nothing goes wrong, `read_dir` reads all entries. -/
theorem listed_of_quietly {trace : List (Step siteMachine)} (h : Guarded Quietly trace) :
    Guarded Listed trace := by
  refine h.mono fun step _ hstep _ => ?_
  have hquiet : step.choice = .quiet := hstep
  rw [hquiet]
  rfl

section Removal

variable {G : Guard siteMachine} {s : Site} {a n : String} {c : Config siteMachine}

theorem only_removeDirAll (name : String) :
    Only (fun o => o.about = some name) (removeDirAll name) := by
  refine only_bind (only_perform rfl) fun answer => ?_
  cases answer with
  | error e => exact only_pure _
  | ok _ => exact only_perform rfl

/-- Removing one directory leaves the other entries as they are. -/
theorem removeDirAll_others (name : String) (c : Config siteMachine) :
    wp G (fun _ c' => ∀ n, n ≠ name → c'.state.files n = c.state.files n)
      (fun _ c' => ∀ n, n ≠ name → c'.state.files n = c.state.files n) (removeDirAll name) c := by
  refine wp_of_only (only_removeDirAll name) (fun o c' t ho hc _ n hn => ?_) fun _ _ => rfl
  have hother : o.about ≠ some n := by
    rw [ho]
    exact fun heq => hn (Option.some.inj heq).symm
  exact (Site.files_act hother t).trans (hc n hn)

/-- Where an entry is left that is no derived environment, nothing else is removed. -/
theorem removeDerived_shielded {entry : String} (hentry : entry ∈ c.state.names)
    (hlooks : Text.startsWith DERIVED_ENV_PREFIX entry = false) :
    wp Listed (fun _ c' => c'.state = c.state) (fun _ _ => False) removeDerived c := by
  refine (wp_perform_bind _ _ _ _ _).mpr fun t hguard => ?_
  have hact := Site.act_readShared (s := c.state) (t := t) (hguard rfl)
  have hanswer : c.answer .readShared t = c.state.shared.map fun _ => c.state.names :=
    congrArg Prod.fst hact
  have hstate : (c.next .readShared t).state = c.state := congrArg Prod.snd hact
  rw [hanswer]
  cases c.state.shared with
  | none => exact hstate
  | some entries =>
    have hall : c.state.names.all (Text.startsWith DERIVED_ENV_PREFIX) = false := by
      rw [List.all_eq_false]
      exact ⟨entry, hentry, by simp [hlooks]⟩
    simp only [Option.map_some, hall, Bool.false_eq_true, if_false]
    exact hstate

/-- `rm` leaves all other entries as they are, if one of them is no derived environment. -/
theorem removeArtifacts_shielded (hshield : ∃ entry ∈ s.names, entry ≠ a ∧
      Text.startsWith DERIVED_ENV_PREFIX entry = false) :
    wp Listed (fun _ c => ∀ n, n ≠ a → c.state.files n = s.files n)
      (fun _ c => ∀ n, n ≠ a → c.state.files n = s.files n) (removeArtifacts a) ⟨[], s⟩ := by
  obtain ⟨entry, hentry, hne, hlooks⟩ := hshield
  refine wp_seq (removeDirAll_others a _) fun answer c hkept => ?_
  have hleft : entry ∈ c.state.names := by
    rw [Site.mem_names, hkept entry hne]
    exact Site.mem_names.mp hentry
  have hrest : wp Listed (fun _ c => ∀ n, n ≠ a → c.state.files n = s.files n)
      (fun _ c => ∀ n, n ≠ a → c.state.files n = s.files n)
      (removeDerived >>= fun _ => perform SiteOp.removeShared) c := by
    refine wp_seq (wp_mono (removeDerived_shielded hleft hlooks) (fun _ _ h => h)
      fun _ _ h => h.elim) fun _ c' hsame => ?_
    intro t _ n hn
    have hact : (c'.next .removeShared t).state.files n = c'.state.files n :=
      Site.files_act (by simp [SiteOp.about]) t
    rw [hact, hsame]
    exact hkept n hn
  split
  · exact hkept
  · exact hrest

/-- Nothing that `rm` does brings a file back. -/
theorem removeArtifacts_absent {path : String} (h : s.fileAt n path = none) :
    wp G (fun _ c => c.state.fileAt n path = none) (fun _ c => c.state.fileAt n path = none)
      (removeArtifacts a) ⟨[], s⟩ :=
  wp_of_only (only_true _) (fun o _ t _ hc _ => Site.fileAt_act hc o t) h

/-- A directory is removed, if nothing goes wrong. -/
theorem removeDirAll_quietly (name : String) (c : Config siteMachine) :
    wp Quietly (fun answer c' => (∀ e, answer ≠ .error (.other e)) ∧
      ∀ n, c'.state.files n = if n = name then none else c.state.files n) (fun _ _ => False)
      (removeDirAll name) c := by
  refine (wp_perform_bind _ _ _ _ _).mpr fun t (ht : t = .quiet) => ?_
  have hact : (c.answer (.removeFiles name) t, (c.next (.removeFiles name) t).state) =
      c.state.act (.removeFiles name) .quiet := by rw [ht]; rfl
  cases hfiles : c.state.files name with
  | none =>
    simp only [Site.act, hfiles] at hact
    obtain ⟨hanswer, hstate⟩ := Prod.mk.inj hact
    rw [hanswer]
    refine ⟨by simp, fun n => ?_⟩
    rw [hstate]
    split
    · next hn => rw [hn, hfiles]
    · rfl
  | some files =>
    simp only [Site.act, hfiles, SiteMoment.quiet] at hact
    obtain ⟨hanswer, hstate⟩ := Prod.mk.inj hact
    rw [hanswer]
    generalize c.next (.removeFiles name) t = c₁ at hstate
    intro t' (ht' : t' = .quiet)
    have hempty : c₁.state.files name = some [] := by
      rw [hstate, Site.files_put, if_pos rfl, hfiles]
      rfl
    have hact' : (c₁.answer (.removeDir name) t', (c₁.next (.removeDir name) t').state) =
        c₁.state.act (.removeDir name) .quiet := by rw [ht']; rfl
    simp only [Site.act, hempty, SiteMoment.quiet] at hact'
    obtain ⟨hanswer', hstate'⟩ := Prod.mk.inj hact'
    refine ⟨by rw [hanswer']; simp, fun n => ?_⟩
    rw [hstate', Site.files_erase, hstate, Site.files_put]
    split
    · rfl
    · rfl

/-- Entries are removed, if nothing goes wrong. -/
theorem removeEntries_quietly (entries : List String) (c : Config siteMachine) :
    wp Quietly (fun _ c' =>
      ∀ n, c'.state.files n = if n ∈ entries then none else c.state.files n) (fun _ _ => False)
      (removeEntries entries) c := by
  induction entries generalizing c with
  | nil => exact fun n => (if_neg List.not_mem_nil).symm
  | cons entry rest ih =>
    refine wp_seq (removeDirAll_quietly entry c) fun _ c₁ ⟨_, hfirst⟩ => ?_
    refine wp_mono (ih c₁) (fun _ c₂ hrest n => ?_) fun _ _ h => h
    rw [hrest, hfirst]
    by_cases hn : n = entry
    · simp [hn]
    · simp [hn]

/-- Where all that is left looks like derived environments, nothing is left. -/
theorem removeDerived_bare (hbare : ∀ entry ∈ c.state.names,
      Text.startsWith DERIVED_ENV_PREFIX entry = true) :
    wp Quietly (fun _ c' => ∀ n, c'.state.files n = none) (fun _ _ => False) removeDerived c := by
  have hnone : ∀ n, n ∉ c.state.names → c.state.files n = none := by
    intro n hn
    rw [Site.mem_names] at hn
    exact Option.not_isSome_iff_eq_none.mp hn
  refine (wp_perform_bind _ _ _ _ _).mpr fun t (ht : t = .quiet) => ?_
  have hact := Site.act_readShared (s := c.state) (t := t) (by rw [ht]; rfl)
  have hanswer : c.answer .readShared t = c.state.shared.map fun _ => c.state.names :=
    congrArg Prod.fst hact
  have hstate : (c.next .readShared t).state = c.state := congrArg Prod.snd hact
  rw [hanswer]
  cases hshared : c.state.shared with
  | none =>
    intro n
    rw [hstate]
    simp [Site.files, hshared]
  | some entries =>
    have hall : c.state.names.all (Text.startsWith DERIVED_ENV_PREFIX) = true :=
      List.all_eq_true.mpr hbare
    simp only [Option.map_some, hall, if_true]
    refine wp_mono (removeEntries_quietly c.state.names _) (fun _ c' hgone n => ?_) fun _ _ h => h
    rw [hgone, hstate]
    split
    · rfl
    · next hn => exact hnone n hn

/-- `rm` leaves nothing, if all that there is beside the directory of its sandbox looks like derived
environments. -/
theorem removeArtifacts_bare (hbare : ∀ entry ∈ s.names, entry ≠ a →
      Text.startsWith DERIVED_ENV_PREFIX entry = true) :
    wp Quietly (fun _ c => ∀ n, c.state.files n = none) (fun _ _ => False)
      (removeArtifacts a) ⟨[], s⟩ := by
  refine wp_seq (removeDirAll_quietly a _) fun answer c hc => ?_
  obtain ⟨hanswer, hfirst⟩ := hc
  have hleft : ∀ entry ∈ c.state.names, Text.startsWith DERIVED_ENV_PREFIX entry = true := by
    intro entry hentry
    rw [Site.mem_names, hfirst] at hentry
    by_cases hne : entry = a
    · simp [hne] at hentry
    · rw [if_neg hne] at hentry
      exact hbare entry (Site.mem_names.mpr hentry) hne
  split
  · next e => exact (hanswer e rfl).elim
  · refine wp_seq (removeDerived_bare hleft) fun _ c' hgone t _ n => ?_
    have hact : (c'.next .removeShared t).state.files n = c'.state.files n :=
      Site.files_act (by simp [SiteOp.about]) t
    rw [hact]
    exact hgone n

/-- `rm` removes the directory of its sandbox, if nothing goes wrong. -/
theorem removeArtifacts_own (path : String) :
    wp Quietly (fun _ c => c.state.fileAt a path = none) (fun _ c => c.state.fileAt a path = none)
      (removeArtifacts a) ⟨[], s⟩ := by
  refine wp_seq (wp_mono (removeDirAll_quietly a _) (fun _ _ h => h) fun _ _ h => h.elim)
    fun answer c hc => ?_
  have hgone : c.state.fileAt a path = none := by
    rw [Site.fileAt, hc.2, if_pos rfl, Option.bind_none]
  exact wp_of_only (only_true _) (fun o _ t _ hc _ => Site.fileAt_act hc o t) hgone

/-- `rm` leaves the files below an entry as they are, whatever fails, as long as `read_dir` reads
all entries, if and only if the entry is shielded. -/
theorem sameFiles_iff :
    (∀ choices, Guarded Listed (s.removal a choices).trace →
      SameFiles n s (s.removal a choices).state) ↔ Shielded a n s := by
  constructor
  · intro h hholds
    obtain ⟨path, hpath⟩ := hholds
    have hquiet : Guarded Quietly (s.removal a []).trace := guarded_run_nil _ trivial
    have hsame := h [] (listed_of_quietly hquiet) path
    by_contra hnot
    refine hpath (hsame.symm.trans ?_)
    by_cases hown : n = a
    · subst hown
      exact config_of_wp (removeArtifacts_own path) [] hquiet
    · have hbare : ∀ entry ∈ s.names, entry ≠ a →
          Text.startsWith DERIVED_ENV_PREFIX entry = true := by
        intro entry hentry hne
        by_contra hlooks
        exact hnot ⟨hown, entry, hentry, hne, by simpa using hlooks⟩
      have hgone : (s.removal a []).state.files n = none :=
        config_of_wp (m := siteMachine) (P := fun c => ∀ n, c.state.files n = none)
          (wp_mono (removeArtifacts_bare hbare) (fun _ _ h => h) fun _ _ h => h.elim) [] hquiet n
      rw [Site.fileAt, hgone, Option.bind_none]
  · intro hshield choices hlisted path
    by_cases hpath : s.fileAt n path = none
    · rw [hpath]
      exact config_of_wp (removeArtifacts_absent hpath) choices hlisted
    · obtain ⟨hne, hentry⟩ := hshield ⟨path, hpath⟩
      have hkept : (s.removal a choices).state.files n = s.files n :=
        config_of_wp (m := siteMachine) (P := fun c => ∀ n, n ≠ a → c.state.files n = s.files n)
          (removeArtifacts_shielded hentry) choices hlisted n hne
      rw [Site.fileAt, hkept, Site.fileAt]

/-- What `rm` of one sandbox does to another one: its files and the derived environment that it uses
are left as they are if and only if both are shielded. -/
theorem spared_iff {s : Site} {removed sandboxName : String} {derived : Option String} :
    (∀ choices, Guarded Listed (s.removal removed choices).trace →
      Spared sandboxName derived s (s.removal removed choices).state) ↔
      Shielded removed sandboxName s ∧
        ∀ fingerprint ∈ derived, Shielded removed (derivedEnv fingerprint) s := by
  constructor
  · intro h
    refine ⟨sameFiles_iff.mp fun choices hlisted => (h choices hlisted).1, ?_⟩
    intro fingerprint hfingerprint
    exact sameFiles_iff.mp fun choices hlisted => (h choices hlisted).2 fingerprint hfingerprint
  · rintro ⟨hown, hderived⟩ choices hlisted
    refine ⟨sameFiles_iff.mpr hown choices hlisted, fun fingerprint hfingerprint => ?_⟩
    exact sameFiles_iff.mpr (hderived fingerprint hfingerprint) choices hlisted

end Removal

/-- The files of a derived environment. -/
def sampleDerived : Files := [(".flox/env/manifest.toml", Utf8.encode "[vars]\n")]

/-- A service config. -/
def sampleConfig : List UInt8 := Utf8.encode "processes:\n"

/-- Of two sandboxes on one project, `web` has declared services and no hook, and `api` a hook and
no services. -/
def derivedSite : Site :=
  (Site.empty.provide ⟨"web", none, some sampleConfig⟩).provide
    ⟨"api", some ("0123456789abcdef", sampleDerived), none⟩

/-- Both have declared services, and the name of one begins like a derived environment's. -/
def prefixedSite : Site :=
  (Site.empty.provide ⟨"web", none, some sampleConfig⟩).provide
    ⟨"flox-env-b", none, some sampleConfig⟩

/-- With `rm` of `web`, the derived environment of `api` is gone, and so are the files of a sandbox
named `flox-env-b`. -/
theorem not_spared_web :
    (Config.isValidName "web" = true ∧ Config.isValidName "api" = true ∧
      Config.isValidName "flox-env-b" = true) ∧
    (Guarded Listed (derivedSite.removal "web" []).trace ∧
      ¬Spared "api" (some "0123456789abcdef") derivedSite (derivedSite.removal "web" []).state) ∧
    Guarded Listed (prefixedSite.removal "web" []).trace ∧
      ¬Spared "flox-env-b" none prefixedSite (prefixedSite.removal "web" []).state := by
  have hlisted : ∀ s : Site, Guarded Listed (s.removal "web" []).trace :=
    fun s => listed_of_quietly (guarded_run_nil _ trivial)
  refine ⟨by decide +kernel, ⟨hlisted _, fun h => ?_⟩, hlisted _, fun h => ?_⟩
  · have hgone := h.2 "0123456789abcdef" rfl ".flox/env/manifest.toml"
    revert hgone
    decide +kernel
  · have hgone := h.1 SERVICES_CONFIG
    revert hgone
    decide +kernel

end Devcroft.Lifecycle
