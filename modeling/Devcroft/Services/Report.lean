import Devcroft.Services.State

/-!
# The report on declared services

`reconcile` puts what the supervisor answers beside the services that were declared, so
that a service it does not know, or a supervisor that is gone, is reported and not
missing from the report.
-/

namespace Devcroft.Services

/-- `Display` of `Unreachable`. -/
def Unreachable.display : Unreachable → String
  | noSocket => "no supervisor socket"
  | unusable why => why

/-- `ServicesReport`. -/
structure ServicesReport where
  states : List ServiceState
  /-- Why the supervisor of declared services could not be reached. -/
  supervisorError : Option String
  deriving DecidableEq

/-- `is_empty`. -/
def ServicesReport.isEmpty (report : ServicesReport) : Bool :=
  report.states.isEmpty && report.supervisorError.isNone

/-- The state of a service that the supervisor has no record of. -/
def ServiceState.unrecorded (name : String) : ServiceState := ⟨name, .notStarted, none⟩

/-- The loop of `reconcile`: each declared service that is not yet among the states. -/
def addDeclared (declared : List String) (states : List ServiceState) : List ServiceState :=
  declared.foldl (fun states name =>
    if states.any fun s => s.name = name then states else states ++ [.unrecorded name]) states

/-- `reconcile`. -/
def reconcile (declared : List String) (queried : Except Unreachable (List ServiceState)) :
    ServicesReport :=
  match queried with
  | .ok states => ⟨(addDeclared declared states).insertionSort fun a b => a.name ≤ b.name, none⟩
  | .error why =>
    if why = .noSocket ∧ declared = [] then ⟨[], none⟩
    else ⟨declared.map .unrecorded, some ("supervisor unreachable: " ++ why.display)⟩

/-- The declared services that have no state. -/
def missing (declared : List String) (states : List ServiceState) : List String :=
  declared.filter fun name => !states.any fun s => s.name = name

/-- The loop adds what is missing. -/
theorem addDeclared_eq {declared : List String} (h : declared.Nodup) (states : List ServiceState) :
    addDeclared declared states = states ++ (missing declared states).map .unrecorded := by
  induction declared generalizing states with
  | nil => simp [addDeclared, missing]
  | cons name rest ih =>
    obtain ⟨hname, hrest⟩ := List.nodup_cons.mp h
    rw [addDeclared, List.foldl_cons, ← addDeclared, ih hrest]
    by_cases hthere : (states.any fun s => s.name = name) = true
    · rw [if_pos hthere, missing, missing, List.filter_cons_of_neg (by simpa using hthere)]
    · rw [if_neg hthere, missing, missing, List.filter_cons_of_pos (by simpa using hthere),
        List.map_cons, List.append_assoc, List.singleton_append]
      -- The name that was added is not among the others.
      have hsame : (rest.filter fun other =>
          !(states ++ [ServiceState.unrecorded name]).any fun s => s.name = other) =
          rest.filter fun other => !states.any fun s => s.name = other := by
        refine List.filter_congr fun other hother => ?_
        have hne : name ≠ other := fun he => hname (he ▸ hother)
        simp [ServiceState.unrecorded, hne]
      rw [hsame]

/-- A declared service has a state, or is missing. -/
theorem mem_missing {declared : List String} {states : List ServiceState} {name : String} :
    name ∈ missing declared states ↔ name ∈ declared ∧ ∀ s ∈ states, s.name ≠ name := by
  simp [missing]

/-- States sorted by name. -/
theorem pairwise_name_insertionSort (states : List ServiceState) :
    (states.insertionSort fun a b => a.name ≤ b.name).Pairwise fun a b => a.name ≤ b.name := by
  have htotal : Std.Total fun a b : ServiceState => a.name ≤ b.name :=
    ⟨fun a b => String.le_total a.name b.name⟩
  have htrans : IsTrans ServiceState fun a b => a.name ≤ b.name :=
    ⟨fun a b c => String.le_trans⟩
  exact List.pairwise_insertionSort _ _

/-- With an answer, the report is the answer and what is missing from it. -/
theorem reconcile_ok_perm {declared : List String} (h : declared.Nodup)
    (states : List ServiceState) :
    (reconcile declared (.ok states)).states.Perm
      (states ++ (missing declared states).map .unrecorded) := by
  rw [← addDeclared_eq h]
  exact List.perm_insertionSort _ _

/-- Every declared service has a state in the report. -/
theorem exists_mem_reconcile {declared : List String} (h : declared.Nodup)
    (queried : Except Unreachable (List ServiceState)) {name : String} (hname : name ∈ declared) :
    ∃ s ∈ (reconcile declared queried).states, s.name = name := by
  cases queried with
  | ok states =>
    simp only [(reconcile_ok_perm h states).mem_iff, List.mem_append, List.mem_map]
    by_cases hthere : ∃ s ∈ states, s.name = name
    · obtain ⟨s, hs, hsname⟩ := hthere
      exact ⟨s, Or.inl hs, hsname⟩
    · have hmissing : name ∈ missing declared states :=
        mem_missing.mpr ⟨hname, fun s hs hsname => hthere ⟨s, hs, hsname⟩⟩
      exact ⟨.unrecorded name, Or.inr ⟨name, hmissing, rfl⟩, rfl⟩
  | error why =>
    have hdeclared : ¬(why = .noSocket ∧ declared = []) := by
      rintro ⟨-, rfl⟩
      cases hname
    rw [reconcile, if_neg hdeclared]
    exact ⟨.unrecorded name, List.mem_map_of_mem hname, rfl⟩

/-- Without an answer the report says why, unless there is no socket and nothing to answer for. -/
theorem isSome_supervisorError_iff (declared : List String) (why : Unreachable) :
    (reconcile declared (.error why)).supervisorError.isSome = true ↔
      ¬(why = .noSocket ∧ declared = []) := by
  rw [reconcile]
  split
  · next hnothing => simp [hnothing]
  · next hsomething => simp [hsomething]

/-- No service is lost and none is invented: each declared service has a state, what was answered
is reported as it was, and what is added are the services that are missing from it; and a report is
empty only where nothing was declared and no state reported. -/
theorem reconcile_exact {declared : List String} (h : declared.Nodup)
    (queried : Except Unreachable (List ServiceState)) :
    (∀ name ∈ declared, ∃ s ∈ (reconcile declared queried).states, s.name = name) ∧
    (∀ states, queried = .ok states →
      (reconcile declared queried).states.Perm
        (states ++ (missing declared states).map .unrecorded) ∧
      (reconcile declared queried).states.Pairwise (fun a b => a.name ≤ b.name) ∧
      (reconcile declared queried).supervisorError = none) ∧
    (∀ why, queried = .error why →
      ((reconcile declared queried).supervisorError.isSome = true ↔
        ¬(why = .noSocket ∧ declared = []))) ∧
    ((reconcile declared queried).isEmpty = true →
      declared = [] ∧ ∀ states, queried = .ok states → states = []) := by
  refine ⟨fun name => exists_mem_reconcile h queried, ?_, ?_, fun hempty => ?_⟩
  · rintro states rfl
    exact ⟨reconcile_ok_perm h states, pairwise_name_insertionSort _, rfl⟩
  · rintro why rfl
    exact isSome_supervisorError_iff declared why
  · rw [ServicesReport.isEmpty, Bool.and_eq_true, List.isEmpty_iff] at hempty
    obtain ⟨hstates, -⟩ := hempty
    constructor
    · apply List.eq_nil_iff_forall_not_mem.mpr
      intro name hname
      obtain ⟨s, hs, -⟩ := exists_mem_reconcile h queried hname
      rw [hstates] at hs
      cases hs
    · rintro states rfl
      have hperm := reconcile_ok_perm h states
      rw [hstates] at hperm
      exact (List.append_eq_nil_iff.mp hperm.nil_eq.symm).1

/-- A declared service that the supervisor never saw is reported beside one that runs. -/
theorem reconcile_exact_ghost :
    ∃ s ∈ (reconcile ["db", "ghost"] (.ok [⟨"db", .running, some 42⟩])).states, s.name = "ghost" :=
  (reconcile_exact (by decide) _).1 "ghost" (by decide)

end Devcroft.Services
