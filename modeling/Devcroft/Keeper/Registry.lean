import Devcroft.Keeper.Processes

/-!
# The keeper's session registry
-/

namespace Devcroft.Keeper

/-- `SessionInfo`. -/
structure SessionInfo where
  pgid : ℕ
  command : String
  started : ℕ
  deriving DecidableEq

/-- `Registry`. -/
structure Registry where
  sessions : List (ℕ × SessionInfo)
  nextId : ℕ
  deriving DecidableEq

/-- `Registry::new`. -/
def Registry.new : Registry := ⟨[], 0⟩

/-- The first part of `Registry::insert`: another id. -/
def Registry.takeId (r : Registry) : ℕ × Registry :=
  (r.nextId + 1, { r with nextId := r.nextId + 1 })

/-- The second part of `Registry::insert`: the entry under that id. -/
def Registry.put (r : Registry) (id : ℕ) (info : SessionInfo) : Registry :=
  { r with sessions := (id, info) :: r.sessions.filter fun entry => entry.1 ≠ id }

/-- `Registry::remove`. -/
def Registry.remove (r : Registry) (id : ℕ) : Registry :=
  { r with sessions := r.sessions.filter fun entry => entry.1 ≠ id }

/-- `Registry::contains`. -/
def Registry.contains (r : Registry) (id : ℕ) : Bool := r.sessions.any fun entry => entry.1 = id

/-- `Registry::snapshot`. -/
def Registry.snapshot (r : Registry) : List (ℕ × SessionInfo) := r.sessions

/-- An entry of the registry. -/
def Registry.Has (r : Registry) (id : ℕ) (info : SessionInfo) : Prop := (id, info) ∈ r.sessions

theorem Registry.contains_iff {r : Registry} {id : ℕ} :
    r.contains id = true ↔ ∃ info, r.Has id info := by
  simp [Registry.contains, Registry.Has]

@[simp] theorem Registry.takeId_fst (r : Registry) : r.takeId.1 = r.nextId + 1 := rfl

@[simp] theorem Registry.takeId_nextId (r : Registry) : r.takeId.2.nextId = r.nextId + 1 := rfl

@[simp] theorem Registry.put_nextId (r : Registry) (id : ℕ) (info : SessionInfo) :
    (r.put id info).nextId = r.nextId := rfl

@[simp] theorem Registry.remove_nextId (r : Registry) (id : ℕ) :
    (r.remove id).nextId = r.nextId := rfl

@[simp] theorem Registry.has_takeId {r : Registry} {id : ℕ} {info : SessionInfo} :
    r.takeId.2.Has id info ↔ r.Has id info := Iff.rfl

theorem Registry.has_put {r : Registry} {id id' : ℕ} {info info' : SessionInfo} :
    (r.put id info).Has id' info' ↔ (id' = id ∧ info' = info) ∨ (id' ≠ id ∧ r.Has id' info') := by
  simp only [Registry.Has, Registry.put, List.mem_cons, Prod.mk.injEq, List.mem_filter,
    decide_eq_true_eq]
  exact or_congr_right and_comm

theorem Registry.has_remove {r : Registry} {id id' : ℕ} {info : SessionInfo} :
    (r.remove id).Has id' info ↔ id' ≠ id ∧ r.Has id' info := by
  simp only [Registry.Has, Registry.remove, List.mem_filter, decide_eq_true_eq]
  exact and_comm

end Devcroft.Keeper
