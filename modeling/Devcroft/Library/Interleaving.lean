import Mathlib.Tactic.Common

/-!
# Interleavings of actors

A system of actors is a partial function from a state and an action to the next state:
an action says who moves, and what the surroundings answer. Every order in which the
actors may move is a list of actions, and a property of all interleavings is one of all
lists. A guard is what is assumed of the steps.
-/

namespace Interleaving

variable {State Act : Type}

/-- Perform actions one after the other, as long as they are possible. -/
def exec (step : State → Act → Option State) : List Act → State → State
  | [], s => s
  | a :: rest, s =>
    match step s a with
    | none => s
    | some next => exec step rest next

/-- The steps that this takes: every action with the state in which it is performed. -/
def steps (step : State → Act → Option State) : List Act → State → List (State × Act)
  | [], _ => []
  | a :: rest, s =>
    match step s a with
    | none => []
    | some next => (s, a) :: steps step rest next

theorem exec_cons_of_step {step : State → Act → Option State} {s next : State} {a : Act}
    (h : step s a = some next) (rest : List Act) :
    exec step (a :: rest) s = exec step rest next := by
  simp only [exec, h]

theorem steps_cons_of_step {step : State → Act → Option State} {s next : State} {a : Act}
    (h : step s a = some next) (rest : List Act) :
    steps step (a :: rest) s = (s, a) :: steps step rest next := by
  simp only [steps, h]

theorem exec_cons_of_none {step : State → Act → Option State} {s : State} {a : Act}
    (h : step s a = none) (rest : List Act) : exec step (a :: rest) s = s := by
  simp only [exec, h]

theorem steps_cons_of_none {step : State → Act → Option State} {s : State} {a : Act}
    (h : step s a = none) (rest : List Act) : steps step (a :: rest) s = [] := by
  simp only [steps, h]

/-- What is assumed of a step, in a state. -/
abbrev Guard (State Act : Type) := State → Act → Prop

/-- Every step meets the guard. -/
def Guarded (G : Guard State Act) (taken : List (State × Act)) : Prop :=
  ∀ p ∈ taken, G p.1 p.2

instance {G : Guard State Act} [∀ s a, Decidable (G s a)] (taken : List (State × Act)) :
    Decidable (Guarded G taken) :=
  inferInstanceAs (Decidable (∀ p ∈ taken, G p.1 p.2))

variable {step : State → Act → Option State} {G : Guard State Act} {I : State → Prop}

/-- The rule of invariants: what every guarded step preserves holds whenever a step is taken, and in
the end. -/
theorem invariant (hstep : ∀ s a next, I s → G s a → step s a = some next → I next)
    {acts : List Act} {s : State} (hI : I s) (hG : Guarded G (steps step acts s)) :
    (∀ p ∈ steps step acts s, I p.1) ∧ I (exec step acts s) := by
  induction acts generalizing s with
  | nil => exact ⟨fun p hp => (nomatch hp), hI⟩
  | cons a rest ih =>
    cases hnext : step s a with
    | none =>
      rw [steps_cons_of_none hnext, exec_cons_of_none hnext]
      exact ⟨fun p hp => (nomatch hp), hI⟩
    | some next =>
      rw [steps_cons_of_step hnext] at hG ⊢
      rw [exec_cons_of_step hnext]
      have hfirst : G s a := hG (s, a) List.mem_cons_self
      have hrest : Guarded G (steps step rest next) := fun p hp => hG p (List.mem_cons_of_mem _ hp)
      obtain ⟨hsteps, hend⟩ := ih (hstep s a next hI hfirst hnext) hrest
      refine ⟨fun p hp => ?_, hend⟩
      rcases List.mem_cons.mp hp with rfl | hp
      · exact hI
      · exact hsteps p hp

/-- Every step that is taken is possible. -/
theorem step_of_mem_steps {acts : List Act} {s : State} {p : State × Act}
    (hp : p ∈ steps step acts s) : ∃ next, step p.1 p.2 = some next := by
  induction acts generalizing s with
  | nil => cases hp
  | cons a rest ih =>
    cases hnext : step s a with
    | none =>
      rw [steps_cons_of_none hnext] at hp
      cases hp
    | some next =>
      rw [steps_cons_of_step hnext] at hp
      rcases List.mem_cons.mp hp with rfl | hp
      · exact ⟨next, hnext⟩
      · exact ih hp

/-- Every step is one of the actions. -/
theorem mem_of_mem_steps {acts : List Act} {s : State} {p : State × Act}
    (hp : p ∈ steps step acts s) : p.2 ∈ acts := by
  induction acts generalizing s with
  | nil => cases hp
  | cons a rest ih =>
    cases hnext : step s a with
    | none =>
      rw [steps_cons_of_none hnext] at hp
      cases hp
    | some next =>
      rw [steps_cons_of_step hnext] at hp
      rcases List.mem_cons.mp hp with rfl | hp
      · exact List.mem_cons_self
      · exact List.mem_cons_of_mem _ (ih hp)

/-- What an invariant and the guard say about one step holds of every step of a run. -/
theorem forall_steps {P : State → Act → Prop}
    (hstep : ∀ s a next, I s → G s a → step s a = some next → I next)
    (hpost : ∀ s a next, I s → G s a → step s a = some next → P s a)
    {acts : List Act} {s : State} (hI : I s) (hG : Guarded G (steps step acts s)) :
    ∀ p ∈ steps step acts s, P p.1 p.2 := by
  intro p hp
  obtain ⟨next, hnext⟩ := step_of_mem_steps hp
  exact hpost p.1 p.2 next ((invariant hstep hI hG).1 p hp) (hG p hp) hnext

/-- The rule of invariants that also speak of the steps taken so far. -/
theorem history {J : List (State × Act) → State → Prop}
    (hstep : ∀ past s a next, J past s → G s a → step s a = some next → J (past ++ [(s, a)]) next)
    {acts : List Act} {past : List (State × Act)} {s : State} (hJ : J past s)
    (hG : Guarded G (steps step acts s)) : J (past ++ steps step acts s) (exec step acts s) := by
  induction acts generalizing past s with
  | nil =>
    rw [steps, List.append_nil]
    exact hJ
  | cons a rest ih =>
    cases hnext : step s a with
    | none =>
      rw [steps_cons_of_none hnext, exec_cons_of_none hnext, List.append_nil]
      exact hJ
    | some next =>
      rw [steps_cons_of_step hnext] at hG ⊢
      rw [exec_cons_of_step hnext, List.append_cons]
      have hfirst : G s a := hG (s, a) List.mem_cons_self
      have hrest : Guarded G (steps step rest next) := fun p hp => hG p (List.mem_cons_of_mem _ hp)
      exact ih (hstep past s a next hJ hfirst hnext) hrest

end Interleaving
