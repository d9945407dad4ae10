import Devcroft.Library.Program

/-!
# Programs among others

Between two operations of a program others may disturb the state. Where a disturbance
is what the surroundings could do by themselves before the next operation, nothing
changes for the program: the disturbance counts as a part of the surroundings of that
operation.
-/

namespace Program

variable {Op : Type} {Ans : Op → Type} {ε α Event : Type} {m : Machine Op Ans}

/-- Events that disturb the state of a machine, and that its surroundings can bring about before any
operation. -/
structure Disturbance (m : Machine Op Ans) (Event : Type) where
  /-- The state after an event. -/
  after : m.State → Event → m.State
  /-- A choice, with events that come first. -/
  prepend : List Event → m.Choice → m.Choice
  surroundings_prepend : ∀ events choice s,
    m.surroundings (prepend events choice) s = m.surroundings choice (events.foldl after s)
  act_prepend : ∀ o events choice s, m.act o (prepend events choice) s = m.act o choice s

variable {S : Op → Prop} {G : Guard m} {Q : α → Config m → Prop} {E : ε → Config m → Prop}

/-- A program that has performed these operations, the latest first, and goes on from this state as
a weakest precondition says, up to the disturbances since its last operation. -/
def Awaits (d : Disturbance m Event) (S : Op → Prop) (G : Guard m) (Q : α → Config m → Prop)
    (E : ε → Config m → Prop) (p : Prog Op Ans ε α) (done : List Op) (s : m.State) : Prop :=
  ∃ (trace : List (Step m)) (before : m.State) (events : List Event),
    events.foldl d.after before = s ∧ trace.map Step.op = done ∧ wpOnly S G Q E p ⟨trace, before⟩

variable {d : Disturbance m Event} {p : Prog Op Ans ε α} {done : List Op} {s : m.State}

/-- A disturbance changes nothing. -/
theorem Awaits.disturb (h : Awaits d S G Q E p done s) (events : List Event) :
    Awaits d S G Q E p done (events.foldl d.after s) := by
  obtain ⟨trace, before, pending, rfl, hdone, hwp⟩ := h
  exact ⟨trace, before, pending ++ events, by rw [List.foldl_append], hdone, hwp⟩

/-- The next operation. -/
theorem Awaits.act {o : Op} {k : Ans o → Prog Op Ans ε α}
    (h : Awaits d S G Q E (.act o k) done s) (choice : m.Choice)
    (hguard : ∀ events trace, trace.map Step.op = done →
      G ⟨o, d.prepend events choice, m.surroundings choice s⟩ trace) :
    S o ∧ Awaits d S G Q E (k (m.act o choice (m.surroundings choice s)).1) (o :: done)
      (m.act o choice (m.surroundings choice s)).2 := by
  obtain ⟨trace, before, pending, rfl, rfl, hkind, hwp⟩ := h
  have hbefore : m.surroundings (d.prepend pending choice) before =
      m.surroundings choice (pending.foldl d.after before) := d.surroundings_prepend _ _ _
  have hstep := hguard pending trace rfl
  rw [← hbefore] at hstep ⊢
  rw [← d.act_prepend o pending choice]
  exact ⟨hkind, _, _, [], rfl, rfl, hwp _ hstep⟩

/-- The end of the program. -/
theorem Awaits.ret {a : α} (h : Awaits d S G Q E (.ret a : Prog Op Ans ε α) done s) :
    ∃ (trace : List (Step m)) (before : m.State) (events : List Event),
      events.foldl d.after before = s ∧ trace.map Step.op = done ∧
      Q a ⟨trace, before⟩ := h

theorem Awaits.fail {e : ε} (h : Awaits d S G Q E (.fail e : Prog Op Ans ε α) done s) :
    ∃ (trace : List (Step m)) (before : m.State) (events : List Event),
      events.foldl d.after before = s ∧ trace.map Step.op = done ∧
      E e ⟨trace, before⟩ := h

/-- The beginning of a program. -/
theorem awaits_of_wpOnly {trace : List (Step m)} (h : wpOnly S G Q E p ⟨trace, s⟩) :
    Awaits d S G Q E p (trace.map Step.op) s := ⟨trace, s, [], rfl, rfl, h⟩

end Program
