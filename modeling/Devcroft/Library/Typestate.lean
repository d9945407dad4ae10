import Devcroft.Library.Program

/-!
# Programs that follow a protocol

Where others act on a state between the operations of a program, an answer can be
anything. What can still be said of the program is the order of its operations: a
protocol tells for every stage which operation may come next, and to which stage it
leads with its answer.
-/

namespace Program

variable {Op : Type} {Ans : Op → Type} {ε α β σ : Type}

/-- A protocol: an operation that is not foreseen leads nowhere. -/
abbrev Protocol (Op : Type) (Ans : Op → Type) (σ : Type) := σ → (o : Op) → Ans o → Option σ

/-- Whatever the answers are, the program keeps to the protocol, and ends in a stage and with a
result that are related. -/
def Follows (next : Protocol Op Ans σ) (Q : σ → α → Prop) : σ → Prog Op Ans ε α → Prop
  | stage, .ret a => Q stage a
  | _, .fail _ => True
  | stage, .act o k => ∀ a, ∃ stage', next stage o a = some stage' ∧ Follows next Q stage' (k a)

variable {next : Protocol Op Ans σ} {Q : σ → α → Prop} {stage : σ}

theorem follows_perform_bind {o : Op} {f : Ans o → Prog Op Ans ε α}
    (h : ∀ a, ∃ stage', next stage o a = some stage' ∧ Follows next Q stage' (f a)) :
    Follows next Q stage (perform o >>= f) := h

/-- The rule of sequences. -/
theorem Follows.bind {p : Prog Op Ans ε α} {f : α → Prog Op Ans ε β} {R : σ → β → Prop}
    (h : Follows next Q stage p) (hf : ∀ stage a, Q stage a → Follows next R stage (f a)) :
    Follows next R stage (p >>= f) := by
  induction p generalizing stage with
  | ret a => exact hf stage a h
  | fail e => trivial
  | act o k ih =>
    intro a
    obtain ⟨stage', hnext, hrest⟩ := h a
    exact ⟨stage', hnext, ih a hrest⟩

theorem Follows.mono {p : Prog Op Ans ε α} {R : σ → α → Prop} (h : Follows next Q stage p)
    (hQ : ∀ stage a, Q stage a → R stage a) : Follows next R stage p := by
  induction p generalizing stage with
  | ret a => exact hQ stage a h
  | fail e => trivial
  | act o k ih =>
    intro a
    obtain ⟨stage', hnext, hrest⟩ := h a
    exact ⟨stage', hnext, ih a hrest⟩

/-- An answer that may have failed. -/
theorem follows_orFail_bind {δ : Type} {wrap : δ → ε} {r : Except δ α} {f : α → Prog Op Ans ε β}
    {R : σ → β → Prop} (h : ∀ a, r = .ok a → Follows next R stage (f a)) :
    Follows next R stage (orFail wrap r >>= f) := by
  cases r with
  | ok a => exact h a rfl
  | error e => trivial

/-- Operations that leave the stage as it is. -/
theorem follows_of_only {S : Op → Prop} {p : Prog Op Ans ε α} (hp : Only S p)
    (h : ∀ o a, S o → next stage o a = some stage) :
    Follows next (fun stage' _ => stage' = stage) stage p := by
  induction p with
  | ret a => rfl
  | fail e => trivial
  | act o k ih => exact fun a => ⟨stage, h o a hp.1, ih a (hp.2 a)⟩

end Program
