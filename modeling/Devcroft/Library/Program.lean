import Mathlib.Tactic.Common

/-!
# Programs that act on a changing state

A program asks for operations and goes on with their answers, or fails. A machine says
what the operations do to a state. Before every operation the surroundings may change
the state, and what they do, how an operation fares and what it answers is chosen
afresh each time: a run is determined by the choices, and a property of all runs is one
of all choices.

Weakest preconditions reduce a property of the runs of a program to properties of its
parts. They may assume a guard on the steps, which looks at the state and the choice of
a step and at the steps before it.
-/

namespace Program

variable {Op : Type} {Ans : Op → Type} {ε α β : Type}

/-- Programs over the operations `Op` with the answers `Ans`, which may fail with an `ε`. -/
inductive Prog (Op : Type) (Ans : Op → Type) (ε α : Type) : Type where
  | ret (a : α)
  | fail (e : ε)
  | act (o : Op) (k : Ans o → Prog Op Ans ε α)

/-- Go on with a second program where the first one has a result. -/
def Prog.bind (p : Prog Op Ans ε α) (f : α → Prog Op Ans ε β) : Prog Op Ans ε β :=
  match p with
  | ret a => f a
  | fail e => fail e
  | act o k => act o fun a => (k a).bind f

instance : Monad (Prog Op Ans ε) where
  pure := Prog.ret
  bind := Prog.bind

/-- Ask for one operation. -/
def perform (o : Op) : Prog Op Ans ε (Ans o) := .act o .ret

/-- Fail. -/
def raise (e : ε) : Prog Op Ans ε α := .fail e

/-- Fail with the error of a failed answer. -/
def orFail {δ : Type} (wrap : δ → ε) : Except δ α → Prog Op Ans ε α
  | .ok a => .ret a
  | .error e => .fail (wrap e)

/-- What the operations do. -/
structure Machine (Op : Type) (Ans : Op → Type) where
  State : Type
  Choice : Type
  /-- The choice that is made where none is given. -/
  idle : Choice
  /-- What the surroundings do before an operation. -/
  surroundings : Choice → State → State
  /-- The answer of an operation, and the state after it. -/
  act : (o : Op) → Choice → State → Ans o × State

variable {m : Machine Op Ans}

/-- An operation in a run: its choice, and the state in which it acts. -/
structure Step (m : Machine Op Ans) where
  op : Op
  choice : m.Choice
  before : m.State

/-- A state with the steps that led to it, the latest first. -/
structure Config (m : Machine Op Ans) where
  trace : List (Step m)
  state : m.State

/-- The step that an operation takes from a configuration. -/
def Config.step (c : Config m) (o : Op) (choice : m.Choice) : Step m :=
  ⟨o, choice, m.surroundings choice c.state⟩

/-- The configuration after that step. -/
def Config.next (c : Config m) (o : Op) (choice : m.Choice) : Config m :=
  ⟨c.step o choice :: c.trace, (m.act o choice (m.surroundings choice c.state)).2⟩

/-- The answer of that step. -/
def Config.answer (c : Config m) (o : Op) (choice : m.Choice) : Ans o :=
  (m.act o choice (m.surroundings choice c.state)).1

/-- How a run ends. -/
structure Ended (m : Machine Op Ans) (ε α : Type) where
  outcome : Except ε α
  config : Config m
  /-- The choices that are left. -/
  choices : List m.Choice

/-- Run a program. -/
def run : Prog Op Ans ε α → List m.Choice → Config m → Ended m ε α
  | .ret a, choices, c => ⟨.ok a, c, choices⟩
  | .fail e, choices, c => ⟨.error e, c, choices⟩
  | .act o k, choices, c =>
    run (k (c.answer o (choices.headD m.idle))) choices.tail (c.next o (choices.headD m.idle))

/-- A guard: what is assumed of a step, given the steps before it. -/
abbrev Guard (m : Machine Op Ans) := Step m → List (Step m) → Prop

/-- Every step of a trace meets the guard. -/
def Guarded (G : Guard m) : List (Step m) → Prop
  | [] => True
  | step :: earlier => G step earlier ∧ Guarded G earlier

instance decidableGuarded {G : Guard m} [∀ step earlier, Decidable (G step earlier)] :
    ∀ trace, Decidable (Guarded G trace)
  | [] => inferInstanceAs (Decidable True)
  | step :: earlier =>
    have := decidableGuarded (G := G) earlier
    inferInstanceAs (Decidable (G step earlier ∧ Guarded G earlier))

/-- The weakest precondition: from a configuration that meets it, a run whose steps meet the guard
ends in `Q` with a result, or in `E` with an error. -/
def wp (G : Guard m) (Q : α → Config m → Prop) (E : ε → Config m → Prop) :
    Prog Op Ans ε α → Config m → Prop
  | .ret a, c => Q a c
  | .fail e, c => E e c
  | .act o k, c => ∀ choice, G (c.step o choice) c.trace →
      wp G Q E (k (c.answer o choice)) (c.next o choice)

variable {G : Guard m} {Q : α → Config m → Prop} {E : ε → Config m → Prop}

theorem Guarded.suffix {trace earlier : List (Step m)} (h : Guarded G trace)
    (hsuffix : earlier <:+ trace) : Guarded G earlier := by
  induction trace with
  | nil =>
    rw [List.suffix_nil.mp hsuffix]
    trivial
  | cons step rest ih =>
    rcases List.suffix_cons_iff.mp hsuffix with rfl | hsuffix
    · exact h
    · exact ih h.2 hsuffix

/-- A run only adds to the trace. -/
theorem trace_suffix_run (p : Prog Op Ans ε α) (choices : List m.Choice) (c : Config m) :
    c.trace <:+ (run p choices c).config.trace := by
  induction p generalizing choices c with
  | ret a => exact List.suffix_rfl
  | fail e => exact List.suffix_rfl
  | act o k ih =>
    have hstep : c.trace <:+ (c.next o (choices.headD m.idle)).trace := List.suffix_cons _ _
    exact hstep.trans (ih _ _ _)

/-- What a weakest precondition says about runs. -/
theorem run_of_wp {p : Prog Op Ans ε α} {c : Config m} (h : wp G Q E p c)
    (choices : List m.Choice) (hguard : Guarded G (run p choices c).config.trace) :
    match (run p choices c).outcome with
    | .ok a => Q a (run p choices c).config
    | .error e => E e (run p choices c).config := by
  induction p generalizing choices c with
  | ret a => exact h
  | fail e => exact h
  | act o k ih =>
    have hsuffix := trace_suffix_run (k (c.answer o (choices.headD m.idle))) choices.tail
      (c.next o (choices.headD m.idle))
    have hfirst : Guarded G (c.next o (choices.headD m.idle)).trace := hguard.suffix hsuffix
    exact ih _ (h _ hfirst.1) choices.tail hguard

/-- What holds however a run ends. -/
theorem config_of_wp {P : Config m → Prop} {p : Prog Op Ans ε α} {c : Config m}
    (h : wp G (fun _ => P) (fun _ => P) p c) (choices : List m.Choice)
    (hguard : Guarded G (run p choices c).config.trace) : P (run p choices c).config := by
  have hrun := run_of_wp h choices hguard
  split at hrun <;> exact hrun

/-- Where nothing is assumed of the steps, nothing has to be shown of them. -/
theorem guarded_true (trace : List (Step m)) : Guarded (fun _ _ => True) trace := by
  induction trace with
  | nil => trivial
  | cons step earlier ih => exact ⟨trivial, ih⟩

/-- What a weakest precondition without assumptions says about a run with a result. -/
theorem ok_of_wp {p : Prog Op Ans ε α} {c : Config m} (h : wp (fun _ _ => True) Q E p c)
    {choices : List m.Choice} {a : α} (ha : (run p choices c).outcome = .ok a) :
    Q a (run p choices c).config := by
  have hrun := run_of_wp h choices (guarded_true _)
  rwa [ha] at hrun

/-- A run for which nothing is chosen takes idle steps only. -/
theorem guarded_run_nil (p : Prog Op Ans ε α) {c : Config m}
    (hc : Guarded (fun step _ => step.choice = m.idle) c.trace) :
    Guarded (fun step _ => step.choice = m.idle) (run p [] c).config.trace := by
  induction p generalizing c with
  | ret a => exact hc
  | fail e => exact hc
  | act o k ih => exact ih _ ⟨rfl, hc⟩

theorem Guarded.mono {G' : Guard m} {trace : List (Step m)} (h : Guarded G trace)
    (hG : ∀ step earlier, G step earlier → G' step earlier) : Guarded G' trace := by
  induction trace with
  | nil => trivial
  | cons step earlier ih => exact ⟨hG _ _ h.1, ih h.2⟩

@[simp] theorem wp_ret (a : α) (c : Config m) :
    wp G Q E (.ret a : Prog Op Ans ε α) c ↔ Q a c := Iff.rfl

@[simp] theorem wp_pure (a : α) (c : Config m) :
    wp G Q E (pure a : Prog Op Ans ε α) c ↔ Q a c := Iff.rfl

@[simp] theorem wp_raise (e : ε) (c : Config m) :
    wp G Q E (raise e : Prog Op Ans ε α) c ↔ E e c := Iff.rfl

@[simp] theorem wp_orFail_ok {δ : Type} (wrap : δ → ε) (a : α) (c : Config m) :
    wp G Q E (orFail wrap (.ok a) : Prog Op Ans ε α) c ↔ Q a c := Iff.rfl

@[simp] theorem wp_orFail_error {δ : Type} (wrap : δ → ε) (e : δ) (c : Config m) :
    wp G Q E (orFail wrap (.error e) : Prog Op Ans ε α) c ↔ E (wrap e) c := Iff.rfl

/-- A failed answer ends in `E`, another one in `Q`. -/
theorem wp_orFail {δ : Type} {wrap : δ → ε} {r : Except δ α} {c : Config m}
    (hok : ∀ a, r = .ok a → Q a c) (herror : ∀ e, r = .error e → E (wrap e) c) :
    wp G Q E (orFail wrap r : Prog Op Ans ε α) c := by
  cases r with
  | ok a => exact hok a rfl
  | error e => exact herror e rfl

theorem wp_perform (o : Op) (Q : Ans o → Config m → Prop) (E : ε → Config m → Prop)
    (c : Config m) : wp G Q E (perform o) c ↔
      ∀ choice, G (c.step o choice) c.trace → Q (c.answer o choice) (c.next o choice) := Iff.rfl

theorem wp_perform_bind (o : Op) (f : Ans o → Prog Op Ans ε α) (Q : α → Config m → Prop)
    (E : ε → Config m → Prop) (c : Config m) : wp G Q E (perform o >>= f) c ↔
      ∀ choice, G (c.step o choice) c.trace →
        wp G Q E (f (c.answer o choice)) (c.next o choice) := Iff.rfl

theorem wp_bind (p : Prog Op Ans ε α) (f : α → Prog Op Ans ε β) (Q : β → Config m → Prop)
    (c : Config m) :
    wp G Q E (p >>= f) c ↔ wp G (fun a c => wp G Q E (f a) c) E p c := by
  induction p generalizing c with
  | ret a => exact Iff.rfl
  | fail e => exact Iff.rfl
  | act o k ih => exact forall_congr' fun choice => imp_congr_right fun _ => ih _ _

theorem wp_mono {p : Prog Op Ans ε α} {c : Config m} {Q' : α → Config m → Prop}
    {E' : ε → Config m → Prop} (h : wp G Q E p c) (hQ : ∀ a c, Q a c → Q' a c)
    (hE : ∀ e c, E e c → E' e c) : wp G Q' E' p c := by
  induction p generalizing c with
  | ret a => exact hQ a c h
  | fail e => exact hE e c h
  | act o k ih => exact fun choice hguard => ih _ (h choice hguard)

theorem wp_true (p : Prog Op Ans ε α) (c : Config m) :
    wp G (fun _ _ => True) (fun _ _ => True) p c := by
  induction p generalizing c with
  | ret a => trivial
  | fail e => trivial
  | act o k ih => exact fun choice _ => ih _ _

/-- The rule of conjunctions. -/
theorem wp_and {p : Prog Op Ans ε α} {c : Config m} {Q' : α → Config m → Prop}
    {E' : ε → Config m → Prop} (h : wp G Q E p c) (h' : wp G Q' E' p c) :
    wp G (fun a c => Q a c ∧ Q' a c) (fun e c => E e c ∧ E' e c) p c := by
  induction p generalizing c with
  | ret a => exact ⟨h, h'⟩
  | fail e => exact ⟨h, h'⟩
  | act o k ih => exact fun choice hguard => ih _ (h choice hguard) (h' choice hguard)

/-- The rule of sequences: the first part reaches what the second one starts from. -/
theorem wp_seq {p : Prog Op Ans ε α} {f : α → Prog Op Ans ε β} {Q : β → Config m → Prop}
    {c : Config m} {M : α → Config m → Prop} (h : wp G M E p c)
    (hf : ∀ a c, M a c → wp G Q E (f a) c) : wp G Q E (p >>= f) c :=
  (wp_bind p f Q c).mpr (wp_mono h hf fun _ _ he => he)

/-- A sequence that starts with an answer that may have failed. -/
theorem wp_orFail_bind {δ : Type} {wrap : δ → ε} {r : Except δ α} {f : α → Prog Op Ans ε β}
    {Q : β → Config m → Prop} {c : Config m} (hok : ∀ a, r = .ok a → wp G Q E (f a) c)
    (herror : ∀ e, r = .error e → E (wrap e) c) : wp G Q E (orFail wrap r >>= f) c :=
  (wp_bind _ f Q c).mpr (wp_orFail hok herror)

/-- Only operations of a kind are asked for. -/
def Only (S : Op → Prop) : Prog Op Ans ε α → Prop
  | .ret _ => True
  | .fail _ => True
  | .act o k => S o ∧ ∀ a, Only S (k a)

section Only

variable {S : Op → Prop}

theorem only_pure (a : α) : Only S (pure a : Prog Op Ans ε α) := trivial

theorem only_true (p : Prog Op Ans ε α) : Only (fun _ => True) p := by
  induction p with
  | ret a => trivial
  | fail e => trivial
  | act o k ih => exact ⟨trivial, ih⟩

theorem only_raise (e : ε) : Only S (raise e : Prog Op Ans ε α) := trivial

theorem only_orFail {δ : Type} (wrap : δ → ε) (r : Except δ α) :
    Only S (orFail wrap r : Prog Op Ans ε α) := by
  cases r <;> trivial

theorem only_perform {o : Op} (h : S o) : Only S (perform o : Prog Op Ans ε (Ans o)) :=
  ⟨h, fun _ => trivial⟩

theorem only_bind {p : Prog Op Ans ε α} {f : α → Prog Op Ans ε β} (hp : Only S p)
    (hf : ∀ a, Only S (f a)) : Only S (p >>= f) := by
  induction p with
  | ret a => exact hf a
  | fail e => trivial
  | act o k ih => exact ⟨hp.1, fun a => ih a (hp.2 a)⟩

theorem Only.mono {S' : Op → Prop} {p : Prog Op Ans ε α} (hp : Only S p)
    (h : ∀ o, S o → S' o) : Only S' p := by
  induction p with
  | ret a => trivial
  | fail e => trivial
  | act o k ih => exact ⟨h o hp.1, fun a => ih a (hp.2 a)⟩

/-- The rule of invariants: what the operations of a kind preserve, a program over them does. -/
theorem wp_of_only {I : Config m → Prop} {p : Prog Op Ans ε α} {c : Config m} (hp : Only S p)
    (hstep : ∀ o c choice, S o → I c → G (c.step o choice) c.trace → I (c.next o choice))
    (hc : I c) : wp G (fun _ => I) (fun _ => I) p c := by
  induction p generalizing c with
  | ret a => exact hc
  | fail e => exact hc
  | act o k ih => exact fun choice hguard => ih _ (hp.2 _) (hstep o c choice hp.1 hc hguard)

end Only

/-- The weakest precondition under which a run also asks for operations of a kind only, as long as
its steps meet the guard. -/
def wpOnly (S : Op → Prop) (G : Guard m) (Q : α → Config m → Prop) (E : ε → Config m → Prop) :
    Prog Op Ans ε α → Config m → Prop
  | .ret a, c => Q a c
  | .fail e, c => E e c
  | .act o k, c => S o ∧ ∀ choice, G (c.step o choice) c.trace →
      wpOnly S G Q E (k (c.answer o choice)) (c.next o choice)

section WpOnly

variable {S : Op → Prop}

theorem wpOnly_perform_bind {o : Op} {f : Ans o → Prog Op Ans ε α} {c : Config m} (ho : S o)
    (hf : ∀ choice, G (c.step o choice) c.trace →
      wpOnly S G Q E (f (c.answer o choice)) (c.next o choice)) :
    wpOnly S G Q E (perform o >>= f) c := ⟨ho, hf⟩

/-- The rule of sequences. -/
theorem wpOnly_seq {p : Prog Op Ans ε α} {f : α → Prog Op Ans ε β} {Q : β → Config m → Prop}
    {c : Config m} {M : α → Config m → Prop} (h : wpOnly S G M E p c)
    (hf : ∀ a c, M a c → wpOnly S G Q E (f a) c) : wpOnly S G Q E (p >>= f) c := by
  induction p generalizing c with
  | ret a => exact hf a c h
  | fail e => exact h
  | act o k ih => exact ⟨h.1, fun choice hguard => ih _ (h.2 choice hguard)⟩

/-- Without a condition on the operations nothing is added. -/
theorem wpOnly_of_wp {p : Prog Op Ans ε α} {c : Config m} (h : wp G Q E p c) :
    wpOnly (fun _ => True) G Q E p c := by
  induction p generalizing c with
  | ret a => exact h
  | fail e => exact h
  | act o k ih => exact ⟨trivial, fun choice hguard => ih _ (h choice hguard)⟩

end WpOnly

/-- Sequences can be regrouped. -/
theorem prog_bind_assoc {γ : Type} (p : Prog Op Ans ε α) (f : α → Prog Op Ans ε β)
    (g : β → Prog Op Ans ε γ) : p >>= f >>= g = p >>= fun a => f a >>= g := by
  induction p with
  | ret a => rfl
  | fail e => rfl
  | act o k ih => exact congrArg (Prog.act o) (funext ih)

section Session

variable {Cmd : Type}

/-- A command that was run, and how it ended. -/
structure Done (m : Machine Op Ans) (Cmd ε α : Type) where
  cmd : Cmd
  outcome : Except ε α
  config : Config m

/-- Run commands one after the other. -/
def session (prog : Cmd → Prog Op Ans ε α) :
    List Cmd → List m.Choice → Config m → List (Done m Cmd ε α)
  | [], _, _ => []
  | cmd :: rest, choices, c =>
    let ended := run (prog cmd) choices c
    ⟨cmd, ended.outcome, ended.config⟩ :: session prog rest ended.choices ended.config

/-- The rule of sessions, with an invariant on the commands that are left: what each command
achieves holds after it. -/
theorem session_spec_left {prog : Cmd → Prog Op Ans ε α} {I : List Cmd → Config m → Prop}
    {P : Cmd → Except ε α → Config m → Prop}
    (hprog : ∀ cmd rest c, I (cmd :: rest) c →
      wp G (fun a c => I rest c ∧ P cmd (.ok a) c)
        (fun e c => I rest c ∧ P cmd (.error e) c) (prog cmd) c)
    {cmds : List Cmd} {choices : List m.Choice} {c : Config m} (hc : I cmds c)
    {d : Done m Cmd ε α} (hd : d ∈ session prog cmds choices c)
    (hguard : Guarded G d.config.trace) : P d.cmd d.outcome d.config := by
  -- The trace of a command is a part of the trace of every later one.
  have hlater : ∀ (cmds : List Cmd) (choices : List m.Choice) (c : Config m),
      ∀ d ∈ session prog cmds choices c, c.trace <:+ d.config.trace := by
    intro cmds
    induction cmds with
    | nil =>
      intro choices c d hd
      cases hd
    | cons cmd rest ih =>
      intro choices c d hd
      rcases List.mem_cons.mp hd with rfl | hd
      · exact trace_suffix_run _ _ _
      · exact (trace_suffix_run _ _ _).trans (ih _ _ d hd)
  have hended : ∀ cmd rest choices c, I (cmd :: rest) c →
      Guarded G (run (prog cmd) choices c).config.trace →
      I rest (run (prog cmd) choices c).config ∧
        P cmd (run (prog cmd) choices c).outcome (run (prog cmd) choices c).config := by
    intro cmd rest choices c hc hguard
    have h := run_of_wp (hprog cmd rest c hc) choices hguard
    cases hrun : (run (prog cmd) choices c).outcome with
    | ok a => rwa [hrun] at h
    | error e => rwa [hrun] at h
  induction cmds generalizing choices c with
  | nil => cases hd
  | cons cmd rest ih =>
    rcases List.mem_cons.mp hd with rfl | hd
    · exact (hended cmd rest choices c hc hguard).2
    · have hfirst := hguard.suffix (hlater _ _ _ d hd)
      exact ih (hended cmd rest choices c hc hfirst).1 hd

/-- The rule of sessions: what every command preserves holds after each of them, with what the
command itself achieves. -/
theorem session_spec {prog : Cmd → Prog Op Ans ε α} {I : Config m → Prop}
    {Post : Cmd → Except ε α → Config m → Prop}
    (hprog : ∀ cmd c, I c → wp G (fun a c => I c ∧ Post cmd (.ok a) c)
      (fun e c => I c ∧ Post cmd (.error e) c) (prog cmd) c)
    {cmds : List Cmd} {choices : List m.Choice} {c : Config m} (hc : I c)
    {d : Done m Cmd ε α} (hd : d ∈ session prog cmds choices c)
    (hguard : Guarded G d.config.trace) : I d.config ∧ Post d.cmd d.outcome d.config := by
  have hboth := fun cmd (_ : List Cmd) c hc => wp_mono (hprog cmd c hc)
    (fun _ _ h => And.intro h.1 h) fun _ _ h => And.intro h.1 h
  exact session_spec_left (I := fun _ => I) (P := fun cmd outcome c => I c ∧ Post cmd outcome c)
    hboth hc hd hguard

/-- What every run of a command preserves holds after each command of a session. -/
theorem session_invariant {prog : Cmd → Prog Op Ans ε α} {I : Config m → Prop}
    (hprog : ∀ cmd c, I c → wp G (fun _ => I) (fun _ => I) (prog cmd) c)
    {cmds : List Cmd} {choices : List m.Choice} {c : Config m} (hc : I c)
    {d : Done m Cmd ε α} (hd : d ∈ session prog cmds choices c)
    (hguard : Guarded G d.config.trace) : I d.config := by
  have hpost := fun cmd c hc => wp_mono (hprog cmd c hc)
    (fun _ _ h => And.intro h trivial) fun _ _ h => And.intro h trivial
  exact (@session_spec Op Ans ε α m G Cmd prog I (fun _ _ _ => True) hpost cmds choices c hc d hd
    hguard).1

end Session

end Program
