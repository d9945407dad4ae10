import Devcroft.Library.Program
import Mathlib.Data.List.Basic

/-!
# Counting operations, and programs that are killed

How often a program can ask for an operation of a kind bounds how often a run performs
it. A program that is killed performs only its first operations: the kill can come
before any of them, so that a property of killed runs is one of every place in the
program.
-/

namespace Program

variable {Op : Type} {Ans : Op → Type} {ε α β : Type}

/-- The program, killed before it asks for more than so many operations if it is killed at all. -/
def Prog.cut : Prog Op Ans ε α → Option ℕ → Prog Op Ans (Option ε) α
  | .ret a, _ => .ret a
  | .fail e, _ => .fail (some e)
  | .act _ _, some 0 => .fail none
  | .act o k, some (left + 1) => .act o fun a => (k a).cut (some left)
  | .act o k, none => .act o fun a => (k a).cut none

/-- On no path the program asks for operations of the kind more often than this. -/
def AtMost (S : Op → Bool) : Prog Op Ans ε α → ℕ → Prop
  | .ret _, _ => True
  | .fail _, _ => True
  | .act o k, n =>
    if S o then ∃ left, n = left + 1 ∧ ∀ a, AtMost S (k a) left else ∀ a, AtMost S (k a) n

section AtMost

variable {S : Op → Bool}

theorem atMost_of_only {p : Prog Op Ans ε α} (hp : Only (fun o => S o = false) p) (n : ℕ) :
    AtMost S p n := by
  induction p with
  | ret a => trivial
  | fail e => trivial
  | act o k ih =>
    have hfirst : ¬(S o = true) := by simp [hp.1]
    exact (if_neg hfirst).mpr fun a => ih a (hp.2 a)

theorem AtMost.mono {p : Prog Op Ans ε α} {n n' : ℕ} (hp : AtMost S p n) (hle : n ≤ n') :
    AtMost S p n' := by
  induction p generalizing n n' with
  | ret a => trivial
  | fail e => trivial
  | act o k ih =>
    simp only [AtMost] at hp ⊢
    split
    · next hfirst =>
      rw [if_pos hfirst] at hp
      obtain ⟨left, rfl, hrest⟩ := hp
      exact ⟨n' - 1, by omega, fun a => ih a (hrest a) (by omega)⟩
    · next hfirst =>
      rw [if_neg hfirst] at hp
      exact fun a => ih a (hp a) hle

/-- The rule of sequences. -/
theorem atMost_bind {p : Prog Op Ans ε α} {f : α → Prog Op Ans ε β} {n l : ℕ}
    (hp : AtMost S p n) (hf : ∀ a, AtMost S (f a) l) : AtMost S (p >>= f) (n + l) := by
  induction p generalizing n with
  | ret a => exact (hf a).mono (by omega)
  | fail e => trivial
  | act o k ih =>
    show AtMost S (.act o fun a => k a >>= f) (n + l)
    simp only [AtMost] at hp ⊢
    split
    · next hfirst =>
      rw [if_pos hfirst] at hp
      obtain ⟨left, rfl, hrest⟩ := hp
      exact ⟨left + l, by omega, fun a => ih a (hrest a)⟩
    · next hfirst =>
      rw [if_neg hfirst] at hp
      exact fun a => ih a (hp a)

/-- A sequence that starts with operations of another kind. -/
theorem atMost_bind_of_only {p : Prog Op Ans ε α} {f : α → Prog Op Ans ε β} {n : ℕ}
    (hp : Only (fun o => S o = false) p) (hf : ∀ a, AtMost S (f a) n) :
    AtMost S (p >>= f) n := by
  have hbind := atMost_bind (atMost_of_only hp 0) hf
  rwa [Nat.zero_add] at hbind

theorem atMost_perform (o : Op) : AtMost S (perform o : Prog Op Ans ε (Ans o)) 1 := by
  simp only [perform, AtMost]
  split
  · exact ⟨0, rfl, fun _ => trivial⟩
  · exact fun _ => trivial

/-- A killed program asks for no more. -/
theorem AtMost.cut {p : Prog Op Ans ε α} {n : ℕ} (hp : AtMost S p n) (left : Option ℕ) :
    AtMost S (p.cut left) n := by
  induction p generalizing n left with
  | ret a => trivial
  | fail e => trivial
  | act o k ih =>
    have hnext : ∀ left, AtMost S (.act o fun a => (k a).cut left) n := by
      intro left
      simp only [AtMost] at hp ⊢
      split
      · next hfirst =>
        rw [if_pos hfirst] at hp
        obtain ⟨rest, hn, hrest⟩ := hp
        exact ⟨rest, hn, fun a => ih a (hrest a) left⟩
      · next hfirst =>
        rw [if_neg hfirst] at hp
        exact fun a => ih a (hp a) left
    cases left with
    | none => exact hnext none
    | some left =>
      cases left with
      | zero => trivial
      | succ left => exact hnext (some left)

end AtMost

variable {m : Machine Op Ans} {G : Guard m}

/-- How many steps of a trace are operations of the kind. -/
def times (S : Op → Bool) (trace : List (Step m)) : ℕ := trace.countP fun step => S step.op

theorem times_next (S : Op → Bool) (c : Config m) (o : Op) (choice : m.Choice) :
    times S (c.next o choice).trace = times S c.trace + if S o then 1 else 0 :=
  List.countP_cons

/-- What bounds the operations of a program bounds those of its runs. -/
theorem wp_of_atMost {S : Op → Bool} {p : Prog Op Ans ε α} {n : ℕ} (hp : AtMost S p n)
    (c : Config m) : wp G (fun _ c' => times S c'.trace ≤ times S c.trace + n)
      (fun _ c' => times S c'.trace ≤ times S c.trace + n) p c := by
  induction p generalizing n c with
  | ret a => exact Nat.le_add_right _ _
  | fail e => exact Nat.le_add_right _ _
  | act o k ih =>
    intro choice _
    have hcount := times_next S c o choice
    by_cases hfirst : S o = true
    · obtain ⟨left, rfl, hrest⟩ := (if_pos hfirst).mp hp
      rw [if_pos hfirst] at hcount
      exact wp_mono (ih _ (hrest _) (c.next o choice)) (fun _ _ h => by omega) fun _ _ h => by omega
    · have hrest := (if_neg hfirst).mp hp
      rw [if_neg hfirst] at hcount
      exact wp_mono (ih _ (hrest _) (c.next o choice)) (fun _ _ h => by omega) fun _ _ h => by omega

section Cut

variable {Q : α → Config m → Prop} {E : Option ε → Config m → Prop}

/-- A program that can be killed before its first operation. -/
theorem wp_cut_act {o : Op} {k : Ans o → Prog Op Ans ε α} {c : Config m} (hkilled : E none c)
    (hnext : ∀ choice, G (c.step o choice) c.trace → ∀ left,
      wp G Q E ((k (c.answer o choice)).cut left) (c.next o choice)) (left : Option ℕ) :
    wp G Q E ((Prog.act o k).cut left) c := by
  cases left with
  | none => exact fun choice hguard => hnext choice hguard none
  | some left =>
    cases left with
    | zero => exact hkilled
    | succ left => exact fun choice hguard => hnext choice hguard (some left)

theorem wp_cut_perform_bind {o : Op} {f : Ans o → Prog Op Ans ε α} {c : Config m}
    (hkilled : E none c) (hnext : ∀ choice, G (c.step o choice) c.trace → ∀ left,
      wp G Q E ((f (c.answer o choice)).cut left) (c.next o choice)) (left : Option ℕ) :
    wp G Q E ((perform o >>= f : Prog Op Ans ε α).cut left) c :=
  wp_cut_act hkilled hnext left

theorem wp_cut_orFail_bind {δ : Type} {wrap : δ → ε} {r : Except δ β} {f : β → Prog Op Ans ε α}
    {c : Config m} (hok : ∀ b, r = .ok b → ∀ left, wp G Q E ((f b).cut left) c)
    (herror : ∀ e, r = .error e → E (some (wrap e)) c) (left : Option ℕ) :
    wp G Q E ((orFail wrap r >>= f : Prog Op Ans ε α).cut left) c := by
  cases r with
  | ok b => exact hok b rfl left
  | error e => exact herror e rfl

/-- The rule of sequences for killed programs: the kill can come in either part. -/
theorem wp_cut_bind {p : Prog Op Ans ε β} {f : β → Prog Op Ans ε α} {M : β → Config m → Prop}
    {c : Config m} (hp : ∀ left, wp G M E (p.cut left) c)
    (hf : ∀ b c, M b c → ∀ left, wp G Q E ((f b).cut left) c) (left : Option ℕ) :
    wp G Q E ((p >>= f).cut left) c := by
  induction p generalizing c left with
  | ret b => exact hf b c (hp none) left
  | fail e => exact hp none
  | act o k ih =>
    show wp G Q E ((Prog.act o fun a => k a >>= f).cut left) c
    refine wp_cut_act (hp (some 0)) (fun choice hguard left => ih _ (fun left => ?_) left) left
    cases left with
    | none => exact hp none choice hguard
    | some left => exact hp (some (left + 1)) choice hguard

/-- What the operations of a kind preserve, a killed program over them does. -/
theorem wp_cut_of_only {S : Op → Prop} {I : Config m → Prop} {p : Prog Op Ans ε α} {c : Config m}
    (hp : Only S p)
    (hstep : ∀ o c choice, S o → I c → G (c.step o choice) c.trace → I (c.next o choice))
    (hc : I c) (left : Option ℕ) : wp G (fun _ => I) (fun _ => I) (p.cut left) c := by
  induction p generalizing c left with
  | ret a => exact hc
  | fail e => exact hc
  | act o k ih =>
    exact wp_cut_act hc (fun choice hguard left =>
      ih _ (hp.2 _) (hstep o c choice hp.1 hc hguard) left) left

end Cut

end Program
