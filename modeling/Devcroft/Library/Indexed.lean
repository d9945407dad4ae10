import Mathlib.Tactic.Common
import Mathlib.Data.List.Range

/-!
# Indexed loops

Vectors that are written by index, where an index out of range is a panic, and the loop over
`1..=n` with the rule for its invariant: that the loop ends without a panic is part of what
the rule gives.
-/

namespace Indexed

/-- `v[i] = x`. -/
def set? {α : Type} (v : List α) (i : ℕ) (x : α) : Option (List α) :=
  if i < v.length then some (v.set i x) else none

/-- `for i in 1..=n`, of which the body can panic. -/
def forTo {σ : Type} (n : ℕ) (body : σ → ℕ → Option σ) (s : σ) : Option σ :=
  (List.range' 1 n).foldlM body s

/-- A write within the length is no panic. -/
theorem set?_eq_some {α : Type} {v : List α} {i : ℕ} (h : i < v.length) (x : α) :
    set? v i x = some (v.set i x) := if_pos h

/-- What holds before the loop and is kept by each round holds after it, and no round panics. -/
theorem forTo_spec {σ : Type} {n : ℕ} {body : σ → ℕ → Option σ} {s : σ} (Inv : ℕ → σ → Prop)
    (h : Inv 0 s)
    (hstep : ∀ i < n, ∀ s, Inv i s → ∃ t, body s (i + 1) = some t ∧ Inv (i + 1) t) :
    ∃ t, forTo n body s = some t ∧ Inv n t := by
  induction n with
  | zero => exact ⟨s, rfl, h⟩
  | succ n ih =>
    obtain ⟨t, hrun, ht⟩ := ih fun i hi => hstep i (by omega)
    obtain ⟨t', hbody, ht'⟩ := hstep n (by omega) t ht
    refine ⟨t', ?_, ht'⟩
    rw [forTo] at hrun ⊢
    rw [List.range'_1_concat, List.foldlM_append, hrun, Nat.add_comm 1 n]
    simpa using hbody

end Indexed
