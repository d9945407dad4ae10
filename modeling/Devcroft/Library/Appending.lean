import Mathlib.Tactic.Common
import Mathlib.Data.List.Induction

/-!
# Texts that are appended to

A text is made of pieces, of any size and content, that were appended one after the other. A piece
that is to be a line of its own has to find the line before it ended.
-/

namespace Appending

variable {α : Type} {sep : α}

/-- A new line begins at the end of the text. -/
def EndsLine (sep : α) (text : List α) : Prop := ∀ x ∈ text.getLast?, x = sep

instance [DecidableEq α] (text : List α) : Decidable (EndsLine sep text) := by
  unfold EndsLine
  infer_instance

/-- A piece behind a text is exactly one whole line. -/
structure OwnLine (sep : α) (before piece : List α) : Prop where
  starts : EndsLine sep before
  whole : ∃ line, sep ∉ line ∧ piece = line ++ [sep]

/-- The last piece that is not empty ends its line. -/
def LastEnds (sep : α) (pieces : List (List α)) : Prop :=
  ∀ earlier piece later, pieces = earlier ++ piece :: later → piece ≠ [] →
    (∀ p ∈ later, p = []) → EndsLine sep piece

theorem endsLine_nil : EndsLine sep [] := fun _ h => nomatch h

theorem endsLine_concat (line : List α) : EndsLine sep (line ++ [sep]) := by
  simp [EndsLine]

/-- Only the last piece matters, if there is anything in it. -/
theorem endsLine_append {before piece : List α} (h : piece ≠ []) :
    EndsLine sep (before ++ piece) ↔ EndsLine sep piece := by
  obtain ⟨init, x, rfl⟩ := List.eq_nil_or_concat piece |>.resolve_left h
  simp [EndsLine, ← List.append_assoc]

theorem ne_nil_of_not_endsLine {text : List α} (h : ¬EndsLine sep text) : text ≠ [] := by
  rintro rfl
  exact h endsLine_nil

/-- A list with its last entry is taken apart at that entry, or at an earlier one. -/
theorem concat_eq_append_cons {β : Type} {init earlier later : List β} {last b : β}
    (h : init ++ [last] = earlier ++ b :: later) :
    (later = [] ∧ init = earlier ∧ last = b) ∨
      ∃ rest, later = rest ++ [last] ∧ init = earlier ++ b :: rest := by
  rcases List.eq_nil_or_concat later with rfl | ⟨rest, x, rfl⟩
  · obtain ⟨hinit, hlast⟩ := List.append_inj' h rfl
    exact Or.inl ⟨rfl, hinit, List.singleton_inj.mp hlast⟩
  · rw [List.concat_eq_append, ← List.cons_append, ← List.append_assoc] at h
    obtain ⟨hinit, hlast⟩ := List.append_inj' h rfl
    rw [List.concat_eq_append, List.singleton_inj.mp hlast]
    exact Or.inr ⟨rest, rfl, hinit⟩

/-- Whether a new line begins at the end of a text depends on its last piece with anything in
it. The induction is on the pieces from the last one on. -/
theorem endsLine_flatten_iff (pieces : List (List α)) :
    EndsLine sep pieces.flatten ↔ LastEnds sep pieces := by
  induction pieces using List.reverseRecOn with
  | nil =>
    refine iff_of_true endsLine_nil fun earlier piece later h => ?_
    simp at h
  | append_singleton pieces last ih =>
    have hflat : (pieces ++ [last]).flatten = pieces.flatten ++ last := by simp
    rw [hflat]
    by_cases hlast : last = []
    · subst hlast
      rw [List.append_nil, ih]
      constructor
      · intro h earlier piece later heq hpiece hlater
        rcases concat_eq_append_cons heq with ⟨-, -, hnil⟩ | ⟨rest, rfl, hpieces⟩
        · exact absurd hnil.symm hpiece
        · exact h earlier piece rest hpieces hpiece fun p hp =>
            hlater p (List.mem_append_left _ hp)
      · intro h earlier piece later heq hpiece hlater
        refine h earlier piece (later ++ [[]]) (by simp [heq]) hpiece fun p hp => ?_
        rcases List.mem_append.mp hp with hp | hp
        · exact hlater p hp
        · exact List.mem_singleton.mp hp
    · rw [endsLine_append hlast]
      constructor
      · intro h earlier piece later heq hpiece hlater
        rcases concat_eq_append_cons heq with ⟨-, -, hpieces⟩ | ⟨rest, rfl, -⟩
        · rwa [← hpieces]
        · exact absurd (hlater last (by simp)) hlast
      · intro h
        exact h pieces last [] rfl hlast fun _ hp => nomatch hp

end Appending
