import Mathlib.Tactic.Common
import Mathlib.Order.Bounds.Basic
import Mathlib.Order.MinMax

/-!
# The edit distance of two lists

The recursive definition by the first elements, and what it computes: the least number of
insertions, deletions and substitutions of one element that make the one list the other.
Since edits can be read backwards, the same recursion holds at the last elements, which is
where a table that is filled row by row reads it.
-/

namespace EditDistance

variable {α : Type}

/-- One edit of one element. -/
inductive Edit : List α → List α → Prop
  | insert (before after : List α) (y : α) : Edit (before ++ after) (before ++ y :: after)
  | delete (before after : List α) (x : α) : Edit (before ++ x :: after) (before ++ after)
  | substitute (before after : List α) (x y : α) :
      Edit (before ++ x :: after) (before ++ y :: after)

/-- So many edits, one after the other. -/
inductive Edits : ℕ → List α → List α → Prop
  | refl (xs : List α) : Edits 0 xs xs
  | step {n : ℕ} {xs ys zs : List α} : Edit xs ys → Edits n ys zs → Edits (n + 1) xs zs

/-- An edit further back. -/
theorem Edit.cons {xs ys : List α} (h : Edit xs ys) (c : α) : Edit (c :: xs) (c :: ys) := by
  cases h with
  | insert before after y => exact insert (c :: before) after y
  | delete before after x => exact delete (c :: before) after x
  | substitute before after x y => exact substitute (c :: before) after x y

/-- An edit read backwards. -/
theorem Edit.reverse {xs ys : List α} (h : Edit xs ys) : Edit xs.reverse ys.reverse := by
  cases h with
  | insert before after y => simpa using insert after.reverse before.reverse y
  | delete before after x => simpa using delete after.reverse before.reverse x
  | substitute before after x y => simpa using substitute after.reverse before.reverse x y

/-- Edits further back. -/
theorem Edits.cons {n : ℕ} {xs ys : List α} (h : Edits n xs ys) (c : α) :
    Edits n (c :: xs) (c :: ys) := by
  induction h with
  | refl xs => exact refl (c :: xs)
  | step hedit _ ih => exact step (hedit.cons c) ih

/-- Edits read backwards. -/
theorem Edits.reverse {n : ℕ} {xs ys : List α} (h : Edits n xs ys) :
    Edits n xs.reverse ys.reverse := by
  induction h with
  | refl xs => exact refl xs.reverse
  | step hedit _ ih => exact step hedit.reverse ih

/-- Every element can be inserted. -/
theorem Edits.of_nil (ys : List α) : Edits ys.length [] ys := by
  induction ys with
  | nil => exact refl []
  | cons y ys ih => exact step (Edit.insert [] [] y) (ih.cons y)

/-- Every element can be deleted. -/
theorem Edits.to_nil (xs : List α) : Edits xs.length xs [] := by
  induction xs with
  | nil => exact refl []
  | cons x xs ih => exact step (Edit.delete [] xs x) ih

variable [DecidableEq α]

/-- The edit distance: with the first element of one list deleted, with the first one of the other
inserted, or with the one put for the other. -/
def distance : List α → List α → ℕ
  | [], ys => ys.length
  | xs, [] => xs.length
  | x :: xs, y :: ys =>
    min (min (distance xs (y :: ys) + 1) (distance (x :: xs) ys + 1))
      (distance xs ys + if x = y then 0 else 1)
termination_by xs ys => xs.length + ys.length

@[simp] theorem distance_nil_left (ys : List α) : distance [] ys = ys.length := by
  cases ys <;> rw [distance]

@[simp] theorem distance_nil_right (xs : List α) : distance xs [] = xs.length := by
  cases xs <;> simp [distance]

/-- The recursion at the first elements. -/
theorem distance_cons_cons (x y : α) (xs ys : List α) :
    distance (x :: xs) (y :: ys) =
      min (min (distance xs (y :: ys) + 1) (distance (x :: xs) ys + 1))
        (distance xs ys + if x = y then 0 else 1) := by
  rw [distance]

@[simp] theorem distance_self (xs : List α) : distance xs xs = 0 := by
  induction xs with
  | nil => exact distance_nil_left []
  | cons x xs ih => simp [distance_cons_cons, ih]

/-- As many edits as the distance are enough. -/
theorem edits_distance (xs ys : List α) : Edits (distance xs ys) xs ys := by
  induction xs, ys using distance.induct with
  | case1 ys =>
    rw [distance_nil_left]
    exact Edits.of_nil ys
  | case2 xs _ =>
    rw [distance_nil_right]
    exact Edits.to_nil xs
  | case3 x xs y ys hdelete hinsert hsubstitute =>
    rw [distance_cons_cons]
    rcases min_choice (min (distance xs (y :: ys) + 1) (distance (x :: xs) ys + 1))
      (distance xs ys + if x = y then 0 else 1) with hmin | hmin
    · rw [hmin]
      rcases min_choice (distance xs (y :: ys) + 1) (distance (x :: xs) ys + 1) with hfirst | hfirst
      · rw [hfirst]
        exact Edits.step (Edit.delete [] xs x) hdelete
      · rw [hfirst]
        exact Edits.step (Edit.insert [] (x :: xs) y) (hinsert.cons y)
    · rw [hmin]
      by_cases hsame : x = y
      · rw [if_pos hsame, ← hsame]
        exact hsubstitute.cons x
      · rw [if_neg hsame]
        exact Edits.step (Edit.substitute [] xs x y) (hsubstitute.cons y)

/-- An element more in front of the one list. -/
theorem distance_cons_left_le (x : α) (xs zs : List α) :
    distance (x :: xs) zs ≤ distance xs zs + 1 := by
  cases zs with
  | nil => simp
  | cons z zs =>
    rw [distance_cons_cons]
    omega

/-- An element more in front of the other. -/
theorem distance_cons_right_le (xs zs : List α) (z : α) :
    distance xs (z :: zs) ≤ distance xs zs + 1 := by
  cases xs with
  | nil => simp
  | cons x xs =>
    rw [distance_cons_cons]
    omega

/-- An element less in front of the one list. -/
theorem distance_le_cons_left (x : α) (xs zs : List α) :
    distance xs zs ≤ distance (x :: xs) zs + 1 := by
  induction zs with
  | nil =>
    rw [distance_nil_right, distance_nil_right, List.length_cons]
    omega
  | cons z zs ih =>
    have hright := distance_cons_right_le xs zs z
    rw [distance_cons_cons]
    omega

/-- What makes a difference of at most one does so behind a further element as well. -/
theorem distance_cons_le_cons {xs ys : List α} (h : ∀ zs, distance xs zs ≤ distance ys zs + 1)
    (c : α) (zs : List α) : distance (c :: xs) zs ≤ distance (c :: ys) zs + 1 := by
  induction zs with
  | nil =>
    have hlength := h []
    rw [distance_nil_right, distance_nil_right] at hlength ⊢
    simpa using hlength
  | cons z zs ih =>
    have hdelete := h (z :: zs)
    have hsubstitute := h zs
    rw [distance_cons_cons, distance_cons_cons]
    omega

/-- Another element in front. -/
theorem distance_cons_le_other (x y : α) (xs zs : List α) :
    distance (x :: xs) zs ≤ distance (y :: xs) zs + 1 := by
  induction zs with
  | nil => simp
  | cons z zs ih =>
    rw [distance_cons_cons, distance_cons_cons]
    split <;> omega

/-- An edit brings a list nearer to another one by at most one. -/
theorem Edit.distance_le {xs ys : List α} (h : Edit xs ys) (zs : List α) :
    distance xs zs ≤ distance ys zs + 1 := by
  -- By induction on what stands before the edit.
  cases h with
  | insert before after y =>
    induction before generalizing zs with
    | nil => exact distance_le_cons_left y after zs
    | cons c before ih => exact distance_cons_le_cons ih c zs
  | delete before after x =>
    induction before generalizing zs with
    | nil => exact distance_cons_left_le x after zs
    | cons c before ih => exact distance_cons_le_cons ih c zs
  | substitute before after x y =>
    induction before generalizing zs with
    | nil => exact distance_cons_le_other x y after zs
    | cons c before ih => exact distance_cons_le_cons ih c zs

/-- Fewer edits than the distance are not enough. -/
theorem Edits.distance_le {n : ℕ} {xs ys : List α} (h : Edits n xs ys) : distance xs ys ≤ n := by
  induction h with
  | refl xs => rw [distance_self]
  | @step n xs ys zs hedit _ ih =>
    have hstep := hedit.distance_le zs
    omega

/-- The distance is the least number of edits. -/
theorem isLeast_distance (xs ys : List α) : IsLeast {n | Edits n xs ys} (distance xs ys) :=
  ⟨edits_distance xs ys, fun _ h => h.distance_le⟩

/-- Backwards the distance is the same. -/
theorem distance_reverse (xs ys : List α) : distance xs.reverse ys.reverse = distance xs ys := by
  apply le_antisymm
  · exact (edits_distance xs ys).reverse.distance_le
  · have hback := (edits_distance xs.reverse ys.reverse).reverse
    rw [List.reverse_reverse, List.reverse_reverse] at hback
    exact hback.distance_le

/-- So the recursion holds at the last elements. -/
theorem distance_concat_concat (x y : α) (xs ys : List α) :
    distance (xs ++ [x]) (ys ++ [y]) =
      min (min (distance xs (ys ++ [y]) + 1) (distance (xs ++ [x]) ys + 1))
        (distance xs ys + if x = y then 0 else 1) := by
  have hback := distance_cons_cons x y xs.reverse ys.reverse
  have hx : x :: xs.reverse = (xs ++ [x]).reverse := by simp
  have hy : y :: ys.reverse = (ys ++ [y]).reverse := by simp
  rwa [hx, hy, distance_reverse, distance_reverse, distance_reverse, distance_reverse] at hback

end EditDistance
