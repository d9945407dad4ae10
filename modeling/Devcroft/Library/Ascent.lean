import Mathlib.Data.List.Basic

/-!
# Searching upwards

A search that starts at a place of a tree and goes up until it finds what it looks for, or comes to
a boundary. A place is the list of names on the way to it from the root, so that going up is leaving
out the last name.
-/

namespace Ascent

variable {α : Type} {found boundary : List α → Bool} {start root dir : List α}

/-- The search, from a place that is given by its names from the last one to the first. -/
def ascend (found boundary : List α → Bool) : List α → Option (List α)
  | [] => if found [] then some [] else none
  | name :: above =>
    if found (name :: above).reverse then some (name :: above).reverse
    else if boundary (name :: above).reverse then none
    else ascend found boundary above

/-- The search from a place. -/
def search (found boundary : List α → Bool) (start : List α) : Option (List α) :=
  ascend found boundary start.reverse

/-- The nearest place of the kind that is looked for: there is neither one nor a boundary between it
and the start. -/
structure Nearest (found boundary : List α → Bool) (start root : List α) : Prop where
  above : root <+: start
  holds : found root = true
  between : ∀ dir, root <+: dir → dir <+: start → dir ≠ root →
    found dir = false ∧ boundary dir = false

theorem Nearest.self (h : found start = true) : Nearest found boundary start start where
  above := List.prefix_rfl
  holds := h
  between := fun _ habove hbelow hne =>
    (hne (habove.eq_of_length_le hbelow.length_le).symm).elim

/-- A place at which there is nothing is passed. -/
theorem Nearest.concat {name : α} (h : Nearest found boundary start root)
    (hfound : found (start ++ [name]) = false) (hboundary : boundary (start ++ [name]) = false) :
    Nearest found boundary (start ++ [name]) root where
  above := h.above.trans (List.prefix_append _ _)
  holds := h.holds
  between := by
    intro dir habove hbelow hne
    rcases List.prefix_concat_iff.mp hbelow with rfl | hbelow
    · exact ⟨hfound, hboundary⟩
    · exact h.between dir habove hbelow hne

/-- What is nearest to a place further down is nearest on the way there, too. -/
theorem Nearest.within (h : Nearest found boundary start root) (habove : root <+: dir)
    (hbelow : dir <+: start) : Nearest found boundary dir root where
  above := habove
  holds := h.holds
  between := fun other hother hdir hne => h.between other hother (hdir.trans hbelow) hne

/-- Nothing is nearer than the nearest. -/
theorem Nearest.unique {other : List α} (h : Nearest found boundary start root)
    (h' : Nearest found boundary start other) : root = other := by
  have hself {a b : List α} (ha : Nearest found boundary start a)
      (hb : Nearest found boundary start b) (hab : a <+: b) : a = b := by
    by_contra hne
    have hnone := (ha.between b hab hb.above (Ne.symm hne)).1
    rw [hb.holds] at hnone
    cases hnone
  rcases List.prefix_or_prefix_of_prefix h.above h'.above with hle | hle
  · exact hself h h' hle
  · exact (hself h' h hle).symm

/-- The search finds the nearest place. The induction is on the way up. -/
theorem search_eq_some_iff : search found boundary start = some root ↔
    Nearest found boundary start root := by
  constructor
  · intro h
    rw [search] at h
    generalize hnames : start.reverse = names at h
    induction names generalizing start with
    | nil =>
      obtain rfl := List.reverse_eq_nil_iff.mp hnames
      rw [ascend] at h
      split at h
      · next hfound =>
        obtain rfl := Option.some.inj h
        exact Nearest.self hfound
      · cases h
    | cons name above ih =>
      have hstart : start = above.reverse ++ [name] := by
        rw [← List.reverse_cons, ← hnames, List.reverse_reverse]
      rw [ascend, List.reverse_cons] at h
      split at h
      · next hfound =>
        obtain rfl := Option.some.inj h
        rw [hstart]
        exact Nearest.self hfound
      · next hfound =>
        split at h
        · cases h
        · next hboundary =>
          rw [hstart]
          exact (ih (List.reverse_reverse above) h).concat (Bool.eq_false_iff.mpr hfound)
            (Bool.eq_false_iff.mpr hboundary)
  · intro h
    rw [search]
    generalize hnames : start.reverse = names
    induction names generalizing start with
    | nil =>
      obtain rfl := List.reverse_eq_nil_iff.mp hnames
      obtain rfl := List.prefix_nil.mp h.above
      rw [ascend, if_pos h.holds]
    | cons name above ih =>
      have hstart : start = above.reverse ++ [name] := by
        rw [← List.reverse_cons, ← hnames, List.reverse_reverse]
      rw [ascend, List.reverse_cons, ← hstart]
      by_cases hroot : root = start
      · rw [hroot] at h
        rw [if_pos h.holds, hroot]
      · obtain ⟨hfound, hboundary⟩ := h.between start h.above List.prefix_rfl (Ne.symm hroot)
        rw [hfound, hboundary, if_neg Bool.false_ne_true, if_neg Bool.false_ne_true]
        have habove : root <+: above.reverse := by
          rcases List.prefix_concat_iff.mp (hstart ▸ h.above) with heq | habove
          · exact (hroot (heq.trans hstart.symm)).elim
          · exact habove
        exact ih (h.within habove (hstart ▸ List.prefix_append _ _)) (List.reverse_reverse above)

end Ascent
