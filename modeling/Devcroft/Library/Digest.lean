import Mathlib.Data.List.Count
import Mathlib.Data.List.Infix
import Devcroft.Library.Text

/-!
# Digests of separated parts

A digest takes a sequence of letters into its state, one after another; a list of parts
is taken in as their letters, each part followed by a separator. When two lists of parts
are the same sequence, and when two sequences leave different states.
-/

namespace Digest

variable {α σ : Type}

/-- The letters of some parts, each followed by the separator. -/
def join (sep : α) (parts : List (List α)) : List α := parts.flatMap fun part => part ++ [sep]

@[simp] theorem join_nil (sep : α) : join sep [] = [] := rfl

@[simp] theorem join_cons (sep : α) (part : List α) (parts : List (List α)) :
    join sep (part :: parts) = part ++ sep :: join sep parts := by
  simp [join]

@[simp] theorem join_append (sep : α) (before after : List (List α)) :
    join sep (before ++ after) = join sep before ++ join sep after := by
  simp [join]

/-- With the separator in one of several parts, other parts have the same letters. -/
theorem exists_join_eq {sep : α} {parts : List (List α)} (hlength : 1 < parts.length)
    (h : ∃ part ∈ parts, sep ∈ part) :
    ∃ others : List (List α), others.length = parts.length ∧ others ≠ parts ∧
      join sep others = join sep parts := by
  obtain ⟨part, hpart, hsep⟩ := h
  obtain ⟨before, after, rfl⟩ := List.append_of_mem hpart
  obtain ⟨front, back, rfl⟩ := List.append_of_mem hsep
  have hshorter : front ≠ front ++ sep :: back := by
    intro he
    have hlen := congrArg List.length he
    rw [List.length_append, List.length_cons] at hlen
    omega
  cases after with
  | cons next after =>
    -- The end of the part goes over to the next one.
    refine ⟨before ++ front :: (back ++ sep :: next) :: after, ?_, ?_, ?_⟩
    · simp
    · intro he
      have htail := List.append_cancel_left he
      exact hshorter (List.cons.inj htail).1
    · simp
  | nil =>
    -- The part is the last: its front goes over to the one before.
    rcases List.eq_nil_or_concat before with rfl | ⟨before, prev, rfl⟩
    · simp at hlength
    · refine ⟨before ++ [prev ++ sep :: front, back], ?_, ?_, ?_⟩
      · simp
      · intro he
        rw [List.concat_eq_append, List.append_assoc, List.singleton_append] at he
        have htail := List.append_cancel_left he
        have hlen := congrArg List.length (List.cons.inj htail).1
        rw [List.length_append, List.length_cons] at hlen
        omega
      · simp

section Separator

variable [DecidableEq α] {sep : α}

/-- Every part brings a separator. -/
theorem length_le_count_join (parts : List (List α)) :
    parts.length ≤ (join sep parts).count sep := by
  induction parts with
  | nil => exact Nat.zero_le _
  | cons part parts ih =>
    rw [join_cons, List.count_append, List.count_cons_self, List.length_cons]
    omega

/-- Parts without the separator bring no other. -/
theorem count_join_of_notMem {parts : List (List α)} (h : ∀ part ∈ parts, sep ∉ part) :
    (join sep parts).count sep = parts.length := by
  induction parts with
  | nil => rfl
  | cons part parts ih =>
    obtain ⟨hpart, hparts⟩ := List.forall_mem_cons.mp h
    rw [join_cons, List.count_append, List.count_cons_self, List.count_eq_zero.mpr hpart,
      ih hparts, List.length_cons, Nat.zero_add]

/-- Parts without the separator are read back from their letters, when their number is known. -/
theorem eq_of_join_eq {parts others : List (List α)} (h : ∀ part ∈ parts, sep ∉ part)
    (hlength : others.length = parts.length) (hjoin : join sep others = join sep parts) :
    others = parts := by
  induction parts generalizing others with
  | nil => exact List.length_eq_zero_iff.mp hlength
  | cons part parts ih =>
    obtain ⟨hpart, hparts⟩ := List.forall_mem_cons.mp h
    cases others with
    | nil => cases hlength
    | cons other others =>
      have hrest : others.length = parts.length := Nat.succ.inj hlength
      rw [join_cons, join_cons] at hjoin
      have hother : sep ∉ other := by
        intro hmem
        have hcount := congrArg (List.count sep) hjoin
        have hmore : others.length ≤ (join sep others).count sep := length_le_count_join others
        have hpos := List.count_pos_iff.mpr hmem
        rw [List.count_append, List.count_append, List.count_cons_self, List.count_cons_self,
          List.count_eq_zero.mpr hpart, count_join_of_notMem hparts] at hcount
        omega
      obtain ⟨rfl, htail⟩ := Text.cut_unique hother hpart hjoin
      rw [ih hparts hrest htail]

/-- Which parts nothing else can be taken for. -/
theorem join_unique_iff {parts : List (List α)} :
    (∀ others : List (List α), others.length = parts.length → others ≠ parts →
      join sep others ≠ join sep parts) ↔ parts.length ≤ 1 ∨ ∀ part ∈ parts, sep ∉ part := by
  constructor
  · intro h
    by_contra hnot
    obtain ⟨hlength, hpart⟩ := not_or.mp hnot
    have hmem : ∃ part ∈ parts, sep ∈ part := by
      by_contra hnone
      exact hpart fun part hmem hsep => hnone ⟨part, hmem, hsep⟩
    obtain ⟨others, hlen, hne, hjoin⟩ := exists_join_eq (by omega) hmem
    exact h others hlen hne hjoin
  · rintro (hlength | hpart) others hlen hne hjoin
    · rcases Nat.le_one_iff_eq_zero_or_eq_one.mp hlength with hzero | hone
      · rw [List.length_eq_zero_iff.mp hzero] at hlen hne
        exact hne (List.length_eq_zero_iff.mp hlen)
      · obtain ⟨part, rfl⟩ := List.length_eq_one_iff.mp hone
        obtain ⟨other, rfl⟩ := List.length_eq_one_iff.mp (hlen.trans hone)
        rw [join_cons, join_cons, join_nil] at hjoin
        exact hne (by rw [List.append_cancel_right hjoin])
    · exact hne (eq_of_join_eq hpart hlen hjoin)

end Separator

/-- The letters taken in one after another take two states to the same one only if they are. -/
theorem foldl_injective {step : σ → α → σ} (h : ∀ a, Function.Injective fun s => step s a)
    (letters : List α) : Function.Injective fun s => letters.foldl step s := by
  induction letters with
  | nil => exact Function.injective_id
  | cons a letters ih =>
    intro s t hst
    exact h a (ih hst)

/-- A letter that is replaced leaves another state, whatever comes before and after it. -/
theorem foldl_ne_of_edit {step : σ → α → σ} (h : ∀ a, Function.Injective fun s => step s a)
    (hletter : ∀ s, Function.Injective (step s)) (start : σ) (before after : List α) {a b : α}
    (hne : a ≠ b) :
    (before ++ a :: after).foldl step start ≠ (before ++ b :: after).foldl step start := by
  rw [List.foldl_append, List.foldl_append, List.foldl_cons, List.foldl_cons]
  intro he
  exact hne (hletter _ (foldl_injective h after he))

end Digest
