import Mathlib.Data.List.Infix
import Mathlib.Tactic.Common

/-!
# Pieces of a file

A file is written in pieces at offsets, and read in pieces. Pieces of one text make it up wherever
they cover it, in whatever order they are written and however they overlap.
-/

namespace Extents

variable {α : Type}

/-- What is read at an offset, at most so much. -/
def readAt (content : List α) (offset len : ℕ) : List α := (content.drop offset).take len

/-- A file after something was written at an offset: a gap before it is filled. -/
def writeAt (filler : α) (content : List α) (offset : ℕ) (piece : List α) : List α :=
  if piece.isEmpty then content
  else
    content.take offset ++ List.replicate (offset - content.length) filler ++ piece ++
      content.drop (offset + piece.length)

/-- A file that was cut or filled to a length. -/
def setLen (filler : α) (content : List α) (size : ℕ) : List α :=
  content.take size ++ List.replicate (size - content.length) filler

/-- This stands at this offset of a text. -/
def IsPiece (text : List α) (offset : ℕ) (piece : List α) : Prop := piece <+: text.drop offset

/-- A piece at an offset covers a position. -/
def Covers (offset : ℕ) (piece : List α) (i : ℕ) : Prop := offset ≤ i ∧ i < offset + piece.length

variable {filler : α} {content text piece : List α} {offset : ℕ}

/-- What stands where in a file after a write. -/
theorem getElem?_writeAt (hne : piece ≠ []) (i : ℕ) :
    (writeAt filler content offset piece)[i]? =
      if i < offset then some (content[i]?.getD filler)
      else if i < offset + piece.length then piece[i - offset]?
      else content[i]? := by
  have hempty : piece.isEmpty = false := by simpa using hne
  have hfront : (content.take offset ++ List.replicate (offset - content.length) filler).length =
      offset := by
    rw [List.length_append, List.length_take, List.length_replicate]
    omega
  rw [writeAt, hempty, if_neg (by simp)]
  by_cases hi : i < offset
  · rw [if_pos hi, List.append_assoc, List.getElem?_append_left (by omega)]
    by_cases hcontent : i < content.length
    · rw [List.getElem?_append_left (by rw [List.length_take]; omega), List.getElem?_take_of_lt hi,
        List.getElem?_eq_getElem hcontent]
      rfl
    · have hlength : (content.take offset).length = content.length := by
        rw [List.length_take]
        omega
      rw [List.getElem?_append_right (by omega), hlength, List.getElem?_replicate_of_lt (by omega),
        List.getElem?_eq_none (by omega)]
      rfl
  · rw [if_neg hi, List.append_assoc, List.getElem?_append_right (by omega), hfront]
    by_cases hpiece : i < offset + piece.length
    · rw [if_pos hpiece, List.getElem?_append_left (by omega)]
    · rw [if_neg hpiece, List.getElem?_append_right (by omega), List.getElem?_drop]
      congr 1
      omega

/-- What is written next to what has been written. -/
theorem writeAt_take {n : ℕ} (h : offset + n ≤ text.length) :
    writeAt filler (text.take offset) offset ((text.drop offset).take n) =
      text.take (offset + n) := by
  have hlength : (text.take offset).length = offset := by
    rw [List.length_take]
    omega
  unfold writeAt
  split
  · next hempty =>
    rw [List.isEmpty_iff, List.take_eq_nil_iff, List.drop_eq_nil_iff] at hempty
    rcases hempty with rfl | hend
    · rfl
    · rw [show n = 0 by omega]
      rfl
  · have hend : (text.take offset).drop (offset + ((text.drop offset).take n).length) = [] :=
      List.drop_eq_nil_of_le (by omega)
    rw [hend, List.take_of_length_le hlength.le, hlength, Nat.sub_self, List.replicate_zero,
      List.append_nil, List.append_nil, List.take_add]

/-- A piece is what stands there. -/
theorem IsPiece.getElem? (h : IsPiece text offset piece) {j : ℕ} (hj : j < piece.length) :
    piece[j]? = text[offset + j]? := by
  obtain ⟨rest, hrest⟩ := h
  rw [← List.getElem?_drop, ← hrest, List.getElem?_append_left hj]

theorem IsPiece.length_le (h : IsPiece text offset piece) (hne : piece ≠ []) :
    offset + piece.length ≤ text.length := by
  have hle := List.IsPrefix.length_le h
  have hpos := List.length_pos_of_ne_nil hne
  rw [List.length_drop] at hle
  omega

/-- The beginning of a piece is one. -/
theorem IsPiece.take (h : IsPiece text offset piece) (n : ℕ) :
    IsPiece text offset (piece.take n) := (List.take_prefix n piece).trans h

theorem isPiece_readAt (text : List α) (offset len : ℕ) :
    IsPiece text offset (readAt text offset len) := List.take_prefix _ _

/-- What was written of a text: a file that is no longer, and has the text where it was written. -/
structure Partly (text : List α) (written : ℕ → Prop) (content : List α) : Prop where
  length : content.length ≤ text.length
  agrees : ∀ i, written i → content[i]? = text[i]?

theorem partly_nil (text : List α) : Partly text (fun _ => False) [] :=
  ⟨Nat.zero_le _, nofun⟩

theorem length_writeAt (hne : piece ≠ []) :
    (writeAt filler content offset piece).length =
      max content.length (offset + piece.length) := by
  have hempty : piece.isEmpty = false := by simpa using hne
  rw [writeAt, hempty, if_neg (by simp)]
  simp only [List.length_append, List.length_take, List.length_replicate, List.length_drop]
  omega

/-- A piece more is written. -/
theorem Partly.writeAt {written : ℕ → Prop} (h : Partly text written content)
    (hpiece : IsPiece text offset piece) :
    Partly text (fun i => written i ∨ Covers offset piece i)
      (writeAt filler content offset piece) := by
  by_cases hne : piece = []
  · subst hne
    refine ⟨h.length, fun i hi => h.agrees i (hi.resolve_right fun hcovers => ?_)⟩
    have := hcovers.2
    have := hcovers.1
    simp only [List.length_nil] at *
    omega
  · refine ⟨?_, fun i hi => ?_⟩
    · rw [length_writeAt hne]
      exact max_le h.length (hpiece.length_le hne)
    · rw [getElem?_writeAt hne]
      split
      · next hbefore =>
        have hold := h.agrees i (hi.resolve_right fun hcovers => absurd hcovers.1 (by omega))
        have hlength := hpiece.length_le hne
        rw [List.getElem?_eq_getElem (show i < text.length by omega)] at hold ⊢
        rw [hold]
        rfl
      · split
        · rw [hpiece.getElem? (by omega)]
          congr 1
          omega
        · next hafter => exact h.agrees i (hi.resolve_right fun hcovers => hafter hcovers.2)

theorem Partly.mono {written written' : ℕ → Prop} (h : Partly text written content)
    (himp : ∀ i, written' i → written i) : Partly text written' content :=
  ⟨h.length, fun i hi => h.agrees i (himp i hi)⟩

/-- A text that was written everywhere is there. -/
theorem Partly.eq {written : ℕ → Prop} (h : Partly text written content)
    (hall : ∀ i < text.length, written i) : content = text := by
  refine List.ext_getElem? fun i => ?_
  by_cases hi : i < text.length
  · exact h.agrees i (hall i hi)
  · have := h.length
    rw [List.getElem?_eq_none (by omega), List.getElem?_eq_none (by omega)]

/-- Pieces that were read one behind the other. -/
def Consecutive (text : List α) : ℕ → List (List α) → Prop
  | _, [] => True
  | offset, piece :: rest =>
    IsPiece text offset piece ∧ Consecutive text (offset + piece.length) rest

/-- They are what stands there, together. -/
theorem Consecutive.flatten {offset : ℕ} {pieces : List (List α)}
    (h : Consecutive text offset pieces) : IsPiece text offset pieces.flatten := by
  induction pieces generalizing offset with
  | nil => exact List.nil_prefix
  | cons piece rest ih =>
    obtain ⟨⟨after, hafter⟩, hrest⟩ := h
    have hlater := ih hrest
    rw [IsPiece, ← List.drop_drop, ← hafter, List.drop_left] at hlater
    obtain ⟨last, hlast⟩ := hlater
    refine ⟨last, ?_⟩
    rw [List.flatten_cons, List.append_assoc, hlast, hafter]

/-- From the beginning to the end they are the whole. -/
theorem Consecutive.eq {pieces : List (List α)} (h : Consecutive text 0 pieces)
    (hend : text.length ≤ pieces.flatten.length) : pieces.flatten = text := by
  have hpiece := h.flatten
  rw [IsPiece, List.drop_zero] at hpiece
  exact hpiece.eq_of_length_le hend

end Extents
