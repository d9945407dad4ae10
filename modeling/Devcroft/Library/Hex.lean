import Mathlib.Data.List.Infix
import Mathlib.Algebra.Ring.Nat

/-!
# Hexadecimal numbers

Numbers written with a fixed number of hexadecimal digits, as `{:02x}` and `{:016x}`
write them, and what digits stand for.
-/

namespace Hex

/-- What a digit stands for. -/
def digitValue (c : Char) : ℕ :=
  if c.toNat < 58 then c.toNat - 48 else if c.toNat < 71 then c.toNat - 55 else c.toNat - 87

/-- What digits stand for, the most significant one first. -/
def value (digits : List Char) : ℕ := digits.foldl (fun n c => 16 * n + digitValue c) 0

/-- A number in lower case with at least `width` digits. -/
def pad (width n : ℕ) : List Char :=
  List.replicate (width - (Nat.toDigits 16 n).length) '0' ++ Nat.toDigits 16 n

theorem value_append_singleton (digits : List Char) (c : Char) :
    value (digits ++ [c]) = 16 * value digits + digitValue c := by
  rw [value, List.foldl_append, ← value]
  rfl

/-- Each digit is written as what it stands for. -/
theorem digitValue_digitChar : ∀ d < 16, digitValue (Nat.digitChar d) = d := by decide

/-- The digits of a number stand for it. -/
theorem value_toDigits (n : ℕ) : value (Nat.toDigits 16 n) = n := by
  induction n using Nat.strongRecOn with
  | ind n ih =>
    rcases Nat.lt_or_ge n 16 with hsmall | hlarge
    · rw [Nat.toDigits_of_lt_base hsmall]
      exact (value_append_singleton [] _).trans (by simp [value, digitValue_digitChar n hsmall])
    · rw [Nat.toDigits_of_base_le (by decide) hlarge, value_append_singleton, ih (n / 16) (by omega),
        digitValue_digitChar _ (by omega)]
      omega

/-- Zeros in front do not count. -/
theorem value_replicate_append (k : ℕ) (digits : List Char) :
    value (List.replicate k '0' ++ digits) = value digits := by
  induction k with
  | zero => rfl
  | succ k ih =>
    rw [List.replicate_succ, List.cons_append, value, List.foldl_cons]
    exact ih

/-- Padding keeps the number. -/
theorem value_pad (width n : ℕ) : value (pad width n) = n := by
  rw [pad, value_replicate_append, value_toDigits]

/-- Different numbers are written differently. -/
theorem pad_injective {width m n : ℕ} (h : pad width m = pad width n) : m = n := by
  rw [← value_pad width m, h, value_pad]

/-- A padded number has a digit. -/
theorem pad_ne_nil (width n : ℕ) : pad width n ≠ [] := by
  simp [pad]

/-- A number that fits is written with so many digits. -/
theorem length_pad {width n : ℕ} (hwidth : 0 < width) (h : n < 16 ^ width) :
    (pad width n).length = width := by
  have hlength := (Nat.length_toDigits_le_iff (by decide) hwidth).mpr h
  rw [pad, List.length_append, List.length_replicate]
  omega

/-- What is written are decimal digits and the letters up to `f`. -/
theorem mem_pad {width n : ℕ} {c : Char} (h : c ∈ pad width n) : c ∈ "0123456789abcdef".toList := by
  have hdigit : ∀ d < 16, Nat.digitChar d ∈ "0123456789abcdef".toList := by decide
  rcases List.mem_append.mp h with hzero | hmem
  · rw [List.eq_of_mem_replicate hzero]
    decide
  · clear h
    induction n using Nat.strongRecOn with
    | ind n ih =>
      rcases Nat.lt_or_ge n 16 with hsmall | hlarge
      · rw [Nat.toDigits_of_lt_base hsmall, List.mem_singleton] at hmem
        exact hmem ▸ hdigit n hsmall
      · rw [Nat.toDigits_of_base_le (by decide) hlarge, List.mem_append, List.mem_singleton] at hmem
        rcases hmem with hmem | rfl
        · exact ih (n / 16) (by omega) hmem
        · exact hdigit _ (by omega)

end Hex
