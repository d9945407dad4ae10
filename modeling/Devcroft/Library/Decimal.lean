import Devcroft.Library.Text
import Mathlib.Tactic.IntervalCases

/-!
# Numbers as they are printed

A number that is printed is one word of digits, from which it is read back; from its first digits
alone a smaller one is read.
-/

namespace Text

variable {n m : ℕ} {digits more : List Char}

/-- A number that is not zero does not begin with a zero. -/
theorem head_toDigits (hn : 0 < n) : (Nat.toDigits 10 n).head? ≠ some '0' := by
  induction n using Nat.strong_induction_on with
  | _ n ih =>
    by_cases hlt : n < 10
    · rw [Nat.toDigits_of_lt_base hlt]
      intro h
      have hdigit : n.digitChar = '0' := Option.some.inj h
      interval_cases n <;> simp [Nat.digitChar] at hdigit
    · have hle : 10 ≤ n := Nat.le_of_not_lt hlt
      rw [Nat.toDigits_of_base_le (by decide) hle, List.head?_append_of_ne_nil]
      · exact ih (n / 10) (by omega) (by omega)
      · exact Nat.toDigits_ne_nil

/-- A digit that is not zero stands for a number that is not zero. -/
theorem digit_pos {c : Char} (hdigit : c.isDigit = true) (hc : c ≠ '0') :
    0 < c.toNat - '0'.toNat := by
  have hbounds : '0'.toNat ≤ c.toNat := (Char.isDigit_iff_toNat.mp hdigit).1
  have hne : c.toNat ≠ '0'.toNat := fun h => hc (Char.toNat_inj.mp h)
  omega

/-- The first digits of a number stand for less than all of them do. -/
theorem decimalFrom_lt (hfirst : (digits ++ more).head? ≠ some '0') (hdigits : digits ≠ [])
    (hmore : more ≠ []) (hall : ∀ c ∈ digits ++ more, c.isDigit = true) :
    0 < decimalFrom 0 digits ∧ decimalFrom 0 digits < decimalFrom 0 (digits ++ more) := by
  obtain ⟨d, ds, rfl⟩ := List.exists_cons_of_ne_nil hdigits
  obtain ⟨e, es, rfl⟩ := List.exists_cons_of_ne_nil hmore
  have hd : 0 < d.toNat - '0'.toNat :=
    digit_pos (hall d List.mem_cons_self) fun h => hfirst (by rw [h]; rfl)
  have hcons : decimalFrom 0 (d :: ds) = decimalFrom (0 * 10 + (d.toNat - '0'.toNat)) ds := rfl
  have hpos := le_decimalFrom (0 * 10 + (d.toNat - '0'.toNat)) ds
  have hmore : decimalFrom 0 (d :: ds ++ e :: es) =
      decimalFrom (decimalFrom 0 (d :: ds) * 10 + (e.toNat - '0'.toNat)) es := by
    rw [decimalFrom, List.foldl_append]
    rfl
  rw [← hcons] at hpos
  have hlast := le_decimalFrom (decimalFrom 0 (d :: ds) * 10 + (e.toNat - '0'.toNat)) es
  rw [hmore]
  omega

/-- A number as it is printed is one word, without a sign. -/
theorem not_whitespace_of_isDigit {c : Char} (h : c.isDigit = true) : isWhitespace c = false := by
  by_contra hspace
  rw [Bool.not_eq_false] at hspace
  simp only [isWhitespace, Bool.or_eq_true, decide_eq_true_eq, Bool.and_eq_true] at hspace
  have hdigit := Char.isDigit_iff_toNat.mp h
  simp at hdigit hspace
  omega

/-- A process id is read back as it was printed. -/
theorem parseI32_toString (hn : n < 2147483648) : parseI32 (toString n) = some (n : ℤ) := by
  have hdecimal := isDecimal_toString n
  have hminus : (toString n).toList.head? ≠ some '-' := fun h =>
    hdecimal.notMem (c := '-') (by decide) (List.mem_of_mem_head? h)
  have hplus : (toString n).toList.head? ≠ some '+' := fun h =>
    hdecimal.notMem (c := '+') (by decide) (List.mem_of_mem_head? h)
  rw [parseI32, if_neg hminus, if_neg hplus, parseDigits_eq_some_iff.mpr]
  · rfl
  · rw [String.ofList_toList]
    exact ⟨hdecimal, hn⟩

/-- So is a start time; its first digits are read as an earlier one, which is not zero. -/
theorem parseU64_take (hn : n < UInt64.size) {k : ℕ} (hk : 0 < k) :
    ∃ m, parseU64 (String.ofList ((toString n).toList.take k)) = some m ∧
      (m = n ∧ (toString n).toList.length ≤ k ∨
        (toString n).toList.length > k ∧ 0 < m ∧ m < n) := by
  have hdecimal := isDecimal_toString n
  have hsplit := List.take_append_drop k (toString n).toList
  have htake : (toString n).toList.take k ≠ [] := by
    intro h
    rcases List.take_eq_nil_iff.mp h with h | h
    · omega
    · exact hdecimal.1 h
  have hdigits : ∀ c ∈ (toString n).toList.take k, c.isDigit = true := fun c hc =>
    hdecimal.2.1 c (List.take_subset _ _ hc)
  have hparse (m : ℕ) (hm : decimalFrom 0 ((toString n).toList.take k) = m)
      (hlt : m < UInt64.size) :
      parseU64 (String.ofList ((toString n).toList.take k)) = some m := by
    refine parseU64_eq_some_iff.mpr ⟨hlt, Or.inl ?_⟩
    rw [IsDecimal, String.toList_ofList]
    exact ⟨htake, hdigits, hm⟩
  rcases Nat.lt_or_ge k (toString n).toList.length with hlt | hle
  · have hdrop : (toString n).toList.drop k ≠ [] := by
      intro h
      have hlength := List.drop_eq_nil_iff.mp h
      omega
    have hpos : 0 < n := by
      rcases Nat.eq_zero_or_pos n with rfl | hpos
      · have hone : (toString 0).toList.length = 1 := by decide
        omega
      · exact hpos
    have hfirst : ((toString n).toList.take k ++ (toString n).toList.drop k).head? ≠ some '0' := by
      have hlist : (toString n).toList = Nat.toDigits 10 n := Nat.toList_repr
      rw [hsplit, hlist]
      exact head_toDigits hpos
    have hbounds := decimalFrom_lt hfirst htake hdrop (by rw [hsplit]; exact hdecimal.2.1)
    rw [hsplit, hdecimal.2.2] at hbounds
    exact ⟨_, hparse _ rfl (by omega), Or.inr ⟨hlt, hbounds⟩⟩
  · rw [List.take_of_length_le hle] at hparse ⊢
    exact ⟨n, hparse n hdecimal.2.2 hn, Or.inl ⟨rfl, hle⟩⟩

/-- Numbers are told apart by how they are printed. -/
theorem repr_injective {m n : ℕ} (h : Nat.repr m = Nat.repr n) : m = n := by
  have hm : IsDecimal (Nat.repr m) m := isDecimal_toString m
  have hn : IsDecimal (Nat.repr n) n := isDecimal_toString n
  rw [← hm.2.2, ← hn.2.2, h]

/-- Digits are no more than one word. -/
theorem splitWhitespace_digits {word : String} (hword : ∀ c ∈ word.toList, c.isDigit = true) :
    splitWhitespace word = if word = "" then [] else [word] := by
  split
  · next h =>
    rw [h]
    rfl
  · next hne =>
    have happend : splitWhitespace (word ++ "") = word :: splitWhitespace "" :=
      splitWhitespace_append hne (fun c hc => not_whitespace_of_isDigit (hword c hc)) (by simp)
    rwa [String.append_empty] at happend

end Text
