import Mathlib.Algebra.Ring.Nat
import Mathlib.Data.List.Infix

/-!
# Base64

The standard alphabet with padding: three bytes are four digits, and a text that is not
exactly what some bytes are encoded as does not decode.
-/

namespace Base64

/-- The 64 digits, by what they stand for. -/
def alphabet : List Char :=
  "ABCDEFGHIJKLMNOPQRSTUVWXYZabcdefghijklmnopqrstuvwxyz0123456789+/".toList

/-- The digit of a number. -/
def digit (n : ℕ) : Char := alphabet.getD n '='

/-- The number of a digit. -/
def value (c : Char) : Option ℕ := alphabet.findIdx? (· == c)

/-- Bytes as digits. -/
def digits : List UInt8 → List Char
  | [] => []
  | [a] => [digit (a.toNat / 4), digit (a.toNat % 4 * 16), '=', '=']
  | [a, b] =>
    [digit (a.toNat / 4), digit (a.toNat % 4 * 16 + b.toNat / 16), digit (b.toNat % 16 * 4), '=']
  | a :: b :: c :: rest =>
    digit (a.toNat / 4) :: digit (a.toNat % 4 * 16 + b.toNat / 16) ::
      digit (b.toNat % 16 * 4 + c.toNat / 64) :: digit (c.toNat % 64) :: digits rest

/-- Bytes as a text. -/
def encode (bytes : List UInt8) : String := String.ofList (digits bytes)

/-- The numbers of four digits as three bytes. -/
def group (p q r s : ℕ) : List UInt8 :=
  [UInt8.ofNat (p * 4 + q / 16), UInt8.ofNat (q % 16 * 16 + r / 4), UInt8.ofNat (r % 4 * 64 + s)]

/-- Digits as bytes. Padding stands at the end only, and what it cuts off is zero. -/
def bytes : List Char → Option (List UInt8)
  | [] => some []
  | p :: q :: r :: s :: rest => do
    let p ← value p
    let q ← value q
    if s = '=' ∧ rest = [] then
      if r = '=' then
        if q % 16 = 0 then some ((group p q 0 0).take 1) else none
      else
        let r ← value r
        if r % 4 = 0 then some ((group p q r 0).take 2) else none
    else
      let r ← value r
      let s ← value s
      let rest ← bytes rest
      some (group p q r s ++ rest)
  | _ => none

/-- A text as bytes. -/
def decode (s : String) : Option (List UInt8) := bytes s.toList

/-- A digit stands for its number. -/
theorem value_digit : ∀ n < 64, value (digit n) = some n := by decide

/-- Digits and their numbers determine each other. -/
theorem value_eq_some_iff {c : Char} {n : ℕ} : value c = some n ↔ n < 64 ∧ c = digit n := by
  constructor
  · intro h
    obtain ⟨hn, hc, -⟩ := List.findIdx?_eq_some_iff_getElem.mp h
    refine ⟨hn, ?_⟩
    rw [digit, ← List.getElem_eq_getD '=' (h := hn)]
    exact (beq_iff_eq.mp hc).symm
  · rintro ⟨hn, rfl⟩
    exact value_digit n hn

/-- Padding is no digit. -/
theorem digit_ne_padding {n : ℕ} (h : n < 64) : digit n ≠ '=' := by
  intro hpad
  have hvalue := value_digit n h
  rw [hpad, show value '=' = none by decide] at hvalue
  cases hvalue

/-- The numbers of three bytes are read back as them. -/
theorem group_eq (a b c : UInt8) :
    group (a.toNat / 4) (a.toNat % 4 * 16 + b.toNat / 16) (b.toNat % 16 * 4 + c.toNat / 64)
      (c.toNat % 64) = [a, b, c] := by
  have ha := a.toNat_lt
  have hb := b.toNat_lt
  have hc := c.toNat_lt
  have hfirst : a.toNat / 4 * 4 + (a.toNat % 4 * 16 + b.toNat / 16) / 16 = a.toNat := by omega
  have hsecond : (a.toNat % 4 * 16 + b.toNat / 16) % 16 * 16 +
      (b.toNat % 16 * 4 + c.toNat / 64) / 4 = b.toNat := by omega
  have hthird : (b.toNat % 16 * 4 + c.toNat / 64) % 4 * 64 + c.toNat % 64 = c.toNat := by omega
  rw [group, hfirst, hsecond, hthird, UInt8.ofNat_toNat, UInt8.ofNat_toNat, UInt8.ofNat_toNat]

/-- What is encoded is read back. -/
theorem bytes_digits (input : List UInt8) : bytes (digits input) = some input := by
  fun_induction digits input with
  | case1 => rfl
  | case2 a =>
    have ha := a.toNat_lt
    have hgroup := group_eq a 0 0
    simp only [UInt8.toNat_zero, Nat.zero_div, Nat.zero_mod, Nat.zero_mul, Nat.add_zero] at hgroup
    simp only [bytes, value_digit (a.toNat / 4) (by omega),
      value_digit (a.toNat % 4 * 16) (by omega), Option.bind_eq_bind, Option.bind_some, and_self,
      if_true, Nat.mul_mod_left, hgroup, List.take_succ_cons, List.take_zero]
  | case3 a b =>
    have ha := a.toNat_lt
    have hb := b.toNat_lt
    have hgroup := group_eq a b 0
    have hne := digit_ne_padding (n := b.toNat % 16 * 4) (by omega)
    simp only [UInt8.toNat_zero, Nat.zero_div, Nat.zero_mod, Nat.add_zero] at hgroup
    simp only [bytes, value_digit (a.toNat / 4) (by omega),
      value_digit (a.toNat % 4 * 16 + b.toNat / 16) (by omega),
      value_digit (b.toNat % 16 * 4) (by omega), Option.bind_eq_bind, Option.bind_some, and_self,
      if_true, if_neg hne, Nat.mul_mod_left, hgroup, List.take_succ_cons, List.take_zero]
  | case4 a b c rest ih =>
    have ha := a.toNat_lt
    have hb := b.toNat_lt
    have hc := c.toNat_lt
    have hne := digit_ne_padding (n := c.toNat % 64) (by omega)
    simp only [bytes, value_digit (a.toNat / 4) (by omega),
      value_digit (a.toNat % 4 * 16 + b.toNat / 16) (by omega),
      value_digit (b.toNat % 16 * 4 + c.toNat / 64) (by omega),
      value_digit (c.toNat % 64) (by omega), Option.bind_eq_bind, Option.bind_some, hne, false_and,
      if_false, ih, group_eq, List.cons_append, List.nil_append]

theorem toNat_first {p q : ℕ} (hp : p < 64) (hq : q < 64) :
    (UInt8.ofNat (p * 4 + q / 16)).toNat = p * 4 + q / 16 := by
  rw [UInt8.toNat_ofNat']
  omega

theorem toNat_second (q : ℕ) {r : ℕ} (hr : r < 64) :
    (UInt8.ofNat (q % 16 * 16 + r / 4)).toNat = q % 16 * 16 + r / 4 := by
  rw [UInt8.toNat_ofNat']
  omega

/-- A whole group is the digits that it was read from. -/
theorem digits_group {p q r s : ℕ} (hp : p < 64) (hq : q < 64) (hr : r < 64) (hs : s < 64)
    (rest : List UInt8) :
    digits (group p q r s ++ rest) = digit p :: digit q :: digit r :: digit s :: digits rest := by
  have hfirst := toNat_first hp hq
  have hsecond := toNat_second q hr
  have hthird : (UInt8.ofNat (r % 4 * 64 + s)).toNat = r % 4 * 64 + s := by
    rw [UInt8.toNat_ofNat']
    omega
  have hp : (p * 4 + q / 16) / 4 = p := by omega
  have hq : (p * 4 + q / 16) % 4 * 16 + (q % 16 * 16 + r / 4) / 16 = q := by omega
  have hr : (q % 16 * 16 + r / 4) % 16 * 4 + (r % 4 * 64 + s) / 64 = r := by omega
  have hs : (r % 4 * 64 + s) % 64 = s := by omega
  rw [group, List.cons_append, List.cons_append, List.cons_append, List.nil_append, digits, hfirst,
    hsecond, hthird, hp, hq, hr, hs]

/-- What is read is what the text encodes. -/
theorem digits_of_bytes {text : List Char} {output : List UInt8} (h : bytes text = some output) :
    digits output = text := by
  fun_induction bytes text generalizing output with
  | case1 =>
    obtain rfl := Option.some.inj h
    rfl
  | case2 p q r s rest ih =>
    simp only [Option.bind_eq_bind, Option.bind_eq_some_iff, value_eq_some_iff] at h
    obtain ⟨p, ⟨hp, rfl⟩, q, ⟨hq, rfl⟩, h⟩ := h
    split at h
    · next hend =>
      obtain ⟨rfl, rfl⟩ := hend
      split at h
      · next hr =>
        split at h
        · next hzero =>
          obtain rfl := Option.some.inj h
          have hfirst := toNat_first hp hq
          have hp : (p * 4 + q / 16) / 4 = p := by omega
          have hq : (p * 4 + q / 16) % 4 * 16 = q := by omega
          rw [group, List.take_succ_cons, List.take_zero, digits, hfirst, hp, hq, hr]
        · cases h
      · obtain ⟨r, hvalue, hlast⟩ := Option.bind_eq_some_iff.mp h
        obtain ⟨hr, rfl⟩ := value_eq_some_iff.mp hvalue
        split at hlast
        · next hzero =>
          obtain rfl := Option.some.inj hlast
          have hfirst := toNat_first hp hq
          have hsecond := toNat_second q hr
          have hp : (p * 4 + q / 16) / 4 = p := by omega
          have hq : (p * 4 + q / 16) % 4 * 16 + (q % 16 * 16 + r / 4) / 16 = q := by omega
          have hr : (q % 16 * 16 + r / 4) % 16 * 4 = r := by omega
          rw [group, List.take_succ_cons, List.take_succ_cons, List.take_zero, digits, hfirst,
            hsecond, hp, hq, hr]
        · cases hlast
    · simp only [Option.bind_eq_some_iff, value_eq_some_iff, Option.some.injEq] at h
      obtain ⟨r, ⟨hr, rfl⟩, s, ⟨hs, rfl⟩, last, hlast, rfl⟩ := h
      rw [digits_group hp hq hr hs, ih hlast]
  | case3 text h₀ h₁ => cases h

/-- A text decodes exactly to the bytes that it is the encoding of. -/
theorem decode_eq_some_iff {s : String} {output : List UInt8} :
    decode s = some output ↔ s = encode output := by
  constructor
  · intro h
    rw [encode, digits_of_bytes h, String.ofList_toList]
  · rintro rfl
    rw [decode, encode, String.toList_ofList, bytes_digits]

end Base64
