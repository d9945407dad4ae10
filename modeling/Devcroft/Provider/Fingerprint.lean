import Devcroft.Library.Digest
import Devcroft.Library.Hex
import Devcroft.Provider.Capture

/-!
# What a fingerprint distinguishes

`fingerprint` feeds the bytes of its parts into a hash state, each part followed by
`0xff`. Which parts cannot be taken for others before they are hashed, and that a byte
that is edited always shows in the hash.
-/

namespace Devcroft.Provider

/-- The bytes that `fingerprint` feeds into its state. -/
def fed (parts : List (List UInt8)) : List UInt8 := Digest.join 0xff parts

/-- The hash of parts is that of the bytes they feed. -/
theorem foldl_fnvPart (parts : List (List UInt8)) (hash : UInt64) :
    parts.foldl fnvPart hash = (fed parts).foldl fnvByte hash := by
  induction parts generalizing hash with
  | nil => rfl
  | cons part parts ih =>
    rw [List.foldl_cons, ih, fed, fed, Digest.join_cons, List.foldl_append, List.foldl_cons]
    rfl

/-- No other parts, as many, feed the same bytes. -/
def Separated (parts : List (List UInt8)) : Prop :=
  ∀ others : List (List UInt8), others.length = parts.length → others ≠ parts →
    fed others ≠ fed parts

/-- No other manifest or lockfile feeds the same bytes. -/
def ContentsSeparated (manifest : List UInt8) (lock : Option (List UInt8)) : Prop :=
  ∀ manifest' lock', (manifest', lock') ≠ (manifest, lock) →
    fed [manifest', optionalFilePart lock'] ≠ fed [manifest, optionalFilePart lock]

/-- The bytes of two parts are the same where they are the same around the separator between. -/
theorem fed_pair_eq_iff {first second first' second' : List UInt8} :
    fed [first, second] = fed [first', second'] ↔
      first ++ 0xff :: second = first' ++ 0xff :: second' := by
  have hpair :
      ∀ first second : List UInt8, fed [first, second] = (first ++ 0xff :: second) ++ [0xff] := by
    intro first second
    simp [fed]
  rw [hpair, hpair]
  constructor
  · exact List.append_cancel_right
  · exact congrArg (· ++ [0xff])

/-- A lockfile's part determines the lockfile. -/
theorem optionalFilePart_injective {lock lock' : Option (List UInt8)}
    (h : optionalFilePart lock = optionalFilePart lock') : lock = lock' := by
  cases lock with
  | none =>
    cases lock' with
    | none => rfl
    | some bytes => exact absurd (List.cons.inj h).1 (by decide)
  | some bytes =>
    cases lock' with
    | none => exact absurd (List.cons.inj h).1 (by decide)
    | some bytes' => rw [(List.cons.inj h).2]

/-- What stands before a separator in a lockfile's part begins with its mark, and the lockfile is
there. -/
theorem optionalFilePart_eq_append {lock : Option (List UInt8)} {before after : List UInt8}
    (h : optionalFilePart lock = before ++ 0xff :: after) :
    ∃ front, before = 80 :: front ∧ lock = some (front ++ 0xff :: after) := by
  cases lock with
  | none =>
    cases before with
    | nil => exact absurd (List.cons.inj h).1 (by decide)
    | cons b front =>
      have hnil := (List.cons.inj h).2
      simp at hnil
  | some bytes =>
    cases before with
    | nil => exact absurd (List.cons.inj h).1 (by decide)
    | cons b front =>
      obtain ⟨rfl, hbytes⟩ := List.cons.inj h
      exact ⟨front, rfl, congrArg some hbytes⟩

/-- The contents that nothing else can be taken for: those that hold no `0xff` where a lockfile's
part could begin after it. -/
theorem contentsSeparated_iff {manifest : List UInt8} {lock : Option (List UInt8)} :
    ContentsSeparated manifest lock ↔
      ¬[0xff, 80] <:+: manifest ∧
      ∀ bytes, lock = some bytes → ¬[0xff, 80] <:+: bytes ∧ ¬[0xff, 65] <:+ bytes := by
  constructor
  · intro h
    refine ⟨?_, ?_⟩
    · -- Cut in its manifest, the rest is a lockfile.
      rintro ⟨front, back, rfl⟩
      refine h front (some (back ++ 0xff :: optionalFilePart lock)) ?_ ?_
      · intro he
        have hlen := congrArg List.length (Prod.mk.inj he).1
        simp at hlen
      · rw [fed_pair_eq_iff]
        simp [optionalFilePart]
    · rintro bytes rfl
      constructor
      · -- Cut in its lockfile, the front of it is the end of a manifest.
        rintro ⟨front, back, rfl⟩
        refine h (manifest ++ 0xff :: 80 :: front) (some back) ?_ ?_
        · intro he
          have hlen := congrArg List.length (Prod.mk.inj he).1
          simp at hlen
        · rw [fed_pair_eq_iff]
          simp [optionalFilePart]
      · rintro ⟨front, rfl⟩
        refine h (manifest ++ 0xff :: 80 :: front) none ?_ ?_
        · intro he
          cases (Prod.mk.inj he).2
        · rw [fed_pair_eq_iff]
          simp [optionalFilePart]
  · rintro ⟨hmanifest, hlock⟩ manifest' lock' hne hfed
    rw [fed_pair_eq_iff, List.append_eq_append_iff] at hfed
    rcases hfed with ⟨cut, hcut, hpart⟩ | ⟨cut, hcut, hpart⟩
    · cases cut with
      | nil =>
        rw [List.append_nil] at hcut
        rw [hcut, optionalFilePart_injective (List.cons.inj hpart).2] at hne
        exact hne rfl
      | cons b cut =>
        obtain ⟨rfl, htail⟩ := List.cons.inj hpart
        obtain ⟨front, rfl, -⟩ := optionalFilePart_eq_append htail
        exact hmanifest ⟨manifest', front, by rw [hcut, List.append_assoc]; rfl⟩
    · cases cut with
      | nil =>
        rw [List.append_nil] at hcut
        rw [hcut, optionalFilePart_injective (List.cons.inj hpart).2] at hne
        exact hne rfl
      | cons b cut =>
        obtain ⟨rfl, htail⟩ := List.cons.inj hpart
        obtain ⟨front, rfl, hbytes⟩ := optionalFilePart_eq_append htail
        obtain ⟨hinside, hend⟩ := hlock _ hbytes
        cases lock' with
        | none => exact hend ⟨front, rfl⟩
        | some bytes => exact hinside ⟨front, bytes, by simp [optionalFilePart]⟩

/-- `fingerprint` hashes the bytes that it feeds. The parts that nothing else, of the same number,
can be taken for are one part, or parts without the separator; and of a manifest and a lockfile,
those that hold no separator with a lockfile's mark after it. -/
theorem separated_iff (parts : List (List UInt8)) (manifest : List UInt8)
    (lock : Option (List UInt8)) :
    fingerprint parts = hex16 ((fed parts).foldl fnvByte FNV_OFFSET) ∧
    (Separated parts ↔ parts.length ≤ 1 ∨ ∀ part ∈ parts, 0xff ∉ part) ∧
    (ContentsSeparated manifest lock ↔
      ¬[0xff, 80] <:+: manifest ∧
      ∀ bytes, lock = some bytes → ¬[0xff, 80] <:+: bytes ∧ ¬[0xff, 65] <:+ bytes) := by
  refine ⟨?_, Digest.join_unique_iff, contentsSeparated_iff⟩
  rw [fingerprint, foldl_fnvPart]

/-- A separator in a part is taken for the end of the part. -/
theorem not_separated_imitated :
    ¬Separated [[0xff], []] ∧ ¬ContentsSeparated [0xff, 80] none := by
  constructor
  · intro h
    exact h [[], [0xff]] rfl (by decide) (by decide)
  · intro h
    exact h [] (some [0xff, 65]) (by decide) (by decide)

/-- The inverse of the prime, modulo `2 ^ 64`. -/
def FNV_PRIME_INV : UInt64 := 0xce965057aff6957b

/-- What is multiplied by the prime is read back. -/
theorem fnvByte_mul_inv (hash : UInt64) (byte : UInt8) :
    fnvByte hash byte * FNV_PRIME_INV = hash ^^^ byte.toUInt64 := by
  have hinv : FNV_PRIME * FNV_PRIME_INV = 1 := by decide
  rw [fnvByte, UInt64.mul_assoc, hinv, UInt64.mul_one]

/-- Different states are still different after a byte. -/
theorem fnvByte_injective_state (byte : UInt8) :
    Function.Injective fun hash => fnvByte hash byte := by
  intro x y h
  have hxor := congrArg (· * FNV_PRIME_INV) h
  simp only [fnvByte_mul_inv] at hxor
  exact (UInt64.xor_left_inj _).mp hxor

/-- Different bytes leave different states. -/
theorem fnvByte_injective (hash : UInt64) : Function.Injective (fnvByte hash) := by
  intro a b h
  have hxor := congrArg (· * FNV_PRIME_INV) h
  simp only [fnvByte_mul_inv] at hxor
  exact UInt8.toUInt64_inj.mp ((UInt64.xor_right_inj _).mp hxor)

/-- Different hashes are written differently. -/
theorem hex16_injective : Function.Injective hex16 := by
  intro m n h
  have hdigits : Hex.pad 16 m.toNat = Hex.pad 16 n.toNat := String.ofList_injective h
  exact UInt64.toNat_inj.mp (Hex.pad_injective hdigits)

/-- A hash is written as sixteen digits. -/
theorem length_hex16 (n : UInt64) : (hex16 n).toList.length = 16 := by
  have hdigits : (hex16 n).toList = Hex.pad 16 n.toNat := String.toList_ofList
  rw [hdigits, Hex.length_pad (by decide) n.toNat_lt]

/-- The bytes fed around a byte of a part. -/
theorem fed_around (before after : List (List UInt8)) (front back : List UInt8) (b : UInt8) :
    fed (before ++ (front ++ b :: back) :: after) =
      (fed before ++ front) ++ b :: (back ++ 0xff :: fed after) := by
  simp [fed]

/-- A byte that is edited shows in the hash, and in the sixteen digits that it is written as,
whatever the bytes before and after it are. -/
theorem fingerprint_set_ne {parts : List (List UInt8)} {i j : ℕ} (hi : i < parts.length)
    (hj : j < parts[i].length) {b : UInt8} (hb : b ≠ parts[i][j]) :
    (parts.set i (parts[i].set j b)).foldl fnvPart FNV_OFFSET ≠ parts.foldl fnvPart FNV_OFFSET ∧
    fingerprint (parts.set i (parts[i].set j b)) ≠ fingerprint parts ∧
    (fingerprint parts).toList.length = 16 := by
  have hparts : parts = parts.take i ++ parts[i] :: parts.drop (i + 1) := by simp
  have hpart : parts[i] = parts[i].take j ++ parts[i][j] :: parts[i].drop (j + 1) := by simp
  have hhash : (parts.set i (parts[i].set j b)).foldl fnvPart FNV_OFFSET ≠
      parts.foldl fnvPart FNV_OFFSET := by
    have hedit := Digest.foldl_ne_of_edit fnvByte_injective_state fnvByte_injective FNV_OFFSET
      (fed (parts.take i) ++ parts[i].take j)
      (parts[i].drop (j + 1) ++ 0xff :: fed (parts.drop (i + 1))) hb
    rw [← fed_around, ← fed_around, ← hpart, ← hparts] at hedit
    rw [foldl_fnvPart, foldl_fnvPart, List.set_eq_take_append_cons_drop, if_pos hi,
      List.set_eq_take_append_cons_drop, if_pos hj]
    exact hedit
  exact ⟨hhash, fun h => hhash (hex16_injective h), length_hex16 _⟩

/-- The last letter of a manifest is another one. -/
theorem fingerprint_set_ne_manifest :
    fingerprint [[0x61, 0x63], [65]] ≠ fingerprint [[0x61, 0x62], [65]] :=
  (@fingerprint_set_ne [[0x61, 0x62], [65]] 0 1 (by decide) (by decide) 0x63 (by decide)).2.1

end Devcroft.Provider
