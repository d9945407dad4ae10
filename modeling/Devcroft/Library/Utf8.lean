import Devcroft.Library.Text

/-!
# Text and its UTF-8 bytes

Conversions between strings and byte lists, with the one property of the
encoding that line-oriented protocols depend on: the newline byte occurs in
an encoding only where the text has a newline.
-/

namespace Utf8

/-- The byte of `'\n'`. -/
def newline : UInt8 := 10

/-- `str::as_bytes`. -/
def encode (s : String) : List UInt8 := s.toByteArray.data.toList

/-- `String::from_utf8`: `none` when the bytes are not valid UTF-8. -/
def decode (bytes : List UInt8) : Option String := String.fromUTF8? ⟨bytes.toArray⟩

/-- A character of which some bytes have been read: its bits so far, how many bytes are to come, and
the range of the next one. -/
structure Pending where
  bits : ℕ
  missing : ℕ
  lower : UInt8
  upper : UInt8
  deriving DecidableEq

/-- Read the first byte of a character. -/
def lead (b : UInt8) : List Char × Option Pending :=
  if b < 0x80 then ([Char.ofNat b.toNat], none)
  else if 0xC2 ≤ b ∧ b ≤ 0xDF then ([], some ⟨b.toNat - 0xC0, 1, 0x80, 0xBF⟩)
  else if 0xE0 ≤ b ∧ b ≤ 0xEF then
    ([], some ⟨b.toNat - 0xE0, 2, if b = 0xE0 then 0xA0 else 0x80, if b = 0xED then 0x9F else 0xBF⟩)
  else if 0xF0 ≤ b ∧ b ≤ 0xF4 then
    ([], some ⟨b.toNat - 0xF0, 3, if b = 0xF0 then 0x90 else 0x80, if b = 0xF4 then 0x8F else 0xBF⟩)
  else (['\uFFFD'], none)

/-- Decode what follows, where a character may have been begun: the longest part of a character that
its next byte breaks off is replaced as one. -/
def decodeFrom : Option Pending → List UInt8 → List Char
  | none, [] => []
  | some _, [] => ['\uFFFD']
  | none, b :: rest => (lead b).1 ++ decodeFrom (lead b).2 rest
  | some p, b :: rest =>
    if p.lower ≤ b ∧ b ≤ p.upper then
      let bits := p.bits * 64 + (b.toNat - 0x80)
      if p.missing = 1 then Char.ofNat bits :: decodeFrom none rest
      else decodeFrom (some ⟨bits, p.missing - 1, 0x80, 0xBF⟩) rest
    else '\uFFFD' :: (lead b).1 ++ decodeFrom (lead b).2 rest

/-- `String::from_utf8_lossy`: what is not valid UTF-8 is replaced. -/
def decodeLossy (bytes : List UInt8) : String := String.ofList (decodeFrom none bytes)

/-- Decoding an encoding gives the text back. -/
@[simp] theorem decode_encode (s : String) : decode (encode s) = some s := by
  simp [decode, encode, String.fromUTF8?, String.fromUTF8, s.isValidUTF8]

/-- The first byte of a character of two, three and four bytes. -/
theorem lead_two : ∀ k < 32, 2 ≤ k →
    lead (UInt8.ofNat (k + 0xC0)) = ([], some ⟨k, 1, 0x80, 0xBF⟩) := by decide

theorem lead_three : ∀ k < 16, lead (UInt8.ofNat (k + 0xE0)) =
    ([], some ⟨k, 2, if k = 0 then 0xA0 else 0x80, if k = 13 then 0x9F else 0xBF⟩) := by decide

theorem lead_four : ∀ k < 5, lead (UInt8.ofNat (k + 0xF0)) =
    ([], some ⟨k, 3, if k = 0 then 0x90 else 0x80, if k = 4 then 0x8F else 0xBF⟩) := by decide

/-- Another byte of a character. -/
theorem decodeFrom_next {bits missing k : ℕ} {lower upper : UInt8} (hlower : lower.toNat ≤ k + 0x80)
    (hupper : k + 0x80 ≤ upper.toNat) (rest : List UInt8) :
    decodeFrom (some ⟨bits, missing, lower, upper⟩) (UInt8.ofNat (k + 0x80) :: rest) =
      if missing = 1 then Char.ofNat (bits * 64 + k) :: decodeFrom none rest
      else decodeFrom (some ⟨bits * 64 + k, missing - 1, 0x80, 0xBF⟩) rest := by
  have hlt : upper.toNat < 256 := upper.toNat_lt
  have hbyte : (UInt8.ofNat (k + 0x80)).toNat = k + 0x80 := by
    rw [UInt8.toNat_ofNat']
    omega
  have hrange : lower ≤ UInt8.ofNat (k + 0x80) ∧ UInt8.ofNat (k + 0x80) ≤ upper := by
    rw [UInt8.le_iff_toNat_le, UInt8.le_iff_toNat_le, hbyte]
    exact ⟨hlower, hupper⟩
  have hbits : k + 0x80 - 0x80 = k := by omega
  rw [decodeFrom, if_pos hrange, hbyte, hbits]

/-- Another byte after the second one. -/
theorem decodeFrom_mod (bits missing v : ℕ) (rest : List UInt8) :
    decodeFrom (some ⟨bits, missing, 0x80, 0xBF⟩) (UInt8.ofNat (v % 64 + 0x80) :: rest) =
      if missing = 1 then Char.ofNat (bits * 64 + v % 64) :: decodeFrom none rest
      else decodeFrom (some ⟨bits * 64 + v % 64, missing - 1, 0x80, 0xBF⟩) rest := by
  apply decodeFrom_next
  · exact Nat.le_add_left _ _
  · have hlt : v % 64 < 64 := Nat.mod_lt _ (by decide)
    change v % 64 + 0x80 ≤ 191
    omega

/-- The bytes of a character are decoded as the character. -/
theorem decodeFrom_utf8EncodeChar (c : Char) (rest : List UInt8) :
    decodeFrom none (String.utf8EncodeChar c ++ rest) = c :: decodeFrom none rest := by
  have hvalid : c.val.toNat < 0xD800 ∨ 0xDFFF < c.val.toNat ∧ c.val.toNat < 0x110000 := c.valid
  have hchar : Char.ofNat c.val.toNat = c := Char.ofNat_toNat c
  unfold String.utf8EncodeChar
  generalize c.val.toNat = v at hvalid hchar ⊢
  simp only
  by_cases hone : v ≤ 0x7f
  · have hbyte : (UInt8.ofNat v).toNat = v := by
      rw [UInt8.toNat_ofNat']
      omega
    have hlead : lead (UInt8.ofNat v) = ([c], none) := by
      have hlt : UInt8.ofNat v < 0x80 := by
        rw [UInt8.lt_iff_toNat_lt, hbyte]
        exact Nat.lt_succ_of_le hone
      rw [lead, if_pos hlt, hbyte, hchar]
    rw [if_pos hone, List.singleton_append, decodeFrom, hlead]
    rfl
  rw [if_neg hone]
  by_cases htwo : v ≤ 0x7ff
  · have hbits : v / 64 % 32 * 64 + v % 64 = v := by omega
    rw [if_pos htwo, List.cons_append, decodeFrom, lead_two _ (by omega) (by omega),
      List.nil_append,
      List.singleton_append, decodeFrom_mod, if_pos rfl, hbits, hchar]
  rw [if_neg htwo]
  by_cases hthree : v ≤ 0xffff
  · have hbits : (v / 4096 % 16 * 64 + v / 64 % 64) * 64 + v % 64 = v := by omega
    have hlower : (if v / 4096 % 16 = 0 then 0xA0 else 0x80 : UInt8).toNat ≤
        v / 64 % 64 + 0x80 := by
      split
      · simp
        omega
      · simp
    have hupper : v / 64 % 64 + 0x80 ≤
        (if v / 4096 % 16 = 13 then 0x9F else 0xBF : UInt8).toNat := by
      split <;> simp <;> omega
    rw [if_pos hthree, List.cons_append, decodeFrom, lead_three _ (by omega), List.nil_append,
      List.cons_append, decodeFrom_next hlower hupper, if_neg (by decide), List.singleton_append,
      decodeFrom_mod, if_pos rfl, hbits, hchar]
  · have hbits : ((v / 262144 % 8 * 64 + v / 4096 % 64) * 64 + v / 64 % 64) * 64 + v % 64 = v := by
      omega
    have hlower : (if v / 262144 % 8 = 0 then 0x90 else 0x80 : UInt8).toNat ≤
        v / 4096 % 64 + 0x80 := by
      split
      · simp
        omega
      · simp
    have hupper : v / 4096 % 64 + 0x80 ≤
        (if v / 262144 % 8 = 4 then 0x8F else 0xBF : UInt8).toNat := by
      split <;> simp <;> omega
    rw [if_neg hthree, List.cons_append, decodeFrom, lead_four _ (by omega), List.nil_append,
      List.cons_append, decodeFrom_next hlower hupper, if_neg (by decide), List.cons_append,
      decodeFrom_mod, if_neg (by decide), List.singleton_append,
      decodeFrom_mod, if_pos rfl, hbits, hchar]

theorem encode_eq_flatMap (s : String) : encode s = s.toList.flatMap String.utf8EncodeChar := by
  rw [encode, ← String.utf8Encode_toList]
  simp [List.utf8Encode]

/-- Nothing of a text is replaced. -/
theorem decodeLossy_encode (s : String) : decodeLossy (encode s) = s := by
  have hchars : ∀ chars : List Char,
      decodeFrom none (chars.flatMap String.utf8EncodeChar) = chars := by
    intro chars
    induction chars with
    | nil => rfl
    | cons c chars ih => rw [List.flatMap_cons, decodeFrom_utf8EncodeChar, ih]
  rw [decodeLossy, encode_eq_flatMap, hchars, String.ofList_toList]

/-- A decoded text encodes to the bytes it was read from. -/
theorem encode_of_decode {bytes : List UInt8} {s : String} (h : decode bytes = some s) :
    encode s = bytes := by
  unfold decode String.fromUTF8? at h
  split at h
  · obtain rfl := Option.some.inj h
    simp [encode, String.fromUTF8]
  · cases h

/-- Different texts have different bytes. -/
theorem encode_injective {a b : String} (h : encode a = encode b) : a = b := by
  have := congrArg decode h
  simpa using this

/-- The bytes of a concatenation are the concatenation of the bytes. -/
@[simp] theorem encode_append (a b : String) : encode (a ++ b) = encode a ++ encode b := by
  simp [encode]

/-- The bytes of texts that are joined are their bytes one after the other. -/
theorem encode_join (texts : List String) : encode (String.join texts) = texts.flatMap encode := by
  induction texts with
  | nil => rfl
  | cons s texts ih => rw [String.join_cons, encode_append, ih, List.flatMap_cons]

/-- Only the empty text has no bytes. -/
theorem encode_eq_nil_iff {s : String} : encode s = [] ↔ s = "" := by
  constructor
  · intro h
    have := decode_encode s
    rw [h] at this
    exact (Option.some.inj this).symm
  · rintro rfl
    rfl

/-- The bytes of texts. -/
theorem isSome_decode_iff {bytes : List UInt8} :
    (decode bytes).isSome = true ↔ ∃ s, encode s = bytes := by
  constructor
  · intro h
    obtain ⟨s, hs⟩ := Option.isSome_iff_exists.mp h
    exact ⟨s, encode_of_decode hs⟩
  · rintro ⟨s, rfl⟩
    rw [decode_encode]
    rfl

theorem encode_length (s : String) : (encode s).length = s.utf8ByteSize := by
  simp [encode]

/-- A text that begins with the bytes of another one begins with it. -/
theorem exists_append_of_encode {s t : String} {y : List UInt8} (h : encode s = encode t ++ y) :
    ∃ after, s = t ++ after ∧ encode after = y := by
  have hbytes : s.toByteArray = t.toByteArray ++ ⟨y.toArray⟩ := by
    apply ByteArray.ext
    apply Array.ext'
    simpa [encode] using h
  have hvalid : t.rawEndPos.IsValid s := by
    rw [String.Pos.Raw.isValid_iff_isValidUTF8_extract_zero]
    constructor
    · rw [String.Pos.Raw.le_iff]
      have hlength := congrArg List.length h
      simp only [encode_length, List.length_append] at hlength
      change t.utf8ByteSize ≤ s.utf8ByteSize
      omega
    · rw [hbytes, ByteArray.extract_append_eq_left (by simp)]
      exact t.isValidUTF8
  obtain ⟨before, after, rfl, hpos⟩ := String.Pos.Raw.isValid_iff_exists_append.mp hvalid
  rw [encode_append] at h
  have hlength : (encode before).length = (encode t).length := by
    rw [encode_length, encode_length]
    exact (congrArg String.Pos.Raw.byteIdx hpos).symm
  obtain ⟨ht, hy⟩ := List.append_inj h hlength
  exact ⟨after, by rw [encode_injective ht], hy⟩

theorem getElem?_encode {s : String} {p : String.Pos.Raw} (h : p < s.rawEndPos) :
    (encode s)[p.byteIdx]? = some (s.getUTF8Byte p h) := by
  have hlt : p.byteIdx < (encode s).length := by
    rw [encode_length]
    exact String.Pos.Raw.lt_iff.mp h
  rw [List.getElem?_eq_getElem hlt]
  rfl

/-- A text that has the bytes of another one among its own has that text there. -/
theorem exists_of_encode {s t : String} {x y : List UInt8} (ht : t ≠ "")
    (h : encode s = x ++ (encode t ++ y)) :
    ∃ before after, s = before ++ (t ++ after) ∧ encode before = x ∧ encode after = y := by
  have hbegins : 0 < t.rawEndPos := by
    rw [String.Pos.Raw.lt_iff]
    have hlength := List.length_pos_iff.mpr fun hnil => ht (encode_eq_nil_iff.mp hnil)
    rw [encode_length] at hlength
    exact hlength
  have hwithin : (⟨x.length⟩ : String.Pos.Raw) < s.rawEndPos := by
    have hpositive : 0 < t.utf8ByteSize := hbegins
    have hlength := congrArg List.length h
    simp only [List.length_append, encode_length] at hlength
    change x.length < s.utf8ByteSize
    omega
  -- The first byte of a text is never one within a character.
  have hbyte : s.getUTF8Byte ⟨x.length⟩ hwithin = t.getUTF8Byte 0 hbegins := by
    have hs := getElem?_encode hwithin
    have hfirst := getElem?_encode hbegins
    rw [h, List.getElem?_append_right (le_refl x.length), Nat.sub_self,
      List.getElem?_append_left (by rw [encode_length]; exact hbegins)] at hs
    exact Option.some.inj (hs.symm.trans hfirst)
  have hvalid : String.Pos.Raw.IsValid s ⟨x.length⟩ := by
    rw [String.Pos.Raw.isValid_iff_isUTF8FirstByte]
    refine Or.inr ⟨hwithin, ?_⟩
    rw [hbyte]
    exact String.isUTF8FirstByte_getUTF8Byte_zero
  obtain ⟨before, rest, rfl, hpos⟩ := String.Pos.Raw.isValid_iff_exists_append.mp hvalid
  rw [encode_append] at h
  have hlength : (encode before).length = x.length := by
    rw [encode_length]
    exact (congrArg String.Pos.Raw.byteIdx hpos).symm
  obtain ⟨hx, hrest⟩ := List.append_inj h hlength
  obtain ⟨after, rfl, hafter⟩ := exists_append_of_encode hrest
  exact ⟨before, after, rfl, hx, hafter⟩

/-- Only the byte of a newline is one: all bytes of longer characters have their highest bit set. -/
theorem newline_mem_utf8EncodeChar {c : Char} (h : newline ∈ String.utf8EncodeChar c) :
    c = '\n' := by
  have hchar : Char.ofNat c.val.toNat = c := Char.ofNat_toNat c
  have hbyte : ∀ {k}, newline = UInt8.ofNat k → k % 256 = 10 := fun hk =>
    (UInt8.toNat_ofNat' ▸ congrArg UInt8.toNat hk).symm
  unfold String.utf8EncodeChar at h
  generalize c.val.toNat = v at hchar h
  simp only at h
  split_ifs at h with hone htwo hthree
  · have hv := hbyte (List.mem_singleton.mp h)
    rw [← hchar, show v = 10 by omega]
  all_goals
    exfalso
    simp only [List.mem_cons, List.not_mem_nil, or_false] at h
  · have := h.imp hbyte hbyte
    omega
  · have := h.imp hbyte (Or.imp hbyte hbyte)
    omega
  · have := h.imp hbyte (Or.imp hbyte (Or.imp hbyte hbyte))
    omega

/-- A newline among the bytes of a text is one of the text. -/
theorem newline_mem_encode_iff {s : String} : newline ∈ encode s ↔ '\n' ∈ s.toList := by
  rw [encode_eq_flatMap, List.mem_flatMap]
  constructor
  · rintro ⟨c, hc, hmem⟩
    exact newline_mem_utf8EncodeChar hmem ▸ hc
  · intro h
    exact ⟨'\n', h, by decide⟩

/-- A newline anywhere but at the end of a text shows as a newline byte before the last byte. -/
theorem newline_mem_dropLast_encode {a b : String} (hb : b ≠ "") :
    newline ∈ (encode (a ++ "\n" ++ b)).dropLast := by
  have hne : encode b ≠ [] := fun h => hb (encode_eq_nil_iff.mp h)
  have hnl : encode "\n" = [newline] := by decide
  rw [encode_append, encode_append, hnl, List.dropLast_append_of_ne_nil hne]
  simp

/-- A text whose bytes have no newline before the last one has its only newline at the end. -/
theorem eq_end_of_newline_mem {s : String} (h : newline ∉ (encode s).dropLast)
    {before after : List Char} (hs : s.toList = before ++ '\n' :: after) : after = [] := by
  by_contra hne
  have hb : String.ofList after ≠ "" := by
    intro he
    exact hne (by simpa using congrArg String.toList he)
  have hsplit : s = String.ofList before ++ "\n" ++ String.ofList after := by
    apply Text.ext
    simp [hs]
  rw [hsplit] at h
  exact h (newline_mem_dropLast_encode hb)

/-- A text of one-byte characters has as many bytes as characters. -/
theorem encode_length_of_ascii {s : String} (h : ∀ c ∈ s.toList, c.utf8Size = 1) :
    (encode s).length = s.toList.length := by
  rw [encode_eq_flatMap]
  generalize s.toList = chars at h
  induction chars with
  | nil => rfl
  | cons c chars ih =>
    obtain ⟨hc, hchars⟩ := List.forall_mem_cons.mp h
    rw [List.flatMap_cons, List.length_append, String.length_utf8EncodeChar, hc, ih hchars,
      List.length_cons, Nat.add_comm]

/-- And is cut at its bytes as at its characters. -/
theorem take_encode_of_ascii {s : String} (h : ∀ c ∈ s.toList, c.utf8Size = 1) (n : ℕ) :
    (encode s).take n = encode (String.ofList (s.toList.take n)) := by
  have hsplit : s = String.ofList (s.toList.take n) ++ String.ofList (s.toList.drop n) := by
    apply Text.ext
    simp
  have htake : ∀ c ∈ (String.ofList (s.toList.take n)).toList, c.utf8Size = 1 := by
    intro c hc
    rw [String.toList_ofList] at hc
    exact h c (List.take_subset _ _ hc)
  have hlength := encode_length_of_ascii htake
  rw [String.toList_ofList, List.length_take] at hlength
  have hencode := congrArg encode hsplit
  rw [encode_append] at hencode
  by_cases hn : n ≤ s.toList.length
  · rw [hencode, List.take_left']
    omega
  · rw [List.take_of_length_le (by omega : s.toList.length ≤ n), String.ofList_toList,
      List.take_of_length_le]
    rw [encode_length_of_ascii h]
    omega

end Utf8
