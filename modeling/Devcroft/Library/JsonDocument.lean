import Mathlib.Data.List.Nodup
import Devcroft.Library.Hex
import Devcroft.Library.Json
import Devcroft.Library.JsonText

/-!
# Writing and reading JSON documents

Values as text, with a line for each entry of an array and each member of an object, and a
reader of JSON texts. A text that is written reads as the value it was written from,
provided that the value names no key of an object twice and has no number but integers.

How a float is written and read is left open.
-/

namespace Json

/-- `Map::insert`: an entry of the same key is replaced, another one goes before the first entry
that `before` puts it before, or to the end. A map in the order of its keys takes the order of
strings for `before`, one in the order of insertion nothing. -/
def insertEntry (before : String → String → Bool) (key : String) (v : Value) :
    List (String × Value) → List (String × Value)
  | [] => [(key, v)]
  | entry :: rest =>
    if entry.1 = key then (key, v) :: rest
    else if before key entry.1 then (key, v) :: entry :: rest
    else entry :: insertEntry before key v rest

/-- The map that insertions in turn make. -/
def ofInserts (before : String → String → Bool) (inserts : List (String × Value)) :
    List (String × Value) :=
  inserts.foldl (fun map entry => insertEntry before entry.1 entry.2 map) []

/-- What is written for a character of a string. -/
def escape (c : Char) : List Char :=
  if c = '"' ∨ c = '\\' then ['\\', c]
  else if c = '\x08' then ['\\', 'b']
  else if c = '\x0c' then ['\\', 'f']
  else if c = '\n' then ['\\', 'n']
  else if c = '\r' then ['\\', 'r']
  else if c = '\t' then ['\\', 't']
  else if c.toNat < 0x20 then '\\' :: 'u' :: Hex.pad 4 c.toNat
  else [c]

/-- A string between quotes. -/
def quote (s : String) : List Char := '"' :: (s.toList.flatMap escape ++ ['"'])

/-- A number. -/
def Number.text (float : UInt64 → List Char) : Number → List Char
  | .posInt n => Nat.toDigits 10 n.toNat
  | .negInt n => '-' :: Nat.toDigits 10 n.toInt.natAbs
  | .float bits => float bits

/-- The beginning of a line. -/
def newline (indent : ℕ) : List Char := '\n' :: List.replicate (2 * indent) ' '

section Pretty

variable (float : UInt64 → List Char)

mutual

/-- `to_string_pretty`, at a depth of indentation. -/
def pretty (indent : ℕ) : Value → List Char
  | .null => "null".toList
  | .bool b => if b then "true".toList else "false".toList
  | .number n => n.text float
  | .string s => quote s
  | .array [] => ['[', ']']
  | .array (v :: vs) => '[' :: (prettyItems (indent + 1) (v :: vs) ++ (newline indent ++ [']']))
  | .object [] => ['\x7b', '\x7d']
  | .object (entry :: entries) =>
    '\x7b' :: (prettyMembers (indent + 1) (entry :: entries) ++ (newline indent ++ ['\x7d']))

/-- The entries of an array. -/
def prettyItems (indent : ℕ) : List Value → List Char
  | [] => []
  | v :: vs =>
    newline indent ++ (pretty indent v ++ if vs.isEmpty then [] else ',' :: prettyItems indent vs)

/-- The members of an object. -/
def prettyMembers (indent : ℕ) : List (String × Value) → List Char
  | [] => []
  | (key, v) :: entries =>
    newline indent ++ (quote key ++ (':' :: ' ' :: (pretty indent v ++
      if entries.isEmpty then [] else ',' :: prettyMembers indent entries)))

end

end Pretty

/-- A text without the white space that it begins with. -/
def skip (text : List Char) : List Char := text.dropWhile isSpace

/-- A natural number in decimal digits, without zeros in front. -/
def readNat (digits : List Char) : Option ℕ :=
  if Nat.toDigits 10 (Nat.ofDigitChars 10 digits 0) = digits then
    some (Nat.ofDigitChars 10 digits 0)
  else none

/-- An integer that one of the types holds. -/
def readInteger : List Char → Option Number
  | '-' :: digits => (readNat digits).bind fun n =>
    if 0 < n ∧ n ≤ 2 ^ 63 then some (.negInt (Int64.ofInt (-n))) else none
  | digits => (readNat digits).bind fun n =>
    if n < 2 ^ 64 then some (.posInt (UInt64.ofNat n)) else none

/-- The number of four hexadecimal digits. -/
def readUnit (text : List Char) : Option (ℕ × List Char) :=
  if (text.take 4).length = 4 ∧ (text.take 4).all isHexDigit then
    some (Hex.value (text.take 4), text.drop 4)
  else none

/-- The character of a number after `\u`, or of a pair of such numbers. -/
def readUnicode (text : List Char) : Option (Char × List Char) :=
  (readUnit text).bind fun (n, rest) =>
    if n < 0xD800 ∨ 0xE000 ≤ n then some (Char.ofNat n, rest)
    else if n < 0xDC00 then
      match rest with
      | '\\' :: 'u' :: rest => (readUnit rest).bind fun (m, rest) =>
        if 0xDC00 ≤ m ∧ m < 0xE000 then
          some (Char.ofNat (0x10000 + (n - 0xD800) * 0x400 + (m - 0xDC00)), rest)
        else none
      | _ => none
    else none

/-- What stands after a backslash. -/
def readEscape : List Char → Option (Char × List Char)
  | [] => none
  | c :: rest =>
    if c = 'u' then readUnicode rest
    else if c = '"' ∨ c = '\\' ∨ c = '/' then some (c, rest)
    else if c = 'b' then some ('\x08', rest)
    else if c = 'f' then some ('\x0c', rest)
    else if c = 'n' then some ('\n', rest)
    else if c = 'r' then some ('\r', rest)
    else if c = 't' then some ('\t', rest)
    else none

/-- The characters of a string, up to its closing quote. -/
def readChars : ℕ → List Char → Option (List Char × List Char)
  | 0, _ => none
  | _ + 1, [] => none
  | n + 1, c :: rest =>
    if c = '"' then some ([], rest)
    else if c = '\\' then
      (readEscape rest).bind fun (c, rest) =>
        (readChars n rest).map fun (cs, rest) => (c :: cs, rest)
    else if c.toNat < 0x20 then none
    else (readChars n rest).map fun (cs, rest) => (c :: cs, rest)

/-- A character of a literal or a number. -/
def isPlain (c : Char) : Bool := c.isAlphanum || c = '+' || c = '-' || c = '.'

section Read

variable (readFloat : List Char → Option UInt64)

/-- A literal or a number. -/
def readScalar (text : List Char) : Option (Value × List Char) :=
  let token := text.takeWhile isPlain
  let rest := text.dropWhile isPlain
  if token = "null".toList then some (.null, rest)
  else if token = "true".toList then some (.bool true, rest)
  else if token = "false".toList then some (.bool false, rest)
  else ((readInteger token).or ((readFloat token).map Number.float)).map fun n =>
    (.number n, rest)

mutual

/-- A value and what follows it. -/
def readValue : ℕ → List Char → Option (Value × List Char)
  | 0, _ => none
  | n + 1, text =>
    match skip text with
    | [] => none
    | c :: rest =>
      if c = '"' then
        (readChars n rest).map fun (cs, rest) => (.string (String.ofList cs), rest)
      else if c = '[' then
        if (skip rest).head? = some ']' then some (.array [], (skip rest).tail)
        else (readItems n rest).map fun (vs, rest) => (.array vs, rest)
      else if c = '\x7b' then
        if (skip rest).head? = some '\x7d' then some (.object [], (skip rest).tail)
        else (readMembers n rest).bind fun (entries, rest) =>
          if (entries.map Prod.fst).Nodup then some (.object entries, rest) else none
      else readScalar readFloat (c :: rest)

/-- The entries of an array, up to its closing bracket. -/
def readItems : ℕ → List Char → Option (List Value × List Char)
  | 0, _ => none
  | n + 1, text =>
    (readValue n text).bind fun (v, rest) =>
      match skip rest with
      | [] => none
      | c :: rest =>
        if c = ',' then (readItems n rest).map fun (vs, rest) => (v :: vs, rest)
        else if c = ']' then some ([v], rest)
        else none

/-- The members of an object, up to its closing brace. -/
def readMembers : ℕ → List Char → Option (List (String × Value) × List Char)
  | 0, _ => none
  | n + 1, text =>
    match skip text with
    | [] => none
    | q :: rest =>
      if q = '"' then
        (readChars n rest).bind fun (key, rest) =>
          match skip rest with
          | [] => none
          | colon :: rest =>
            if colon = ':' then
              (readValue n rest).bind fun (v, rest) =>
                match skip rest with
                | [] => none
                | c :: rest =>
                  if c = ',' then
                    (readMembers n rest).map fun (entries, rest) =>
                      ((String.ofList key, v) :: entries, rest)
                  else if c = '\x7d' then some ([(String.ofList key, v)], rest)
                  else none
            else none
      else none

end

/-- The value of a JSON text. -/
def read (text : List Char) : Option Value :=
  match readValue readFloat (text.length + 1) text with
  | some (v, rest) => if skip rest = [] then some v else none
  | none => none

end Read

/-- Inserting a key that a map does not have adds one entry. -/
theorem insertEntry_perm {before : String → String → Bool} {key : String} {v : Value}
    {map : List (String × Value)} (h : key ∉ map.map Prod.fst) :
    (insertEntry before key v map).Perm ((key, v) :: map) := by
  induction map with
  | nil => exact .refl _
  | cons entry rest ih =>
    rw [List.map_cons, List.mem_cons, not_or] at h
    rw [insertEntry, if_neg (Ne.symm h.1)]
    split
    · exact .refl _
    · exact ((ih h.2).cons entry).trans (.swap _ _ _)

/-- Insertions of different keys make a map of just these entries. -/
theorem ofInserts_perm {before : String → String → Bool} {inserts : List (String × Value)}
    (h : (inserts.map Prod.fst).Nodup) : (ofInserts before inserts).Perm inserts := by
  suffices hfold : ∀ map : List (String × Value), ((map ++ inserts).map Prod.fst).Nodup →
      (inserts.foldl (fun map entry => insertEntry before entry.1 entry.2 map) map).Perm
        (map ++ inserts) from hfold [] h
  clear h
  induction inserts with
  | nil => exact fun map _ => by simp
  | cons entry rest ih =>
    intro map hmap
    have hmiddle : (map ++ entry :: rest).Perm (entry :: (map ++ rest)) := List.perm_middle
    have hkeys : entry.1 ∉ map.map Prod.fst := by
      have hnodup := (hmiddle.map Prod.fst).nodup_iff.mp hmap
      rw [List.map_cons, List.nodup_cons, List.map_append, List.mem_append, not_or] at hnodup
      exact hnodup.1.1
    have hinsert : (insertEntry before entry.1 entry.2 map ++ rest).Perm (map ++ entry :: rest) :=
      ((insertEntry_perm hkeys).append_right rest).trans hmiddle.symm
    rw [List.foldl_cons]
    exact (ih _ ((hinsert.map Prod.fst).nodup_iff.mpr hmap)).trans hinsert

/-- What stands under a key of an object that names no key twice. -/
theorem get_eq_some_iff {entries : List (String × Value)} (h : (entries.map Prod.fst).Nodup)
    {key : String} {v : Value} :
    (Value.object entries).get key = some v ↔ (key, v) ∈ entries := by
  unfold Value.get
  rw [Option.map_eq_some_iff]
  constructor
  · rintro ⟨entry, hfind, rfl⟩
    have hkey : entry.1 = key := by simpa using List.find?_some hfind
    rw [← hkey]
    exact List.mem_of_find?_eq_some hfind
  · intro hmem
    cases hfind : entries.find? fun entry => entry.1 == key with
    | none => exact absurd hmem fun hmem => by simpa using List.find?_eq_none.mp hfind _ hmem
    | some entry =>
      have hkey : entry.1 = key := by simpa using List.find?_some hfind
      have heq := List.inj_on_of_nodup_map h (List.mem_of_find?_eq_some hfind) hmem hkey
      exact ⟨entry, rfl, congrArg Prod.snd heq⟩

/-- A map has under a key what was inserted under it. -/
theorem get_ofInserts {before : String → String → Bool} {inserts : List (String × Value)}
    (h : (inserts.map Prod.fst).Nodup) (key : String) :
    (Value.object (ofInserts before inserts)).get key = (Value.object inserts).get key := by
  have hperm : (ofInserts before inserts).Perm inserts := ofInserts_perm h
  have hnodup := (hperm.map Prod.fst).nodup_iff.mpr h
  ext v
  rw [get_eq_some_iff hnodup, get_eq_some_iff h, hperm.mem_iff]

/-- White space in front is skipped. -/
theorem skip_space {text : List Char} (h : ∀ c ∈ text, isSpace c = true) (rest : List Char) :
    skip (text ++ rest) = skip rest := List.dropWhile_append_of_pos h

/-- Nothing is skipped in front of anything else. -/
theorem skip_cons {c : Char} (h : isSpace c = false) (rest : List Char) :
    skip (c :: rest) = c :: rest := List.dropWhile_cons_of_neg (by simp [h])

/-- A new line is white space. -/
theorem isSpace_newline {indent : ℕ} {c : Char} (h : c ∈ newline indent) : isSpace c = true := by
  rcases List.mem_cons.mp h with rfl | h
  · decide
  · rw [List.eq_of_mem_replicate h]
    decide

/-- What is written for a character is read as this character. -/
theorem readChars_escape (n : ℕ) (c : Char) (rest : List Char) :
    readChars (n + 1) (escape c ++ rest) =
      (readChars n rest).map fun (cs, rest) => (c :: cs, rest) := by
  have hshort : ∀ d, readEscape (d :: rest) = some (c, rest) →
      readChars (n + 1) ('\\' :: d :: rest) =
        (readChars n rest).map fun (cs, rest) => (c :: cs, rest) := by
    intro d hd
    rw [readChars, if_neg (by decide), if_pos rfl, hd]
    rfl
  unfold escape
  split
  · next h =>
    apply hshort
    rcases h with rfl | rfl <;> rfl
  · next hplain =>
    rw [not_or] at hplain
    split
    · next h => exact hshort 'b' (by rw [h]; rfl)
    split
    · next h => exact hshort 'f' (by rw [h]; rfl)
    split
    · next h => exact hshort 'n' (by rw [h]; rfl)
    split
    · next h => exact hshort 'r' (by rw [h]; rfl)
    split
    · next h => exact hshort 't' (by rw [h]; rfl)
    split
    · next hcontrol =>
      have hlength : (Hex.pad 4 c.toNat).length = 4 := Hex.length_pad (by decide) (by omega)
      have hdigits : (Hex.pad 4 c.toNat).all isHexDigit = true := by
        rw [List.all_eq_true]
        intro d hd
        exact Text.forall_mem (p := fun d => isHexDigit d = true) (by decide) d (Hex.mem_pad hd)
      have hunit : readUnit (Hex.pad 4 c.toNat ++ rest) = some (c.toNat, rest) := by
        rw [readUnit, List.take_left' hlength, List.drop_left' hlength, if_pos ⟨hlength, hdigits⟩,
          Hex.value_pad]
      have hescape : readEscape ('u' :: (Hex.pad 4 c.toNat ++ rest)) = some (c, rest) := by
        rw [readEscape, if_pos rfl, readUnicode, hunit]
        simp only [Option.bind_some]
        rw [if_pos (Or.inl (by omega)), Char.ofNat_toNat]
      rw [List.cons_append, List.cons_append, readChars, if_neg (by decide), if_pos rfl, hescape]
      rfl
    · next hcontrol =>
      rw [List.singleton_append, readChars, if_neg hplain.1, if_neg hplain.2, if_neg hcontrol]

/-- A character takes at least one. -/
theorem length_escape_pos (c : Char) : 0 < (escape c).length := by
  unfold escape
  split_ifs <;> simp

/-- What is written for characters is read as these characters. -/
theorem readChars_flatMap {n : ℕ} {cs : List Char} (h : cs.length < n) (rest : List Char) :
    readChars n (cs.flatMap escape ++ '"' :: rest) = some (cs, rest) := by
  induction cs generalizing n with
  | nil =>
    obtain ⟨n, rfl⟩ := Nat.exists_eq_add_of_lt h
    simp [readChars]
  | cons c cs ih =>
    obtain ⟨n, rfl⟩ : ∃ m, n = m + 1 := ⟨n - 1, by omega⟩
    rw [List.flatMap_cons, List.append_assoc, readChars_escape, ih (by simpa using h)]
    rfl

/-- A string is no longer than it is written. -/
theorem length_le_flatMap (cs : List Char) : cs.length ≤ (cs.flatMap escape).length := by
  induction cs with
  | nil => exact le_refl 0
  | cons c cs ih =>
    have hpos := length_escape_pos c
    rw [List.flatMap_cons, List.length_append, List.length_cons]
    omega

/-- A string with the rest of the text behind its first quote. -/
theorem readChars_quote {n : ℕ} {s : String} (h : (quote s).length ≤ n + 1) (rest : List Char) :
    ∃ text, quote s ++ rest = '"' :: text ∧ readChars n text = some (s.toList, rest) := by
  have hle := length_le_flatMap s.toList
  have hlength : (quote s).length = (s.toList.flatMap escape).length + 2 := by simp [quote]
  refine ⟨s.toList.flatMap escape ++ '"' :: rest, by simp [quote], ?_⟩
  exact readChars_flatMap (by omega) rest

/-- The digits of a number read as this number. -/
theorem readNat_toDigits (n : ℕ) : readNat (Nat.toDigits 10 n) = some n := by
  rw [readNat, Nat.ofDigitChars_ten_toDigits, if_pos rfl]

/-- An integer: one that is below zero if its constructor says so. -/
inductive Number.Integer : Number → Prop
  | posInt (n : UInt64) : Integer (.posInt n)
  | negInt {n : Int64} (h : n.toInt < 0) : Integer (.negInt n)

/-- Integers are read as they were written. -/
theorem Number.Integer.read {n : Number} (h : n.Integer) (float : UInt64 → List Char) :
    readInteger (n.text float) = some n := by
  cases h with
  | posInt n =>
    have hne : ∀ digits, Nat.toDigits 10 n.toNat ≠ '-' :: digits := by
      intro digits heq
      have hmem : '-' ∈ Nat.toDigits 10 n.toNat := heq ▸ List.mem_cons_self
      exact absurd (Nat.isDigit_of_mem_toDigits (by decide) (by decide) hmem) (by decide)
    rw [text, readInteger]
    · rw [readNat_toDigits, Option.bind_some, if_pos (UInt64.toNat_lt n), UInt64.ofNat_toNat]
    · exact hne
  | @negInt n h =>
    have hle := n.le_toInt
    have habs : -((n.toInt.natAbs : ℕ) : ℤ) = n.toInt := by omega
    rw [text, readInteger, readNat_toDigits, Option.bind_some, if_pos (by omega), habs,
      Int64.ofInt_toInt]

/-- An integer is written with digits and a sign. -/
theorem Number.Integer.text_plain {n : Number} (h : n.Integer) (float : UInt64 → List Char) :
    n.text float ≠ [] ∧ ∀ c ∈ n.text float, c.isDigit = true ∨ c = '-' := by
  have hdigits : ∀ k, ∀ c ∈ Nat.toDigits 10 k, c.isDigit = true :=
    fun k c hc => Nat.isDigit_of_mem_toDigits (by decide) (by decide) hc
  cases h with
  | posInt n => exact ⟨Nat.toDigits_ne_nil, fun c hc => Or.inl (hdigits _ c hc)⟩
  | negInt h =>
    refine ⟨List.cons_ne_nil _ _, fun c hc => ?_⟩
    rcases List.mem_cons.mp hc with rfl | hc
    · exact Or.inr rfl
    · exact Or.inl (hdigits _ c hc)

/-- A text that does not go on with what belongs to a literal or a number. -/
def Stops (rest : List Char) : Prop := ∀ c ∈ rest.head?, isPlain c = false

theorem Stops.cons {c : Char} (h : isPlain c = false) (rest : List Char) : Stops (c :: rest) := by
  intro d hd
  rw [← Option.some.inj hd]
  exact h

/-- The token and the rest are told apart. -/
theorem span_plain {token rest : List Char}
    (h : ∀ c ∈ token, isPlain c = true) (hrest : Stops rest) :
    (token ++ rest).takeWhile isPlain = token ∧ (token ++ rest).dropWhile isPlain = rest := by
  have hhead : rest.takeWhile isPlain = [] ∧ rest.dropWhile isPlain = rest := by
    cases rest with
    | nil => exact ⟨rfl, rfl⟩
    | cons c rest =>
      have hc := hrest c rfl
      exact ⟨List.takeWhile_cons_of_neg (by simp [hc]), List.dropWhile_cons_of_neg (by simp [hc])⟩
  rw [List.takeWhile_append_of_pos h, List.dropWhile_append_of_pos h, hhead.1, hhead.2]
  exact ⟨List.append_nil token, rfl⟩

/-- A value that is read as it was written: it names no key of an object twice, and its numbers are
integers. -/
inductive Proper : Value → Prop
  | null : Proper .null
  | bool (b : Bool) : Proper (.bool b)
  | number {n : Number} (h : n.Integer) : Proper (.number n)
  | string (s : String) : Proper (.string s)
  | array {items : List Value} (h : ∀ v ∈ items, Proper v) : Proper (.array items)
  | object {entries : List (String × Value)} (hkeys : (entries.map Prod.fst).Nodup)
      (h : ∀ entry ∈ entries, Proper entry.2) : Proper (.object entries)

/-- A map of proper values is proper. -/
theorem Proper.ofInserts {before : String → String → Bool} {inserts : List (String × Value)}
    (hkeys : (inserts.map Prod.fst).Nodup) (h : ∀ entry ∈ inserts, Proper entry.2) :
    Proper (.object (ofInserts before inserts)) := by
  have hperm : (Json.ofInserts before inserts).Perm inserts := ofInserts_perm hkeys
  exact .object ((hperm.map Prod.fst).nodup_iff.mpr hkeys) fun entry hentry =>
    h entry (hperm.mem_iff.mp hentry)

section RoundTrip

variable {float : UInt64 → List Char} {readFloat : List Char → Option UInt64}

/-- Reading this value back, in front of anything. -/
def Reads (float : UInt64 → List Char) (readFloat : List Char → Option UInt64) (v : Value) : Prop :=
  ∀ (n indent : ℕ) (rest : List Char), Stops rest → (pretty float indent v).length < n →
    readValue readFloat n (pretty float indent v ++ rest) = some (v, rest)

/-- White space in front of a value is skipped. -/
theorem readValue_space {text : List Char} (h : ∀ c ∈ text, isSpace c = true) (n : ℕ)
    (rest : List Char) : readValue readFloat n (text ++ rest) = readValue readFloat n rest := by
  cases n with
  | zero => simp [readValue]
  | succ n => rw [readValue, readValue, skip_space h]

/-- A literal or a number. -/
theorem readValue_scalar {n : ℕ} {token rest : List Char} {v : Value}
    (h : ∀ c ∈ token, isPlain c = true) (hne : token ≠ [])
    (hread : readScalar readFloat (token ++ rest) = some (v, rest)) :
    readValue readFloat (n + 1) (token ++ rest) = some (v, rest) := by
  obtain ⟨c, token, rfl⟩ := List.exists_cons_of_ne_nil hne
  have hc := h c List.mem_cons_self
  have hother : ∀ d, isPlain d = false → c ≠ d := by
    rintro d hd rfl
    rw [hc] at hd
    cases hd
  have hspace : isSpace c = false := by
    rw [← Bool.not_eq_true]
    intro hs
    simp only [isSpace, Bool.or_eq_true, decide_eq_true_eq] at hs
    rcases hs with ((rfl | rfl) | rfl) | rfl <;> exact absurd hc (by decide)
  rw [List.cons_append] at hread ⊢
  rw [readValue, skip_cons hspace]
  simp only [if_neg (hother '"' (by decide)), if_neg (hother '[' (by decide)),
    if_neg (hother '\x7b' (by decide))]
  exact hread

/-- The three literals. -/
theorem reads_literal {v : Value} {name : String}
    (hpretty : ∀ indent, pretty float indent v = name.toList)
    (h : name = "null" ∧ v = .null ∨ name = "true" ∧ v = .bool true ∨
      name = "false" ∧ v = .bool false) : Reads float readFloat v := by
  intro n indent rest hrest hn
  obtain ⟨n, rfl⟩ : ∃ m, n = m + 1 := ⟨n - 1, by omega⟩
  have hplain : ∀ c ∈ name.toList, isPlain c = true := by
    rcases h with ⟨rfl, -⟩ | ⟨rfl, -⟩ | ⟨rfl, -⟩ <;>
      exact Text.forall_mem (p := fun c => isPlain c = true) (by decide)
  have hne : name.toList ≠ [] := by
    rcases h with ⟨rfl, -⟩ | ⟨rfl, -⟩ | ⟨rfl, -⟩ <;> decide
  rw [hpretty]
  apply readValue_scalar hplain hne
  obtain ⟨htoken, hdrop⟩ := span_plain hplain hrest
  simp only [readScalar, htoken, hdrop]
  rcases h with ⟨rfl, rfl⟩ | ⟨rfl, rfl⟩ | ⟨rfl, rfl⟩
  · rw [if_pos rfl]
  · rw [if_neg (by decide), if_pos rfl]
  · rw [if_neg (by decide), if_neg (by decide), if_pos rfl]

/-- Integers. -/
theorem reads_number {n : Number} (h : n.Integer) : Reads float readFloat (.number n) := by
  intro fuel indent rest hrest hfuel
  obtain ⟨fuel, rfl⟩ : ∃ m, fuel = m + 1 := ⟨fuel - 1, by omega⟩
  obtain ⟨hne, hchars⟩ := h.text_plain float
  have hplain : ∀ c ∈ n.text float, isPlain c = true := by
    intro c hc
    rcases hchars c hc with hdigit | rfl
    · simp [isPlain, Char.isAlphanum, hdigit]
    · decide
  have hliteral : ∀ {name : String}, 'l' ∈ name.toList ∨ 'r' ∈ name.toList →
      n.text float ≠ name.toList := by
    rintro name hmem heq
    rw [← heq] at hmem
    rcases hmem with hmem | hmem <;> rcases hchars _ hmem with hc | hc <;>
      exact absurd hc (by decide)
  rw [pretty]
  apply readValue_scalar hplain hne
  obtain ⟨htoken, hdrop⟩ := span_plain hplain hrest
  simp only [readScalar, htoken, hdrop]
  rw [if_neg (hliteral (Or.inl (by decide))), if_neg (hliteral (Or.inr (by decide))),
    if_neg (hliteral (Or.inl (by decide))), h.read]
  rfl

/-- Strings. -/
theorem reads_string (s : String) : Reads float readFloat (.string s) := by
  intro n indent rest hrest hn
  obtain ⟨n, rfl⟩ : ∃ m, n = m + 1 := ⟨n - 1, by omega⟩
  rw [pretty] at hn ⊢
  obtain ⟨text, htext, hread⟩ := readChars_quote (n := n) (s := s) (by omega) rest
  rw [htext, readValue, skip_cons (by decide)]
  simp only [if_pos, hread, Option.map_some, String.ofList_toList]

/-- A value on a line of its own. -/
theorem Reads.line {v : Value} (h : Reads float readFloat v) {n indent : ℕ} {rest : List Char}
    (hrest : Stops rest) (hn : (pretty float indent v).length < n) :
    readValue readFloat n (newline indent ++ (pretty float indent v ++ rest)) = some (v, rest) := by
  rw [readValue_space fun c hc => isSpace_newline hc]
  exact h n indent rest hrest hn

/-- A new line ends what stands before it. -/
theorem stops_newline (indent : ℕ) (rest : List Char) : Stops (newline indent ++ rest) :=
  Stops.cons (by decide) _

/-- Entries of an array, up to its closing bracket. -/
theorem readItems_pretty {items : List Value} (h : ∀ v ∈ items, Reads float readFloat v)
    (hne : items ≠ []) {n indent : ℕ} (outer : ℕ) (rest : List Char)
    (hn : (prettyItems float indent items).length < n) :
    readItems readFloat n (prettyItems float indent items ++ (newline outer ++ ']' :: rest)) =
      some (items, rest) := by
  induction items generalizing n with
  | nil => exact absurd rfl hne
  | cons v vs ih =>
    obtain ⟨n, rfl⟩ : ∃ m, n = m + 1 := ⟨n - 1, by omega⟩
    have hv : Reads float readFloat v := h v List.mem_cons_self
    rw [prettyItems, List.length_append, List.length_append] at hn
    have hline : (newline indent).length = 2 * indent + 1 := by simp [newline]
    rw [readItems, prettyItems, List.append_assoc, List.append_assoc]
    cases vs with
    | nil =>
      rw [List.isEmpty_nil, if_pos rfl, List.nil_append, hv.line (stops_newline _ _) (by omega)]
      simp only [Option.bind_some]
      rw [skip_space (fun c hc => isSpace_newline hc), skip_cons (by decide)]
      simp only [if_neg (show ']' ≠ ',' by decide), if_pos]
    | cons w ws =>
      rw [List.isEmpty_cons, if_neg (by decide)] at hn ⊢
      rw [List.length_cons] at hn
      have hrest := ih (fun u hu => h u (List.mem_cons_of_mem v hu)) (List.cons_ne_nil w ws)
        (n := n) (by omega)
      rw [List.cons_append, hv.line (Stops.cons (by decide) _) (by omega)]
      simp only [Option.bind_some]
      rw [skip_cons (by decide)]
      simp only [if_pos, hrest, Option.map_some]

/-- Members of an object, up to its closing brace. -/
theorem readMembers_pretty {entries : List (String × Value)}
    (h : ∀ entry ∈ entries, Reads float readFloat entry.2) (hne : entries ≠ []) {n indent : ℕ}
    (outer : ℕ) (rest : List Char) (hn : (prettyMembers float indent entries).length < n) :
    readMembers readFloat n
        (prettyMembers float indent entries ++ (newline outer ++ '\x7d' :: rest)) =
      some (entries, rest) := by
  induction entries generalizing n with
  | nil => exact absurd rfl hne
  | cons entry entries ih =>
    obtain ⟨key, v⟩ := entry
    obtain ⟨n, rfl⟩ : ∃ m, n = m + 1 := ⟨n - 1, by omega⟩
    have hv : Reads float readFloat v := h (key, v) List.mem_cons_self
    rw [prettyMembers] at hn ⊢
    simp only [List.length_append, List.length_cons] at hn
    simp only [List.append_assoc, List.cons_append]
    obtain ⟨text, htext, hkey⟩ := readChars_quote (n := n) (s := key) (by omega)
      (':' :: ' ' :: (pretty float indent v ++ ((if entries.isEmpty then [] else
        ',' :: prettyMembers float indent entries) ++ (newline outer ++ '\x7d' :: rest))))
    rw [htext, readMembers, skip_space (fun c hc => isSpace_newline hc), skip_cons (by decide)]
    simp only [if_pos, hkey, Option.bind_some]
    rw [skip_cons (by decide)]
    simp only [if_pos]
    have hblank : ∀ c ∈ [' '], isSpace c = true := by simp [isSpace]
    have hspace : ∀ tail, readValue readFloat n (' ' :: tail) = readValue readFloat n tail :=
      fun tail => readValue_space hblank n tail
    rw [hspace]
    cases entries with
    | nil =>
      rw [List.isEmpty_nil, if_pos rfl, List.nil_append,
        hv n indent _ (stops_newline _ _) (by omega)]
      simp only [Option.bind_some]
      rw [skip_space (fun c hc => isSpace_newline hc), skip_cons (by decide)]
      simp only [if_neg (show '\x7d' ≠ ',' by decide), if_pos, String.ofList_toList]
    | cons next entries =>
      rw [List.isEmpty_cons, if_neg (by decide)] at hn ⊢
      rw [List.length_cons] at hn
      have hrest := ih (fun e he => h e (List.mem_cons_of_mem _ he)) (List.cons_ne_nil next entries)
        (n := n) (by omega)
      rw [List.cons_append, hv n indent _ (Stops.cons (by decide) _) (by omega)]
      simp only [Option.bind_some]
      rw [skip_cons (by decide)]
      simp only [if_pos, hrest, Option.map_some, String.ofList_toList]

/-- What is written for a value begins neither with white space nor with a bracket that closes. -/
theorem Proper.pretty_eq {v : Value} (h : Proper v) (indent : ℕ) :
    ∃ c text, pretty float indent v = c :: text ∧ isSpace c = false ∧ c ≠ ']' := by
  cases h with
  | null => exact ⟨'n', _, by rw [pretty]; rfl, by decide, by decide⟩
  | bool b =>
    cases b with
    | true => exact ⟨'t', _, by rw [pretty]; rfl, by decide, by decide⟩
    | false => exact ⟨'f', _, by rw [pretty]; rfl, by decide, by decide⟩
  | @number n h =>
    obtain ⟨hne, hchars⟩ := h.text_plain float
    obtain ⟨c, text, htext⟩ := List.exists_cons_of_ne_nil hne
    refine ⟨c, text, by rw [pretty, htext], ?_⟩
    rcases hchars c (htext ▸ List.mem_cons_self) with hc | rfl
    · constructor
      · rw [← Bool.not_eq_true]
        intro hs
        simp only [isSpace, Bool.or_eq_true, decide_eq_true_eq] at hs
        rcases hs with ((rfl | rfl) | rfl) | rfl <;> exact absurd hc (by decide)
      · rintro rfl
        exact absurd hc (by decide)
    · exact ⟨by decide, by decide⟩
  | string s => exact ⟨'"', _, by rw [pretty]; rfl, by decide, by decide⟩
  | @array items h =>
    cases items with
    | nil => exact ⟨'[', _, by rw [pretty], by decide, by decide⟩
    | cons v vs => exact ⟨'[', _, by rw [pretty], by decide, by decide⟩
  | @object entries hkeys h =>
    cases entries with
    | nil => exact ⟨'\x7b', _, by rw [pretty], by decide, by decide⟩
    | cons entry entries => exact ⟨'\x7b', _, by rw [pretty], by decide, by decide⟩

/-- An array is read as it was written, if each of its items is. -/
theorem reads_array {items : List Value} (hproper : ∀ v ∈ items, Proper v)
    (hreads : ∀ v ∈ items, Reads float readFloat v) : Reads float readFloat (.array items) := by
  intro n indent rest hrest hn
  obtain ⟨n, rfl⟩ : ∃ m, n = m + 1 := ⟨n - 1, by omega⟩
  cases items with
  | nil =>
    rw [pretty, List.cons_append, List.singleton_append, readValue, skip_cons (by decide)]
    simp only [if_neg (show '[' ≠ '"' by decide), if_pos]
    rw [skip_cons (by decide), List.head?_cons, if_pos rfl, List.tail_cons]
  | cons v vs =>
    rw [pretty] at hn ⊢
    simp only [List.length_cons, List.length_append] at hn
    have hitems : readItems readFloat n (prettyItems float (indent + 1) (v :: vs) ++
        (newline indent ++ ']' :: rest)) = some (v :: vs, rest) :=
      readItems_pretty hreads (List.cons_ne_nil v vs) indent rest (by omega)
    have hhead : ∀ tail, (skip (prettyItems float (indent + 1) (v :: vs) ++ tail)).head? ≠
        some ']' := by
      intro tail
      obtain ⟨c, text, htext, hspace, hc⟩ :=
        (hproper v List.mem_cons_self).pretty_eq (indent + 1)
      rw [prettyItems, List.append_assoc, skip_space (fun c hc => isSpace_newline hc), htext]
      simp only [List.cons_append]
      rw [skip_cons hspace]
      exact fun heq => hc (Option.some.inj heq)
    rw [List.cons_append, List.append_assoc, List.append_assoc, List.singleton_append, readValue,
      skip_cons (by decide)]
    simp only [if_neg (show '[' ≠ '"' by decide), if_pos]
    rw [if_neg (hhead _), hitems]
    rfl

/-- An object is read as it was written, if no key is in it twice and the value of each is read as
it was written. -/
theorem reads_object {entries : List (String × Value)} (hkeys : (entries.map Prod.fst).Nodup)
    (hreads : ∀ entry ∈ entries, Reads float readFloat entry.2) :
    Reads float readFloat (.object entries) := by
  intro n indent rest hrest hn
  obtain ⟨n, rfl⟩ : ∃ m, n = m + 1 := ⟨n - 1, by omega⟩
  cases entries with
  | nil =>
    rw [pretty, List.cons_append, List.singleton_append, readValue, skip_cons (by decide)]
    simp only [if_neg (show '\x7b' ≠ '"' by decide), if_neg (show '\x7b' ≠ '[' by decide), if_pos]
    rw [skip_cons (by decide), List.head?_cons, if_pos rfl, List.tail_cons]
  | cons entry entries =>
    rw [pretty] at hn ⊢
    simp only [List.length_cons, List.length_append] at hn
    have hmembers : readMembers readFloat n
        (prettyMembers float (indent + 1) (entry :: entries) ++
          (newline indent ++ '\x7d' :: rest)) = some (entry :: entries, rest) :=
      readMembers_pretty hreads (List.cons_ne_nil entry entries) indent rest (by omega)
    have hhead : ∀ tail, (skip (prettyMembers float (indent + 1) (entry :: entries) ++
        tail)).head? ≠ some '\x7d' := by
      intro tail
      rw [prettyMembers, List.append_assoc, skip_space (fun c hc => isSpace_newline hc), quote]
      simp only [List.cons_append]
      rw [skip_cons (by decide)]
      exact fun heq => absurd (Option.some.inj heq) (by decide)
    rw [List.cons_append, List.append_assoc, List.append_assoc, List.singleton_append, readValue,
      skip_cons (by decide)]
    simp only [if_neg (show '\x7b' ≠ '"' by decide), if_neg (show '\x7b' ≠ '[' by decide), if_pos]
    rw [if_neg (hhead _), hmembers, Option.bind_some, if_pos hkeys]

/-- Every proper value is read as it was written. -/
theorem Proper.reads {v : Value} (h : Proper v) : Reads float readFloat v := by
  induction h with
  | null => exact reads_literal (fun indent => by rw [pretty]) (Or.inl ⟨rfl, rfl⟩)
  | bool b =>
    cases b with
    | true => exact reads_literal (fun indent => by rw [pretty, if_pos rfl]) (by simp)
    | false => exact reads_literal (fun indent => by rw [pretty, if_neg (by decide)]) (by simp)
  | number h => exact reads_number h
  | string s => exact reads_string s
  | array h ih => exact reads_array h ih
  | object hkeys h ih => exact reads_object hkeys ih

/-- A document is read as the value it was written from. -/
theorem Proper.read_pretty {v : Value} (h : Proper v) :
    read readFloat (pretty float 0 v) = some v := by
  have hread : readValue readFloat ((pretty float 0 v).length + 1) (pretty float 0 v ++ []) =
      some (v, []) := by
    apply h.reads _ 0 []
    · intro c hc
      cases hc
    · exact Nat.lt_succ_self _
  rw [List.append_nil] at hread
  rw [Json.read, hread]
  rfl

end RoundTrip

end Json
