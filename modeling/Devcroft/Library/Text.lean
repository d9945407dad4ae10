import Mathlib.Data.List.TakeWhile
import Mathlib.Data.List.Infix

/-!
# String operations of the Rust standard library

The `str` methods the program is written with, as functions on `String` that
read the character list. Each comes with the identity that its callers use, so
that proofs about callers never look inside.
-/

namespace Text

/-- `char::is_whitespace`: the Unicode `White_Space` property. -/
def isWhitespace (c : Char) : Bool :=
  (9 ≤ c.toNat && c.toNat ≤ 13) || c.toNat == 32 || c.toNat == 0x85 || c.toNat == 0xA0 ||
    c.toNat == 0x1680 || (0x2000 ≤ c.toNat && c.toNat ≤ 0x200A) || c.toNat == 0x2028 ||
    c.toNat == 0x2029 || c.toNat == 0x202F || c.toNat == 0x205F || c.toNat == 0x3000

/-- `str::trim_start`. -/
def trimStart (s : String) : String := String.ofList (s.toList.dropWhile isWhitespace)

/-- `str::trim_end`. -/
def trimEnd (s : String) : String :=
  String.ofList (s.toList.reverse.dropWhile isWhitespace).reverse

/-- `str::trim`. -/
def trim (s : String) : String := trimEnd (trimStart s)

/-- `str::split` at one character, keeping empty pieces. -/
def split (sep : Char) (s : String) : List String := (s.toList.splitOn sep).map String.ofList

/-- `str::strip_prefix`. -/
def stripPrefix (pre s : String) : Option String :=
  if pre.toList.isPrefixOf s.toList then some (String.ofList (s.toList.drop pre.toList.length))
  else none

/-- `str::starts_with`. -/
def startsWith (pre s : String) : Bool := pre.toList.isPrefixOf s.toList

/-- `str::split_once` at one character: the text before and after its first occurrence. -/
def splitOnce (sep : Char) (s : String) : Option (String × String) :=
  match s.toList.dropWhile (· ≠ sep) with
  | [] => none
  | _ :: rest => some (String.ofList (s.toList.takeWhile (· ≠ sep)), String.ofList rest)

/-- `str::rsplit_once` at one character: the text before and after its last occurrence. -/
def rsplitOnce (sep : Char) (s : String) : Option (String × String) :=
  match s.toList.reverse.dropWhile (· ≠ sep) with
  | [] => none
  | _ :: before => some (String.ofList before.reverse,
      String.ofList (s.toList.reverse.takeWhile (· ≠ sep)).reverse)

/-- `str::splitn` at one character: at most `n` pieces, the last one unsplit. -/
def splitn (sep : Char) : ℕ → String → List String
  | 0, _ => []
  | 1, s => [s]
  | n + 2, s =>
    match splitOnce sep s with
    | none => [s]
    | some (before, rest) => before :: splitn sep (n + 1) rest

/-- The first piece of `str::split` at the characters that satisfy `p`. -/
def splitFirst (p : Char → Bool) (s : String) : String :=
  String.ofList (s.toList.takeWhile fun c => !p c)

/-- `str::parse::<u16>`: decimal digits with an optional plus sign, without overflow. -/
def parseU16 (s : String) : Option UInt16 :=
  let digits := if s.toList.head? = some '+' then s.toList.tail else s.toList
  if digits = [] then none
  else
    (digits.foldlM (fun (n : ℕ) c =>
      if c.isDigit ∧ n * 10 + (c.toNat - '0'.toNat) < 65536 then
        some (n * 10 + (c.toNat - '0'.toNat))
      else none) 0).map UInt16.ofNat

/-- Decimal digits as a number below a bound. -/
def parseDigits (bound : ℕ) (digits : List Char) : Option ℕ :=
  if digits = [] then none
  else
    digits.foldlM (fun n c =>
      if c.isDigit ∧ n * 10 + (c.toNat - '0'.toNat) < bound then
        some (n * 10 + (c.toNat - '0'.toNat))
      else none) 0

/-- `str::parse::<u64>`. -/
def parseU64 (s : String) : Option ℕ :=
  parseDigits UInt64.size (if s.toList.head? = some '+' then s.toList.tail else s.toList)

/-- `str::parse::<i32>`: from -2147483648 to 2147483647. -/
def parseI32 (s : String) : Option ℤ :=
  if s.toList.head? = some '-' then
    (parseDigits 2147483649 s.toList.tail).map fun n => -n
  else
    (parseDigits 2147483648 (if s.toList.head? = some '+' then s.toList.tail else s.toList)).map
      Int.ofNat

/-- `str::split_whitespace`. -/
def splitWhitespace (s : String) : List String :=
  ((s.toList.splitOnP isWhitespace).filter (· ≠ [])).map String.ofList

/-- `char::to_ascii_lowercase`, character by character. -/
def toAsciiLowercase (s : String) : String :=
  String.ofList (s.toList.map fun c => if 'A' ≤ c ∧ c ≤ 'Z' then Char.ofNat (c.toNat + 32) else c)

/-- `str::ends_with`. -/
def endsWith (suffix s : String) : Bool := suffix.toList.isSuffixOf s.toList

/-- `str::eq_ignore_ascii_case`. -/
def eqIgnoreAsciiCase (a b : String) : Bool := toAsciiLowercase a == toAsciiLowercase b

/-- `str::find` of a text: how many characters stand before its first occurrence. -/
def find (pat s : String) : Option ℕ := s.toList.tails.findIdx? pat.toList.isPrefixOf

/-- `str::rfind` of a character: how many characters stand before its last occurrence. -/
def rfind (c : Char) (s : String) : Option ℕ :=
  (s.toList.reverse.findIdx? (· = c)).map fun i => s.toList.length - 1 - i

/-- A line without the carriage return that its newline follows. -/
def stripCarriageReturn (line : String) : String :=
  if line.toList.getLast? = some '\r' then String.ofList line.toList.dropLast else line

/-- `str::lines`: the lines without their ends, the last one only when it has characters. -/
def lines (s : String) : List String :=
  (split '\n' s).dropLast.map stripCarriageReturn ++ (split '\n' s).getLast?.toList.filter (· ≠ "")

/-- `&s[..i]`. -/
def sliceTo (i : ℕ) (s : String) : String := String.ofList (s.toList.take i)

/-- `&s[i..]`. -/
def sliceFrom (i : ℕ) (s : String) : String := String.ofList (s.toList.drop i)

/-- Two strings with the same characters are equal. -/
theorem ext {a b : String} (h : a.toList = b.toList) : a = b := String.toList_injective h

/-- Lowering a text twice is lowering it once. -/
theorem toAsciiLowercase_idem (s : String) :
    toAsciiLowercase (toAsciiLowercase s) = toAsciiLowercase s := by
  have hcodes : ∀ n < 91, 65 ≤ n → ¬Char.ofNat (n + 32) ≤ 'Z' := by decide
  have hlowered : ∀ c : Char, 'A' ≤ c ∧ c ≤ 'Z' → ¬Char.ofNat (c.toNat + 32) ≤ 'Z' := by
    intro c h
    have hlow : 65 ≤ c.toNat := UInt32.le_iff_toNat_le.mp h.1
    have hhigh : c.toNat ≤ 90 := UInt32.le_iff_toNat_le.mp h.2
    exact hcodes c.toNat (by omega) hlow
  apply ext
  simp only [toAsciiLowercase, String.toList_ofList, List.map_map]
  refine List.map_congr_left fun c _ => ?_
  rw [Function.comp_apply]
  by_cases h : 'A' ≤ c ∧ c ≤ 'Z'
  · rw [if_pos h, if_neg fun hboth => hlowered c h hboth.2]
  · rw [if_neg h, if_neg h]

/-- Splitting a text that has the separator in it splits the two sides. -/
theorem split_append_sep (sep : Char) (a b : String) :
    split sep (a ++ String.ofList [sep] ++ b) = split sep a ++ split sep b := by
  simp only [split, String.toList_append, String.toList_ofList, List.append_assoc,
    List.singleton_append, List.splitOn_append_cons_self, List.map_append]

/-- A text without the separator is one piece. -/
theorem split_eq_singleton {sep : Char} {s : String} (h : sep ∉ s.toList) : split sep s = [s] := by
  rw [split, List.splitOn_eq_singleton h, List.map_singleton, String.ofList_toList]

/-- Pieces that each end in the separator are split into these, and what follows the last one. -/
theorem split_join {sep : Char} {pieces : List String} (h : ∀ piece ∈ pieces, sep ∉ piece.toList) :
    split sep (String.join (pieces.map (· ++ String.ofList [sep]))) = pieces ++ [""] := by
  induction pieces with
  | nil => rfl
  | cons piece pieces ih =>
    obtain ⟨hpiece, hpieces⟩ := List.forall_mem_cons.mp h
    rw [List.map_cons, String.join_cons, split_append_sep, split_eq_singleton hpiece, ih hpieces]
    rfl

/-- A piece between two separators, or between one and an end of the text. -/
theorem exists_of_mem_splitOn {α : Type} [DecidableEq α] {sep : α} {l piece : List α}
    (h : piece ∈ l.splitOn sep) :
    ∃ before after, l = before ++ (piece ++ after) ∧ sep ∉ piece ∧
      (∀ x ∈ before.getLast?, x = sep) ∧ ∀ x ∈ after.head?, x = sep := by
  induction hlength : l.length using Nat.strongRecOn generalizing l with
  | ind n ih =>
    by_cases hsep : sep ∈ l
    · obtain ⟨first, rest, rfl, hfirst⟩ := List.eq_append_cons_of_mem hsep
      rw [List.splitOn_append_cons_self_of_not_mem hfirst] at h
      rcases List.mem_cons.mp h with rfl | h
      · exact ⟨[], sep :: rest, rfl, hfirst, by simp, by simp⟩
      · obtain ⟨before, after, rfl, hpiece, hbefore, hafter⟩ := ih rest.length (by
          simp only [List.length_append, List.length_cons] at hlength
          omega) h rfl
        refine ⟨first ++ sep :: before, after, by simp, hpiece, ?_, hafter⟩
        cases before with
        | nil => simp
        | cons x before => simpa using hbefore
    · rw [List.splitOn_eq_singleton hsep] at h
      obtain rfl := List.mem_singleton.mp h
      exact ⟨[], [], by simp, hsep, by simp, by simp⟩

/-- Trimming takes a carriage return at the end with it. -/
theorem trim_stripCarriageReturn (line : String) : trim (stripCarriageReturn line) = trim line := by
  unfold stripCarriageReturn
  split
  · next hlast =>
    obtain ⟨init, hinit⟩ := List.getLast?_eq_some_iff.mp hlast
    have hspace : isWhitespace '\r' = true := by decide
    apply ext
    simp only [trim, trimEnd, trimStart, String.toList_ofList, hinit, List.dropLast_concat,
      List.dropWhile_append]
    by_cases hblank : (init.dropWhile isWhitespace).isEmpty = true
    · rw [if_pos hblank, List.isEmpty_iff.mp hblank]
      simp [hspace]
    · rw [if_neg hblank]
      simp [hspace]
  · rfl

/-- A line of a text is a piece between newlines, with the carriage return it may have. -/
theorem exists_of_mem_lines {s line : String} (h : line ∈ lines s) :
    ∃ piece ∈ split '\n' s, trim piece = trim line := by
  rcases List.mem_append.mp h with h | h
  · obtain ⟨piece, hpiece, rfl⟩ := List.mem_map.mp h
    exact ⟨piece, List.dropLast_subset _ hpiece, (trim_stripCarriageReturn piece).symm⟩
  · have hlast := (List.mem_filter.mp h).1
    exact ⟨line, List.mem_of_getLast? (Option.mem_toList.mp hlast), rfl⟩

/-- A line that ends in a newline is one of the lines. -/
theorem mem_lines_of_newline {before line after : String} (hline : '\n' ∉ line.toList) :
    stripCarriageReturn line ∈ lines (before ++ String.ofList ['\n'] ++
      (line ++ String.ofList ['\n'] ++ after)) := by
  have hsingle : split '\n' line = [line] := split_eq_singleton hline
  have hne : split '\n' after ≠ [] := by simp [split]
  unfold lines
  refine List.mem_append_left _ (List.mem_map_of_mem ?_)
  rw [split_append_sep, split_append_sep, hsingle, ← List.append_assoc,
    List.dropLast_append_of_ne_nil hne]
  simp

/-- A stripped prefix is exactly the text it was stripped from, cut in two. -/
theorem stripPrefix_eq_some_iff {pre s rest : String} :
    stripPrefix pre s = some rest ↔ s = pre ++ rest := by
  unfold stripPrefix
  constructor
  · intro h
    split at h
    · next hpre =>
      obtain ⟨tail, htail⟩ := List.isPrefixOf_iff_prefix.mp hpre
      apply ext
      rw [← Option.some.inj h, String.toList_append, String.toList_ofList, ← htail,
        List.drop_left]
    · cases h
  · rintro rfl
    rw [if_pos (by simp [List.isPrefixOf_iff_prefix])]
    simp

/-- No prefix is stripped exactly when the text does not start with it. -/
theorem stripPrefix_eq_none_iff {pre s : String} :
    stripPrefix pre s = none ↔ startsWith pre s = false := by
  unfold stripPrefix startsWith
  split
  · next hpre => simp [hpre]
  · next hpre => simp [Bool.eq_false_iff.mpr hpre]

/-- What a text starts with is cut off its front. -/
theorem startsWith_iff {pre s : String} :
    startsWith pre s = true ↔ ∃ rest, s = pre ++ rest := by
  rw [← not_iff_not, Bool.not_eq_true, ← stripPrefix_eq_none_iff, Option.eq_none_iff_forall_not_mem]
  simp only [Option.mem_def, stripPrefix_eq_some_iff, not_exists]

/-- Whether a nonempty text starts with a character does not depend on what follows it. -/
theorem startsWith_append {s : String} (h : s ≠ "") (c : Char) (t : String) :
    startsWith (String.ofList [c]) (s ++ t) = startsWith (String.ofList [c]) s := by
  have hne : s.toList ≠ [] := fun he => h (ext (by simpa using he))
  obtain ⟨d, ds, hds⟩ := List.exists_cons_of_ne_nil hne
  simp [startsWith, hds, List.isPrefixOf]

/-- Trimming at the end leaves a prefix. -/
theorem trimEnd_isPrefix (s : String) : (trimEnd s).toList <+: s.toList := by
  have h := List.dropWhile_suffix (l := s.toList.reverse) isWhitespace
  simpa [trimEnd] using List.reverse_prefix.mpr h

/-- Trimming at the start leaves a suffix. -/
theorem trimStart_isSuffix (s : String) : (trimStart s).toList <:+ s.toList := by
  simpa [trimStart] using List.dropWhile_suffix (l := s.toList) isWhitespace

/-- A text trimmed at the end does not end in whitespace. -/
theorem isWhitespace_getLast_trimEnd {s : String} {before : List Char} {c : Char}
    (h : (trimEnd s).toList = before ++ [c]) : isWhitespace c = false := by
  have hrev : s.toList.reverse.dropWhile isWhitespace = c :: before.reverse := by
    have := congrArg List.reverse h
    simpa [trimEnd] using this
  have hhead := List.head?_dropWhile_not isWhitespace s.toList.reverse
  rw [hrev] at hhead
  simpa using hhead

/-- `split_once` cuts a text at its first separator. -/
theorem splitOnce_eq_some {sep : Char} {s before rest : String}
    (h : splitOnce sep s = some (before, rest)) :
    s.toList = before.toList ++ sep :: rest.toList ∧ sep ∉ before.toList := by
  unfold splitOnce at h
  have hcut := List.takeWhile_append_dropWhile (p := fun c => decide (c ≠ sep)) (l := s.toList)
  split at h
  · cases h
  · next c tail hdrop =>
    simp only [Option.some.injEq, Prod.mk.injEq] at h
    obtain ⟨rfl, rfl⟩ := h
    have hhead := List.head?_dropWhile_not (fun c => decide (c ≠ sep)) s.toList
    rw [hdrop] at hhead
    obtain rfl : c = sep := by simpa using hhead
    rw [hdrop] at hcut
    refine ⟨by simpa using hcut.symm, ?_⟩
    rw [String.toList_ofList]
    intro hmem
    simpa using List.mem_takeWhile_imp hmem

/-- `rsplit_once` cuts a text at its last separator. -/
theorem rsplitOnce_eq_some {sep : Char} {s before rest : String}
    (h : rsplitOnce sep s = some (before, rest)) :
    s.toList = before.toList ++ sep :: rest.toList ∧ sep ∉ rest.toList := by
  unfold rsplitOnce at h
  have hcut := List.takeWhile_append_dropWhile (p := fun c => decide (c ≠ sep))
    (l := s.toList.reverse)
  split at h
  · cases h
  · next c tail hdrop =>
    simp only [Option.some.injEq, Prod.mk.injEq] at h
    obtain ⟨rfl, rfl⟩ := h
    have hhead := List.head?_dropWhile_not (fun c => decide (c ≠ sep)) s.toList.reverse
    rw [hdrop] at hhead
    obtain rfl : c = sep := by simpa using hhead
    rw [hdrop] at hcut
    constructor
    · have := congrArg List.reverse hcut
      simpa using this.symm
    · rw [String.toList_ofList, List.mem_reverse]
      intro hmem
      simpa using List.mem_takeWhile_imp hmem

/-- Everything is dropped up to a character that is not there. -/
theorem dropWhile_ne_eq_nil_iff {sep : Char} {l : List Char} :
    l.dropWhile (fun c => decide (c ≠ sep)) = [] ↔ sep ∉ l := by
  rw [List.dropWhile_eq_nil_iff]
  constructor
  · intro h hmem
    simpa using h sep hmem
  · intro h c hc
    have hne : c ≠ sep := by
      rintro rfl
      exact h hc
    simpa using hne

/-- Nothing is cut off exactly when there is no separator. -/
theorem splitOnce_eq_none_iff {sep : Char} {s : String} :
    splitOnce sep s = none ↔ sep ∉ s.toList := by
  rw [← dropWhile_ne_eq_nil_iff, splitOnce]
  split
  · next hdrop => simp only [hdrop]
  · next hdrop => simp only [hdrop, reduceCtorEq]

/-- Nothing is cut off at the end exactly when there is no separator. -/
theorem rsplitOnce_eq_none_iff {sep : Char} {s : String} :
    rsplitOnce sep s = none ↔ sep ∉ s.toList := by
  rw [← List.mem_reverse, ← dropWhile_ne_eq_nil_iff, rsplitOnce]
  split
  · next hdrop => simp only [hdrop]
  · next hdrop => simp only [hdrop, reduceCtorEq]

/-- A condition on all characters of a text, checked one after the other. -/
theorem forall_mem {p : Char → Prop} [DecidablePred p] {text : List Char}
    (h : (text.all fun c => decide (p c)) = true) : ∀ c ∈ text, p c :=
  fun c hc => of_decide_eq_true (List.all_eq_true.mp h c hc)

/-- An element of two lists joined is in the second, or in the first. -/
theorem append_eq_append_cons {α : Type} {a b p rest : List α} {c : α}
    (h : a ++ b = p ++ c :: rest) :
    (∃ m, p = a ++ m ∧ b = m ++ c :: rest) ∨ ∃ y, a = p ++ c :: y := by
  rcases List.append_eq_append_iff.mp h with ⟨m, hp, hb⟩ | ⟨m, ha, hrest⟩
  · exact Or.inl ⟨m, hp, hb⟩
  cases m with
  | nil => exact Or.inl ⟨[], by rw [ha, List.append_nil, List.append_nil], hrest.symm⟩
  | cons d m =>
    obtain ⟨rfl, -⟩ := List.cons.inj hrest
    exact Or.inr ⟨m, ha⟩

/-- There is one way to cut a list at the first occurrence of an element. -/
theorem cut_unique {α : Type} {sep : α} {before before' rest rest' : List α} (h : sep ∉ before)
    (h' : sep ∉ before') (hsame : before ++ sep :: rest = before' ++ sep :: rest') :
    before = before' ∧ rest = rest' := by
  induction before generalizing before' with
  | nil =>
    cases before' with
    | nil => exact ⟨rfl, (List.cons.inj hsame).2⟩
    | cons c cs =>
      obtain ⟨rfl, -⟩ := List.cons.inj hsame
      simp at h'
  | cons c cs ih =>
    cases before' with
    | nil =>
      obtain ⟨rfl, -⟩ := List.cons.inj hsame
      simp at h
    | cons c' cs' =>
      obtain ⟨rfl, hrest⟩ := List.cons.inj hsame
      obtain ⟨rfl, rfl⟩ := ih (fun hm => h (List.mem_cons_of_mem _ hm))
        (fun hm => h' (List.mem_cons_of_mem _ hm)) hrest
      exact ⟨rfl, rfl⟩

/-- Two texts around their first separator are cut there. -/
theorem splitOnce_append {sep : Char} {before rest : String} (h : sep ∉ before.toList) :
    splitOnce sep (before ++ String.ofList [sep] ++ rest) = some (before, rest) := by
  cases hcut : splitOnce sep (before ++ String.ofList [sep] ++ rest) with
  | none =>
    have hnone := splitOnce_eq_none_iff.mp hcut
    simp at hnone
  | some pieces =>
    obtain ⟨before', rest'⟩ := pieces
    obtain ⟨hs, hnotMem⟩ := splitOnce_eq_some hcut
    have hlists : before.toList ++ sep :: rest.toList = before'.toList ++ sep :: rest'.toList := by
      rw [← hs]
      simp
    obtain ⟨hbefore, hrest⟩ := cut_unique h hnotMem hlists
    rw [ext hbefore, ext hrest]

/-- Two texts around their last separator are cut there. -/
theorem rsplitOnce_append {sep : Char} {before rest : String} (h : sep ∉ rest.toList) :
    rsplitOnce sep (before ++ String.ofList [sep] ++ rest) = some (before, rest) := by
  cases hcut : rsplitOnce sep (before ++ String.ofList [sep] ++ rest) with
  | none =>
    have hnone := rsplitOnce_eq_none_iff.mp hcut
    simp at hnone
  | some pieces =>
    obtain ⟨before', rest'⟩ := pieces
    obtain ⟨hs, hnotMem⟩ := rsplitOnce_eq_some hcut
    have hlists : rest.toList.reverse ++ sep :: before.toList.reverse =
        rest'.toList.reverse ++ sep :: before'.toList.reverse := by
      have hreverse := congrArg List.reverse hs
      simpa using hreverse
    obtain ⟨hrest, hbefore⟩ := cut_unique (by simpa using h) (by simpa using hnotMem) hlists
    rw [ext (List.reverse_inj.mp hbefore), ext (List.reverse_inj.mp hrest)]

/-- The number that decimal digits stand for, after digits that stand for `n`. -/
def decimalFrom (n : ℕ) (digits : List Char) : ℕ :=
  digits.foldl (fun n c => n * 10 + (c.toNat - '0'.toNat)) n

/-- A text is a decimal number: digits and nothing else. -/
def IsDecimal (s : String) (n : ℕ) : Prop :=
  s.toList ≠ [] ∧ (∀ c ∈ s.toList, c.isDigit = true) ∧ decimalFrom 0 s.toList = n

/-- More digits do not make a number smaller. -/
theorem le_decimalFrom (n : ℕ) (digits : List Char) : n ≤ decimalFrom n digits := by
  induction digits generalizing n with
  | nil => exact le_refl n
  | cons c rest ih =>
    have hnext := ih (n * 10 + (c.toNat - '0'.toNat))
    rw [decimalFrom, List.foldl_cons, ← decimalFrom]
    omega

/-- The loop of parsing a number below a bound: it fails on anything but a digit, and on an
overflow. -/
theorem foldlM_decimal_iff (bound n m : ℕ) (digits : List Char) :
    digits.foldlM (fun (n : ℕ) c =>
      if c.isDigit ∧ n * 10 + (c.toNat - '0'.toNat) < bound then
        some (n * 10 + (c.toNat - '0'.toNat))
      else none) n = some m ↔
    (∀ c ∈ digits, c.isDigit = true) ∧ decimalFrom n digits = m ∧ (digits = [] ∨ m < bound) := by
  induction digits generalizing n with
  | nil => simp [decimalFrom]
  | cons c rest ih =>
    have hle := le_decimalFrom (n * 10 + (c.toNat - '0'.toNat)) rest
    have hfrom : decimalFrom n (c :: rest) =
        decimalFrom (n * 10 + (c.toNat - '0'.toNat)) rest := rfl
    rw [List.foldlM_cons, hfrom, List.forall_mem_cons]
    by_cases hstep : c.isDigit ∧ n * 10 + (c.toNat - '0'.toNat) < bound
    · rw [if_pos hstep, Option.bind_eq_bind, Option.bind_some, ih]
      constructor
      · rintro ⟨hdigits, hvalue, hbound⟩
        refine ⟨⟨hstep.1, hdigits⟩, hvalue, Or.inr ?_⟩
        rcases hbound with rfl | hbound
        · rw [← hvalue]
          exact hstep.2
        · exact hbound
      · rintro ⟨⟨-, hdigits⟩, hvalue, hbound⟩
        exact ⟨hdigits, hvalue, Or.inr (hbound.resolve_left (by simp))⟩
    · rw [if_neg hstep]
      constructor
      · intro h
        cases h
      · rintro ⟨⟨hdigit, -⟩, hvalue, hbound⟩
        have hsmall := hbound.resolve_left (by simp)
        exact (hstep ⟨hdigit, by omega⟩).elim

/-- A decimal number has digits only. -/
theorem IsDecimal.notMem {s : String} {n : ℕ} (h : IsDecimal s n) {c : Char}
    (hc : c.isDigit = false) : c ∉ s.toList := by
  intro hmem
  rw [h.2.1 c hmem] at hc
  cases hc

/-- A decimal number has no sign. -/
theorem IsDecimal.not_plus {s : String} {n : ℕ} (h : IsDecimal s n) :
    startsWith "+" s = false := by
  by_contra hplus
  rw [Bool.not_eq_false] at hplus
  obtain ⟨rest, hrest⟩ := List.isPrefixOf_iff_prefix.mp hplus
  have hnone := h.notMem (show '+'.isDigit = false by decide)
  rw [← hrest] at hnone
  simp at hnone

/-- Without a sign, parsing accepts exactly the decimal numbers below 2^16. -/
theorem parseU16_eq_some_iff {s : String} (h : startsWith "+" s = false) {n : UInt16} :
    parseU16 s = some n ↔ IsDecimal s n.toNat := by
  have hhead : s.toList.head? ≠ some '+' := by
    intro hhead
    obtain ⟨rest, hrest⟩ := List.head?_eq_some_iff.mp hhead
    simp [startsWith, hrest, List.isPrefixOf] at h
  unfold parseU16 IsDecimal
  rw [if_neg hhead]
  dsimp only
  by_cases hnil : s.toList = []
  · simp [hnil]
  · rw [if_neg hnil, Option.map_eq_some_iff]
    have hlt : n.toNat < 65536 := n.toNat_lt
    constructor
    · rintro ⟨m, hm, rfl⟩
      obtain ⟨hdigits, hvalue, hbound⟩ := (foldlM_decimal_iff 65536 0 m s.toList).mp hm
      have hsmall := hbound.resolve_left hnil
      refine ⟨hnil, hdigits, hvalue.trans ?_⟩
      rw [UInt16.toNat_ofNat', Nat.mod_eq_of_lt hsmall]
    · rintro ⟨-, hdigits, hvalue⟩
      refine ⟨n.toNat, (foldlM_decimal_iff 65536 0 n.toNat s.toList).mpr ?_, UInt16.ofNat_toNat⟩
      exact ⟨hdigits, hvalue, Or.inr hlt⟩

/-- Digits are parsed exactly if they are a decimal number below the bound. -/
theorem parseDigits_eq_some_iff {bound n : ℕ} {digits : List Char} :
    parseDigits bound digits = some n ↔ IsDecimal (String.ofList digits) n ∧ n < bound := by
  rw [parseDigits, IsDecimal, String.toList_ofList]
  by_cases hnil : digits = []
  · simp [hnil]
  · rw [if_neg hnil, foldlM_decimal_iff]
    simp only [hnil, false_or, ne_eq, not_false_eq_true, true_and, and_assoc]

/-- A text that stands for a number of 64 bits: decimal digits that may have a plus sign. -/
def IsU64 (s : String) (n : ℕ) : Prop :=
  n < UInt64.size ∧ (IsDecimal s n ∨ ∃ digits, s = "+" ++ digits ∧ IsDecimal digits n)

/-- Parsing accepts exactly these. -/
theorem parseU64_eq_some_iff {s : String} {n : ℕ} : parseU64 s = some n ↔ IsU64 s n := by
  unfold parseU64 IsU64
  by_cases hplus : s.toList.head? = some '+'
  · obtain ⟨rest, hrest⟩ := List.head?_eq_some_iff.mp hplus
    have hs : s = "+" ++ String.ofList rest := by
      apply ext
      simp [hrest]
    have hnot : ¬IsDecimal s n := fun h => by
      have hnone := h.not_plus
      simp [startsWith, hrest, List.isPrefixOf] at hnone
    rw [if_pos hplus, parseDigits_eq_some_iff, hrest, List.tail_cons, and_comm, or_iff_right hnot]
    constructor
    · rintro ⟨hlt, hdecimal⟩
      exact ⟨hlt, String.ofList rest, hs, hdecimal⟩
    · rintro ⟨hlt, digits, hdigits, hdecimal⟩
      have heq : digits = String.ofList rest := by
        apply ext
        have hlists := congrArg String.toList hdigits
        simpa [hrest] using hlists.symm
      exact ⟨hlt, heq ▸ hdecimal⟩
  · have hnot : ¬∃ digits, s = "+" ++ digits ∧ IsDecimal digits n := by
      rintro ⟨digits, rfl, -⟩
      simp at hplus
    rw [if_neg hplus, parseDigits_eq_some_iff, String.ofList_toList, and_comm, or_iff_left hnot]

/-- A number as it is printed. -/
theorem isDecimal_toString (n : ℕ) : IsDecimal (toString n) n := by
  have hlist : (toString n).toList = Nat.toDigits 10 n := Nat.toList_repr
  unfold IsDecimal
  rw [hlist]
  refine ⟨Nat.toDigits_ne_nil, ?_, ?_⟩
  · intro c hc
    exact Nat.isDigit_of_mem_toDigits (by decide) (by decide) hc
  · have hvalue := Nat.ofDigitChars_ten_toDigits (n := n)
    rw [Nat.ofDigitChars] at hvalue
    simpa [decimalFrom, Nat.mul_comm] using hvalue

/-- Every piece of `splitn` is part of the text. -/
theorem infix_of_mem_splitn {sep : Char} {n : ℕ} {s piece : String} (h : piece ∈ splitn sep n s) :
    piece.toList <:+: s.toList := by
  induction n, s using splitn.induct sep with
  | case1 s => cases h
  | case2 s =>
    obtain rfl := List.mem_singleton.mp h
    exact List.infix_rfl
  | case3 s n hcut =>
    rw [splitn, hcut] at h
    obtain rfl := List.mem_singleton.mp h
    exact List.infix_rfl
  | case4 s n before rest hcut ih =>
    obtain ⟨hs, -⟩ := splitOnce_eq_some hcut
    rw [splitn, hcut, List.mem_cons] at h
    rcases h with rfl | h
    · exact ⟨[], sep :: rest.toList, by simp [hs]⟩
    · exact (ih h).trans ⟨before.toList ++ [sep], [], by simp [hs]⟩

/-- The first piece of a split is a prefix of the text. -/
theorem splitFirst_isPrefix (p : Char → Bool) (s : String) :
    (splitFirst p s).toList <+: s.toList := by
  simpa [splitFirst] using List.takeWhile_prefix (l := s.toList) fun c => !p c

/-- A text is the first piece of the texts that it alone is, or that go on with the separator. -/
theorem splitFirst_eq_iff {sep : Char} {s first : String} (h : sep ∉ first.toList) :
    splitFirst (· = sep) s = first ↔
      s = first ∨ ∃ rest, s = first ++ String.ofList [sep] ++ rest := by
  have hkeep : ∀ c ∈ first.toList, (!decide (c = sep)) = true := by
    intro c hc
    have hne : c ≠ sep := fun he => h (he ▸ hc)
    simpa using hne
  constructor
  · intro hfirst
    have hcut := List.takeWhile_append_dropWhile (p := fun c => !decide (c = sep)) (l := s.toList)
    have hhead := List.head?_dropWhile_not (fun c => !decide (c = sep)) s.toList
    rw [← hfirst]
    cases hdrop : s.toList.dropWhile fun c => !decide (c = sep) with
    | nil =>
      left
      apply ext
      rw [splitFirst, String.toList_ofList]
      rw [hdrop, List.append_nil] at hcut
      exact hcut.symm
    | cons c rest =>
      right
      rw [hdrop] at hcut hhead
      obtain rfl : c = sep := by simpa using hhead
      refine ⟨String.ofList rest, ext ?_⟩
      simpa [splitFirst] using hcut.symm
  · rintro (rfl | ⟨rest, rfl⟩)
    · apply ext
      rw [splitFirst, String.toList_ofList, List.takeWhile_eq_self_iff.mpr hkeep]
    · apply ext
      have hstop : ([sep] ++ rest.toList).takeWhile (fun c => !decide (c = sep)) = [] := by simp
      rw [splitFirst, String.toList_ofList, String.toList_append, String.toList_append,
        String.toList_ofList, List.append_assoc, List.takeWhile_append_of_pos hkeep, hstop,
        List.append_nil]

/-- A text is found where it stands first. -/
theorem find_eq_some_iff {pat s : String} {i : ℕ} :
    find pat s = some i ↔ ∃ before : String, before.toList.length = i ∧
      (before ++ pat).toList <+: s.toList ∧
      ∀ shorter : String, (shorter ++ pat).toList <+: s.toList →
        before.toList.length ≤ shorter.toList.length := by
  have hdrop : ∀ before : String, (before ++ pat).toList <+: s.toList →
      pat.toList <+: s.toList.drop before.toList.length := by
    rintro before ⟨after, hafter⟩
    exact ⟨after, by rw [← hafter, String.toList_append, List.append_assoc, List.drop_left]⟩
  have htake : ∀ i, pat.toList <+: s.toList.drop i →
      (sliceTo i s ++ pat).toList <+: s.toList := by
    rintro i ⟨after, hafter⟩
    refine ⟨after, ?_⟩
    rw [String.toList_append, sliceTo, String.toList_ofList, List.append_assoc, hafter,
      List.take_append_drop]
  rw [find, List.findIdx?_eq_some_iff_getElem]
  simp only [List.getElem_tails, List.length_tails, List.isPrefixOf_iff_prefix]
  constructor
  · rintro ⟨hi, hpat, hfirst⟩
    have hlength : (sliceTo i s).toList.length = i := by
      rw [sliceTo, String.toList_ofList, List.length_take_of_le (by omega)]
    refine ⟨sliceTo i s, hlength, htake i hpat, fun shorter hshorter => ?_⟩
    by_contra hlt
    exact hfirst shorter.toList.length (by omega) (hdrop shorter hshorter)
  · rintro ⟨before, rfl, hpat, hfirst⟩
    have hle := hpat.length_le
    rw [String.toList_append, List.length_append] at hle
    refine ⟨by omega, hdrop before hpat, fun j hj hearlier => ?_⟩
    have hshort := hfirst (sliceTo j s) (htake j hearlier)
    rw [sliceTo, String.toList_ofList, List.length_take_of_le (by omega)] at hshort
    omega

/-- A text is not found where it does not stand. -/
theorem find_eq_none_iff {pat s : String} : find pat s = none ↔ ¬pat.toList <:+: s.toList := by
  rw [find, List.findIdx?_eq_none_iff]
  constructor
  · rintro h ⟨before, after, hs⟩
    have hno := h (pat.toList ++ after) (by rw [List.mem_tails]; exact ⟨before, by rw [← hs]; simp⟩)
    rw [← Bool.not_eq_true, List.isPrefixOf_iff_prefix] at hno
    exact hno (List.prefix_append _ _)
  · intro h tail htail
    rw [← Bool.not_eq_true, List.isPrefixOf_iff_prefix]
    rintro ⟨after, hafter⟩
    obtain ⟨before, hbefore⟩ := (List.mem_tails _ _).mp htail
    exact h ⟨before, after, by rw [List.append_assoc, hafter, hbefore]⟩

/-- A character is found where it stands first. -/
theorem find_singleton {c : Char} {s : String} {before rest : List Char} (h : c ∉ before)
    (hs : s.toList = before ++ c :: rest) : find (String.ofList [c]) s = some before.length := by
  refine find_eq_some_iff.mpr ⟨String.ofList before, by rw [String.toList_ofList], ?_, ?_⟩
  · exact ⟨rest, by simp [hs]⟩
  · rintro shorter ⟨after, hafter⟩
    rw [String.toList_append, String.toList_ofList, hs, List.append_assoc] at hafter
    rw [String.toList_ofList]
    rcases append_eq_append_cons (p := shorter.toList) hafter.symm with ⟨m, hm, -⟩ | ⟨y, hy⟩
    · rw [hm, List.length_append]
      exact Nat.le_add_right _ _
    · exact (h (by rw [hy]; exact List.mem_append_right _ List.mem_cons_self)).elim

/-- The last occurrence is the one after which there is none. -/
theorem rfind_append {c : Char} {before rest : String} (h : c ∉ rest.toList) :
    rfind c (before ++ String.ofList [c] ++ rest) = some before.toList.length := by
  have hnone : rest.toList.reverse.findIdx? (· = c) = none := by
    rw [List.findIdx?_eq_none_iff]
    intro d hd
    have hne : d ≠ c := fun he => h (he ▸ List.mem_reverse.mp hd)
    exact decide_eq_false hne
  simp only [rfind, String.toList_append, String.toList_ofList, List.reverse_append,
    List.findIdx?_append, hnone, List.reverse_singleton, List.findIdx?_cons, Option.none_or]
  simp

/-- What follows an occurrence. -/
theorem sliceFrom_append (before rest : String) (c : Char) :
    sliceFrom (before.toList.length + 1) (before ++ String.ofList [c] ++ rest) = rest := by
  have hlength : (before.toList ++ [c]).length = before.toList.length + 1 := by
    rw [List.length_append, List.length_singleton]
  apply ext
  rw [sliceFrom, String.toList_ofList, String.toList_append, String.toList_append,
    String.toList_ofList, List.drop_left' hlength]

/-- There is no last occurrence exactly when there is none. -/
theorem rfind_eq_none_iff {c : Char} {s : String} : rfind c s = none ↔ c ∉ s.toList := by
  rw [rfind, Option.map_eq_none_iff, List.findIdx?_eq_none_iff]
  simp only [List.mem_reverse, decide_eq_false_iff_not]
  constructor
  · intro h hmem
    exact h c hmem rfl
  · rintro h d hd rfl
    exact h hd

/-- Whitespace in front is skipped. -/
theorem splitWhitespace_cons {c : Char} (hc : isWhitespace c = true) (s : String) :
    splitWhitespace (String.ofList [c] ++ s) = splitWhitespace s := by
  have hsplit := List.splitOnP_append_cons [] s.toList hc
  rw [List.nil_append, List.splitOnP_nil] at hsplit
  simp only [splitWhitespace, String.toList_append, String.toList_ofList, List.singleton_append,
    hsplit]
  simp

/-- A text of whitespace has no pieces. -/
theorem splitWhitespace_blank {s : String} (h : ∀ c ∈ s.toList, isWhitespace c = true) :
    splitWhitespace s = [] := by
  obtain ⟨chars, rfl⟩ : ∃ chars, s = String.ofList chars := ⟨s.toList, String.ofList_toList.symm⟩
  rw [String.toList_ofList] at h
  induction chars with
  | nil => rfl
  | cons c chars ih =>
    obtain ⟨hc, hchars⟩ := List.forall_mem_cons.mp h
    have hcons : String.ofList (c :: chars) = String.ofList [c] ++ String.ofList chars := by
      apply ext
      simp
    rw [hcons, splitWhitespace_cons hc, ih hchars]

/-- A piece ends at whitespace, or with the text. -/
theorem splitWhitespace_append {piece rest : String} (hne : piece ≠ "")
    (hpiece : ∀ c ∈ piece.toList, isWhitespace c = false)
    (hrest : ∀ c ∈ rest.toList.head?, isWhitespace c = true) :
    splitWhitespace (piece ++ rest) = piece :: splitWhitespace rest := by
  have hchars : piece.toList ≠ [] := fun he => hne (ext (by simpa using he))
  cases hlist : rest.toList with
  | nil =>
    obtain rfl : rest = "" := ext (by simpa using hlist)
    simp [splitWhitespace, List.splitOnP_eq_singleton hpiece, hchars]
  | cons c cs =>
    have hc : isWhitespace c = true := hrest c (by rw [hlist]; rfl)
    have hcons : rest = String.ofList [c] ++ String.ofList cs := by
      apply ext
      simp [hlist]
    have hsplit := List.splitOnP_append_cons_of_forall_mem hpiece c hc cs
    rw [hcons, splitWhitespace_cons hc]
    simp [splitWhitespace, hsplit, hchars]

/-- Pieces that each follow a space, and whitespace at the end. -/
theorem splitWhitespace_join {pieces : List String} {ending : String}
    (hne : ∀ piece ∈ pieces, piece ≠ "")
    (hpieces : ∀ piece ∈ pieces, ∀ c ∈ piece.toList, isWhitespace c = false)
    (hending : ∀ c ∈ ending.toList, isWhitespace c = true) :
    splitWhitespace (String.join (pieces.map (" " ++ ·)) ++ ending) = pieces := by
  have hspace : isWhitespace ' ' = true := by decide
  induction pieces with
  | nil => simpa using splitWhitespace_blank hending
  | cons piece pieces ih =>
    obtain ⟨hfirst, hne⟩ := List.forall_mem_cons.mp hne
    obtain ⟨hplain, hpieces⟩ := List.forall_mem_cons.mp hpieces
    have hrest : ∀ c ∈ (String.join (pieces.map (" " ++ ·)) ++ ending).toList.head?,
        isWhitespace c = true := by
      cases pieces with
      | nil =>
        intro c hc
        rw [List.map_nil, String.join_nil, String.empty_append] at hc
        exact hending c (List.mem_of_mem_head? hc)
      | cons next pieces => simp [hspace]
    rw [List.map_cons, String.join_cons, String.append_assoc, String.append_assoc]
    change splitWhitespace (String.ofList [' '] ++ _) = _
    rw [splitWhitespace_cons hspace, splitWhitespace_append hfirst hplain hrest, ih hne hpieces]

/-- The text before this suffix. -/
def stripSuffix (suffix s : String) : Option String :=
  if endsWith suffix s then
    some (String.ofList (s.toList.take (s.toList.length - suffix.toList.length)))
  else none

/-- A stripped suffix is exactly the text it was stripped from, cut in two. -/
theorem stripSuffix_eq_some_iff {suffix s before : String} :
    stripSuffix suffix s = some before ↔ s = before ++ suffix := by
  unfold stripSuffix endsWith
  constructor
  · intro h
    split at h
    · next hsuffix =>
      obtain ⟨front, hfront⟩ := List.isSuffixOf_iff_suffix.mp hsuffix
      apply ext
      rw [← Option.some.inj h, String.toList_append, String.toList_ofList, ← hfront,
        List.length_append, Nat.add_sub_cancel, List.take_left]
    · cases h
  · rintro rfl
    rw [if_pos (by simp [List.isSuffixOf_iff_suffix])]
    simp

/-- A text that has a newline nowhere but at its end, as a line reader returns it. -/
def IsLine (s : String) : Prop :=
  ∀ before after : List Char, s.toList = before ++ '\n' :: after → after = []

/-- What follows a prefix of a line is a line. -/
theorem IsLine.suffix {s t : String} (h : IsLine s) (hsuffix : t.toList <:+ s.toList) :
    IsLine t := by
  obtain ⟨skipped, hskipped⟩ := hsuffix
  intro before after ht
  exact h (skipped ++ before) after (by rw [← hskipped, ht, List.append_assoc])

/-- A line without the whitespace at its end has no newline. -/
theorem IsLine.newline_notMem_trimEnd {s : String} (h : IsLine s) :
    '\n' ∉ (trimEnd s).toList := by
  intro hmem
  obtain ⟨before, after, hcut⟩ := List.append_of_mem hmem
  obtain ⟨trimmed, htrimmed⟩ := trimEnd_isPrefix s
  have hend := h before (after ++ trimmed) (by rw [← htrimmed, hcut]; simp)
  obtain ⟨rfl, -⟩ := List.append_eq_nil_iff.mp hend
  exact absurd (isWhitespace_getLast_trimEnd hcut) (by decide)

/-- A trimmed line has no newline. -/
theorem IsLine.newline_notMem_trim {s : String} (h : IsLine s) : '\n' ∉ (trim s).toList :=
  (h.suffix (trimStart_isSuffix s)).newline_notMem_trimEnd

end Text
