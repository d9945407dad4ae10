import Devcroft.Library.Jsonc
import Devcroft.Provider.Devbox

/-!
# What `strip_jsonc` leaves

Both passes keep track of strings in the same way, and neither changes a string. The first
replaces what stands between the tokens by white space, so that the second sees a text
of tokens with trailing commas.
-/

namespace Devcroft.Provider

open Json

/-- Where `strip_comments` is in or out of a string. -/
def within : Quoting → Within
  | .outside => .code
  | .inside => .string false
  | .escaped => .string true

/-- `strip_trailing_commas` there. -/
def strippedCommas : Quoting → List Char → List Char
  | .outside => stripTrailingCommas false false
  | .inside => stripTrailingCommas true false
  | .escaped => stripTrailingCommas true true

section Comments

variable {q : Quoting} {c : Char} {text rest : List Char}

/-- A character of a string stays. -/
theorem stripComments_inside (hq : q ≠ .outside) :
    stripComments (within q) (c :: rest) = c :: stripComments (within (q.next c)) rest := by
  cases q with
  | outside => exact (hq rfl).elim
  | inside =>
    simp only [within, stripComments, Quoting.next, Bool.false_eq_true, if_false]
    split
    · rfl
    · split <;> rfl
  | escaped => rfl

/-- A character that begins no comment stays. -/
theorem stripComments_outside (hc : c = '/' → ∀ d ∈ rest.head?, d ≠ '/' ∧ d ≠ '*') :
    stripComments .code (c :: rest) =
      c :: stripComments (within (Quoting.outside.next c)) rest := by
  have hnext : within (Quoting.outside.next c) = if c = '"' then .string false else .code := by
    rw [Quoting.next]
    split <;> rfl
  rw [hnext, stripComments]
  · rintro tail rfl rfl
    exact (hc rfl '/' rfl).1 rfl
  · rintro tail rfl rfl
    exact (hc rfl '*' rfl).2 rfl

/-- Strings stay. -/
theorem copiesStrings_comments : CopiesStrings fun q => stripComments (within q) where
  begins _ := stripComments_outside fun heq => by cases heq
  within _ _ hq := stripComments_inside hq

/-- A text without comments stays. -/
theorem stripComments_of_uncommented (h : Uncommented q text) :
    stripComments (within q) text = text := by
  refine copiesStrings_comments.eq_self (by rintro (_ | _ | _) <;> rfl)
    fun before c rest heq hq => ?_
  refine stripComments_outside fun hc d hd => ?_
  obtain ⟨tail, rfl⟩ := List.head?_eq_some_iff.mp hd
  exact h before d tail (by rw [heq, hc]) hq

/-- A comment up to the end of a line becomes the end of the line. -/
theorem stripComments_line (h : '\n' ∉ text) :
    stripComments .lineComment (text ++ '\n' :: rest) = '\n' :: stripComments .code rest := by
  induction text with
  | nil => rw [List.nil_append, stripComments, if_pos rfl]
  | cons c text ih =>
    have hc : c ≠ '\n' := fun heq => h (by rw [heq]; exact List.mem_cons_self)
    rw [List.cons_append, stripComments, if_neg hc, ih fun hmem => h (List.mem_cons_of_mem _ hmem)]

/-- A block comment becomes its ends of lines. -/
theorem stripComments_block {prev : Char} (h : ¬['*', '/'] <:+: prev :: text) :
    stripComments (.blockComment prev) (text ++ '*' :: '/' :: rest) =
      text.filter (· = '\n') ++ stripComments .code rest := by
  induction text generalizing prev with
  | nil =>
    have hslash : ('*' : Char) ≠ '/' := by decide
    have hnewline : ('*' : Char) ≠ '\n' := by decide
    rw [List.nil_append, stripComments, if_neg fun h => hslash h.2, if_neg hnewline, stripComments,
      if_pos ⟨rfl, rfl⟩]
    rfl
  | cons c text ih =>
    have hend : ¬(prev = '*' ∧ c = '/') := by
      rintro ⟨rfl, rfl⟩
      exact h ⟨[], text, rfl⟩
    have hrest := ih fun hthere => h (hthere.trans (List.suffix_cons prev _).isInfix)
    rw [List.cons_append, stripComments, if_neg hend, hrest]
    by_cases hc : c = '\n'
    · rw [if_pos hc, List.filter_cons_of_pos (by simpa using hc), hc]
      rfl
    · rw [if_neg hc, List.filter_cons_of_neg (by simpa using hc)]

/-- A character stays that is no quotation mark and no slash. -/
theorem stripComments_char (hquote : c ≠ '"') (hslash : c ≠ '/') :
    stripComments .code (c :: rest) = c :: stripComments .code rest := by
  rw [stripComments_outside fun heq => (hslash heq).elim, Quoting.next, if_neg hquote, within]

/-- What stands between tokens becomes white space. -/
theorem stripComments_filler (filler : Filler) : ∃ space, (∀ c ∈ space, isSpace c = true) ∧
    ∀ rest, stripComments .code (filler.text ++ rest) = space ++ stripComments .code rest := by
  cases filler with
  | space c =>
    have hspace : ∀ d, isSpace d = true → d ≠ '"' ∧ d ≠ '/' := by
      intro d hd
      constructor <;> rintro rfl <;> revert hd <;> decide
    obtain ⟨hquote, hslash⟩ := hspace c.1 c.2
    exact ⟨[c.1], by simpa using c.2, fun rest => stripComments_char hquote hslash⟩
  | line body =>
    refine ⟨['\n'], Text.forall_mem (by decide), fun rest => ?_⟩
    rw [Filler.text, List.cons_append, List.cons_append, List.append_assoc, stripComments]
    exact stripComments_line body.2
  | block body =>
    refine ⟨body.1.filter (· = '\n'), fun c hc => ?_, fun rest => ?_⟩
    · have hnewline := of_decide_eq_true (List.mem_filter.mp hc).2
      rw [hnewline]
      decide
    · rw [Filler.text, List.cons_append, List.cons_append, List.append_assoc, stripComments]
      refine stripComments_block fun hthere => body.2 ?_
      rcases List.infix_cons_iff.mp hthere with hprefix | hthere
      · cases List.cons_prefix_cons.mp hprefix
        contradiction
      · exact hthere

theorem stripComments_gap (fillers : List Filler) : ∃ space, (∀ c ∈ space, isSpace c = true) ∧
    ∀ rest, stripComments .code (gap fillers ++ rest) = space ++ stripComments .code rest := by
  induction fillers with
  | nil => exact ⟨[], by simp, fun _ => rfl⟩
  | cons filler fillers ih =>
    obtain ⟨first, hfirst, hfiller⟩ := stripComments_filler filler
    obtain ⟨space, hspace, hgap⟩ := ih
    refine ⟨first ++ space, fun c hc => ?_, fun rest => ?_⟩
    · exact (List.mem_append.mp hc).elim (hfirst c) (hspace c)
    · rw [gap, List.flatMap_cons, ← gap, List.append_assoc, hfiller, hgap, List.append_assoc]

/-- A token stays. -/
theorem stripComments_token (t : Token) (rest : List Char) :
    stripComments .code (t.text ++ rest) = t.text ++ stripComments .code rest := by
  refine copiesStrings_comments.token rest fun ht c hc rest => ?_
  obtain ⟨hchar, hquote⟩ := Token.plain ht hc
  exact stripComments_char hquote (isSyntax_plain hchar).2

end Comments

section Commas

variable {q : Quoting} {c : Char} {text rest : List Char}

/-- Whether the next character but for white space is a closing bracket. -/
def closesNext (rest : List Char) : Prop :=
  (rest.dropWhile Text.isWhitespace).head? = some '\x7d' ∨
    (rest.dropWhile Text.isWhitespace).head? = some ']'

/-- A character of a string stays. -/
theorem strippedCommas_inside (hq : q ≠ .outside) :
    strippedCommas q (c :: rest) = c :: strippedCommas (q.next c) rest := by
  cases q with
  | outside => exact (hq rfl).elim
  | inside =>
    simp only [strippedCommas, stripTrailingCommas, Quoting.next, if_true, Bool.false_eq_true,
      if_false]
    split
    · rfl
    · split <;> rfl
  | escaped => rfl

/-- A character stays that is no comma before a closing bracket. -/
theorem strippedCommas_outside (hc : c = ',' → ¬closesNext rest) :
    strippedCommas .outside (c :: rest) = c :: strippedCommas (Quoting.outside.next c) rest := by
  simp only [strippedCommas, stripTrailingCommas, Quoting.next, Bool.false_eq_true, if_false]
  split
  · rfl
  · rw [if_neg fun h => hc h.1 h.2]

/-- A comma before a closing bracket goes. -/
theorem strippedCommas_comma (h : closesNext rest) :
    strippedCommas .outside (',' :: rest) = strippedCommas .outside rest := by
  have hquote : (',' : Char) ≠ '"' := by decide
  rw [strippedCommas, stripTrailingCommas, if_neg Bool.false_ne_true, if_neg hquote]
  exact if_pos ⟨rfl, h⟩

/-- Strings stay. -/
theorem copiesStrings_commas : CopiesStrings strippedCommas where
  begins _ := strippedCommas_outside fun heq => by cases heq
  within _ _ hq := strippedCommas_inside hq

/-- A text without trailing commas stays. -/
theorem strippedCommas_of_untrailed (h : Untrailed q text) : strippedCommas q text = text := by
  refine copiesStrings_commas.eq_self (by rintro (_ | _ | _) <;> rfl) fun before c rest heq hq => ?_
  refine strippedCommas_outside fun hc hcloses => ?_
  obtain ⟨d, hd⟩ : ∃ d, (rest.dropWhile Text.isWhitespace).head? = some d :=
    hcloses.elim (fun h => ⟨_, h⟩) fun h => ⟨_, h⟩
  obtain ⟨tail, htail⟩ := List.head?_eq_some_iff.mp hd
  have hsplit : rest = rest.takeWhile Text.isWhitespace ++ d :: tail := by
    rw [← htail, List.takeWhile_append_dropWhile]
  have hplain := h before (rest.takeWhile Text.isWhitespace) d tail (by rw [heq, hc, ← hsplit]) hq
    fun b hb => List.mem_takeWhile_imp hb
  rcases hcloses with hcloses | hcloses
  · exact hplain.1 (Option.some.inj (hd.symm.trans hcloses))
  · exact hplain.2 (Option.some.inj (hd.symm.trans hcloses))

/-- A character stays that is no quotation mark and no comma. -/
theorem strippedCommas_char (hquote : c ≠ '"') (hcomma : c ≠ ',') :
    strippedCommas .outside (c :: rest) = c :: strippedCommas .outside rest := by
  rw [strippedCommas_outside fun heq => (hcomma heq).elim, Quoting.next, if_neg hquote]

/-- White space stays. -/
theorem strippedCommas_space (h : ∀ c ∈ text, isSpace c = true) :
    strippedCommas .outside (text ++ rest) = text ++ strippedCommas .outside rest := by
  refine copies_plain (fun c hc rest => ?_) rest
  have hspace := h c hc
  apply strippedCommas_char <;> rintro rfl <;> revert hspace <;> decide

/-- A token stays that is no separator before a closing bracket. -/
theorem strippedCommas_token (t : Token) (h : t = .valueSeparator → ¬closesNext rest) :
    strippedCommas .outside (t.text ++ rest) = t.text ++ strippedCommas .outside rest := by
  by_cases hcomma : t = .valueSeparator
  · subst hcomma
    exact strippedCommas_outside fun _ => h rfl
  refine copiesStrings_commas.token rest fun ht c hc rest => ?_
  refine strippedCommas_char (Token.plain ht hc).2 ?_
  rintro rfl
  cases t with
  | string body => exact ht body rfl
  | scalar text => exact (text.2.plain hc).2 (by decide)
  | valueSeparator => exact hcomma rfl
  | _ => exact absurd hc (by decide)

/-- A text of tokens with trailing commas becomes one without them. -/
theorem strippedCommas_layout {tokens : List Token} {pieces : List (Token × List Char)}
    (h : Trailing tokens (pieces.map Prod.fst)) (hchain : tokens.IsChain Follows)
    (hspace : ∀ piece ∈ pieces, ∀ c ∈ piece.2, isSpace c = true) :
    ∃ pieces' : List (Token × List Char), pieces'.map Prod.fst = tokens ∧
      (∀ piece ∈ pieces', ∀ c ∈ piece.2, isSpace c = true) ∧
      strippedCommas .outside (layout pieces) = layout pieces' := by
  -- The induction is on how the commas were put in; what a comma leaves behind joins the white
  -- space of the token before it.
  generalize hmap : pieces.map Prod.fst = tokens' at h
  induction h generalizing pieces with
  | nil =>
    obtain rfl := List.map_eq_nil_iff.mp hmap
    exact ⟨[], rfl, by simp, rfl⟩
  | @keep t tokens tokens' h ih =>
    obtain ⟨⟨t, after⟩, rest, rfl, rfl, hrest⟩ := List.map_eq_cons_iff.mp hmap
    obtain ⟨hfollows, hchain⟩ := List.isChain_cons.mp hchain
    have hafter : ∀ c ∈ after, isSpace c = true := hspace (t, after) List.mem_cons_self
    obtain ⟨pieces', htokens, hspace', hstrip⟩ :=
      ih hchain (fun piece hpiece => hspace piece (List.mem_cons_of_mem _ hpiece)) hrest
    refine ⟨(t, after) :: pieces', by rw [List.map_cons, htokens], ?_, ?_⟩
    · intro piece hpiece
      rcases List.mem_cons.mp hpiece with rfl | hpiece
      · exact hafter
      · exact hspace' piece hpiece
    · have hnext : t = .valueSeparator → ¬closesNext (after ++ layout rest) := by
        intro ht hcloses
        obtain ⟨next, hmem, hclose⟩ := (next_closes_iff hafter rest).mp hcloses
        rw [hrest, h.head?] at hmem
        rw [hfollows next hmem ht] at hclose
        cases hclose
      rw [layout_cons, strippedCommas_token t hnext, strippedCommas_space hafter, hstrip,
        layout_cons]
  | @comma t close tokens tokens' ht hclose h ih =>
    obtain ⟨⟨t, after⟩, rest₁, rfl, rfl, hrest₁⟩ := List.map_eq_cons_iff.mp hmap
    obtain ⟨⟨comma, behind⟩, rest, rfl, hcomma, hrest⟩ := List.map_eq_cons_iff.mp hrest₁
    obtain rfl : comma = .valueSeparator := hcomma
    obtain ⟨hfollows, hchain⟩ := List.isChain_cons.mp hchain
    have hafter : ∀ c ∈ after, isSpace c = true := hspace (t, after) List.mem_cons_self
    have hbehind : ∀ c ∈ behind, isSpace c = true :=
      hspace (.valueSeparator, behind) (List.mem_cons_of_mem _ List.mem_cons_self)
    obtain ⟨pieces', htokens, hspace', hstrip⟩ := ih hchain (fun piece hpiece =>
      hspace piece (List.mem_cons_of_mem _ (List.mem_cons_of_mem _ hpiece))) hrest
    refine ⟨(t, after ++ behind) :: pieces', by rw [List.map_cons, htokens], ?_, ?_⟩
    · intro piece hpiece
      rcases List.mem_cons.mp hpiece with rfl | hpiece
      · exact fun c hc => (List.mem_append.mp hc).elim (hafter c) (hbehind c)
      · exact hspace' piece hpiece
    · have hnot : t ≠ .valueSeparator := by
        intro heq
        rw [hfollows close rfl heq] at hclose
        cases hclose
      have hcloses : closesNext (behind ++ layout rest) := by
        refine (next_closes_iff hbehind rest).mpr ⟨close, ?_, hclose⟩
        rw [hrest, h.head?]
        rfl
      rw [layout_cons, layout_cons, strippedCommas_token t fun heq => (hnot heq).elim,
        strippedCommas_space hafter, Token.text, List.singleton_append,
          strippedCommas_comma hcloses,
        strippedCommas_space hbehind, hstrip, layout_cons, List.append_assoc]

end Commas

/-- The first pass leaves the tokens, with white space around each. -/
theorem stripComments_layout (pieces : List (Token × List Filler)) :
    ∃ pieces' : List (Token × List Char), pieces'.map Prod.fst = pieces.map Prod.fst ∧
      (∀ piece ∈ pieces', ∀ c ∈ piece.2, isSpace c = true) ∧
      stripComments .code (layout (pieces.map fun piece => (piece.1, gap piece.2))) =
        layout pieces' := by
  induction pieces with
  | nil => exact ⟨[], rfl, by simp, rfl⟩
  | cons piece pieces ih =>
    obtain ⟨t, fillers⟩ := piece
    obtain ⟨pieces', htokens, hspace, hstrip⟩ := ih
    obtain ⟨space, hfillers, hgap⟩ := stripComments_gap fillers
    refine ⟨(t, space) :: pieces', by rw [List.map_cons, List.map_cons, htokens], ?_, ?_⟩
    · intro piece hpiece
      rcases List.mem_cons.mp hpiece with rfl | hpiece
      · exact hfillers
      · exact hspace piece hpiece
    · rw [List.map_cons, layout_cons, stripComments_token, hgap, hstrip, layout_cons]

/-- What is left of a JSON text with comments and trailing commas spells the same tokens. -/
theorem stripJsonc_spells {tokens : List Token} (h : Derives .value tokens) {text : String}
    (hdecorates : Decorates tokens text.toList) : Spells tokens (stripJsonc text).toList := by
  obtain ⟨before, pieces, htrailing, htext⟩ := hdecorates
  obtain ⟨first, hfirst, hgap⟩ := stripComments_gap before
  obtain ⟨pieces', htokens, hspace, hcomments⟩ := stripComments_layout pieces
  rw [← htokens] at htrailing
  obtain ⟨pieces'', htokens', hspace', hcommas⟩ :=
    strippedCommas_layout htrailing h.neat.chain hspace
  refine ⟨first, pieces'', hfirst, hspace', htokens', ?_⟩
  rw [stripJsonc, String.toList_ofList, htext, hgap, hcomments, ← hcommas]
  exact strippedCommas_space hfirst

/-- A text without comments and trailing commas is not changed. -/
theorem stripJsonc_of_plain {text : String} (hcomments : Uncommented .outside text.toList)
    (hcommas : Untrailed .outside text.toList) : stripJsonc text = text := by
  have hfirst : stripComments .code text.toList = text.toList :=
    stripComments_of_uncommented hcomments
  have hsecond : stripTrailingCommas false false text.toList = text.toList :=
    strippedCommas_of_untrailed hcommas
  rw [stripJsonc, hfirst, hsecond, String.ofList_toList]

/-- JSON with comments and trailing commas is parsed to the value of the JSON text without them, by
a parser to which the white space between tokens makes no difference; and a text that has none of
them is not changed. -/
theorem stripJsonc_exact (fromStr : String → Except String Value)
    (hfromStr : ∀ tokens, Derives .value tokens → ∀ s s' : String, Spells tokens s.toList →
      Spells tokens s'.toList → (fromStr s).toOption = (fromStr s').toOption) :
    (∀ tokens, Derives .value tokens → ∀ t t' : String, Spells tokens t.toList →
      Decorates tokens t'.toList → (fromStr (stripJsonc t')).toOption = (fromStr t).toOption) ∧
    ∀ t : String, Uncommented .outside t.toList → Untrailed .outside t.toList → stripJsonc t = t :=
  ⟨fun tokens h _ _ ht ht' => hfromStr tokens h _ _ (stripJsonc_spells h ht') ht,
    fun _ hcomments hcommas => stripJsonc_of_plain hcomments hcommas⟩

/-- A parser that knows one value. -/
def parseSample (text : String) : Except String Value :=
  if compact .outside text.toList = "\x7b\"//\":[null,null]\x7d".toList then
    .ok (.object [("//", .array [.null, .null])])
  else .error "expected value"

/-- The name in it. -/
def sampleName : Token :=
  .string ⟨"//".toList, .char (by decide) (by decide) (by decide)
    (.char (by decide) (by decide) (by decide) .nil)⟩

def sampleNull : Token := .scalar ⟨_, .literal (Or.inl rfl)⟩

/-- Its tokens. -/
def sampleTokens : List Token :=
  [.beginObject, sampleName, .nameSeparator, .beginArray, sampleNull, .valueSeparator, sampleNull,
    .endArray, .endObject]

/-- Its tokens in a file, with what follows each. -/
def samplePieces : List (Token × List Filler) :=
  let blank : Filler := .space ⟨' ', rfl⟩
  [(.beginObject, [.line ⟨" one".toList, by decide⟩]), (sampleName, []), (.nameSeparator, [blank]),
    (.beginArray, []), (sampleNull, []),
    (.valueSeparator, [.block ⟨" ] ".toList, by decide⟩, blank]), (sampleNull, []),
    (.valueSeparator, []), (.endArray, []), (.valueSeparator, []), (.endObject, [])]

/-- A file with comments, in which a string looks like one, is read as the value. -/
theorem stripJsonc_exact_sample :
    (parseSample (stripJsonc "\x7b// one\n\"//\": [null,/* ] */ null,],\x7d")).toOption =
      some (.object [("//", .array [.null, .null])]) := by
  have hderives : Derives .value sampleTokens :=
    .object (.member _ (.array (.elements (.scalar _) (.element (.scalar _)))))
  have hparse : ∀ tokens, Derives .value tokens → ∀ s s' : String, Spells tokens s.toList →
      Spells tokens s'.toList → (parseSample s).toOption = (parseSample s').toOption := by
    intro tokens _ s s' hs hs'
    rw [parseSample, parseSample, hs.compact, hs'.compact]
  have hspells : Spells sampleTokens "\x7b\"//\":[null,null]\x7d".toList := by
    refine ⟨[], sampleTokens.map fun t => (t, []), by simp, by simp, ?_, by decide⟩
    rw [List.map_map]
    exact List.map_id _
  have hdecorates : Decorates sampleTokens
      "\x7b// one\n\"//\": [null,/* ] */ null,],\x7d".toList := by
    refine ⟨[], samplePieces, ?_, by decide⟩
    exact .keep _ (.keep _ (.keep _ (.keep _ (.keep _ (.keep _
      (.comma rfl rfl (.comma rfl rfl (.keep _ .nil))))))))
  exact ((stripJsonc_exact parseSample hparse).1 _ hderives _ _ hspells hdecorates).trans rfl

end Devcroft.Provider
