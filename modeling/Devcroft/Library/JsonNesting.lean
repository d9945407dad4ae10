import Mathlib.Algebra.Order.Group.Int
import Devcroft.Library.JsonText

/-!
# Where a JSON text can be cut

A line ends nowhere in a JSON text but between two tokens. An object that is cut there is still
nested, up to its last token.
-/

namespace Json

/-- How much deeper a text is nested after a token. -/
def Token.level : Token → ℤ
  | beginArray => 1
  | beginObject => 1
  | endArray => -1
  | endObject => -1
  | _ => 0

/-- How much deeper it is nested after several. -/
def level : List Token → ℤ
  | [] => 0
  | t :: tokens => t.level + level tokens

/-- How much deeper it is nested after a character. -/
def Quoting.level : Quoting → Char → ℤ
  | outside, c =>
    if c = '[' ∨ c = '\x7b' then 1 else if c = ']' ∨ c = '\x7d' then -1 else 0
  | _, _ => 0

/-- How much deeper it is nested after more. -/
def depth : Quoting → List Char → ℤ
  | _, [] => 0
  | q, c :: rest => q.level c + depth (q.next c) rest

@[simp] theorem level_nil : level [] = 0 := rfl

@[simp] theorem level_cons (t : Token) (tokens : List Token) :
    level (t :: tokens) = t.level + level tokens := rfl

@[simp] theorem level_append (tokens rest : List Token) :
    level (tokens ++ rest) = level tokens + level rest := by
  induction tokens with
  | nil => exact (zero_add _).symm
  | cons t tokens ih => rw [List.cons_append, level_cons, level_cons, ih, add_assoc]

theorem depth_append (q : Quoting) (text rest : List Char) :
    depth q (text ++ rest) = depth q text + depth (q.after text) rest := by
  induction text generalizing q with
  | nil => simp [depth]
  | cons c text ih =>
    rw [List.cons_append, depth, depth, ih, Quoting.after_cons]
    omega

/-- A text is not nested deeper within a string. -/
theorem Quoted.depth {q : Quoting} {text : List Char} (h : Quoted q text) : depth q text = 0 := by
  induction text generalizing q with
  | nil => rfl
  | cons c text ih =>
    have hlevel : q.level c = 0 := by
      cases q with
      | outside => exact (h.1 rfl).elim
      | inside => rfl
      | escaped => rfl
    rw [Json.depth, hlevel, ih h.2, add_zero]

/-- Characters that are no quotation marks and no brackets. -/
theorem depth_plain {text : List Char} (h : ∀ c ∈ text, c ∉ ['"', '[', ']', '\x7b', '\x7d']) :
    Quoting.outside.after text = .outside ∧ depth .outside text = 0 := by
  induction text with
  | nil => exact ⟨rfl, rfl⟩
  | cons c text ih =>
    have hc := h c List.mem_cons_self
    simp only [List.mem_cons, List.not_mem_nil, or_false, not_or] at hc
    obtain ⟨hquote, hopen, hclose, hopen', hclose'⟩ := hc
    have hnext : Quoting.outside.next c = .outside := if_neg hquote
    have hlevel : Quoting.outside.level c = 0 := by
      rw [Quoting.level, if_neg (not_or.mpr ⟨hopen, hopen'⟩), if_neg (not_or.mpr ⟨hclose, hclose'⟩)]
    obtain ⟨hafter, hdepth⟩ := ih fun d hd => h d (List.mem_cons_of_mem _ hd)
    rw [Quoting.after_cons, depth, hnext, hlevel, hafter, hdepth]
    exact ⟨rfl, rfl⟩

/-- White space. -/
theorem depth_space {text : List Char} (h : ∀ c ∈ text, isSpace c = true) :
    Quoting.outside.after text = .outside ∧ depth .outside text = 0 := by
  refine depth_plain fun c hc hmem => ?_
  have hspace := h c hc
  simp only [List.mem_cons, List.not_mem_nil, or_false] at hmem
  rcases hmem with rfl | rfl | rfl | rfl | rfl <;> revert hspace <;> decide

/-- A token ends outside of strings, and only brackets change how deep the text is nested. -/
theorem depth_token (t : Token) :
    Quoting.outside.after t.text = .outside ∧ depth .outside t.text = t.level := by
  cases t with
  | string body =>
    obtain ⟨hquoted, hafter⟩ := body.2.quoted
    have hbody : Quoting.inside.after (body.1 ++ ['"']) = .outside := by
      rw [Quoting.after_append, hafter]
      rfl
    have hdepth : depth .inside (body.1 ++ ['"']) = 0 := by
      rw [depth_append, hquoted.depth, hafter]
      rfl
    constructor
    · exact hbody
    · rw [Token.text, depth]
      exact (zero_add _).trans hdepth
  | scalar text =>
    refine depth_plain fun c hc hmem => (text.2.plain hc).2 ?_
    simp only [List.mem_cons, List.not_mem_nil, or_false] at hmem ⊢
    tauto
  | _ => exact ⟨by decide, by decide⟩

/-- A text of tokens ends outside of strings, and is nested as deep as they say. -/
theorem Spells.depth {tokens : List Token} {text : List Char} (h : Spells tokens text) :
    Quoting.outside.after text = .outside ∧ depth .outside text = level tokens := by
  obtain ⟨before, pieces, hbefore, hspace, rfl, rfl⟩ := h
  obtain ⟨hafter, hdepth⟩ := depth_space hbefore
  rw [Quoting.after_append, depth_append, hafter, hdepth, zero_add]
  clear hafter hdepth
  induction pieces with
  | nil => exact ⟨rfl, rfl⟩
  | cons piece pieces ih =>
    obtain ⟨t, behind⟩ := piece
    obtain ⟨htoken, htoken'⟩ := depth_token t
    obtain ⟨hbehind, hbehind'⟩ := depth_space (hspace (t, behind) List.mem_cons_self)
    obtain ⟨hrest, hrest'⟩ := ih fun piece hpiece => hspace piece (List.mem_cons_of_mem _ hpiece)
    rw [layout_cons, Quoting.after_append, htoken, Quoting.after_append, hbehind, hrest,
      depth_append, htoken, htoken', depth_append, hbehind, hbehind', hrest', List.map_cons,
      level_cons, zero_add]
    exact ⟨rfl, rfl⟩

/-- Brackets that match. -/
structure Balanced (tokens : List Token) : Prop where
  level_eq : level tokens = 0
  level_nonneg : ∀ before rest, tokens = before ++ rest → 0 ≤ level before

/-- A token that is no bracket. -/
theorem Balanced.single {t : Token} (h : t.level = 0) : Balanced [t] where
  level_eq := by rw [level_cons, h, level_nil, add_zero]
  level_nonneg before rest heq := by
    cases before with
    | nil => exact le_refl (level [])
    | cons t' before =>
      obtain ⟨rfl, hnil⟩ := List.cons.inj heq
      obtain ⟨rfl, -⟩ := List.append_eq_nil_iff.mp hnil.symm
      simp [h]

theorem Balanced.append {tokens rest : List Token} (h : Balanced tokens) (hrest : Balanced rest) :
    Balanced (tokens ++ rest) where
  level_eq := by rw [level_append, h.level_eq, hrest.level_eq, add_zero]
  level_nonneg before after heq := by
    rcases List.append_eq_append_iff.mp heq with ⟨middle, rfl, hafter⟩ | ⟨middle, htokens, -⟩
    · rw [level_append, h.level_eq, zero_add]
      exact hrest.level_nonneg middle after hafter
    · exact h.level_nonneg before middle htokens

/-- What is between brackets is nested, up to the last one. -/
theorem level_wrap_pos {tokens before rest : List Token} {first last : Token} (h : Balanced tokens)
    (hfirst : first.level = 1) (hbefore : before ≠ []) (hrest : rest ≠ [])
    (heq : first :: (tokens ++ [last]) = before ++ rest) : 0 < level before := by
  cases before with
  | nil => exact (hbefore rfl).elim
  | cons t before =>
    obtain ⟨rfl, hsplit⟩ := List.cons.inj heq
    have hwithin : 0 ≤ level before := by
      rcases List.append_eq_append_iff.mp hsplit with
        ⟨middle, hmiddle, hlast⟩ | ⟨middle, htokens, -⟩
      · -- The last token is not cut off as the rest is not empty.
        have hnil : middle = [] := by
          cases middle with
          | nil => rfl
          | cons t' middle =>
            obtain ⟨-, htail⟩ := List.cons.inj hlast
            exact (hrest (List.append_eq_nil_iff.mp htail.symm).2).elim
        rw [hmiddle, hnil, List.append_nil, h.level_eq]
      · exact h.level_nonneg before middle htokens
    rw [level_cons, hfirst]
    omega

/-- Matching brackets between brackets. -/
theorem Balanced.wrap {tokens : List Token} {first last : Token} (h : Balanced tokens)
    (hfirst : first.level = 1) (hlast : last.level = -1) :
    Balanced (first :: (tokens ++ [last])) := by
  have hlevel : level (first :: (tokens ++ [last])) = 0 := by
    rw [level_cons, level_append, h.level_eq, level_cons, hfirst, hlast]
    rfl
  refine ⟨hlevel, fun before rest heq => ?_⟩
  by_cases hbefore : before = []
  · rw [hbefore, level_nil]
  by_cases hrest : rest = []
  · rw [hrest, List.append_nil] at heq
    rw [← heq, hlevel]
  · exact (level_wrap_pos h hfirst hbefore hrest heq).le

theorem Balanced.nil : Balanced [] where
  level_eq := rfl
  level_nonneg before rest heq := by
    rw [(List.append_eq_nil_iff.mp heq.symm).1, level_nil]

/-- The brackets of the grammar match. -/
theorem Derives.balanced {kind : Kind} {tokens : List Token} (h : Derives kind tokens) :
    Balanced tokens := by
  induction h with
  | string body => exact .single rfl
  | scalar text => exact .single rfl
  | emptyArray => exact Balanced.nil.wrap rfl rfl
  | emptyObject => exact Balanced.nil.wrap rfl rfl
  | array _ ih => exact ih.wrap rfl rfl
  | object _ ih => exact ih.wrap rfl rfl
  | element _ ih => exact ih
  | elements _ _ ih ihrest => exact ih.append ((Balanced.single rfl).append ihrest)
  | member name _ ih => exact (Balanced.single rfl).append ((Balanced.single rfl).append ih)
  | members name _ _ ih ihrest =>
    exact (Balanced.single rfl).append ((Balanced.single rfl).append
      (ih.append ((Balanced.single rfl).append ihrest)))

/-- An object is nested, up to its last token. -/
theorem Derives.level_pos {before rest : List Token} (h : Derives .value (before ++ rest))
    (hobject : before.head? = some .beginObject) (hrest : rest ≠ []) : 0 < level before := by
  obtain ⟨before, rfl⟩ := List.head?_eq_some_iff.mp hobject
  generalize htokens : .beginObject :: before ++ rest = tokens at h
  cases h with
  | emptyObject => exact level_wrap_pos .nil rfl (List.cons_ne_nil _ _) hrest htokens.symm
  | object hmembers =>
    exact level_wrap_pos hmembers.balanced rfl (List.cons_ne_nil _ _) hrest htokens.symm
  | _ => cases htokens

/-- A character of a string is no control character. -/
theorem StringBody.control {body : List Char} (h : StringBody body) :
    ∀ c ∈ body, 0x20 ≤ c.toNat := by
  induction h with
  | nil => simp
  | char _ _ hcontrol _ ih => exact List.forall_mem_cons.mpr ⟨hcontrol, ih⟩
  | @escape c rest hc _ ih =>
    have hescapes : ∀ c ∈ ['"', '\\', '/', 'b', 'f', 'n', 'r', 't'], 0x20 ≤ c.toNat :=
      Text.forall_mem (by decide)
    exact List.forall_mem_cons.mpr ⟨by decide, List.forall_mem_cons.mpr ⟨hescapes c hc, ih⟩⟩
  | @unicode digits rest _ hdigits _ ih =>
    refine List.forall_mem_cons.mpr ⟨by decide,
      List.forall_mem_cons.mpr ⟨by decide, fun c hc => ?_⟩⟩
    rcases List.mem_append.mp hc with hc | hc
    · have hdigit := hdigits c hc
      simp only [isHexDigit, Char.isDigit, Bool.or_eq_true, Bool.and_eq_true, decide_eq_true_eq,
        Char.le_def, UInt32.le_iff_toNat_le] at hdigit
      have hcode : c.toNat = c.val.toNat := rfl
      simp at hdigit
      omega
    · exact ih c hc

/-- A character of a token is no control character. -/
theorem Token.control {t : Token} : ∀ c ∈ t.text, 0x20 ≤ c.toNat := by
  cases t with
  | string body =>
    intro c hc
    rcases List.mem_cons.mp hc with rfl | hc
    · decide
    rcases List.mem_append.mp hc with hc | hc
    · exact body.2.control c hc
    · rw [List.mem_singleton.mp hc]
      decide
  | scalar text =>
    intro c hc
    have hsigns : ∀ c ∈ "+-.eEnultrfas".toList, 0x20 ≤ c.toNat := Text.forall_mem (by decide)
    rcases text.2.mem hc with hdigit | hsign
    · simp only [Char.isDigit, Bool.and_eq_true, decide_eq_true_eq,
        UInt32.le_iff_toNat_le] at hdigit
      have hcode : c.toNat = c.val.toNat := rfl
      simp at hdigit
      omega
    · exact hsigns c hsign
  | _ => exact Text.forall_mem (by decide)

/-- A character within a string is one after the string was begun. -/
theorem Quoted.after_ne {q : Quoting} {text rest : List Char} {c : Char}
    (h : Quoted q (text ++ c :: rest)) : q.after text ≠ .outside := by
  induction text generalizing q with
  | nil => exact h.1
  | cons d text ih => exact ih h.2

/-- What a token has outside of strings. -/
theorem Token.isSyntax {t : Token} {before rest : List Char} {c : Char}
    (h : t.text = before ++ c :: rest) (hbefore : Quoting.outside.after before = .outside) :
    isSyntax c = true := by
  have hmem : c ∈ t.text := by
    rw [h]
    exact List.mem_append_right _ List.mem_cons_self
  cases t with
  | string body =>
    cases before with
    | nil =>
      obtain ⟨rfl, -⟩ := List.cons.inj h
      decide
    | cons d before =>
      obtain ⟨rfl, hbody⟩ := List.cons.inj h
      rcases Text.append_eq_append_cons hbody with ⟨m, -, hquote⟩ | ⟨y, hy⟩
      · rw [List.singleton_eq_append_iff] at hquote
        rcases hquote with ⟨-, hc⟩ | ⟨-, hc⟩
        · obtain ⟨rfl, -⟩ := List.cons.inj hc
          decide
        · cases hc
      · have hquoted := body.2.quoted.1
        rw [hy] at hquoted
        exact (hquoted.after_ne hbefore).elim
  | _ => exact (Token.plain (by simp) hmem).1

/-- A token in front. -/
theorem Spells.cons {tokens : List Token} {text before : List Char} (h : Spells tokens text)
    (hbefore : ∀ c ∈ before, isSpace c = true) (t : Token) :
    Spells (t :: tokens) (before ++ (t.text ++ text)) := by
  obtain ⟨behind, pieces, hbehind, hspace, rfl, rfl⟩ := h
  refine ⟨before, (t, behind) :: pieces, hbefore, ?_, rfl, by rw [layout_cons]⟩
  intro piece hpiece
  rcases List.mem_cons.mp hpiece with rfl | hpiece
  · exact hbehind
  · exact hspace piece hpiece

/-- A character of a text of tokens is white space between them, or belongs to one. -/
theorem spells_cut {pieces : List (Token × List Char)} {before text rest : List Char} {c : Char}
    (hbefore : ∀ c ∈ before, isSpace c = true)
    (hspace : ∀ piece ∈ pieces, ∀ c ∈ piece.2, isSpace c = true)
    (h : before ++ layout pieces = text ++ c :: rest) :
    (isSpace c = true ∧ ∃ tokens tokens', pieces.map Prod.fst = tokens ++ tokens' ∧
      Spells tokens text ∧ Spells tokens' (c :: rest)) ∨
    ∃ (t : Token) (front x y : List Char), text = front ++ x ∧
      Quoting.outside.after front = .outside ∧ t.text = x ++ c :: y := by
  induction pieces generalizing before text with
  | nil =>
    rw [layout_nil, List.append_nil] at h
    have hboth := List.forall_mem_append.mp (h ▸ hbefore)
    exact Or.inl ⟨hboth.2 c List.mem_cons_self, [], [], rfl,
      ⟨text, [], hboth.1, by simp, rfl, by simp⟩, ⟨c :: rest, [], hboth.2, by simp, rfl, by simp⟩⟩
  | cons piece pieces ih =>
    obtain ⟨t, behind⟩ := piece
    have hbehind := hspace (t, behind) List.mem_cons_self
    obtain ⟨hfront, -⟩ := depth_space hbefore
    rcases Text.append_eq_append_cons h with ⟨m, rfl, hlayout⟩ | ⟨y, hy⟩
    · rw [layout_cons] at hlayout
      rcases Text.append_eq_append_cons hlayout with ⟨m', rfl, hrest⟩ | ⟨y, hy⟩
      · have hspaces : ∀ piece ∈ pieces, ∀ c ∈ piece.2, isSpace c = true :=
          fun piece hpiece => hspace piece (List.mem_cons_of_mem _ hpiece)
        rcases ih hbehind hspaces hrest with
          ⟨hc, tokens, tokens', hmap, htext, hrest'⟩ | ⟨t', front, x, y, rfl, hafter, ht'⟩
        · exact Or.inl ⟨hc, t :: tokens, tokens', by rw [List.map_cons, hmap, List.cons_append],
            htext.cons hbefore t, hrest'⟩
        · refine Or.inr ⟨t', before ++ (t.text ++ front), x, y, by simp, ?_, ht'⟩
          rw [Quoting.after_append, hfront, Quoting.after_append, (depth_token t).1, hafter]
      · exact Or.inr ⟨t, before, m, y, rfl, hfront, hy⟩
    · have hsplit := hbefore
      rw [hy] at hsplit
      have hboth := List.forall_mem_append.mp hsplit
      refine Or.inl ⟨hboth.2 c List.mem_cons_self, [], (t, behind) :: pieces |>.map Prod.fst, rfl,
        ⟨text, [], hboth.1, by simp, rfl, by simp⟩, c :: y, (t, behind) :: pieces, hboth.2, hspace,
        rfl, ?_⟩
      rw [hy, List.append_assoc] at h
      exact (List.append_cancel_left h).symm

/-- A text is cut between two tokens where it has a control character. -/
theorem Spells.cut {tokens : List Token} {text rest : List Char} {c : Char}
    (h : Spells tokens (text ++ c :: rest)) (hc : c.toNat < 0x20) :
    ∃ tokens₁ tokens₂, tokens = tokens₁ ++ tokens₂ ∧ Spells tokens₁ text ∧
      Spells tokens₂ (c :: rest) := by
  obtain ⟨before, pieces, hbefore, hspace, rfl, heq⟩ := h
  rcases spells_cut hbefore hspace heq.symm with ⟨-, hcut⟩ | ⟨t, front, x, y, -, -, htoken⟩
  · exact hcut
  · have hcontrol : 0x20 ≤ c.toNat := Token.control c (by
      rw [htoken]
      exact List.mem_append_right _ List.mem_cons_self)
    omega

/-- What a text of tokens has outside of strings. -/
theorem Spells.isSyntax {tokens : List Token} {text rest : List Char} {c : Char}
    (h : Spells tokens (text ++ c :: rest)) (htext : Quoting.outside.after text = .outside) :
    isSpace c = true ∨ isSyntax c = true := by
  obtain ⟨before, pieces, hbefore, hspace, rfl, heq⟩ := h
  rcases spells_cut hbefore hspace heq.symm with ⟨hc, -⟩ | ⟨t, front, x, y, rfl, hfront, htoken⟩
  · exact Or.inl hc
  · rw [Quoting.after_append, hfront] at htext
    exact Or.inr (Token.isSyntax htoken htext)

/-- No token, no text. -/
theorem Spells.isSpace {text : List Char} (h : Spells [] text) : ∀ c ∈ text, isSpace c = true := by
  obtain ⟨before, pieces, hbefore, -, hnil, rfl⟩ := h
  rw [List.map_eq_nil_iff.mp hnil, layout_nil, List.append_nil]
  exact hbefore

/-- A text that begins with a brace is one of an object. -/
theorem Spells.head? {tokens : List Token} {rest : List Char} (h : Spells tokens ('\x7b' :: rest)) :
    tokens.head? = some .beginObject := by
  obtain ⟨before, pieces, hbefore, -, rfl, heq⟩ := h
  cases before with
  | cons c before =>
    obtain ⟨rfl, -⟩ := List.cons.inj heq
    exact absurd (hbefore '\x7b' List.mem_cons_self) (by decide)
  | nil =>
    cases pieces with
    | nil => cases heq
    | cons piece pieces =>
      obtain ⟨t, behind⟩ := piece
      obtain ⟨c, tail, htext, -⟩ := t.text_eq
      rw [List.nil_append, layout_cons, htext] at heq
      obtain ⟨rfl, -⟩ := List.cons.inj heq
      cases t with
      | beginObject => rfl
      | scalar text =>
        have hplain := (text.2.plain (c := '\x7b') (by rw [show text.1 = _ from htext]; simp)).2
        exact absurd (by decide) hplain
      | _ => cases htext

/-- The text of an object begins with a brace, but for white space. -/
theorem Spells.exists_brace {tokens : List Token} {text : List Char} (h : Spells tokens text)
    (hobject : tokens.head? = some .beginObject) : ∃ space rest, text = space ++ '\x7b' :: rest ∧
      (∀ c ∈ space, Json.isSpace c = true) ∧ Spells tokens ('\x7b' :: rest) := by
  obtain ⟨before, pieces, hbefore, hspace, rfl, rfl⟩ := h
  obtain ⟨tokens, htokens⟩ := List.head?_eq_some_iff.mp hobject
  obtain ⟨⟨t, behind⟩, rest, rfl, rfl, -⟩ := List.map_eq_cons_iff.mp htokens
  have hlayout : layout ((.beginObject, behind) :: rest) = '\x7b' :: (behind ++ layout rest) :=
    layout_cons _ _ _
  exact ⟨before, behind ++ layout rest, by rw [hlayout], hbefore, [], _, by simp, hspace, rfl,
    hlayout.symm⟩

end Json
