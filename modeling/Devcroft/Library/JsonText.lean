import Mathlib.Data.List.Chain
import Devcroft.Library.Text

/-!
# JSON texts

The grammar of JSON: the tokens, the sequences of tokens that make a value, and the texts
that spell a sequence, with white space around its tokens. A value is told apart from what
follows it by its tokens alone.
-/

namespace Json

/-- White space between tokens. -/
def isSpace (c : Char) : Bool := c = ' ' || c = '\t' || c = '\n' || c = '\r'

/-- A digit of a number to the base 16. -/
def isHexDigit (c : Char) : Bool :=
  c.isDigit || ('a' ≤ c && c ≤ 'f') || ('A' ≤ c && c ≤ 'F')

/-- What may stand between the quotes of a string. -/
inductive StringBody : List Char → Prop
  | nil : StringBody []
  | char {c : Char} {rest : List Char} (hquote : c ≠ '"') (hbackslash : c ≠ '\\')
      (hcontrol : 0x20 ≤ c.toNat) (h : StringBody rest) : StringBody (c :: rest)
  | escape {c : Char} {rest : List Char} (hc : c ∈ ['"', '\\', '/', 'b', 'f', 'n', 'r', 't'])
      (h : StringBody rest) : StringBody ('\\' :: c :: rest)
  | unicode {digits rest : List Char} (hlength : digits.length = 4)
      (hdigits : ∀ c ∈ digits, isHexDigit c = true) (h : StringBody rest) :
      StringBody ('\\' :: 'u' :: (digits ++ rest))

/-- A number without an exponent, a fraction and a sign. -/
def IsInt (text : List Char) : Prop :=
  text = ['0'] ∨ ∃ d ds, text = d :: ds ∧ d ≠ '0' ∧ ∀ c ∈ d :: ds, c.isDigit = true

/-- At least one digit. -/
def IsDigits (text : List Char) : Prop := text ≠ [] ∧ ∀ c ∈ text, c.isDigit = true

/-- The fraction of a number. -/
def IsFraction (text : List Char) : Prop :=
  text = [] ∨ ∃ digits, IsDigits digits ∧ text = '.' :: digits

/-- The exponent of a number. -/
def IsExponent (text : List Char) : Prop :=
  text = [] ∨ ∃ e sign digits, (e = 'e' ∨ e = 'E') ∧ (sign = [] ∨ sign = ['+'] ∨ sign = ['-']) ∧
    IsDigits digits ∧ text = e :: (sign ++ digits)

/-- A literal or a number. -/
inductive IsScalar : List Char → Prop
  | literal {name : String} (h : name = "null" ∨ name = "true" ∨ name = "false") :
      IsScalar name.toList
  | number {sign int fraction exponent : List Char} (hsign : sign = [] ∨ sign = ['-'])
      (hint : IsInt int) (hfraction : IsFraction fraction) (hexponent : IsExponent exponent) :
      IsScalar (sign ++ (int ++ (fraction ++ exponent)))

/-- A token. -/
inductive Token where
  | beginArray
  | beginObject
  | endArray
  | endObject
  | nameSeparator
  | valueSeparator
  | string (body : { body : List Char // StringBody body })
  | scalar (text : { text : List Char // IsScalar text })

namespace Token

/-- The text of a token. -/
def text : Token → List Char
  | beginArray => ['[']
  | beginObject => ['\x7b']
  | endArray => [']']
  | endObject => ['\x7d']
  | nameSeparator => [':']
  | valueSeparator => [',']
  | string body => '"' :: (body.1 ++ ['"'])
  | scalar text => text.1

/-- Whether a token ends an array or an object. -/
def closes : Token → Bool
  | endArray => true
  | endObject => true
  | _ => false

/-- Whether a token begins an array or an object. -/
def opens : Token → Bool
  | beginArray => true
  | beginObject => true
  | _ => false

end Token

/-- What a sequence of tokens is to make. -/
inductive Kind where
  | value
  /-- The values of an array that is not empty. -/
  | elements
  /-- The members of an object that is not empty. -/
  | members

/-- The grammar. -/
inductive Derives : Kind → List Token → Prop
  | string (body : { body : List Char // StringBody body }) : Derives .value [.string body]
  | scalar (text : { text : List Char // IsScalar text }) : Derives .value [.scalar text]
  | emptyArray : Derives .value [.beginArray, .endArray]
  | emptyObject : Derives .value [.beginObject, .endObject]
  | array {tokens : List Token} (h : Derives .elements tokens) :
      Derives .value (.beginArray :: (tokens ++ [.endArray]))
  | object {tokens : List Token} (h : Derives .members tokens) :
      Derives .value (.beginObject :: (tokens ++ [.endObject]))
  | element {tokens : List Token} (h : Derives .value tokens) : Derives .elements tokens
  | elements {tokens rest : List Token} (h : Derives .value tokens)
      (hrest : Derives .elements rest) : Derives .elements (tokens ++ .valueSeparator :: rest)
  | member (name : { body : List Char // StringBody body }) {tokens : List Token}
      (h : Derives .value tokens) : Derives .members (.string name :: .nameSeparator :: tokens)
  | members (name : { body : List Char // StringBody body }) {tokens rest : List Token}
      (h : Derives .value tokens) (hrest : Derives .members rest) :
      Derives .members (.string name :: .nameSeparator :: (tokens ++ .valueSeparator :: rest))

/-- The text of tokens that each are followed by something. -/
def layout (pieces : List (Token × List Char)) : List Char :=
  pieces.flatMap fun piece => piece.1.text ++ piece.2

/-- A text spells a sequence of tokens, with white space around each. -/
def Spells (tokens : List Token) (text : List Char) : Prop :=
  ∃ before pieces, (∀ c ∈ before, isSpace c = true) ∧
    (∀ piece ∈ pieces, ∀ c ∈ piece.2, isSpace c = true) ∧
    pieces.map Prod.fst = tokens ∧ text = before ++ layout pieces

/-- A JSON text. -/
def IsText (text : List Char) : Prop := ∃ tokens, Derives .value tokens ∧ Spells tokens text

/-- The characters of literals and numbers. -/
theorem IsScalar.mem {text : List Char} (h : IsScalar text) {c : Char} (hc : c ∈ text) :
    c.isDigit = true ∨ c ∈ "+-.eEnultrfas".toList := by
  have hdigits : ∀ {digits}, IsDigits digits → c ∈ digits → c.isDigit = true :=
    fun h hc => h.2 c hc
  cases h with
  | @literal name h =>
    right
    rcases h with rfl | rfl | rfl <;>
      exact Text.forall_mem (p := fun c => c ∈ "+-.eEnultrfas".toList) (by decide) c hc
  | @number sign int fraction exponent hsign hint hfraction hexponent =>
    rcases List.mem_append.mp hc with hc | hc
    · rcases hsign with rfl | rfl
      · cases hc
      · exact Or.inr (by rw [List.mem_singleton.mp hc]; decide)
    rcases List.mem_append.mp hc with hc | hc
    · rcases hint with rfl | ⟨d, ds, rfl, -, hds⟩
      · exact Or.inl (by rw [List.mem_singleton.mp hc]; decide)
      · exact Or.inl (hds c hc)
    rcases List.mem_append.mp hc with hc | hc
    · rcases hfraction with rfl | ⟨digits, h, rfl⟩
      · cases hc
      · rcases List.mem_cons.mp hc with rfl | hc
        · exact Or.inr (by decide)
        · exact Or.inl (hdigits h hc)
    · rcases hexponent with rfl | ⟨e, sign, digits, he, hsign, h, rfl⟩
      · cases hc
      rcases List.mem_cons.mp hc with rfl | hc
      · right
        rcases he with rfl | rfl <;> decide
      rcases List.mem_append.mp hc with hc | hc
      · right
        rcases hsign with rfl | rfl | rfl
        · cases hc
        · rw [List.mem_singleton.mp hc]
          decide
        · rw [List.mem_singleton.mp hc]
          decide
      · exact Or.inl (hdigits h hc)

/-- A literal or a number has a first character. -/
theorem IsScalar.ne_nil {text : List Char} (h : IsScalar text) : text ≠ [] := by
  cases h with
  | literal h => rcases h with rfl | rfl | rfl <;> decide
  | number _ hint =>
    rcases hint with rfl | ⟨d, ds, rfl, -⟩ <;> simp

/-- Which token may follow on another: a separator of values has a value or a name behind it. -/
def Follows (t next : Token) : Prop := t = .valueSeparator → next.closes = false

/-- A sequence of tokens in which every separator of values has something behind it. -/
structure Neat (tokens : List Token) : Prop where
  chain : tokens.IsChain Follows
  ne_nil : tokens ≠ []
  first : ∀ t ∈ tokens.head?, t.closes = false
  last : ∀ t ∈ tokens.getLast?, t ≠ .valueSeparator

theorem Neat.single {t : Token} (hfirst : t.closes = false) (hlast : t ≠ .valueSeparator) :
    Neat [t] :=
  ⟨.singleton t, by simp, by simpa using hfirst, by simpa using hlast⟩

/-- Two sequences with a token between them. -/
theorem Neat.join {tokens rest : List Token} (h : Neat tokens) (hrest : Neat rest) (t : Token) :
    Neat (tokens ++ t :: rest) where
  chain := by
    refine h.chain.append ?_ fun t' ht' next _ heq => (h.last t' ht' heq).elim
    exact List.isChain_cons.mpr ⟨fun next hnext _ => hrest.first next hnext, hrest.chain⟩
  ne_nil := by simp
  first t' ht' := by
    rw [List.head?_append_of_ne_nil _ h.ne_nil] at ht'
    exact h.first t' ht'
  last t' ht' := by
    rw [List.getLast?_append_of_ne_nil _ (by simp),
      List.getLast?_cons_of_ne_nil hrest.ne_nil] at ht'
    exact hrest.last t' ht'

/-- A sequence between brackets. -/
theorem neat_wrap {tokens : List Token} (hchain : tokens.IsChain Follows)
    (hends : ∀ t ∈ tokens.getLast?, t ≠ .valueSeparator) {first last : Token}
    (hfirst : first.opens = true) (hlast : last.closes = true) :
    Neat (first :: (tokens ++ [last])) where
  chain := by
    refine List.isChain_cons.mpr ⟨fun next _ heq => ?_, ?_⟩
    · rw [heq] at hfirst
      cases hfirst
    · exact hchain.append (.singleton last) fun t ht _ _ heq => (hends t ht heq).elim
  ne_nil := by simp
  first t ht := by
    obtain rfl := Option.some.inj ht
    cases first <;> first | rfl | cases hfirst
  last t ht := by
    rw [← List.cons_append, List.getLast?_concat] at ht
    obtain rfl := Option.some.inj ht
    rintro rfl
    cases hlast

/-- The values and members of the grammar are such sequences. -/
theorem Derives.neat {kind : Kind} {tokens : List Token} (h : Derives kind tokens) :
    Neat tokens := by
  induction h with
  | string body => exact .single rfl (by simp)
  | scalar text => exact .single rfl (by simp)
  | emptyArray => exact @neat_wrap [] .nil (by simp) .beginArray .endArray rfl rfl
  | emptyObject => exact @neat_wrap [] .nil (by simp) .beginObject .endObject rfl rfl
  | array _ ih => exact neat_wrap ih.chain ih.last rfl rfl
  | object _ ih => exact neat_wrap ih.chain ih.last rfl rfl
  | element _ ih => exact ih
  | elements _ _ ih ihrest => exact ih.join ihrest _
  | member name _ ih => exact (Neat.single (t := .string name) rfl (by simp)).join ih _
  | members name _ _ ih ihrest =>
    exact (Neat.single (t := .string name) rfl (by simp)).join (ih.join ihrest _) _

@[simp] theorem layout_nil : layout [] = [] := rfl

@[simp] theorem layout_cons (token : Token) (after : List Char)
    (pieces : List (Token × List Char)) :
    layout ((token, after) :: pieces) = token.text ++ (after ++ layout pieces) := by
  rw [layout, List.flatMap_cons, ← layout, List.append_assoc]

/-- White space of JSON is white space. -/
theorem isWhitespace_of_isSpace {c : Char} (h : isSpace c = true) : Text.isWhitespace c = true := by
  simp only [isSpace, Bool.or_eq_true, decide_eq_true_eq] at h
  rcases h with ((rfl | rfl) | rfl) | rfl <;> decide

/-- A character of a literal or a number is no white space and no part of the syntax around it. -/
theorem IsScalar.plain {text : List Char} (h : IsScalar text) {c : Char} (hc : c ∈ text) :
    Text.isWhitespace c = false ∧ c ∉ ['"', '/', ',', ':', '[', ']', '\x7b', '\x7d'] := by
  rcases h.mem hc with hdigit | hc
  · have hrange : 48 ≤ c.toNat ∧ c.toNat ≤ 57 := by
      simpa [Char.isDigit, UInt32.le_iff_toNat_le] using hdigit
    constructor
    · unfold Text.isWhitespace
      simp only [Bool.or_eq_false_iff, Bool.and_eq_false_iff, decide_eq_false_iff_not,
        beq_eq_false_iff_ne]
      omega
    · intro hmem
      simp only [List.mem_cons, List.not_mem_nil, or_false] at hmem
      rcases hmem with rfl | rfl | rfl | rfl | rfl | rfl | rfl | rfl <;> simp at hrange
  · have hall : ∀ c ∈ "+-.eEnultrfas".toList, Text.isWhitespace c = false ∧
        c ∉ ['"', '/', ',', ':', '[', ']', '\x7b', '\x7d'] := Text.forall_mem (by decide)
    exact hall c hc

/-- The characters that stand outside of strings, white space apart. -/
def isSyntax (c : Char) : Bool := c.isDigit || c ∈ "\"[]\x7b\x7d:,+-.eEnultrfas".toList

/-- They are no white space and begin no comment. -/
theorem isSyntax_plain {c : Char} (h : isSyntax c = true) : isSpace c = false ∧ c ≠ '/' := by
  constructor
  · by_contra hspace
    simp only [isSpace, Bool.not_eq_false, Bool.or_eq_true, decide_eq_true_eq] at hspace
    rcases hspace with ((rfl | rfl) | rfl) | rfl <;> revert h <;> decide
  · rintro rfl
    revert h
    decide

/-- A token that is no string consists of them. -/
theorem Token.plain {t : Token} (h : ∀ body, t ≠ .string body) {c : Char} (hc : c ∈ t.text) :
    isSyntax c = true ∧ c ≠ '"' := by
  cases t with
  | string body => exact (h body rfl).elim
  | scalar text =>
    constructor
    · rw [isSyntax, Bool.or_eq_true, decide_eq_true_eq]
      refine (text.2.mem hc).imp_right fun hsign => ?_
      exact List.mem_append_right "\"[]\x7b\x7d:,".toList hsign
    · rintro rfl
      exact (text.2.plain hc).2 (by decide)
  | _ => exact Text.forall_mem (p := fun c => isSyntax c = true ∧ c ≠ '"') (by decide) c hc

/-- How the text of a token begins. -/
theorem Token.text_eq (t : Token) : ∃ c rest, t.text = c :: rest ∧ Text.isWhitespace c = false ∧
    ((c = '\x7d' ∨ c = ']') ↔ t.closes = true) := by
  cases t with
  | string body => exact ⟨'"', _, rfl, by decide, by simp [closes]⟩
  | scalar text =>
    obtain ⟨c, rest, heq⟩ := List.exists_cons_of_ne_nil text.2.ne_nil
    obtain ⟨hspace, hplain⟩ := text.2.plain (c := c) (by rw [heq]; exact List.mem_cons_self)
    refine ⟨c, rest, heq, hspace, iff_of_false ?_ (by simp [closes])⟩
    rintro (rfl | rfl) <;> exact hplain (by decide)
  | _ => exact ⟨_, [], rfl, by decide, by decide⟩

/-- What comes first after white space tells whether the next token closes. -/
theorem next_closes_iff {before : List Char} (hbefore : ∀ c ∈ before, isSpace c = true)
    (pieces : List (Token × List Char)) :
    (((before ++ layout pieces).dropWhile Text.isWhitespace).head? = some '\x7d' ∨
      ((before ++ layout pieces).dropWhile Text.isWhitespace).head? = some ']') ↔
        ∃ t ∈ (pieces.map Prod.fst).head?, t.closes = true := by
  have hdrop : (before ++ layout pieces).dropWhile Text.isWhitespace =
      (layout pieces).dropWhile Text.isWhitespace :=
    List.dropWhile_append_of_pos fun c hc => isWhitespace_of_isSpace (hbefore c hc)
  rw [hdrop]
  cases pieces with
  | nil => simp
  | cons piece pieces =>
    obtain ⟨t, after⟩ := piece
    obtain ⟨c, rest, htext, hspace, hcloses⟩ := t.text_eq
    rw [layout_cons, htext]
    simp [hspace, ← hcloses]

/-- Where a text leaves off: outside of strings, within one, or there after a backslash. -/
inductive Quoting where
  | outside
  | inside
  | escaped
  deriving DecidableEq

/-- Where it leaves off after another character. -/
def Quoting.next : Quoting → Char → Quoting
  | outside, c => if c = '"' then inside else outside
  | inside, c => if c = '\\' then escaped else if c = '"' then outside else inside
  | escaped, _ => inside

/-- Where it leaves off after more. -/
def Quoting.after (q : Quoting) (text : List Char) : Quoting := text.foldl Quoting.next q

/-- A text that lies within a string from where it begins. -/
def Quoted : Quoting → List Char → Prop
  | _, [] => True
  | q, c :: rest => q ≠ .outside ∧ Quoted (q.next c) rest

@[simp] theorem Quoting.after_nil (q : Quoting) : q.after [] = q := rfl

@[simp] theorem Quoting.after_cons (q : Quoting) (c : Char) (rest : List Char) :
    q.after (c :: rest) = (q.next c).after rest := rfl

theorem Quoting.after_append (q : Quoting) (text rest : List Char) :
    q.after (text ++ rest) = (q.after text).after rest := List.foldl_append

theorem Quoted.append {q : Quoting} {text rest : List Char} (h : Quoted q text)
    (hrest : Quoted (q.after text) rest) : Quoted q (text ++ rest) := by
  induction text generalizing q with
  | nil => exact hrest
  | cons c text ih => exact ⟨h.1, ih h.2 hrest⟩

/-- Characters of a string that neither end it nor are a backslash. -/
theorem quoted_plain {text : List Char} (h : ∀ c ∈ text, c ≠ '"' ∧ c ≠ '\\') :
    Quoted .inside text ∧ Quoting.inside.after text = .inside := by
  induction text with
  | nil => exact ⟨trivial, rfl⟩
  | cons c rest ih =>
    obtain ⟨hquote, hbackslash⟩ := h c List.mem_cons_self
    have hnext : Quoting.inside.next c = .inside := by
      rw [Quoting.next, if_neg hbackslash, if_neg hquote]
    obtain ⟨hquoted, hafter⟩ := ih fun d hd => h d (List.mem_cons_of_mem _ hd)
    refine ⟨⟨by decide, ?_⟩, by rw [Quoting.after_cons, hnext, hafter]⟩
    rw [hnext]
    exact hquoted

/-- Two parts of a string. -/
theorem quoted_append {text rest : List Char}
    (h : Quoted .inside text ∧ Quoting.inside.after text = .inside)
    (hrest : Quoted .inside rest ∧ Quoting.inside.after rest = .inside) :
    Quoted .inside (text ++ rest) ∧ Quoting.inside.after (text ++ rest) = .inside := by
  refine ⟨h.1.append (h.2.symm ▸ hrest.1), ?_⟩
  rw [Quoting.after_append, h.2, hrest.2]

theorem isHexDigit_ne {c : Char} (h : isHexDigit c = true) : c ≠ '"' ∧ c ≠ '\\' := by
  constructor <;> rintro rfl <;> revert h <;> decide

/-- What stands between the quotes of a string lies within it. -/
theorem StringBody.quoted {body : List Char} (h : StringBody body) :
    Quoted .inside body ∧ Quoting.inside.after body = .inside := by
  induction h with
  | nil => exact ⟨trivial, rfl⟩
  | @char c rest hquote hbackslash _ _ ih =>
    have hc : Quoted .inside [c] ∧ Quoting.inside.after [c] = .inside := quoted_plain fun d hd => by
      rw [List.mem_singleton.mp hd]
      exact ⟨hquote, hbackslash⟩
    exact quoted_append hc ih
  | escape _ _ ih => exact ⟨⟨by decide, by decide, ih.1⟩, ih.2⟩
  | unicode _ hdigits _ ih =>
    obtain ⟨hquoted, hafter⟩ :=
      quoted_append (quoted_plain fun c hc => isHexDigit_ne (hdigits c hc)) ih
    exact ⟨⟨by decide, by decide, hquoted⟩, hafter⟩

/-- A text without the white space outside of strings. -/
def compact : Quoting → List Char → List Char
  | _, [] => []
  | q, c :: rest =>
    if q = .outside ∧ isSpace c = true then compact q rest else c :: compact (q.next c) rest

theorem compact_space {text : List Char} (h : ∀ c ∈ text, isSpace c = true) (rest : List Char) :
    compact .outside (text ++ rest) = compact .outside rest := by
  induction text with
  | nil => rfl
  | cons c text ih =>
    rw [List.cons_append, compact, if_pos ⟨rfl, h c List.mem_cons_self⟩,
      ih fun d hd => h d (List.mem_cons_of_mem _ hd)]

/-- A function of where a text leaves off that copies what stands in strings. -/
structure CopiesStrings (f : Quoting → List Char → List Char) : Prop where
  begins : ∀ rest, f .outside ('"' :: rest) = '"' :: f .inside rest
  within : ∀ {q : Quoting} (c : Char) (rest : List Char), q ≠ .outside →
    f q (c :: rest) = c :: f (q.next c) rest

section Copies

variable {f : Quoting → List Char → List Char}

theorem CopiesStrings.quoted (h : CopiesStrings f) {q : Quoting} {text : List Char}
    (hquoted : Quoted q text) (rest : List Char) :
    f q (text ++ rest) = text ++ f (q.after text) rest := by
  induction text generalizing q with
  | nil => rfl
  | cons c text ih =>
    rw [List.cons_append, h.within c _ hquoted.1, ih hquoted.2]
    rfl

/-- A text is copied as a whole where each character outside of strings is. -/
theorem CopiesStrings.eq_self (h : CopiesStrings f) (hnil : ∀ q, f q [] = []) {q : Quoting}
    {text : List Char} (houtside : ∀ before c rest, text = before ++ c :: rest →
      q.after before = .outside → f .outside (c :: rest) = c :: f (Quoting.outside.next c) rest) :
    f q text = text := by
  induction text generalizing q with
  | nil => exact hnil q
  | cons c text ih =>
    have hrest : f (q.next c) text = text := by
      refine ih fun before d rest heq hafter => ?_
      exact houtside (c :: before) d rest (by rw [heq, List.cons_append]) hafter
    by_cases hq : q = .outside
    · subst hq
      rw [houtside [] c text rfl rfl, hrest]
    · rw [h.within c text hq, hrest]

/-- Characters that are copied outside of strings. -/
theorem copies_plain {text : List Char}
    (h : ∀ c ∈ text, ∀ rest, f .outside (c :: rest) = c :: f .outside rest) (rest : List Char) :
    f .outside (text ++ rest) = text ++ f .outside rest := by
  induction text with
  | nil => rfl
  | cons c text ih =>
    rw [List.cons_append, h c List.mem_cons_self, ih fun d hd => h d (List.mem_cons_of_mem _ hd)]
    rfl

/-- A token is copied where the characters are that literals, numbers and punctuation consist of. -/
theorem CopiesStrings.token (h : CopiesStrings f) {t : Token} (rest : List Char)
    (hplain : (∀ body, t ≠ .string body) → ∀ c ∈ t.text, ∀ rest,
      f .outside (c :: rest) = c :: f .outside rest) :
    f .outside (t.text ++ rest) = t.text ++ f .outside rest := by
  cases t with
  | string body =>
    obtain ⟨hquoted, hafter⟩ := body.2.quoted
    have hclose : f .inside ('"' :: rest) = '"' :: f .outside rest := h.within '"' rest (by decide)
    rw [Token.text, List.cons_append, List.append_assoc, List.singleton_append, h.begins,
      h.quoted hquoted, hafter, hclose]
    simp
  | _ => exact copies_plain (hplain (by simp)) rest

end Copies

theorem copiesStrings_compact : CopiesStrings compact where
  begins rest := if_neg (by decide)
  within c rest hq := if_neg fun hc => hq hc.1

theorem compact_token (t : Token) (rest : List Char) :
    compact .outside (t.text ++ rest) = t.text ++ compact .outside rest := by
  refine copiesStrings_compact.token rest fun ht c hc rest => ?_
  obtain ⟨hchar, hquote⟩ := Token.plain ht hc
  have hspace : isSpace c = false := (isSyntax_plain hchar).1
  rw [compact, if_neg (by simp [hspace]), Quoting.next, if_neg hquote]

/-- Texts that spell the same tokens differ in white space only. -/
theorem Spells.compact {tokens : List Token} {text : List Char} (h : Spells tokens text) :
    compact .outside text = tokens.flatMap Token.text := by
  obtain ⟨before, pieces, hbefore, hspace, rfl, rfl⟩ := h
  rw [compact_space hbefore]
  induction pieces with
  | nil => rfl
  | cons piece pieces ih =>
    obtain ⟨t, after⟩ := piece
    rw [layout_cons, compact_token, compact_space (hspace (t, after) List.mem_cons_self),
      ih fun piece hpiece => hspace piece (List.mem_cons_of_mem _ hpiece)]
    rfl

end Json
