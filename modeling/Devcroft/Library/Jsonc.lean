import Devcroft.Library.JsonText

/-!
# JSON with comments

A text of JSON with line comments, block comments and trailing commas, between the tokens
of a JSON text; and what it means that an arbitrary text has none of them.
-/

namespace Json

/-- What may stand between two tokens. -/
inductive Filler where
  | space (c : { c : Char // isSpace c = true })
  /-- A comment up to the end of a line. -/
  | line (body : { body : List Char // '\n' ∉ body })
  /-- A comment up to its end. -/
  | block (body : { body : List Char // ¬['*', '/'] <:+: body })

/-- Its text. -/
def Filler.text : Filler → List Char
  | space c => [c.1]
  | line body => '/' :: '/' :: (body.1 ++ ['\n'])
  | block body => '/' :: '*' :: (body.1 ++ ['*', '/'])

/-- The text of several. -/
def gap (fillers : List Filler) : List Char := fillers.flatMap Filler.text

/-- Tokens with commas before some of the brackets that close an array or an object; there is
something in it when the token before the bracket does not open it. -/
inductive Trailing : List Token → List Token → Prop
  | nil : Trailing [] []
  | keep (t : Token) {tokens tokens' : List Token} (h : Trailing tokens tokens') :
      Trailing (t :: tokens) (t :: tokens')
  | comma {t close : Token} {tokens tokens' : List Token} (ht : t.opens = false)
      (hclose : close.closes = true) (h : Trailing (close :: tokens) tokens') :
      Trailing (t :: close :: tokens) (t :: .valueSeparator :: tokens')

/-- A text of tokens, with comments and white space around each, and with trailing commas. -/
def Decorates (tokens : List Token) (text : List Char) : Prop :=
  ∃ (before : List Filler) (pieces : List (Token × List Filler)),
    Trailing tokens (pieces.map Prod.fst) ∧
      text = gap before ++ layout (pieces.map fun piece => (piece.1, gap piece.2))

/-- No comment begins, outside of strings. -/
def Uncommented (q : Quoting) (text : List Char) : Prop :=
  ∀ before c rest, text = before ++ '/' :: c :: rest → q.after before = .outside → c ≠ '/' ∧ c ≠ '*'

/-- No comma outside of strings has nothing but white space up to a closing bracket. -/
def Untrailed (q : Quoting) (text : List Char) : Prop :=
  ∀ before space c rest, text = before ++ ',' :: (space ++ c :: rest) →
    q.after before = .outside → (∀ b ∈ space, Text.isWhitespace b = true) → c ≠ '\x7d' ∧ c ≠ ']'

/-- Trailing commas leave the first token as it is. -/
theorem Trailing.head? {tokens tokens' : List Token} (h : Trailing tokens tokens') :
    tokens'.head? = tokens.head? := by
  cases h <;> rfl

end Json
