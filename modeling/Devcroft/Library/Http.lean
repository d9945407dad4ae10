import Devcroft.Library.Hex
import Devcroft.Library.Utf8

/-!
# HTTP responses

The bytes of a response: the lines of its head, an empty line, and its content, which
stands there as it is or in chunks. What is there but the content is text.
-/

namespace Http

/-- The end of a line. -/
def crlf : List Char := ['\r', '\n']

/-- `tchar`. -/
def isTokenChar (c : Char) : Bool := c.isAlphanum || c ∈ "!#$%&'*+-.^_`|~".toList

/-- `token`. -/
def IsToken (text : List Char) : Prop := text ≠ [] ∧ ∀ c ∈ text, isTokenChar c = true

/-- `BWS`, white space that is tolerated. -/
def IsBlank (text : List Char) : Prop := ∀ c ∈ text, c = ' ' ∨ c = '\t'

/-- What is no control character. -/
def isPrintable (c : Char) : Bool := c = '\t' || (0x20 ≤ c.toNat && c.toNat ≠ 0x7F)

/-- What may stand between the quotes of a `quoted-string`. -/
inductive Quoted : List Char → Prop
  | nil : Quoted []
  | char {c : Char} {rest : List Char} (hquote : c ≠ '"') (hbackslash : c ≠ '\\')
      (hc : isPrintable c = true) (h : Quoted rest) : Quoted (c :: rest)
  | pair {c : Char} {rest : List Char} (hc : isPrintable c = true) (h : Quoted rest) :
      Quoted ('\\' :: c :: rest)

/-- `chunk-ext-val`. -/
inductive IsExtensionValue : List Char → Prop
  | token {text : List Char} (h : IsToken text) : IsExtensionValue text
  | quoted {text : List Char} (h : Quoted text) : IsExtensionValue ('"' :: (text ++ ['"']))

/-- What may stand after the name of an extension. -/
inductive IsAssignment : List Char → Prop
  | nil : IsAssignment []
  | value {blank blank' value : List Char} (hblank : IsBlank blank) (hblank' : IsBlank blank')
      (hvalue : IsExtensionValue value) : IsAssignment (blank ++ '=' :: (blank' ++ value))

/-- One of the extensions of a chunk. -/
inductive IsExtension : List Char → Prop
  | mk {blank blank' name assignment : List Char} (hblank : IsBlank blank)
      (hblank' : IsBlank blank') (hname : IsToken name) (hassignment : IsAssignment assignment) :
      IsExtension (blank ++ ';' :: (blank' ++ (name ++ assignment)))

/-- A line of a head or of a trailer. -/
def IsLine (line : List Char) : Prop := line ≠ [] ∧ '\r' ∉ line ∧ '\n' ∉ line

/-- Lines up to an empty one. -/
def lines (content : List { line : List Char // IsLine line }) : List Char :=
  content.flatMap (fun line => line.1 ++ crlf) ++ crlf

/-- `chunk`. -/
structure Chunk where
  size : List Char
  extensions : List { text : List Char // IsExtension text }
  data : List UInt8
  isSize : ∀ c ∈ size, c ∈ "0123456789abcdefABCDEF".toList
  value_size : Hex.value size = data.length
  data_ne_nil : data ≠ []

/-- The line that its size stands in. -/
def Chunk.line (chunk : Chunk) : List Char :=
  chunk.size ++ (chunk.extensions.flatMap Subtype.val ++ crlf)

/-- Its bytes. -/
def Chunk.bytes (chunk : Chunk) : List UInt8 :=
  Utf8.encode (String.ofList chunk.line) ++ (chunk.data ++ Utf8.encode "\r\n")

/-- `last-chunk` and what follows it. -/
structure LastChunk where
  /-- How many zeros there are behind the first. -/
  zeros : ℕ
  extensions : List { text : List Char // IsExtension text }
  trailer : List { line : List Char // IsLine line }

/-- Its text. -/
def LastChunk.text (last : LastChunk) : List Char :=
  '0' :: (List.replicate last.zeros '0' ++
    (last.extensions.flatMap Subtype.val ++ (crlf ++ lines last.trailer)))

/-- How a content stands in the body of a response. -/
inductive Framing where
  | identity
  | chunked
  deriving DecidableEq

/-- A body that carries a content. -/
inductive Carries : Framing → List UInt8 → List UInt8 → Prop
  | identity (content : List UInt8) : Carries .identity content content
  | chunked (chunks : List Chunk) (last : LastChunk) :
      Carries .chunked (chunks.flatMap Chunk.data)
        (chunks.flatMap Chunk.bytes ++ Utf8.encode (String.ofList last.text))

/-- A response that carries a content. -/
def IsResponse (framing : Framing) (content raw : List UInt8) : Prop :=
  ∃ (head : List { line : List Char // IsLine line }) (body : List UInt8), head ≠ [] ∧
    Carries framing content body ∧ raw = Utf8.encode (String.ofList (lines head)) ++ body

/-- An extension has a semicolon behind white space. -/
theorem IsExtension.exists_semicolon {text : List Char} (h : IsExtension text) :
    ∃ blank rest, text = blank ++ ';' :: rest ∧ IsBlank blank := by
  obtain ⟨hblank, -, -, -⟩ := h
  exact ⟨_, _, rfl, hblank⟩

/-- The data of a chunk is a text where the response is one. -/
theorem Chunk.exists_data {chunk : Chunk} {text : String} {rest : List UInt8}
    (h : Utf8.encode text = chunk.bytes ++ rest) : ∃ data after : String,
      text.toList = chunk.line ++ (data.toList ++ (crlf ++ after.toList)) ∧
        Utf8.encode data = chunk.data ∧ Utf8.encode after = rest := by
  rw [Chunk.bytes, List.append_assoc, List.append_assoc] at h
  obtain ⟨behind, rfl, hbehind⟩ := Utf8.exists_append_of_encode h
  obtain ⟨data, after, rfl, hdata, hafter⟩ := Utf8.exists_of_encode (by decide) hbehind
  refine ⟨data, after, ?_, hdata, hafter⟩
  rw [String.toList_append, String.toList_append, String.toList_append, String.toList_ofList]
  rfl

@[simp] theorem lines_nil : lines [] = crlf := rfl

theorem lines_cons (line : { line : List Char // IsLine line })
    (content : List { line : List Char // IsLine line }) :
    lines (line :: content) = line.1 ++ (crlf ++ lines content) := by
  rw [lines, List.flatMap_cons, List.append_assoc, List.append_assoc, ← lines]

/-- The first empty line is the one that the lines end with. -/
theorem lines_length_le {content : List { line : List Char // IsLine line }}
    {before after rest : List Char} (hcontent : content ≠ [])
    (h : lines content ++ after = before ++ (crlf ++ (crlf ++ rest))) :
    (lines content).length ≤ before.length + 4 := by
  induction content generalizing before with
  | nil => exact (hcontent rfl).elim
  | cons line content ih =>
    rw [lines_cons, List.append_assoc] at h
    rcases Text.append_eq_append_cons h with ⟨m, rfl, hm⟩ | ⟨y, hy⟩
    · cases content with
      | nil =>
        rw [lines_cons, lines_nil]
        simp only [List.length_append]
        exact Nat.le_trans (by simp [crlf]) (Nat.add_le_add_right (Nat.le_add_right _ m.length) 4)
      | cons line' content =>
        -- The line begins with something else than the end of a line.
        obtain ⟨c, tail, hline'⟩ := List.exists_cons_of_ne_nil line'.2.1
        have hc : c ≠ '\r' := by
          rintro rfl
          exact line'.2.2.1 (by rw [hline']; exact List.mem_cons_self)
        match m, hm with
        | [], hm =>
          rw [lines_cons, hline'] at hm
          simp [crlf, hc] at hm
        | [_], hm => simp [crlf] at hm
        | _ :: _ :: m, hm =>
          have hlines : lines (line' :: content) ++ after = m ++ (crlf ++ (crlf ++ rest)) := by
            simpa [crlf] using (List.cons.inj (List.cons.inj hm).2).2
          have hrest := ih (List.cons_ne_nil _ _) hlines
          rw [lines_cons line]
          simp only [List.length_append, List.length_cons, crlf, List.length_nil] at hrest ⊢
          omega
    · exact (line.2.2.1 (by rw [hy]; exact List.mem_append_right _ List.mem_cons_self)).elim

/-- Lines end with an empty one. -/
theorem exists_lines_eq {content : List { line : List Char // IsLine line }} (h : content ≠ []) :
    ∃ before, lines content = before ++ (crlf ++ crlf) := by
  obtain ⟨content, line, rfl⟩ := List.eq_nil_or_concat content |>.resolve_left h
  refine ⟨content.flatMap (fun line => line.1 ++ crlf) ++ line.1, ?_⟩
  simp [lines, List.flatMap_append]

/-- The body begins behind the first empty line. -/
theorem find_lines {content : List { line : List Char // IsLine line }} (h : content ≠ [])
    (body : String) : ∃ i, Text.find "\r\n\r\n" (String.ofList (lines content) ++ body) = some i ∧
      Text.sliceFrom (i + 4) (String.ofList (lines content) ++ body) = body := by
  obtain ⟨before, hbefore⟩ := exists_lines_eq h
  have hlength : (lines content).length = before.length + 4 := by
    rw [hbefore, List.length_append]
    rfl
  have htext : (String.ofList (lines content) ++ body).toList = lines content ++ body.toList := by
    rw [String.toList_append, String.toList_ofList]
  refine ⟨before.length, Text.find_eq_some_iff.mpr ⟨String.ofList before, ?_, ?_, ?_⟩, ?_⟩
  · rw [String.toList_ofList]
  · rw [htext, String.toList_append, String.toList_ofList, hbefore]
    exact List.prefix_append _ _
  · rintro shorter ⟨after, hafter⟩
    rw [htext, String.toList_append, List.append_assoc] at hafter
    have hle := lines_length_le h hafter.symm
    rw [String.toList_ofList]
    omega
  · apply Text.ext
    rw [Text.sliceFrom, htext, String.toList_ofList, ← hlength, List.drop_left]

end Http
