import Devcroft.Library.Http
import Devcroft.Library.JsonNesting
import Devcroft.Services.State

/-!
# The framing of the supervisor's response

`query` takes the document to be what there is from the first brace of the body on, whether it
is sent as it is or in chunks. In chunks the size of the last chunk comes behind it, which is no
part of a JSON text; and before that the lines between the chunks leave the object open.
-/

namespace Devcroft.Services

open Json

/-- No brace and no backslash stands outside of quotes. -/
def Foreign : Quoting → List Char → Prop
  | _, [] => True
  | q, c :: rest => (q = .outside → c ≠ '\x7b' ∧ c ≠ '\\') ∧ Foreign (q.next c) rest

/-- All quotes are closed, with no brace and no backslash outside of them. -/
def Closed (text : List Char) : Prop :=
  Foreign .outside text ∧ Quoting.outside.after text = .outside

theorem Foreign.append {q : Quoting} {text rest : List Char} (h : Foreign q text)
    (hrest : Foreign (q.after text) rest) : Foreign q (text ++ rest) := by
  induction text generalizing q with
  | nil => exact hrest
  | cons c text ih => exact ⟨h.1, ih h.2 hrest⟩

/-- What is left of such a text is such a text. -/
theorem Foreign.of_append {q : Quoting} {text rest : List Char} (h : Foreign q (text ++ rest)) :
    Foreign (q.after text) rest := by
  induction text generalizing q with
  | nil => exact h
  | cons c text ih => exact ih h.2

/-- A character within quotes. -/
theorem Foreign.within {q : Quoting} {c : Char} {rest : List Char} (h : Foreign (q.next c) rest)
    (hq : q ≠ .outside) : Foreign q (c :: rest) := ⟨fun houtside => (hq houtside).elim, h⟩

theorem Closed.append {text rest : List Char} (h : Closed text) (hrest : Closed rest) :
    Closed (text ++ rest) :=
  ⟨h.1.append (h.2.symm ▸ hrest.1), by rw [Quoting.after_append, h.2, hrest.2]⟩

/-- Characters without quotes. -/
theorem closed_plain {text : List Char} (h : ∀ c ∈ text, c ∉ ['"', '\x7b', '\\']) :
    Closed text := by
  induction text with
  | nil => exact ⟨trivial, rfl⟩
  | cons c text ih =>
    have hc := h c List.mem_cons_self
    simp only [List.mem_cons, List.not_mem_nil, or_false, not_or] at hc
    obtain ⟨hforeign, hafter⟩ := ih fun d hd => h d (List.mem_cons_of_mem _ hd)
    have hnext : Quoting.outside.next c = .outside := if_neg hc.1
    refine ⟨⟨fun _ => hc.2, ?_⟩, by rw [Quoting.after_cons, hnext, hafter]⟩
    rw [hnext]
    exact hforeign

/-- A quoted string. -/
theorem closed_quoted {text : List Char} (h : Http.Quoted text) :
    Closed ('"' :: (text ++ ['"'])) := by
  have hbody : Foreign .inside text ∧ Quoting.inside.after text = .inside := by
    induction h with
    | nil => exact ⟨trivial, rfl⟩
    | @char c rest hquote hbackslash _ _ ih =>
      have hnext : Quoting.inside.next c = .inside := by
        rw [Quoting.next, if_neg hbackslash, if_neg hquote]
      have hrest : Foreign (Quoting.inside.next c) rest := by
        rw [hnext]
        exact ih.1
      exact ⟨hrest.within (by decide), by rw [Quoting.after_cons, hnext, ih.2]⟩
    | @pair c rest _ _ ih =>
      have hrest : Foreign .escaped (c :: rest) := Foreign.within ih.1 (by decide)
      exact ⟨Foreign.within (q := .inside) (c := '\\') hrest (by decide), ih.2⟩
  have hend : Foreign (Quoting.inside.after text) ['"'] := by
    rw [hbody.2]
    exact Foreign.within trivial (by decide)
  refine ⟨⟨fun _ => by decide, hbody.1.append hend⟩, ?_⟩
  have hafter : Quoting.inside.after (text ++ ['"']) = .outside := by
    rw [Quoting.after_append, hbody.2]
    rfl
  exact hafter

theorem closed_token {text : List Char} (h : Http.IsToken text) : Closed text := by
  refine closed_plain fun c hc hmem => ?_
  have htoken := h.2 c hc
  simp only [List.mem_cons, List.not_mem_nil, or_false] at hmem
  rcases hmem with rfl | rfl | rfl <;> revert htoken <;> decide

theorem closed_blank {text : List Char} (h : Http.IsBlank text) : Closed text := by
  refine closed_plain fun c hc => ?_
  rcases h c hc with rfl | rfl <;> decide

/-- The extensions of a chunk. -/
theorem closed_extension {text : List Char} (h : Http.IsExtension text) : Closed text := by
  obtain ⟨hblank, hblank', hname, hassignment⟩ := h
  have hsemicolon : Closed [';'] := closed_plain (Text.forall_mem (by decide))
  have hequals : Closed ['='] := closed_plain (Text.forall_mem (by decide))
  refine (closed_blank hblank).append (hsemicolon.append ((closed_blank hblank').append
    ((closed_token hname).append ?_)))
  cases hassignment with
  | nil => exact ⟨trivial, rfl⟩
  | value hblank hblank' hvalue =>
    refine (closed_blank hblank).append (hequals.append ((closed_blank hblank').append ?_))
    cases hvalue with
    | token h => exact closed_token h
    | quoted h => exact closed_quoted h

theorem closed_extensions (extensions : List { text : List Char // Http.IsExtension text }) :
    Closed (extensions.flatMap Subtype.val) := by
  induction extensions with
  | nil => exact ⟨trivial, rfl⟩
  | cons extension extensions ih =>
    rw [List.flatMap_cons]
    exact (closed_extension extension.2).append ih

/-- Two readers of a text of which one is within quotes where the other is not stay so, where
neither comes upon a backslash outside of them. -/
theorem after_opposite {q r : Quoting} {text : List Char} (hq : Foreign q text)
    (hr : ∀ before c rest, text = before ++ c :: rest → r.after before = .outside → c ≠ '\\')
    (h : q = .inside ∧ r = .outside ∨ q = .outside ∧ r = .inside) :
    q.after text = .inside ∧ r.after text = .outside ∨
      q.after text = .outside ∧ r.after text = .inside := by
  induction text generalizing q r with
  | nil => exact h
  | cons c text ih =>
    have hbackslash : c ≠ '\\' := by
      rcases h with ⟨-, rfl⟩ | ⟨rfl, -⟩
      · exact hr [] c text rfl rfl
      · exact (hq.1 rfl).2
    refine ih hq.2 (fun before d rest heq => hr (c :: before) d rest (by rw [heq]; rfl)) ?_
    by_cases hquote : c = '"'
    · rcases h with ⟨rfl, rfl⟩ | ⟨rfl, rfl⟩ <;> simp [Quoting.next, hquote]
    · rcases h with ⟨rfl, rfl⟩ | ⟨rfl, rfl⟩ <;> simp [Quoting.next, hquote, hbackslash]

/-- What there is from the first brace on. -/
def fromBrace (text : List Char) : List Char := text.dropWhile (· ≠ '\x7b')

/-- A text with a brace is cut at the first. -/
theorem exists_fromBrace {text : List Char} (h : '\x7b' ∈ text) : ∃ before rest,
    text = before ++ '\x7b' :: rest ∧ '\x7b' ∉ before ∧ fromBrace text = '\x7b' :: rest := by
  have hcut := List.takeWhile_append_dropWhile (p := fun c => decide (c ≠ '\x7b')) (l := text)
  have hhead := List.head?_dropWhile_not (fun c => decide (c ≠ '\x7b')) text
  cases hdrop : text.dropWhile fun c => decide (c ≠ '\x7b') with
  | nil => exact (Text.dropWhile_ne_eq_nil_iff.mp hdrop h).elim
  | cons c rest =>
    rw [hdrop] at hcut hhead
    obtain rfl : c = '\x7b' := by simpa using hhead
    refine ⟨_, rest, hcut.symm, fun hmem => ?_, hdrop⟩
    simpa using List.mem_takeWhile_imp hmem

theorem fromBrace_append_of_mem {text : List Char} (h : '\x7b' ∈ text) (rest : List Char) :
    fromBrace (text ++ rest) = fromBrace text ++ rest := by
  have hne : text.dropWhile (fun c => decide (c ≠ '\x7b')) ≠ [] :=
    fun hnil => Text.dropWhile_ne_eq_nil_iff.mp hnil h
  rw [fromBrace, List.dropWhile_append, if_neg (by simpa using hne), fromBrace]

theorem fromBrace_append_of_notMem {text : List Char} (h : '\x7b' ∉ text) (rest : List Char) :
    fromBrace (text ++ rest) = fromBrace rest := by
  refine List.dropWhile_append_of_pos fun c hc => ?_
  have hne : c ≠ '\x7b' := by
    rintro rfl
    exact h hc
  simpa using hne

/-- What begins within an extension is no JSON text: its quotes are closed where the text
has a string begin. -/
theorem not_spells_extension {text rest : List Char} (h : Closed text) (hbrace : '\x7b' ∈ text)
    (tokens : List Token) : ¬Spells tokens (fromBrace text ++ '\r' :: rest) := by
  intro hspells
  obtain ⟨before, tail, rfl, -, hfrom⟩ := exists_fromBrace hbrace
  rw [hfrom] at hspells
  obtain ⟨tokens₁, tokens₂, -, hspells₁, -⟩ := hspells.cut (by decide)
  have houtside : Quoting.outside.after tail = .outside := hspells₁.depth.1
  -- The brace is in quotes, for the reader of the extensions.
  have hforeign := h.1.of_append
  have hinside : (Quoting.outside.after before).next '\x7b' = .inside := by
    cases hq : Quoting.outside.after before with
    | outside =>
      rw [hq] at hforeign
      exact ((hforeign.1 rfl).1 rfl).elim
    | inside => rfl
    | escaped => rfl
  have hclosed := h.2
  rw [Quoting.after_append, Quoting.after_cons, hinside] at hclosed
  have htail : Foreign .inside tail := hinside ▸ hforeign.2
  have hbackslash : ∀ front c behind, tail = front ++ c :: behind →
      Quoting.outside.after front = .outside → c ≠ '\\' := by
    rintro front c behind rfl hfront rfl
    have hspells : Spells tokens₁ (('\x7b' :: front) ++ '\\' :: behind) := hspells₁
    have hchar := hspells.isSyntax hfront
    revert hchar
    decide
  rcases after_opposite htail hbackslash (Or.inl ⟨rfl, rfl⟩) with ⟨hq, -⟩ | ⟨-, hr⟩
  · rw [hq] at hclosed
    cases hclosed
  · rw [hr] at houtside
    cases houtside

/-- White space and hexadecimal digits. -/
theorem plain_of_mem {c : Char} (h : c ∈ " \t\r\n0123456789abcdefABCDEF".toList) :
    c ∉ ['"', '[', ']', '\x7b', '\x7d'] := by
  have hall : ∀ c ∈ " \t\r\n0123456789abcdefABCDEF".toList,
      c ∉ ['"', '[', ']', '\x7b', '\x7d'] := Text.forall_mem (by decide)
  exact hall c h

/-- The line of a chunk without extensions. -/
theorem size_plain (chunk : Http.Chunk) :
    Quoting.outside.after (Http.crlf ++ (chunk.size ++ Http.crlf)) = .outside ∧
      depth .outside (Http.crlf ++ (chunk.size ++ Http.crlf)) = 0 := by
  refine depth_plain fun c hc => plain_of_mem ?_
  have hcrlf : ∀ c ∈ Http.crlf, c ∈ " \t\r\n0123456789abcdefABCDEF".toList :=
    Text.forall_mem (by decide)
  rcases List.mem_append.mp hc with hc | hc
  · exact hcrlf c hc
  rcases List.mem_append.mp hc with hc | hc
  · exact List.mem_append_right [' ', '\t', '\r', '\n'] (chunk.isSize c hc)
  · exact hcrlf c hc

/-- A line between two chunks has the size only, where a JSON text goes on behind it. -/
theorem extensions_eq_nil {tokens : List Token} {before rest : List Char} (chunk : Http.Chunk)
    (h : Spells tokens (before ++ (Http.crlf ++ (chunk.line ++ rest)))) :
    chunk.extensions = [] := by
  cases hextensions : chunk.extensions with
  | nil => rfl
  | cons extension extensions =>
    exfalso
    obtain ⟨blank, after, hextension, hblank⟩ := extension.2.exists_semicolon
    have hline : chunk.line = chunk.size ++ (blank ++ ';' :: (after ++
        (extensions.flatMap Subtype.val ++ Http.crlf))) := by
      rw [Http.Chunk.line, hextensions, List.flatMap_cons, hextension]
      simp
    have hfront : before ++ (Http.crlf ++ (chunk.line ++ rest)) =
        (before ++ (Http.crlf ++ (chunk.size ++ blank))) ++ ';' ::
          (after ++ (extensions.flatMap Subtype.val ++ Http.crlf) ++ rest) := by
      rw [hline]
      simp
    have hline' : Spells tokens (before ++ '\r' :: ('\n' :: (chunk.line ++ rest))) := h
    obtain ⟨tokens₁, tokens₂, -, hbefore, -⟩ := hline'.cut (by decide)
    have hplain : Quoting.outside.after (Http.crlf ++ (chunk.size ++ blank)) = .outside := by
      refine (depth_plain fun c hc => plain_of_mem ?_).1
      rcases List.mem_append.mp hc with hc | hc
      · exact List.mem_append_left _ (List.mem_append_right [' ', '\t'] hc)
      rcases List.mem_append.mp hc with hc | hc
      · exact List.mem_append_right [' ', '\t', '\r', '\n'] (chunk.isSize c hc)
      · rcases hblank c hc with rfl | rfl <;> decide
    rw [hfront] at h
    have hchar := h.isSyntax (by rw [Quoting.after_append, hbefore.depth.1, hplain])
    revert hchar
    decide

/-- A text that ends where a line does, in a text of tokens, ends outside of strings. -/
theorem after_of_spells {tokens : List Token} {before rest : List Char}
    (h : Spells tokens (before ++ (Http.crlf ++ rest))) :
    Quoting.outside.after before = .outside := by
  have hcut : Spells tokens (before ++ '\r' :: ('\n' :: rest)) := h
  obtain ⟨tokens₁, tokens₂, -, hbefore, -⟩ := hcut.cut (by decide)
  exact hbefore.depth.1

/-- Up to the last chunk, the lines between the chunks change nothing about how deep the text is
nested. -/
theorem exists_depth {last : Http.LastChunk} {tokens : List Token} {chunks : List Http.Chunk}
    {before : List Char} {body doc : String}
    (hbody : Utf8.encode body =
      chunks.flatMap Http.Chunk.bytes ++ Utf8.encode (String.ofList last.text))
    (hdoc : Utf8.encode doc = chunks.flatMap Http.Chunk.data)
    (h : Spells tokens (before ++ (Http.crlf ++ body.toList))) :
    ∃ more, Http.crlf ++ body.toList = more ++ (Http.crlf ++ last.text) ∧
      depth .outside (before ++ more) = depth .outside before + depth .outside doc.toList := by
  induction chunks generalizing before body doc with
  | nil =>
    have hempty : doc = "" := Utf8.encode_eq_nil_iff.mp hdoc
    have hlast : body = String.ofList last.text := Utf8.encode_injective hbody
    refine ⟨[], by rw [hlast, String.toList_ofList, List.nil_append], ?_⟩
    rw [List.append_nil, hempty]
    exact (add_zero _).symm
  | cons chunk chunks ih =>
    rw [List.flatMap_cons, List.append_assoc] at hbody
    obtain ⟨data, after, htext, hdata, hafter⟩ := chunk.exists_data hbody
    rw [List.flatMap_cons, ← hdata] at hdoc
    obtain ⟨doc, rfl, hrest⟩ := Utf8.exists_append_of_encode hdoc
    rw [htext] at h
    have hline : chunk.line = chunk.size ++ Http.crlf := by
      rw [Http.Chunk.line, extensions_eq_nil chunk h]
      rfl
    obtain ⟨hbetween, hlevel⟩ := size_plain chunk
    -- What is behind the data is the end of a line, so that the data ends outside of strings.
    have hnext : Spells tokens ((before ++ (Http.crlf ++ (chunk.size ++ Http.crlf)) ++
        data.toList) ++ (Http.crlf ++ after.toList)) := by
      rw [hline] at h
      simpa using h
    have hbefore := after_of_spells h
    have hinner := after_of_spells hnext
    rw [Quoting.after_append, Quoting.after_append, hbefore, hbetween] at hinner
    obtain ⟨more, hmore, hdepth⟩ := ih hafter hrest hnext
    refine ⟨Http.crlf ++ (chunk.size ++ Http.crlf) ++ data.toList ++ more, ?_, ?_⟩
    · rw [htext, hline, List.append_assoc _ more, ← hmore]
      simp
    · have hsplit : before ++ (Http.crlf ++ (chunk.size ++ Http.crlf) ++ data.toList ++ more) =
          before ++ (Http.crlf ++ (chunk.size ++ Http.crlf)) ++ data.toList ++ more := by simp
      rw [hsplit, hdepth, depth_append, depth_append, Quoting.after_append, hbefore, hbetween,
        hlevel, String.toList_append, depth_append, hinner]
      omega

/-- An object of which a part is in further chunks is followed by the size of the last one. -/
theorem not_spells_object {last : Http.LastChunk} {chunks : List Http.Chunk} {body doc : String}
    {tokens tokens' : List Token} {tail : List Char} (hbody : Utf8.encode body =
      chunks.flatMap Http.Chunk.bytes ++ Utf8.encode (String.ofList last.text))
    (hdoc : Utf8.encode doc = chunks.flatMap Http.Chunk.data) (hderives : Derives .value tokens)
    (hspells : Spells tokens ('\x7b' :: tail ++ doc.toList)) (hderives' : Derives .value tokens') :
    ¬Spells tokens' ('\x7b' :: tail ++ (Http.crlf ++ body.toList)) := by
  intro h
  have hbefore := after_of_spells h
  obtain ⟨more, hmore, hdepth⟩ := exists_depth hbody hdoc h
  -- The document itself is not nested at its end.
  have hzero : depth .outside ('\x7b' :: tail ++ more) = 0 := by
    have hlevel := hspells.depth.2
    rw [depth_append, hbefore, hderives.balanced.level_eq] at hlevel
    rw [hdepth, hlevel]
  have hcut : Spells tokens' (('\x7b' :: tail ++ more) ++ '\r' :: ('\n' :: last.text)) := by
    rw [hmore, ← List.append_assoc] at h
    exact h
  obtain ⟨tokens₁, tokens₂, rfl, hobject, hlast⟩ := hcut.cut (by decide)
  have hne : tokens₂ ≠ [] := by
    rintro rfl
    have hspace := hlast.isSpace '0' (by simp [Http.LastChunk.text])
    revert hspace
    decide
  have hpos := hderives'.level_pos hobject.head? hne
  rw [← hobject.depth.2, hzero] at hpos
  exact absurd hpos (lt_irrefl 0)

/-- What there is from the first brace of a chunked object on is no JSON text. -/
theorem not_isText_chunked {last : Http.LastChunk} {chunks : List Http.Chunk} {body doc : String}
    {tokens : List Token} (hbody : Utf8.encode body =
      chunks.flatMap Http.Chunk.bytes ++ Utf8.encode (String.ofList last.text))
    (hdoc : Utf8.encode doc = chunks.flatMap Http.Chunk.data) (hbrace : '\x7b' ∈ doc.toList)
    (hderives : Derives .value tokens) (hspells : Spells tokens (fromBrace doc.toList)) :
    ¬IsText (fromBrace body.toList) := by
  rintro ⟨tokens', hderives', hspells'⟩
  induction chunks generalizing body doc with
  | nil =>
    have hempty : doc = "" := Utf8.encode_eq_nil_iff.mp hdoc
    rw [hempty] at hbrace
    cases hbrace
  | cons chunk chunks ih =>
    rw [List.flatMap_cons, List.append_assoc] at hbody
    obtain ⟨data, after, htext, hdata, hafter⟩ := chunk.exists_data hbody
    rw [List.flatMap_cons, ← hdata] at hdoc
    obtain ⟨doc, rfl, hrest⟩ := Utf8.exists_append_of_encode hdoc
    have hcrlf : '\x7b' ∉ Http.crlf := by decide
    have hsize : '\x7b' ∉ chunk.size := by
      intro hmem
      have hdigit := chunk.isSize _ hmem
      revert hdigit
      decide
    rw [String.toList_append] at hbrace hspells
    rw [htext, Http.Chunk.line, List.append_assoc, fromBrace_append_of_notMem hsize,
      List.append_assoc] at hspells'
    -- The brace is in the extensions, in the data, or in a later chunk.
    by_cases hextensions : '\x7b' ∈ chunk.extensions.flatMap Subtype.val
    · rw [fromBrace_append_of_mem hextensions] at hspells'
      exact not_spells_extension (closed_extensions _) hextensions tokens' hspells'
    rw [fromBrace_append_of_notMem hextensions, fromBrace_append_of_notMem hcrlf] at hspells'
    by_cases hin : '\x7b' ∈ data.toList
    · obtain ⟨before, tail, -, -, hfrom⟩ := exists_fromBrace hin
      rw [fromBrace_append_of_mem hin, hfrom] at hspells hspells'
      exact not_spells_object hafter hrest hderives hspells hderives' hspells'
    · rw [fromBrace_append_of_notMem hin] at hspells hspells'
      rw [fromBrace_append_of_notMem hcrlf] at hspells'
      exact ih hafter hrest ((List.mem_append.mp hbrace).resolve_left hin) hspells hspells'

/-- What `query` relies on of `serde_json::from_str`. -/
structure ReadsJson (fromStr : String → Except String Value) : Prop where
  /-- It accepts JSON texts only, and reads those of objects as objects. -/
  isText : ∀ text v, fromStr text = .ok v → ∃ tokens, Derives .value tokens ∧
    Spells tokens text.toList ∧ ∀ entries, v = .object entries → tokens.head? = some .beginObject
  /-- White space before a text makes no difference to it. -/
  space : ∀ space text : String, (∀ c ∈ space.toList, isSpace c = true) →
    (fromStr (space ++ text)).toOption = (fromStr text).toOption

/-- The items that a document has. -/
def items? (v : Value) : Option (List Value) := (v.get "data").bind Value.asArray

/-- `query` reads what there is from the first brace of the body on. -/
theorem Peer.items_eq_ok_iff {peer : Peer} {head : List { line : List Char // Http.IsLine line }}
    (hhead : head ≠ []) {body : String} {found : List Value} :
    peer.items (Utf8.encode (String.ofList (Http.lines head) ++ body)) = .ok found ↔
      '\x7b' ∈ body.toList ∧
        ∃ v, peer.fromStr (String.ofList (fromBrace body.toList)) = .ok v ∧
          items? v = some found := by
  obtain ⟨i, hfind, hslice⟩ := Http.find_lines hhead body
  rw [items, Utf8.decodeLossy_encode]
  simp only [hfind, hslice, bind, Except.bind, step]
  by_cases hbrace : '\x7b' ∈ body.toList
  · obtain ⟨before, rest, hbody, hbefore, hfrom⟩ := exists_fromBrace hbrace
    have hstart : Text.find "\x7b" body = some before.length := Text.find_singleton hbefore hbody
    have hdrop : Text.sliceFrom before.length body = String.ofList (fromBrace body.toList) := by
      rw [Text.sliceFrom, hbody, List.drop_left, ← hbody, hfrom]
    simp only [hstart, hdrop, hbrace, true_and]
    cases hparse : peer.fromStr (String.ofList (fromBrace body.toList)) with
    | error e => simp [Except.mapError]
    | ok v =>
      simp only [Except.mapError, items?]
      cases hdata : (v.get "data").bind Value.asArray with
      | none => simp [hdata]
      | some data => simp [hdata, pure, Except.pure]
  · have hnone : Text.find "\x7b" body = none := by
      refine Text.find_eq_none_iff.mpr fun hthere => hbrace (hthere.subset ?_)
      exact List.mem_singleton_self _
    simp [hnone, hbrace]

/-- What `query` makes of the items. -/
theorem Peer.query_eq_ok_iff {peer : Peer} {socket : String} {raw : List UInt8}
    (hraw : peer.receive socket = .ok raw) {states : List ServiceState} :
    peer.query socket = .ok states ↔ ∃ found, peer.items raw = .ok found ∧
      (found.filterMap ServiceState.fromJson).insertionSort (fun a b => a.name ≤ b.name) =
        states := by
  simp only [query, hraw, bind, Except.bind]
  cases peer.items raw with
  | error e => simp
  | ok found => simp [pure, Except.pure]

/-- A value that has items is an object. -/
theorem exists_object {v : Value} {found : List Value} (h : items? v = some found) :
    ∃ entries, v = .object entries := by
  cases v with
  | object entries => exact ⟨entries, rfl⟩
  | _ => cases h

/-- The states of the services in a document are what `query` returns exactly where the response has
the document as it is: of a document that is sent in chunks it returns nothing. -/
theorem query_exact_iff (peer : Peer) (hfromStr : ReadsJson peer.fromStr) {socket doc : String}
    {framing : Http.Framing} {raw : List UInt8} {v : Value} {found : List Value}
    (hraw : peer.receive socket = .ok raw) (hvalid : (Utf8.decode raw).isSome = true)
    (hresponse : Http.IsResponse framing (Utf8.encode doc) raw) (hdoc : peer.fromStr doc = .ok v)
    (hfound : items? v = some found) :
    peer.query socket = .ok ((found.filterMap ServiceState.fromJson).insertionSort
      fun a b => a.name ≤ b.name) ↔ framing = .identity := by
  obtain ⟨text, rfl⟩ := Utf8.isSome_decode_iff.mp hvalid
  obtain ⟨head, bytes, hhead, hcarries, hbytes⟩ := hresponse
  obtain ⟨body, rfl, hbody⟩ := Utf8.exists_append_of_encode hbytes
  obtain ⟨entries, rfl⟩ := exists_object hfound
  obtain ⟨tokens, hderives, hspells, hobject⟩ := hfromStr.isText doc _ hdoc
  obtain ⟨space, rest, htext, hspace, hinner⟩ := hspells.exists_brace (hobject entries rfl)
  have hbrace : '\x7b' ∈ doc.toList := by
    rw [htext]
    exact List.mem_append_right _ List.mem_cons_self
  have hfrom : fromBrace doc.toList = '\x7b' :: rest := by
    have hnotMem : '\x7b' ∉ space := fun hmem => absurd (hspace _ hmem) (by decide)
    rw [htext, fromBrace_append_of_notMem hnotMem]
    rfl
  rw [Peer.query_eq_ok_iff hraw]
  generalize hcontent : Utf8.encode doc = content at hcarries
  cases hcarries with
  | identity content =>
    -- The white space before the document is all that is left out.
    have hsame : body = doc := Utf8.encode_injective (hbody.trans hcontent.symm)
    rw [hsame]
    have hsplit : doc = String.ofList space ++ String.ofList (fromBrace doc.toList) := by
      apply Text.ext
      rw [String.toList_append, String.toList_ofList, String.toList_ofList, hfrom, htext]
    have hread := hfromStr.space (String.ofList space) (String.ofList (fromBrace doc.toList)) (by
      rw [String.toList_ofList]
      exact hspace)
    rw [← hsplit, hdoc] at hread
    refine iff_of_true ⟨found, Peer.items_eq_ok_iff hhead |>.mpr ⟨hbrace, _, ?_, hfound⟩, rfl⟩ rfl
    cases hparse : peer.fromStr (String.ofList (fromBrace doc.toList)) with
    | error e =>
      rw [hparse] at hread
      cases hread
    | ok v =>
      rw [hparse] at hread
      obtain rfl := Option.some.inj hread
      rfl
  | chunked chunks last =>
    refine iff_of_false ?_ (by decide)
    rintro ⟨found', hitems, -⟩
    obtain ⟨-, v, hparse, -⟩ := (Peer.items_eq_ok_iff hhead).mp hitems
    obtain ⟨tokens', hderives', hspells', -⟩ := hfromStr.isText _ v hparse
    rw [String.toList_ofList] at hspells'
    rw [← hfrom] at hinner
    exact not_isText_chunked hbody hcontent hbrace hderives hinner ⟨tokens', hderives', hspells'⟩

/-- A document of one service. -/
def document : String := "\x7b\"data\":[\x7b\"name\":\"web\"\x7d]\x7d"

/-- What it is read as. -/
def documentValue : Value := .object [("data", .array [.object [("name", .string "web")]])]

/-- A parser that knows this document. -/
def parseDocument (text : String) : Except String Value :=
  if text.toList.dropWhile isSpace = document.toList then .ok documentValue
  else .error "trailing characters"

/-- A supervisor that answers with a response. -/
def answering (response : String) : Peer where
  metadata := some (true, 1000)
  uid := 1000
  connect := .ok ()
  timeouts := .ok ()
  write := .ok ()
  read := .ok (Utf8.encode response)
  late := false
  fromStr := parseDocument

/-- Letters are what may stand in a string. -/
theorem stringBody_of_all {name : List Char}
    (h : (name.all fun c => c ≠ '"' ∧ c ≠ '\\' ∧ 0x20 ≤ c.toNat) = true) : StringBody name := by
  induction name with
  | nil => exact .nil
  | cons c name ih =>
    obtain ⟨hc, hname⟩ := List.forall_mem_cons.mp (Text.forall_mem h)
    exact .char hc.1 hc.2.1 hc.2.2 (ih (by simpa using hname))

/-- A string of letters. -/
def nameToken (name : List Char)
    (h : (name.all fun c => c ≠ '"' ∧ c ≠ '\\' ∧ 0x20 ≤ c.toNat) = true) : Token :=
  .string ⟨name, stringBody_of_all h⟩

/-- The tokens of the document. -/
def documentTokens : List Token :=
  [.beginObject, nameToken "data".toList (by decide), .nameSeparator, .beginArray, .beginObject,
    nameToken "name".toList (by decide), .nameSeparator, nameToken "web".toList (by decide),
    .endObject, .endArray, .endObject]

/-- What the parser accepts is the document, with white space before it. -/
theorem parseDocument_reads : ReadsJson parseDocument where
  isText text v h := by
    unfold parseDocument at h
    split at h
    · next hdrop =>
      refine ⟨documentTokens, ?_, ⟨text.toList.takeWhile isSpace,
        documentTokens.map fun t => (t, []), fun c hc => List.mem_takeWhile_imp hc, by simp, ?_,
        ?_⟩, fun _ _ => rfl⟩
      · exact .object (.member _ (.array (.element (.object (.member _ (.string _))))))
      · rw [List.map_map]
        exact List.map_id _
      · have hlayout : layout (documentTokens.map fun t => (t, [])) = document.toList := by decide
        rw [hlayout, ← hdrop, List.takeWhile_append_dropWhile]
    · cases h
  space space text h := by
    unfold parseDocument
    rw [String.toList_append, List.dropWhile_append_of_pos h]

/-- The document as a response of its own length, and as one in two chunks. -/
def plainResponse : String :=
  "HTTP/1.1 200 OK\r\nContent-Length: 25\r\n\r\n\x7b\"data\":[\x7b\"name\":\"web\"\x7d]\x7d"

def chunkedResponse : String :=
  "HTTP/1.1 200 OK\r\nTransfer-Encoding: chunked\r\n\r\n" ++
    "9\r\n\x7b\"data\":[\r\n10\r\n\x7b\"name\":\"web\"\x7d]\x7d\r\n0\r\n\r\n"

/-- The response without chunks is read. -/
theorem query_exact_plain : (answering plainResponse).query "services.sock" =
    .ok [⟨"web", .notStarted, none⟩] := by
  have hresponse : Http.IsResponse .identity (Utf8.encode document)
      (Utf8.encode plainResponse) := by
    refine ⟨[⟨"HTTP/1.1 200 OK".toList, by decide, by decide, by decide⟩,
      ⟨"Content-Length: 25".toList, by decide, by decide, by decide⟩], _, by simp, .identity _, ?_⟩
    decide +kernel
  have hraw : (answering plainResponse).receive "services.sock" =
      .ok (Utf8.encode plainResponse) := rfl
  have hvalid : (Utf8.decode (Utf8.encode plainResponse)).isSome = true := by
    rw [Utf8.decode_encode]
    rfl
  have hdoc : (answering plainResponse).fromStr document = .ok documentValue := rfl
  have hexact := (query_exact_iff (answering plainResponse) parseDocument_reads hraw hvalid
    hresponse hdoc rfl).mpr rfl
  exact hexact.trans (by decide +kernel)

/-- The response in chunks is not: the size of the last chunk follows on the document. -/
theorem query_chunked_malformed :
    Http.IsResponse .chunked (Utf8.encode document) (Utf8.encode chunkedResponse) ∧
      parseDocument document = .ok documentValue ∧
      (items? documentValue).map (List.filterMap ServiceState.fromJson) =
        some [⟨"web", .notStarted, none⟩] ∧
      (answering chunkedResponse).query "services.sock" =
        .error (.unusable "malformed JSON: trailing characters") := by
  refine ⟨?_, rfl, by decide +kernel, by decide +kernel⟩
  let first : Http.Chunk :=
    ⟨"9".toList, [], Utf8.encode "\x7b\"data\":[", Text.forall_mem (by decide), by decide,
      by decide⟩
  let second : Http.Chunk :=
    ⟨"10".toList, [], Utf8.encode "\x7b\"name\":\"web\"\x7d]\x7d", Text.forall_mem (by decide),
      by decide, by decide⟩
  have hcarries := Http.Carries.chunked [first, second] ⟨0, [], []⟩
  refine ⟨[⟨"HTTP/1.1 200 OK".toList, by decide, by decide, by decide⟩,
    ⟨"Transfer-Encoding: chunked".toList, by decide, by decide, by decide⟩], _, by simp, hcarries,
    ?_⟩
  decide +kernel

end Devcroft.Services
