import Devcroft.Library.Text

/-!
# Reports

A report is a text of headings, each with indented lines below it. Whoever reads it can tell the
headings from what is below them, and the columns of a line from each other.
-/

namespace Report

/-- The text of some lines: each of them is ended. -/
def text (lines : List String) : String := String.join (lines.map (· ++ "\n"))

/-- Different lines make different texts. -/
theorem text_injective {a b : List String} (ha : ∀ line ∈ a, '\n' ∉ line.toList)
    (hb : ∀ line ∈ b, '\n' ∉ line.toList) (h : text a = text b) : a = b := by
  have hsplit := congrArg (Text.split '\n') h
  have hend : "\n" = String.ofList ['\n'] := rfl
  rw [text, text, hend, Text.split_join ha, Text.split_join hb] at hsplit
  exact List.append_cancel_right hsplit

/-- Texts that tell their sources from each other tell lists of these from each other. -/
theorem map_injective_on {α : Type} {f : α → String} {a b : List α}
    (hf : ∀ x ∈ a, ∀ y ∈ b, f x = f y → x = y) (h : a.map f = b.map f) : a = b := by
  induction a generalizing b with
  | nil =>
    cases b with
    | nil => rfl
    | cons y b => cases h
  | cons x a ih =>
    cases b with
    | nil => cases h
    | cons y b =>
      obtain ⟨hhead, htail⟩ := List.cons.inj h
      have hxy : x = y := hf x List.mem_cons_self y List.mem_cons_self hhead
      have hab : a = b :=
        ih (fun x' hx y' hy => hf x' (List.mem_cons_of_mem _ hx) y' (List.mem_cons_of_mem _ hy))
          htail
      rw [hxy, hab]

section Columns

/-- Some text on the left of a column of this width. -/
def padRight (width : ℕ) (s : String) : String :=
  s ++ String.ofList (List.replicate (width - s.length) ' ')

theorem le_length_padRight (width : ℕ) (s : String) : width ≤ (padRight width s).length := by
  have hblanks : (String.ofList (List.replicate (width - s.length) ' ')).length =
      width - s.length := by
    rw [String.length_ofList, List.length_replicate]
  rw [padRight, String.length_append, hblanks]
  omega

/-- A text does not end in a blank. -/
def NoBlankEnd (s : String) : Prop := s.toList.getLast? ≠ some ' '

instance (s : String) : Decidable (NoBlankEnd s) := inferInstanceAs (Decidable (_ ≠ _))

/-- A text that does not end in a blank is no other text with blanks behind it. -/
theorem eq_of_append_blanks {s t : List Char} {m n : ℕ} (hs : s.getLast? ≠ some ' ')
    (hmn : n ≤ m) (h : s ++ List.replicate n ' ' = t ++ List.replicate m ' ') : s = t := by
  obtain ⟨k, rfl⟩ := Nat.exists_eq_add_of_le' hmn
  rw [List.replicate_add, ← List.append_assoc] at h
  have hst : s = t ++ List.replicate k ' ' := List.append_cancel_right h
  cases k with
  | zero => rw [hst, List.replicate_zero, List.append_nil]
  | succ k =>
    rw [List.replicate_succ', ← List.append_assoc] at hst
    rw [hst, List.getLast?_concat] at hs
    exact (hs rfl).elim

theorem padRight_injective {width : ℕ} {s t : String} (hs : NoBlankEnd s) (ht : NoBlankEnd t)
    (h : padRight width s = padRight width t) : s = t := by
  have hlist := congrArg String.toList h
  simp only [padRight, String.toList_append, String.toList_ofList] at hlist
  apply Text.ext
  rcases Nat.le_total (width - s.length) (width - t.length) with hle | hle
  · exact eq_of_append_blanks hs hle hlist
  · exact (eq_of_append_blanks ht hle hlist.symm).symm

/-- Two columns can be told from each other, if the second one has no blanks. -/
theorem columns_unique {width : ℕ} {s s' t t' : String} (hs : NoBlankEnd s) (hs' : NoBlankEnd s')
    (ht : ' ' ∉ t.toList) (ht' : ' ' ∉ t'.toList)
    (h : padRight width s ++ " " ++ t = padRight width s' ++ " " ++ t') : s = s' ∧ t = t' := by
  have hcut := congrArg (Text.rsplitOnce ' ') h
  have hblank : " " = String.ofList [' '] := rfl
  rw [hblank, Text.rsplitOnce_append ht, Text.rsplitOnce_append ht'] at hcut
  obtain ⟨hpad, rfl⟩ := Prod.mk.inj (Option.some.inj hcut)
  exact ⟨padRight_injective hs hs' hpad, rfl⟩

end Columns

section Headings

/-- A heading, and the lines below it. -/
abbrev Part := String × List String

/-- A line below a heading. -/
def Indented (line : String) : Prop := Text.startsWith "  " line = true

instance (line : String) : Decidable (Indented line) := inferInstanceAs (Decidable (_ = true))

/-- The lines below a heading are indented, and it is not; none of them is more than a line. -/
structure Part.Readable (part : Part) : Prop where
  heading : ¬Indented part.1
  below : ∀ line ∈ part.2, Indented line
  single : ∀ line ∈ part.1 :: part.2, '\n' ∉ line.toList

/-- The lines of a report. -/
def lines (parts : List Part) : List String := parts.flatMap fun part => part.1 :: part.2

theorem lines_cons (part : Part) (parts : List Part) :
    lines (part :: parts) = part.1 :: (part.2 ++ lines parts) := rfl

/-- Where the indented lines end. -/
theorem body_unique {body body' rest rest' : List String} (hbody : ∀ line ∈ body, Indented line)
    (hbody' : ∀ line ∈ body', Indented line) (hrest : ∀ line ∈ rest.head?, ¬Indented line)
    (hrest' : ∀ line ∈ rest'.head?, ¬Indented line) (h : body ++ rest = body' ++ rest') :
    body = body' ∧ rest = rest' := by
  induction body generalizing body' with
  | nil =>
    cases body' with
    | nil => exact ⟨rfl, h⟩
    | cons line body' =>
      rw [List.nil_append] at h
      subst h
      exact (hrest line rfl (hbody' line List.mem_cons_self)).elim
  | cons line body ih =>
    cases body' with
    | nil =>
      rw [List.nil_append] at h
      subst h
      exact (hrest' line rfl (hbody line List.mem_cons_self)).elim
    | cons line' body' =>
      obtain ⟨rfl, htail⟩ := List.cons.inj h
      obtain ⟨rfl, heq⟩ := ih (fun l hl => hbody l (List.mem_cons_of_mem _ hl))
        (fun l hl => hbody' l (List.mem_cons_of_mem _ hl)) htail
      exact ⟨rfl, heq⟩

/-- A report begins with a heading. -/
theorem head_lines {parts : List Part} (h : ∀ part ∈ parts, part.Readable) :
    ∀ line ∈ (lines parts).head?, ¬Indented line := by
  cases parts with
  | nil => exact fun _ hline => nomatch hline
  | cons part parts =>
    intro line hline
    obtain rfl := Option.some.inj hline
    exact (h part List.mem_cons_self).heading

/-- Different parts make different lines. -/
theorem lines_injective {a b : List Part} (ha : ∀ part ∈ a, part.Readable)
    (hb : ∀ part ∈ b, part.Readable) (h : lines a = lines b) : a = b := by
  induction a generalizing b with
  | nil =>
    cases b with
    | nil => rfl
    | cons part b => cases h
  | cons part a ih =>
    cases b with
    | nil => cases h
    | cons part' b =>
      obtain ⟨hpart, ha⟩ := List.forall_mem_cons.mp ha
      obtain ⟨hpart', hb⟩ := List.forall_mem_cons.mp hb
      rw [lines_cons, lines_cons] at h
      obtain ⟨hhead, htail⟩ := List.cons.inj h
      obtain ⟨hbody, hrest⟩ :=
        body_unique hpart.below hpart'.below (head_lines ha) (head_lines hb) htail
      rw [ih ha hb hrest, Prod.ext hhead hbody]

/-- Whoever reads a report knows what it is about. -/
theorem report_injective {a b : List Part} (ha : ∀ part ∈ a, part.Readable)
    (hb : ∀ part ∈ b, part.Readable) (h : text (lines a) = text (lines b)) : a = b := by
  have hsingle {parts : List Part} (hparts : ∀ part ∈ parts, part.Readable) :
      ∀ line ∈ lines parts, '\n' ∉ line.toList := by
    intro line hline
    obtain ⟨part, hpart, hline⟩ := List.mem_flatMap.mp hline
    exact (hparts part hpart).single line hline
  exact lines_injective ha hb (text_injective (hsingle ha) (hsingle hb) h)

end Headings

end Report
