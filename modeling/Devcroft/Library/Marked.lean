import Devcroft.Library.Text

/-!
# Texts with marked blocks

A text is a list in which two markers may occur. Both begin with a symbol that stands in
neither of them again, so that their occurrences never overlap and a text is read from
left to right as a sequence of plain symbols and markers. A block is an opening marker
with the next marker after it, if that is a closing one; the rest is outside.
-/

namespace Marked

/-- The kinds of markers. -/
inductive Mark where
  | opening
  | closing
  deriving DecidableEq

/-- Two markers. -/
structure Markers (α : Type) where
  head : α
  tail : Mark → List α
  head_notMem : ∀ k, head ∉ tail k
  tail_prefix : ∀ k k', tail k <+: tail k' → k = k'

/-- A plain symbol, or a marker. -/
inductive Token (α : Type) where
  | plain (a : α)
  | mark (k : Mark)
  deriving DecidableEq

/-- The marker that a token is. -/
def Token.mark? {α : Type} : Token α → Option Mark
  | plain _ => none
  | mark k => some k

variable {α : Type}

namespace Markers

variable (m : Markers α)

/-- The text of a marker. -/
def text (k : Mark) : List α := m.head :: m.tail k

/-- The text of a token. -/
def textOf : Token α → List α
  | .plain a => [a]
  | .mark k => m.text k

end Markers

section Blocks

variable (m : Markers α)

/-- What is outside of blocks, from the text since an opening marker, if there is one. -/
def outsideFrom : Option (List α) → List (Token α) → List α
  | none, [] => []
  | some body, [] => m.text .opening ++ body
  | none, .plain a :: ts => a :: outsideFrom none ts
  | none, .mark .opening :: ts => outsideFrom (some []) ts
  | none, .mark .closing :: ts => m.text .closing ++ outsideFrom none ts
  | some body, .plain a :: ts => outsideFrom (some (body ++ [a])) ts
  | some body, .mark .opening :: ts => m.text .opening ++ body ++ outsideFrom (some []) ts
  | some _, .mark .closing :: ts => outsideFrom none ts

/-- The blocks, without their markers. -/
def blocksFrom : Option (List α) → List (Token α) → List (List α)
  | _, [] => []
  | none, .plain _ :: ts => blocksFrom none ts
  | none, .mark .closing :: ts => blocksFrom none ts
  | some body, .plain a :: ts => blocksFrom (some (body ++ [a])) ts
  | _, .mark .opening :: ts => blocksFrom (some []) ts
  | some body, .mark .closing :: ts => body :: blocksFrom none ts

variable {m} {ts : List (Token α)}

theorem outsideFrom_plain (l : List α) :
    outsideFrom m none (l.map .plain ++ ts) = l ++ outsideFrom m none ts := by
  induction l with
  | nil => rfl
  | cons a l ih => rw [List.map_cons, List.cons_append, outsideFrom, ih, List.cons_append]

theorem blocksFrom_plain (l : List α) :
    blocksFrom none (l.map .plain ++ ts) = blocksFrom none ts := by
  induction l with
  | nil => rfl
  | cons a l ih => rw [List.map_cons, List.cons_append, blocksFrom, ih]

/-- A block is not outside. -/
theorem outsideFrom_block (body l : List α) :
    outsideFrom m (some body) (l.map .plain ++ .mark .closing :: ts) = outsideFrom m none ts := by
  induction l generalizing body with
  | nil => rfl
  | cons a l ih => rw [List.map_cons, List.cons_append, outsideFrom, ih]

theorem blocksFrom_block (body l : List α) :
    blocksFrom (some body) (l.map .plain ++ .mark .closing :: ts) =
      (body ++ l) :: blocksFrom none ts := by
  induction l generalizing body with
  | nil => rw [List.append_nil, List.map_nil, List.nil_append, blocksFrom]
  | cons a l ih => rw [List.map_cons, List.cons_append, blocksFrom, ih, List.append_assoc,
      List.singleton_append]

/-- Where another opening marker follows, the text up to it is outside. -/
theorem outsideFrom_reopened (body : List α) {mid : List (Token α)}
    (hclosing : .mark .closing ∉ mid) :
    ∃ lost, outsideFrom m (some body) (mid ++ .mark .closing :: ts) =
        lost ++ outsideFrom m none ts ∧
      (.mark .opening ∈ mid → (m.text .opening).length ≤ lost.length) := by
  induction mid generalizing body with
  | nil => exact ⟨[], rfl, fun h => (nomatch h)⟩
  | cons t mid ih =>
    rw [List.mem_cons, not_or] at hclosing
    cases t with
    | plain a =>
      obtain ⟨lost, houtside, hlength⟩ := ih (body ++ [a]) hclosing.2
      refine ⟨lost, houtside, fun h => hlength ?_⟩
      simpa using h
    | mark k =>
      cases k with
      | opening =>
        obtain ⟨lost, houtside, -⟩ := ih [] hclosing.2
        refine ⟨m.text .opening ++ body ++ lost, ?_, fun _ => ?_⟩
        · rw [List.cons_append, outsideFrom, houtside, List.append_assoc (m.text _ ++ body)]
        · simp only [List.length_append]
          omega
      | closing => exact (hclosing.1 rfl).elim

/-- There is no block where no opening marker is followed by a closing one. -/
theorem blocksFrom_eq_nil_iff (st : Option (List α)) :
    blocksFrom st ts = [] ↔
      ¬[Mark.opening, .closing] <:+:
        (st.map fun _ => Mark.opening).toList ++ ts.filterMap Token.mark? := by
  induction ts generalizing st with
  | nil => cases st <;> simp [blocksFrom, List.infix_cons_iff]
  | cons t ts ih =>
    cases t with
    | plain a =>
      rw [List.filterMap_cons_none rfl]
      cases st <;> exact ih _
    | mark k =>
      have hmark : (Token.mark k : Token α).mark? = some k := rfl
      rw [List.filterMap_cons_some hmark]
      cases k <;> cases st <;> simp [blocksFrom, ih, List.infix_cons_iff]

end Blocks

variable [DecidableEq α]

/-- How many symbols stand before the first occurrence of a list. -/
def find (pat l : List α) : Option ℕ := l.tails.findIdx? pat.isPrefixOf

section Find

variable {pat l : List α}

theorem find_eq_none_iff : find pat l = none ↔ ¬pat <:+: l := by
  unfold find
  rw [List.findIdx?_eq_none_iff]
  simp only [List.mem_tails, ← Bool.not_eq_true, List.isPrefixOf_iff_prefix]
  constructor
  · rintro h ⟨x, y, rfl⟩
    exact h (pat ++ y) ⟨x, (List.append_assoc ..).symm⟩ (List.prefix_append _ _)
  · rintro h rest ⟨x, rfl⟩ ⟨y, rfl⟩
    exact h ⟨x, y, List.append_assoc ..⟩

/-- The first occurrence of a list. -/
theorem find_eq_some {i : ℕ} (h : find pat l = some i) :
    ∃ x y, l = x ++ (pat ++ y) ∧ x.length = i ∧
      ∀ x' y', l = x' ++ (pat ++ y') → i ≤ x'.length := by
  unfold find at h
  obtain ⟨hi, hfound, hfirst⟩ := List.findIdx?_eq_some_iff_getElem.mp h
  rw [List.getElem_tails, List.isPrefixOf_iff_prefix] at hfound
  obtain ⟨y, hy⟩ := hfound
  rw [List.length_tails] at hi
  refine ⟨l.take i, y, ?_, List.length_take_of_le (by omega), fun x' y' hl => ?_⟩
  · rw [hy, List.take_append_drop]
  · by_contra hlt
    refine hfirst x'.length (by omega) ?_
    rw [List.getElem_tails, List.isPrefixOf_iff_prefix]
    rw [hl, List.drop_left]
    exact List.prefix_append _ _

end Find

namespace Markers

variable (m : Markers α)

/-- The marker that a list begins with. -/
def markAt (l : List α) : Option Mark :=
  if (m.text .opening).isPrefixOf l then some .opening
  else if (m.text .closing).isPrefixOf l then some .closing
  else none

/-- Read a list, its first symbols skipped. -/
def scanFrom : ℕ → List α → List (Token α)
  | _, [] => []
  | skip + 1, _ :: l => scanFrom skip l
  | 0, a :: l =>
    match m.markAt (a :: l) with
    | some k => .mark k :: scanFrom (m.tail k).length l
    | none => .plain a :: scanFrom 0 l

/-- Read a list. -/
def scan (l : List α) : List (Token α) := m.scanFrom 0 l

/-- The markers of a list, in order. -/
def marks (l : List α) : List Mark := (m.scan l).filterMap Token.mark?

variable {m}

theorem markAt_eq_some_iff {l : List α} {k : Mark} : m.markAt l = some k ↔ m.text k <+: l := by
  unfold markAt
  have hone : ∀ {k'}, m.text k <+: l → m.text k' <+: l → k = k' := by
    intro k' hk hk'
    rcases List.prefix_or_prefix_of_prefix hk hk' with h | h
    · exact m.tail_prefix _ _ (List.prefix_cons_inj _ |>.mp h)
    · exact (m.tail_prefix _ _ (List.prefix_cons_inj _ |>.mp h)).symm
  split
  · next h =>
    have hopening := List.isPrefixOf_iff_prefix.mp h
    constructor
    · intro hk
      obtain rfl := Option.some.inj hk
      exact hopening
    · intro hk
      rw [hone hk hopening]
  · next hopening =>
    split
    · next h =>
      have hclosing := List.isPrefixOf_iff_prefix.mp h
      constructor
      · intro hk
        obtain rfl := Option.some.inj hk
        exact hclosing
      · intro hk
        rw [hone hk hclosing]
    · next hclosing =>
      simp only [reduceCtorEq, false_iff]
      cases k with
      | opening => exact fun hk => hopening (List.isPrefixOf_iff_prefix.mpr hk)
      | closing => exact fun hk => hclosing (List.isPrefixOf_iff_prefix.mpr hk)

theorem markAt_eq_none_iff {l : List α} : m.markAt l = none ↔ ∀ k, ¬m.text k <+: l := by
  rw [Option.eq_none_iff_forall_ne_some]
  simp only [ne_eq, markAt_eq_some_iff]

@[simp] theorem scan_nil : m.scan [] = [] := rfl

theorem scanFrom_eq_scan (skip : ℕ) (l : List α) : m.scanFrom skip l = m.scan (l.drop skip) := by
  induction skip generalizing l with
  | zero => rfl
  | succ skip ih =>
    cases l with
    | nil => rfl
    | cons a l => exact ih l

theorem scan_mark (k : Mark) (l : List α) : m.scan (m.text k ++ l) = .mark k :: m.scan l := by
  have hmark : m.markAt (m.text k ++ l) = some k :=
    markAt_eq_some_iff.mpr (List.prefix_append _ _)
  unfold scan
  rw [text, List.cons_append] at hmark ⊢
  rw [scanFrom, hmark]
  dsimp only
  rw [scanFrom_eq_scan, List.drop_left]
  rfl

theorem scan_plain {a : α} {l : List α} (h : m.markAt (a :: l) = none) :
    m.scan (a :: l) = .plain a :: m.scan l := by
  unfold scan
  rw [scanFrom, h]

/-- Induction on a text as it is read. -/
theorem scan_induction (m : Markers α) {P : List α → Prop} (hnil : P [])
    (hmark : ∀ k l, P l → P (m.text k ++ l))
    (hplain : ∀ a l, m.markAt (a :: l) = none → P l → P (a :: l)) (l : List α) : P l := by
  induction hn : l.length using Nat.strong_induction_on generalizing l with
  | _ n ih =>
    cases l with
    | nil => exact hnil
    | cons a l =>
      cases hat : m.markAt (a :: l) with
      | none =>
        rw [List.length_cons] at hn
        exact hplain a l hat (ih l.length (by omega) l rfl)
      | some k =>
        obtain ⟨rest, hrest⟩ := markAt_eq_some_iff.mp hat
        rw [← hrest] at hn ⊢
        rw [List.length_append, text, List.length_cons] at hn
        exact hmark k rest (ih rest.length (by omega) rest rfl)

/-- A text is what is read of it. -/
theorem flatMap_scan (l : List α) : (m.scan l).flatMap m.textOf = l := by
  induction l using m.scan_induction with
  | hnil => rfl
  | hmark k l ih => rw [scan_mark, List.flatMap_cons, ih, textOf]
  | hplain a l hat ih => rw [scan_plain hat, List.flatMap_cons, ih, textOf, List.singleton_append]

/-- Where a second text does not go on with a marker of the first one, both are read apart. -/
theorem scan_append {x y : List α} (h : ∀ a ∈ y.head?, ∀ k, a ∉ m.tail k) :
    m.scan (x ++ y) = m.scan x ++ m.scan y := by
  induction x using m.scan_induction with
  | hnil => rfl
  | hmark k x ih => rw [List.append_assoc, scan_mark, scan_mark, ih, List.cons_append]
  | hplain a x hat ih =>
    have hat' : m.markAt (a :: (x ++ y)) = none := by
      rw [markAt_eq_none_iff] at hat ⊢
      intro k hk
      obtain ⟨rfl, htail⟩ := List.cons_prefix_cons.mp hk
      rcases List.prefix_or_prefix_of_prefix htail (List.prefix_append x y) with hx | ⟨t, ht⟩
      · exact hat k (List.cons_prefix_cons.mpr ⟨rfl, hx⟩)
      · -- The marker would go on in the second text.
        rw [← ht, List.prefix_append_right_inj] at htail
        cases t with
        | nil =>
          rw [List.append_nil] at ht
          exact hat k (List.cons_prefix_cons.mpr ⟨rfl, ht ▸ List.prefix_rfl⟩)
        | cons b t =>
          obtain ⟨y', rfl⟩ := htail
          refine h b rfl k ?_
          rw [← ht]
          exact List.mem_append_right _ List.mem_cons_self
    rw [List.cons_append, scan_plain hat', scan_plain hat, ih, List.cons_append]

/-- Both sides of a marker are read apart. -/
theorem scan_append_mark (x : List α) (k : Mark) (y : List α) :
    m.scan (x ++ (m.text k ++ y)) = m.scan x ++ .mark k :: m.scan y := by
  rw [scan_append, scan_mark]
  intro a ha k'
  obtain rfl := Option.some.inj ha
  exact m.head_notMem k'

/-- A text without the first symbol of the markers is plain, whatever follows. -/
theorem scan_append_of_head_notMem {x : List α} (h : m.head ∉ x) (y : List α) :
    m.scan (x ++ y) = x.map .plain ++ m.scan y := by
  induction x with
  | nil => rfl
  | cons a x ih =>
    rw [List.mem_cons, not_or] at h
    have hat : m.markAt (a :: (x ++ y)) = none := by
      rw [markAt_eq_none_iff]
      intro k hk
      exact h.1 (List.cons_prefix_cons.mp hk).1
    rw [List.cons_append, scan_plain hat, ih h.2, List.map_cons, List.cons_append]

/-- A symbol that is in no marker is plain. -/
theorem scan_append_plain {a : α} (hhead : a ≠ m.head) (htail : ∀ k, a ∉ m.tail k)
    (x y : List α) : m.scan (x ++ a :: y) = m.scan x ++ .plain a :: m.scan y := by
  have hat : m.markAt (a :: y) = none := by
    rw [markAt_eq_none_iff]
    intro k hk
    exact hhead (List.cons_prefix_cons.mp hk).1.symm
  rw [scan_append, scan_plain hat]
  intro b hb k
  obtain rfl := Option.some.inj hb
  exact htail k

/-- A marker is read where it occurs. -/
theorem mark_mem_scan_iff {k : Mark} {l : List α} : .mark k ∈ m.scan l ↔ m.text k <:+: l := by
  constructor
  · intro h
    obtain ⟨before, after, hscan⟩ := List.append_of_mem h
    refine ⟨before.flatMap m.textOf, after.flatMap m.textOf, ?_⟩
    rw [← m.flatMap_scan l, hscan, List.flatMap_append, List.flatMap_cons, textOf,
      List.append_assoc]
  · rintro ⟨x, y, rfl⟩
    rw [List.append_assoc, scan_append_mark]
    exact List.mem_append_right _ List.mem_cons_self

theorem find_text_eq_none_iff {k : Mark} {l : List α} :
    find (m.text k) l = none ↔ .mark k ∉ m.scan l := by
  rw [find_eq_none_iff, mark_mem_scan_iff]

/-- The first occurrence of a marker. -/
theorem find_text_eq_some {k : Mark} {l : List α} {i : ℕ} (h : find (m.text k) l = some i) :
    ∃ x y, l = x ++ (m.text k ++ y) ∧ x.length = i ∧ .mark k ∉ m.scan x := by
  obtain ⟨x, y, hl, hlength, hfirst⟩ := find_eq_some h
  refine ⟨x, y, hl, hlength, fun hmark => ?_⟩
  obtain ⟨x', y', hx⟩ := mark_mem_scan_iff.mp hmark
  have hle := hfirst x' (y' ++ (m.text k ++ y)) (by
    rw [hl, ← hx]
    simp only [List.append_assoc])
  have hlength' := congrArg List.length hx
  rw [List.length_append, List.length_append, text, List.length_cons] at hlength'
  omega

/-- A marker is found where none stands before it. -/
theorem find_text {k : Mark} {x : List α} (h : .mark k ∉ m.scan x) (y : List α) :
    find (m.text k) (x ++ (m.text k ++ y)) = some x.length := by
  cases hfind : find (m.text k) (x ++ (m.text k ++ y)) with
  | none =>
    rw [find_text_eq_none_iff, scan_append_mark] at hfind
    exact (hfind (List.mem_append_right _ List.mem_cons_self)).elim
  | some i =>
    obtain ⟨x', y', hl, rfl, hx'⟩ := find_text_eq_some hfind
    have hscan := congrArg m.scan hl
    rw [scan_append_mark, scan_append_mark] at hscan
    obtain ⟨hbefore, -⟩ := Text.cut_unique h hx' hscan
    rw [← m.flatMap_scan x, hbefore, m.flatMap_scan]

/-- A marker is found where it was, whatever is added. -/
theorem find_text_append {k : Mark} {l : List α} {i : ℕ} (h : find (m.text k) l = some i)
    (t : List α) : find (m.text k) (l ++ t) = some i := by
  obtain ⟨x, y, rfl, rfl, hx⟩ := find_text_eq_some h
  rw [List.append_assoc, List.append_assoc]
  exact find_text hx (y ++ t)

theorem marks_append_mark (x : List α) (k : Mark) (y : List α) :
    m.marks (x ++ (m.text k ++ y)) = m.marks x ++ k :: m.marks y := by
  have hmark : (Token.mark k : Token α).mark? = some k := rfl
  rw [marks, scan_append_mark, List.filterMap_append, List.filterMap_cons_some hmark]
  rfl

theorem mem_marks_iff {k : Mark} {l : List α} : k ∈ m.marks l ↔ .mark k ∈ m.scan l := by
  rw [marks, List.mem_filterMap]
  constructor
  · rintro ⟨t, ht, hk⟩
    cases t with
    | plain a => cases hk
    | mark k' =>
      obtain rfl := Option.some.inj hk
      exact ht
  · intro h
    exact ⟨_, h, rfl⟩

/-- Without a marker, a text is plain. -/
theorem marks_eq_nil_iff {l : List α} : m.marks l = [] ↔ m.scan l = l.map .plain := by
  constructor
  · intro h
    have hplain : ∀ ts : List (Token α), ts.filterMap Token.mark? = [] →
        ts = (ts.flatMap m.textOf).map .plain := by
      intro ts
      induction ts with
      | nil => exact fun _ => rfl
      | cons t ts ih =>
        intro hts
        cases t with
        | plain a => exact congrArg (List.cons _) (ih hts)
        | mark k => cases hts
    rw [hplain _ h, m.flatMap_scan]
  · intro h
    rw [marks, h, List.filterMap_map]
    exact List.filterMap_eq_nil_iff.mpr fun _ _ => rfl

/-- A list begins with plain text, an opening marker and, after it, a closing one. -/
def Paired (m : Markers α) (l : List α) : Prop :=
  ∃ x mid rest, l = x ++ (m.text .opening ++ (mid ++ (m.text .closing ++ rest))) ∧
    m.marks x = [] ∧ .mark .closing ∉ m.scan mid

/-- Without markers there is none of either kind. -/
theorem mark_notMem_of_marks {l : List α} (h : m.marks l = []) (k : Mark) :
    .mark k ∉ m.scan l := by
  rw [← mem_marks_iff, h]
  exact List.not_mem_nil

/-- A text with a marker of neither kind has none. -/
theorem marks_eq_nil_of_notMem {l : List α} (hopening : .mark .opening ∉ m.scan l)
    (hclosing : .mark .closing ∉ m.scan l) : m.marks l = [] := by
  refine List.eq_nil_iff_forall_not_mem.mpr fun k hk => ?_
  rw [mem_marks_iff] at hk
  cases k with
  | opening => exact hopening hk
  | closing => exact hclosing hk

theorem mark_mem_of_marks_cons {k : Mark} {ks : List Mark} {l : List α}
    (h : m.marks l = k :: ks) : .mark k ∈ m.scan l := by
  rw [← mem_marks_iff, h]
  exact List.mem_cons_self

/-- A text with a marker is cut at the first one of its kind. -/
theorem exists_cut {k : Mark} {l : List α} (h : .mark k ∈ m.scan l) :
    ∃ x y, l = x ++ (m.text k ++ y) ∧ .mark k ∉ m.scan x := by
  cases hfind : find (m.text k) l with
  | none => exact (find_text_eq_none_iff.mp hfind h).elim
  | some i =>
    obtain ⟨x, y, hl, -, hx⟩ := find_text_eq_some hfind
    exact ⟨x, y, hl, hx⟩

/-- The first closing marker of a pair. -/
theorem find_closing {x mid : List α} (hx : m.marks x = []) (hmid : .mark .closing ∉ m.scan mid)
    (rest : List α) :
    find (m.text .closing) (x ++ (m.text .opening ++ (mid ++ (m.text .closing ++ rest)))) =
      some (x ++ (m.text .opening ++ mid)).length := by
  have hnone : .mark .closing ∉ m.scan (x ++ (m.text .opening ++ mid)) := by
    rw [scan_append_mark, List.mem_append, List.mem_cons]
    rintro (h | h | h)
    · exact mark_notMem_of_marks hx _ h
    · cases h
    · exact hmid h
  have hfind := find_text hnone rest
  simpa only [List.append_assoc] using hfind

/-- Where the first opening marker stands before the first closing one. -/
theorem paired_of_find {l : List α} {i j : ℕ} (hopening : find (m.text .opening) l = some i)
    (hclosing : find (m.text .closing) l = some j) (hlt : i < j) : m.Paired l := by
  obtain ⟨x, y, rfl, rfl, hx⟩ := find_text_eq_some hopening
  have hplain : .mark .closing ∉ m.scan x := by
    intro hmark
    cases hfind : find (m.text .closing) x with
    | none => exact find_text_eq_none_iff.mp hfind hmark
    | some j' =>
      have hsame := (find_text_append hfind _).symm.trans hclosing
      obtain ⟨a, b, rfl, rfl, -⟩ := find_text_eq_some hfind
      rw [← Option.some.inj hsame, List.length_append] at hlt
      omega
  cases hfind : find (m.text .closing) y with
  | none =>
    have hsome : find (m.text .closing) (x ++ (m.text .opening ++ y)) ≠ none := by
      rw [hclosing]
      exact Option.some_ne_none j
    refine (hsome (find_text_eq_none_iff.mpr ?_)).elim
    rw [scan_append_mark, List.mem_append, List.mem_cons]
    rintro (h | h | h)
    · exact hplain h
    · cases h
    · exact find_text_eq_none_iff.mp hfind h
  | some j' =>
    obtain ⟨mid, rest, rfl, -, hmid⟩ := find_text_eq_some hfind
    exact ⟨x, mid, rest, rfl, marks_eq_nil_of_notMem hx hplain, hmid⟩

/-- A list of which the first two markers are an opening and a closing one. -/
theorem paired_of_marks {l : List α} {ks : List Mark}
    (h : m.marks l = .opening :: .closing :: ks) : m.Paired l := by
  obtain ⟨x, y, rfl, hx⟩ := exists_cut (mark_mem_of_marks_cons h)
  rw [marks_append_mark] at h
  have hplain : m.marks x = [] := by
    cases hmarks : m.marks x with
    | nil => rfl
    | cons k ks' =>
      rw [hmarks, List.cons_append] at h
      obtain ⟨rfl, -⟩ := List.cons.inj h
      exact (hx (mark_mem_of_marks_cons hmarks)).elim
  rw [hplain, List.nil_append] at h
  have hclosing := mark_mem_of_marks_cons (List.cons.inj h).2
  obtain ⟨mid, rest, rfl, hmid⟩ := exists_cut hclosing
  exact ⟨x, mid, rest, rfl, hplain, hmid⟩

/-- Where no pair follows from the first closing marker, none does with a text added. -/
theorem not_paired_append {l : List α} (hclosing : .mark .closing ∈ m.scan l)
    (hpaired : ¬m.Paired l) (t : List α) : ¬m.Paired (l ++ t) := by
  rintro ⟨x, mid, rest, hl, hx, hmid⟩
  cases hfind : find (m.text .closing) l with
  | none => exact find_text_eq_none_iff.mp hfind hclosing
  | some j =>
    obtain ⟨a, b, rfl, rfl, -⟩ := find_text_eq_some hfind
    have hsame := find_text_append hfind t
    rw [hl, find_closing hx hmid rest, Option.some.injEq] at hsame
    have hcut : (x ++ (m.text .opening ++ mid)) ++ (m.text .closing ++ rest) =
        a ++ (m.text .closing ++ (b ++ t)) := by
      simpa only [List.append_assoc] using hl.symm
    obtain ⟨rfl, -⟩ := List.append_inj hcut hsame
    exact hpaired ⟨x, mid, b, by simp only [List.append_assoc], hx, hmid⟩

end Markers

/-- What is outside of the blocks of a text. -/
def Markers.outside (m : Markers α) (l : List α) : List α := outsideFrom m none (m.scan l)

/-- The blocks of a text. -/
def Markers.blocks (m : Markers α) (l : List α) : List (List α) := blocksFrom none (m.scan l)

/-- No marker stands in a block. -/
theorem scan_of_mem_blocks {m : Markers α} {l b : List α} (hb : b ∈ m.blocks l) :
    m.scan b = b.map .plain := by
  have hfrom : ∀ st, b ∈ blocksFrom st (m.scan l) →
      (∀ body, st = some body → m.scan (body ++ l) = body.map .plain ++ m.scan l) →
      m.scan b = b.map .plain := by
    clear hb
    induction l using m.scan_induction with
    | hnil =>
      intro st hb
      cases st <;> cases hb
    | hmark k l ih =>
      intro st hb hst
      rw [Markers.scan_mark] at hb
      cases k with
      | opening =>
        refine ih (some []) ?_ ?_
        · cases st <;> exact hb
        · intro body hbody
          obtain rfl := Option.some.inj hbody
          rfl
      | closing =>
        cases st with
        | none => exact ih none hb fun _ h => (nomatch h)
        | some body =>
          rcases List.mem_cons.mp hb with rfl | hb
          · have hbody := hst _ rfl
            rw [Markers.scan_append_mark, Markers.scan_mark] at hbody
            exact List.append_cancel_right hbody
          · exact ih none hb fun _ h => (nomatch h)
    | hplain a l hat ih =>
      intro st hb hst
      rw [Markers.scan_plain hat] at hb hst
      cases st with
      | none => exact ih none hb fun _ h => (nomatch h)
      | some body =>
        refine ih (some (body ++ [a])) hb ?_
        intro body' hbody'
        obtain rfl := Option.some.inj hbody'
        have hbody := hst body rfl
        rw [List.append_assoc, List.singleton_append, hbody, List.map_append, List.append_assoc]
        rfl
  exact hfrom none hb fun _ h => (nomatch h)

end Marked
