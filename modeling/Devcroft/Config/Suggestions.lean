import Mathlib.Data.List.MinMax
import Devcroft.Config.Schema
import Devcroft.Library.EditDistance
import Devcroft.Library.Indexed

/-!
# The suggestions for a misspelled key

`edit_distance` keeps two rows of a table, of which the newer one is filled from left to right:
whatever the two texts are, no index is out of range and the last entry is the edit distance.
`closest` suggests a nearest one of the candidates that are near enough.
-/

namespace Devcroft.Config

open EditDistance Indexed

/-- The inner loop's body in `edit_distance`: entry `j` of row `i`. -/
def editCell? (a b : List Char) (prev : List ℕ) (i : ℕ) (cur : List ℕ) (j : ℕ) :
    Option (List ℕ) := do
  let cost := if (← a[i - 1]?) = (← b[j - 1]?) then 0 else 1
  let above ← prev[j]?
  let left ← cur[j - 1]?
  let diagonal ← prev[j - 1]?
  set? cur j (min (min (above + 1) (left + 1)) (diagonal + cost))

/-- The outer loop's body: row `i`. -/
def editRow? (a b : List Char) (prev : List ℕ) (i : ℕ) : Option (List ℕ) :=
  forTo b.length (editCell? a b prev i) (List.replicate (b.length + 1) i)

/-- `edit_distance` with its indices: `none` where one is out of range. -/
def editDistance? (a b : String) : Option ℕ := do
  let prev ← forTo a.toList.length (editRow? a.toList b.toList)
    (List.range (b.toList.length + 1))
  prev[b.toList.length]?

/-- A row that is filled up to entry `j`: with the distances of a text to the first characters of
the other one. -/
structure Filled (xs b : List Char) (j : ℕ) (row : List ℕ) : Prop where
  length : row.length = b.length + 1
  entry : ∀ k ≤ j, row[k]? = some (distance xs (b.take k))

/-- The row before the first one. -/
theorem filled_range (b : List Char) : Filled [] b b.length (List.range (b.length + 1)) := by
  constructor
  · exact List.length_range
  · intro k hk
    rw [List.getElem?_range (by omega), distance_nil_left, List.length_take_of_le hk]

/-- A new row. -/
theorem filled_replicate (xs b : List Char) :
    Filled xs b 0 (List.replicate (b.length + 1) xs.length) := by
  constructor
  · exact List.length_replicate
  · intro k hk
    obtain rfl : k = 0 := by omega
    simp

/-- The next entry of a row is written. -/
theorem Filled.set {xs b : List Char} {j : ℕ} {row : List ℕ} (h : Filled xs b j row)
    (hj : j < b.length) :
    Filled xs b (j + 1) (row.set (j + 1) (distance xs (b.take (j + 1)))) := by
  constructor
  · rw [List.length_set, h.length]
  · intro k hk
    by_cases hlast : k = j + 1
    · rw [hlast, List.getElem?_set_self (by rw [h.length]; omega)]
    · rw [List.getElem?_set_ne (Ne.symm hlast)]
      exact h.entry k (by omega)

/-- One round of the inner loop. -/
theorem Filled.advance_entry {a b xs : List Char} {c : Char} {i j : ℕ} {prev cur : List ℕ}
    (hprev : Filled xs b b.length prev) (hcur : Filled (xs ++ [c]) b j cur) (hc : a[i]? = some c)
    (hj : j < b.length) :
    ∃ row, editCell? a b prev (i + 1) cur (j + 1) = some row ∧
      Filled (xs ++ [c]) b (j + 1) row := by
  have hd : b[j]? = some b[j] := List.getElem?_eq_getElem hj
  have htake : b.take (j + 1) = b.take j ++ [b[j]] := (List.take_concat_get' b j hj).symm
  have hlength : j + 1 < cur.length := by
    rw [hcur.length]
    omega
  refine ⟨_, ?_, hcur.set hj⟩
  simp only [editCell?, Nat.add_sub_cancel, hc, hd, hprev.entry (j + 1) hj,
    hprev.entry j hj.le, hcur.entry j le_rfl, Option.bind_eq_bind, Option.bind_some]
  rw [← set?_eq_some hlength, htake, distance_concat_concat]

/-- One round of the outer loop. -/
theorem Filled.advance_row {a b : List Char} {prev : List ℕ} {i : ℕ}
    (hprev : Filled (a.take i) b b.length prev) (hi : i < a.length) :
    ∃ row, editRow? a b prev (i + 1) = some row ∧ Filled (a.take (i + 1)) b b.length row := by
  have hc : a[i]? = some a[i] := List.getElem?_eq_getElem hi
  have htake : a.take (i + 1) = a.take i ++ [a[i]] := (List.take_concat_get' a i hi).symm
  have hlength : (a.take i ++ [a[i]]).length = i + 1 := by
    rw [← htake, List.length_take_of_le hi]
  have hnew := filled_replicate (a.take i ++ [a[i]]) b
  rw [hlength] at hnew
  rw [htake]
  exact forTo_spec (Filled (a.take i ++ [a[i]]) b) hnew fun j hj cur hcur =>
    hprev.advance_entry hcur hc hj

/-- No index is out of range, and the last entry of the last row is the distance. -/
theorem editDistance?_eq (a b : String) :
    editDistance? a b = some (distance a.toList b.toList) := by
  obtain ⟨row, hrun, hrow⟩ := forTo_spec (n := a.toList.length)
    (fun i row => Filled (a.toList.take i) b.toList b.toList.length row)
    (filled_range b.toList) fun i hi prev hprev => hprev.advance_row hi
  have hentry := hrow.entry b.toList.length le_rfl
  rw [List.take_length, List.take_length] at hentry
  rw [editDistance?, hrun]
  exact hentry

/-- The entries of a row after the one of `done`. -/
def rowFrom (xs : List Char) : List Char → List Char → List ℕ
  | _, [] => []
  | done, y :: rest => distance xs (done ++ [y]) :: rowFrom xs (done ++ [y]) rest

/-- One row from the previous one. -/
theorem editRow_rowFrom (xs done rest : List Char) (c : Char) :
    editRow c (distance (xs ++ [c]) done) (distance xs done) rest (rowFrom xs done rest) =
      rowFrom (xs ++ [c]) done rest := by
  induction rest generalizing done with
  | nil => rfl
  | cons y rest ih =>
    rw [rowFrom, rowFrom, editRow, ← distance_concat_concat, ih]

/-- All rows. -/
theorem editRows_rowFrom (b xs cs : List Char) :
    editRows b xs.length (xs.length :: rowFrom xs [] b) cs =
      (xs ++ cs).length :: rowFrom (xs ++ cs) [] b := by
  induction cs generalizing xs with
  | nil => rw [editRows, List.append_nil]
  | cons c cs ih =>
    have hrow := editRow_rowFrom xs [] b c
    have hlength : (xs ++ [c]).length = xs.length + 1 := by simp
    rw [distance_nil_right, distance_nil_right, hlength] at hrow
    have hnext := ih (xs ++ [c])
    rw [hlength, List.append_assoc, List.singleton_append] at hnext
    rw [editRows, List.headD_cons, List.tail_cons, hrow, hnext]

/-- The row before the first one. -/
theorem rowFrom_nil (done rest : List Char) :
    rowFrom [] done rest = List.range' (done.length + 1) rest.length := by
  induction rest generalizing done with
  | nil => rfl
  | cons y rest ih => simp [rowFrom, ih, List.range'_succ]

/-- The last entry of a row. -/
theorem getLastD_rowFrom (xs done rest : List Char) :
    (distance xs done :: rowFrom xs done rest).getLastD 0 = distance xs (done ++ rest) := by
  induction rest generalizing done with
  | nil => simp [rowFrom]
  | cons y rest ih =>
    have hlast := ih (done ++ [y])
    rw [List.append_assoc, List.singleton_append] at hlast
    rw [rowFrom, ← hlast]
    rfl

/-- The rows computed from one another end in the distance as well, so that both are one function.
-/
theorem editDistance_eq (a b : String) : editDistance a b = distance a.toList b.toList := by
  have hrange : List.range (b.toList.length + 1) = 0 :: rowFrom [] [] b.toList := by
    rw [rowFrom_nil, List.range_eq_range', List.range'_succ]
    rfl
  have hrows := editRows_rowFrom b.toList [] a.toList
  have hlast := getLastD_rowFrom a.toList [] b.toList
  rw [List.length_nil, List.nil_append] at hrows
  rw [distance_nil_right, List.nil_append] at hlast
  rw [editDistance, hrange, hrows, hlast]

/-- The candidates that are near enough. -/
def near (key : String) (candidates : List String) : List String :=
  candidates.filter fun c => decide (editDistance key c ≤ maxDistance key.utf8ByteSize)

/-- What it takes to be among them. -/
theorem mem_near {key c : String} {candidates : List String} :
    c ∈ near key candidates ↔
      c ∈ candidates ∧ editDistance key c ≤ maxDistance key.utf8ByteSize := by
  rw [near, List.mem_filter, decide_eq_true_iff]

/-- The first of the nearest ones is suggested. -/
theorem closest_eq_argmin (key : String) (candidates : List String) :
    closest key candidates = (near key candidates).argmin (editDistance key) := by
  let pair : String → String × ℕ := fun c => (c, editDistance key c)
  rw [closest, List.filter_map]
  refine (congrArg (Option.map Prod.fst)
    (?_ : _ = ((near key candidates).argmin (editDistance key)).map pair)).trans ?_
  · -- The fold keeps the distance of the best candidate so far with it.
    rw [List.foldl_map, List.argmin]
    change List.foldl _ (Option.map pair none) (near key candidates) = _
    refine List.foldl_hom (Option.map pair) fun best c => ?_
    cases best with
    | none => rfl
    | some b =>
      by_cases hless : editDistance key c < editDistance key b
      · simp [List.argAux, pair, hless]
      · simp [List.argAux, pair, hless]
  · rw [Option.map_map]
    exact Option.map_id_apply

/-- What is suggested is one of the candidates, and near enough. -/
theorem closest_mem {key c : String} {candidates : List String}
    (h : closest key candidates = some c) :
    c ∈ candidates ∧ editDistance key c ≤ maxDistance key.utf8ByteSize := by
  rw [closest_eq_argmin] at h
  exact mem_near.mp (List.argmin_mem h)

/-- The table of `edit_distance` computes the least number of edits, of all texts and without an
index out of range. What `closest` suggests is a candidate that is near enough and of which no other
one is nearer, and it suggests nothing exactly when none is near enough. -/
theorem editDistance_least_closest :
    (∀ a b : String, editDistance? a b = some (editDistance a b) ∧
      editDistance a b = distance a.toList b.toList ∧
      IsLeast {n | Edits n a.toList b.toList} (editDistance a b)) ∧
    ∀ (key : String) (candidates : List String),
      (∀ c, closest key candidates = some c →
        c ∈ candidates ∧ editDistance key c ≤ maxDistance key.utf8ByteSize ∧
        ∀ d ∈ candidates, editDistance key d ≤ maxDistance key.utf8ByteSize →
          editDistance key c ≤ editDistance key d) ∧
      (closest key candidates = none ↔
        ∀ d ∈ candidates, ¬editDistance key d ≤ maxDistance key.utf8ByteSize) := by
  constructor
  · intro a b
    rw [editDistance_eq]
    exact ⟨editDistance?_eq a b, rfl, isLeast_distance a.toList b.toList⟩
  · intro key candidates
    constructor
    · intro c hc
      obtain ⟨hmem, hnear⟩ := closest_mem hc
      rw [closest_eq_argmin] at hc
      refine ⟨hmem, hnear, fun d hd hd' => ?_⟩
      exact List.le_of_mem_argmin (mem_near.mpr ⟨hd, hd'⟩) hc
    · rw [closest_eq_argmin, List.argmin_eq_none, List.eq_nil_iff_forall_not_mem]
      simp only [mem_near, not_and]

/-- Whatever the table is that is refused, a suggestion is the name of a section, or of a field of
one. -/
theorem checkUnknownKeys_suggestion {table : Table} {path suggestion : String}
    (h : checkUnknownKeys table = .error (.unknownKey path (some suggestion))) :
    suggestion ∈ SECTIONS.map Prod.fst ∨ ∃ known ∈ SECTIONS, suggestion ∈ known.2 := by
  induction table with
  | nil => cases h
  | cons entry rest ih =>
    obtain ⟨key, value⟩ := entry
    rw [checkUnknownKeys] at h
    cases hfind : SECTIONS.find? fun known => known.1 == key with
    | none =>
      simp only [hfind, Except.error.injEq, ConfigError.unknownKey.injEq] at h
      exact Or.inl (closest_mem h.2).1
    | some known =>
      obtain ⟨name, fields⟩ := known
      simp only [hfind] at h
      split at h
      · exact ih h
      · split at h
        · exact ih h
        · split at h
          · next e hcheck =>
            obtain ⟨subKey, -, he⟩ := checkSectionKeys_error hcheck
            rw [he, Except.error.injEq, ConfigError.unknownKey.injEq] at h
            exact Or.inr ⟨_, List.mem_of_find?_eq_some hfind, (closest_mem h.2).1⟩
          · exact ih h

end Devcroft.Config
