import Devcroft.Ssh.Config

/-!
# What an update of the ssh config keeps

The file is the user's own. An update is safe where the markers in it are none, or make
one block that comes first, and where the file is valid UTF-8: then it has one managed
block, keeps what is around it, and is not changed by another update.
-/

namespace Devcroft.Ssh

open Marked Utf8

/-- The markers of a managed block. -/
def managed : Markers UInt8 where
  head := 35
  tail
    | .opening => (encode BEGIN_MARKER).tail
    | .closing => (encode END_MARKER).tail
  head_notMem k := by cases k <;> decide +kernel
  tail_prefix k k' := by cases k <;> cases k' <;> decide +kernel

@[simp] theorem text_opening : managed.text .opening = encode BEGIN_MARKER := by decide +kernel

@[simp] theorem text_closing : managed.text .closing = encode END_MARKER := by decide +kernel

/-- The bytes of a file. -/
def bytesOf (file : Option ConfigFile) : List UInt8 := (file.map ConfigFile.bytes).getD []

/-- What stands in the block. -/
def body (identityFile : String) : List UInt8 := newline :: encode (render identityFile)

/-- After a call, a file has exactly one managed block, which holds what is rendered, and around it
all that was outside of managed blocks before; and another call does not change it. -/
structure SafelyManaged (identityFile : String) (before first second : List UInt8) : Prop where
  one : managed.blocks first = [body identityFile]
  kept : (managed.outside before).Sublist (managed.outside first)
  again : second = first

/-- The sequence of markers has none, or begins with an opening and a closing one, and after them no
closing one follows directly on an opening one. -/
def OnePair : List Mark → Prop
  | [] => True
  | .opening :: .closing :: rest => ¬[Mark.opening, .closing] <:+: rest
  | _ => False

instance (marks : List Mark) : Decidable (OnePair marks) := by
  unfold OnePair
  split <;> infer_instance

/-- The condition: no marker is in the path of the identity, and the markers of a file that can be
read are none or make one block; of one that cannot be read, nothing but a newline is outside of
blocks. -/
def Manageable (identityFile : String) (file : Option ConfigFile) : Prop :=
  managed.marks (encode identityFile) = [] ∧
    if readToString file = bytesOf file then OnePair (managed.marks (bytesOf file))
    else (managed.outside (bytesOf file)).Sublist [newline]

instance (identityFile : String) (file : Option ConfigFile) :
    Decidable (Manageable identityFile file) :=
  inferInstanceAs (Decidable (_ ∧ ite _ _ _))

section Reading

theorem newline_ne_head : newline ≠ managed.head := by decide

theorem newline_notMem_tail (k : Mark) : newline ∉ managed.tail k := by
  cases k <;> decide +kernel

/-- The block, around what stands in it. -/
theorem encode_block (identityFile : String) :
    encode (block identityFile) =
      managed.text .opening ++ (body identityFile ++ (managed.text .closing ++ [newline])) := by
  have hnewline : encode "\n" = [newline] := by decide
  rw [block, encode_append, encode_append, encode_append, encode_append, hnewline, text_opening,
    text_closing, body]
  simp only [List.append_assoc, List.cons_append, List.nil_append]

theorem encode_append_append (a b c : String) :
    encode (a ++ b ++ c) = encode a ++ (encode b ++ encode c) := by
  rw [encode_append, encode_append, List.append_assoc]

/-- What stands in the block around the path of the identity has no part of a marker. -/
theorem exists_body : ∃ before after, managed.head ∉ before ∧ managed.head ∉ after ∧
    ∀ identityFile, body identityFile = before ++ (encode identityFile ++ newline :: after) := by
  refine ⟨newline :: encode "Host *.devcroft\n  ProxyCommand devcroft proxy %n\n  IdentityFile ",
    encode "  StrictHostKeyChecking no\n  UserKnownHostsFile /dev/null\n", by decide +kernel,
    by decide +kernel, fun identityFile => congrArg (List.cons newline) ?_⟩
  have hafter : encode "\n  StrictHostKeyChecking no\n  UserKnownHostsFile /dev/null\n" =
      newline :: encode "  StrictHostKeyChecking no\n  UserKnownHostsFile /dev/null\n" := by
    decide +kernel
  exact (encode_append_append _ identityFile _).trans
    (congrArg (fun after => encode _ ++ (encode identityFile ++ after)) hafter)

/-- The markers of the block's body are those in the path of the identity. -/
theorem marks_body (identityFile : String) :
    managed.marks (body identityFile) = managed.marks (encode identityFile) := by
  obtain ⟨before, after, hbefore, hafter, hbody⟩ := exists_body
  have hplain : ∀ l : List UInt8, (l.map Token.plain).filterMap Token.mark? = [] := by
    intro l
    rw [List.filterMap_map]
    exact List.filterMap_eq_nil_iff.mpr fun _ _ => rfl
  have hnewline : (Token.plain newline).mark? = none := rfl
  have hscan : managed.scan after = after.map .plain := by
    have h := Markers.scan_append_of_head_notMem hafter []
    rwa [List.append_nil, Markers.scan_nil, List.append_nil] at h
  unfold Markers.marks
  rw [hbody, Markers.scan_append_of_head_notMem hbefore,
    Markers.scan_append_plain newline_ne_head newline_notMem_tail, hscan, List.filterMap_append,
    hplain, List.filterMap_append, List.filterMap_cons_none hnewline, hplain, List.nil_append,
    List.append_nil]

variable {identityFile : String}

/-- The block is read as a block. -/
theorem scan_block (hidentity : managed.marks (encode identityFile) = []) (y : List UInt8) :
    managed.scan (encode (block identityFile) ++ y) =
      .mark .opening :: ((body identityFile).map .plain ++
        .mark .closing :: .plain newline :: managed.scan y) := by
  have hbody : managed.scan (body identityFile) = (body identityFile).map .plain :=
    Markers.marks_eq_nil_iff.mp ((marks_body identityFile).trans hidentity)
  have hnewline : managed.scan (newline :: y) = .plain newline :: managed.scan y :=
    Markers.scan_append_plain newline_ne_head newline_notMem_tail [] y
  rw [encode_block, List.append_assoc, Markers.scan_mark, List.append_assoc, List.append_assoc,
    Markers.scan_append_mark, hbody, List.singleton_append, hnewline]

theorem scan_append_block (hidentity : managed.marks (encode identityFile) = [])
    (x y : List UInt8) :
    managed.scan (x ++ (encode (block identityFile) ++ y)) = managed.scan x ++
      .mark .opening :: ((body identityFile).map .plain ++
        .mark .closing :: .plain newline :: managed.scan y) := by
  rw [← scan_block hidentity, Markers.scan_append]
  intro b hb k
  rw [encode_block] at hb
  obtain rfl := Option.some.inj hb
  exact managed.head_notMem k

/-- A text around the block has the block, if it has none before. -/
theorem blocks_append_block (hidentity : managed.marks (encode identityFile) = [])
    {x : List UInt8} (hx : managed.marks x = []) (y : List UInt8) :
    managed.blocks (x ++ (encode (block identityFile) ++ y)) =
      body identityFile :: managed.blocks y := by
  unfold Markers.blocks
  rw [scan_append_block hidentity, Markers.marks_eq_nil_iff.mp hx, blocksFrom_plain, blocksFrom,
    blocksFrom_block, blocksFrom, List.nil_append]

/-- What is outside of it are the text and the newline of the block. -/
theorem outside_append_block (hidentity : managed.marks (encode identityFile) = [])
    {x : List UInt8} (hx : managed.marks x = []) (y : List UInt8) :
    managed.outside (x ++ (encode (block identityFile) ++ y)) =
      x ++ newline :: managed.outside y := by
  unfold Markers.outside
  rw [scan_append_block hidentity, Markers.marks_eq_nil_iff.mp hx, outsideFrom_plain, outsideFrom,
    outsideFrom_block, outsideFrom]

end Reading

section Updating

/-- The update of a text with a pair of markers. -/
theorem updated_of_paired {x mid : List UInt8} (hx : managed.marks x = [])
    (hmid : .mark .closing ∉ managed.scan mid) (rest block : List UInt8) :
    updated (x ++ (managed.text .opening ++ (mid ++ (managed.text .closing ++ rest)))) block =
      x ++ (block ++ stripNewline rest) := by
  have hopening := Markers.find_text (Markers.mark_notMem_of_marks hx .opening)
    (mid ++ (managed.text .closing ++ rest))
  have hclosing := Markers.find_closing hx hmid rest
  unfold updated
  rw [← text_opening, ← text_closing, hopening, hclosing]
  dsimp only
  have hlt : x.length < (x ++ (managed.text .opening ++ mid)).length := by
    rw [List.length_append, List.length_append, Markers.text, List.length_cons]
    omega
  have hdrop : (x ++ (managed.text .opening ++ (mid ++ (managed.text .closing ++ rest)))).drop
      ((x ++ (managed.text .opening ++ mid)).length + (managed.text .closing).length) = rest := by
    have hsplit : x ++ (managed.text .opening ++ (mid ++ (managed.text .closing ++ rest))) =
        ((x ++ (managed.text .opening ++ mid)) ++ managed.text .closing) ++ rest := by
      simp only [List.append_assoc]
    rw [hsplit, ← List.length_append, List.drop_left]
  rw [if_pos hlt, hdrop, List.take_left, List.append_assoc]

/-- A text without such a pair gets the block at its end. -/
theorem updated_of_not_paired {l : List UInt8} (h : ¬managed.Paired l) (block : List UInt8) :
    updated l block = appended l block := by
  unfold updated
  split
  · next start stop hopening hclosing =>
    split
    · next hlt =>
      rw [← text_opening] at hopening
      rw [← text_closing] at hclosing
      exact (h (Markers.paired_of_find hopening hclosing hlt)).elim
    · rfl
  · rfl

/-- What comes between a text and the block at its end. -/
theorem exists_appended (l block : List UInt8) :
    ∃ n, appended l block = l ++ (List.replicate n newline ++ block) := by
  unfold appended
  dsimp only
  split
  · refine ⟨2, ?_⟩
    rw [if_pos (by simp)]
    simp only [List.append_assoc, List.replicate_succ, List.replicate_zero, List.cons_append,
      List.nil_append]
  · split
    · refine ⟨1, ?_⟩
      simp only [List.append_assoc, List.replicate_succ, List.replicate_zero]
    · exact ⟨0, rfl⟩

theorem scan_append_newlines (l : List UInt8) (n : ℕ) :
    managed.scan (l ++ List.replicate n newline) =
      managed.scan l ++ (List.replicate n newline).map .plain := by
  induction n generalizing l with
  | zero => simp
  | succ n ih =>
    have hnewlines := ih []
    rw [List.nil_append, Markers.scan_nil, List.nil_append] at hnewlines
    rw [List.replicate_succ, Markers.scan_append_plain newline_ne_head newline_notMem_tail,
      hnewlines, List.map_cons]

theorem marks_append_newlines (l : List UInt8) (n : ℕ) :
    managed.marks (l ++ List.replicate n newline) = managed.marks l := by
  rw [Markers.marks, scan_append_newlines, List.filterMap_append, List.filterMap_map]
  refine (congrArg _ (List.filterMap_eq_nil_iff.mpr fun _ _ => ?_)).trans (List.append_nil _)
  rfl

theorem eq_stripNewline_or (l : List UInt8) :
    l = stripNewline l ∨ l = newline :: stripNewline l := by
  cases l with
  | nil => exact Or.inl rfl
  | cons b rest =>
    by_cases hb : b = newline
    · exact Or.inr (by rw [stripNewline, if_pos hb, hb])
    · exact Or.inl (by rw [stripNewline, if_neg hb])

theorem stripNewline_cons (l : List UInt8) : stripNewline (newline :: l) = l := by
  rw [stripNewline, if_pos rfl]

theorem marks_stripNewline (l : List UInt8) : managed.marks (stripNewline l) = managed.marks l := by
  rcases eq_stripNewline_or l with h | h
  · exact congrArg managed.marks h.symm
  · have hscan := Markers.scan_append_plain newline_ne_head newline_notMem_tail [] (stripNewline l)
    rw [List.nil_append, ← h] at hscan
    unfold Markers.marks
    rw [hscan]
    rfl

theorem outside_stripNewline (l : List UInt8) :
    managed.outside l = managed.outside (stripNewline l) ∨
      managed.outside l = newline :: managed.outside (stripNewline l) := by
  rcases eq_stripNewline_or l with h | h
  · exact Or.inl (congrArg managed.outside h)
  · have hscan := Markers.scan_append_plain newline_ne_head newline_notMem_tail [] (stripNewline l)
    rw [List.nil_append, ← h] at hscan
    right
    unfold Markers.outside
    rw [hscan]
    rfl

variable {identityFile : String}

/-- What holds the block already is not changed. -/
theorem updated_append_block (hidentity : managed.marks (encode identityFile) = [])
    {x : List UInt8} (hx : managed.marks x = []) (y : List UInt8) :
    updated (x ++ (encode (block identityFile) ++ y)) (encode (block identityFile)) =
      x ++ (encode (block identityFile) ++ y) := by
  have hbody : .mark .closing ∉ managed.scan (body identityFile) := by
    rw [← Markers.mem_marks_iff, marks_body, hidentity]
    exact List.not_mem_nil
  have hupdated := updated_of_paired hx hbody (newline :: y) (encode (block identityFile))
  rw [stripNewline_cons] at hupdated
  have hblock : encode (block identityFile) ++ y = managed.text .opening ++
      (body identityFile ++ (managed.text .closing ++ newline :: y)) := by
    rw [encode_block]
    simp only [List.append_assoc, List.cons_append, List.nil_append]
  rw [← hblock] at hupdated
  exact hupdated

theorem isSome_decode_append {x y : List UInt8} (hx : (decode x).isSome = true)
    (hy : (decode y).isSome = true) : (decode (x ++ y)).isSome = true := by
  obtain ⟨s, rfl⟩ := isSome_decode_iff.mp hx
  obtain ⟨t, rfl⟩ := isSome_decode_iff.mp hy
  exact isSome_decode_iff.mpr ⟨s ++ t, encode_append s t⟩

theorem isSome_decode_stripNewline {l : List UInt8} (hl : (decode l).isSome = true) :
    (decode (stripNewline l)).isSome = true := by
  rcases eq_stripNewline_or l with h | h
  · rwa [← h]
  · obtain ⟨s, rfl⟩ := isSome_decode_iff.mp hl
    have hnewline : encode "\n" = [newline] := by decide
    have hs : encode s = encode "\n" ++ stripNewline (encode s) := by
      rw [hnewline]
      exact h
    obtain ⟨t, -, ht⟩ := exists_append_of_encode hs
    exact isSome_decode_iff.mpr ⟨t, ht⟩

/-- What is written can be read again. -/
theorem isSome_decode_updated {l : List UInt8} (hl : (decode l).isSome = true) (block : String) :
    (decode (updated l (encode block))).isSome = true := by
  have hblock : (decode (encode block)).isSome = true := isSome_decode_iff.mpr ⟨block, rfl⟩
  by_cases hpaired : managed.Paired l
  · obtain ⟨x, mid, rest, rfl, hx, hmid⟩ := hpaired
    rw [updated_of_paired hx hmid]
    obtain ⟨s, hs⟩ := isSome_decode_iff.mp hl
    obtain ⟨before, -, -, hbefore, -⟩ :=
      exists_of_encode (t := BEGIN_MARKER) (by decide) (text_opening ▸ hs)
    have hs' : encode s = (x ++ (managed.text .opening ++ mid)) ++ (encode END_MARKER ++ rest) := by
      rw [hs, ← text_closing]
      simp only [List.append_assoc]
    obtain ⟨-, after, -, -, hafter⟩ := exists_of_encode (by decide) hs'
    refine isSome_decode_append (isSome_decode_iff.mpr ⟨before, hbefore⟩) ?_
    refine isSome_decode_append hblock (isSome_decode_stripNewline ?_)
    exact isSome_decode_iff.mpr ⟨after, hafter⟩
  · obtain ⟨n, happended⟩ := exists_appended l (encode block)
    rw [updated_of_not_paired hpaired, happended]
    refine isSome_decode_append hl (isSome_decode_append ?_ hblock)
    clear happended
    induction n with
    | zero => rfl
    | succ n ih => exact isSome_decode_append (x := [newline]) rfl ih

end Updating

section Managing

variable {identityFile : String}

/-- What is outside where the first markers are a pair. -/
theorem outside_of_paired {x : List UInt8} (hx : managed.marks x = []) (mid rest : List UInt8) :
    managed.outside
        (x ++ (managed.text .opening ++ (mid ++ (managed.text .closing ++ rest)))) =
      x ++ outsideFrom managed (some [])
        (managed.scan mid ++ .mark .closing :: managed.scan rest) := by
  unfold Markers.outside
  rw [Markers.scan_append_mark, Markers.scan_append_mark, Markers.marks_eq_nil_iff.mp hx,
    outsideFrom_plain, outsideFrom]

/-- Another opening marker before the closing one: the text between the two is lost. -/
theorem not_safelyManaged_of_reopened (hidentity : managed.marks (encode identityFile) = [])
    {x mid : List UInt8} (hx : managed.marks x = [])
    (hmid : .mark .closing ∉ managed.scan mid) (hopening : .mark .opening ∈ managed.scan mid)
    (rest second : List UInt8) :
    ¬SafelyManaged identityFile
        (x ++ (managed.text .opening ++ (mid ++ (managed.text .closing ++ rest))))
        (x ++ (encode (block identityFile) ++ stripNewline rest)) second := by
  intro h
  obtain ⟨lost, hlost, hlength⟩ : ∃ lost, outsideFrom managed (some [])
      (managed.scan mid ++ .mark .closing :: managed.scan rest) =
        lost ++ outsideFrom managed none (managed.scan rest) ∧
      (.mark .opening ∈ managed.scan mid →
        (managed.text .opening).length ≤ lost.length) :=
    outsideFrom_reopened [] hmid
  have hkept := h.kept.length_le
  rw [outside_of_paired hx, hlost, outside_append_block hidentity hx] at hkept
  have hlong : 2 ≤ (managed.text .opening).length := by decide +kernel
  have hlost := hlength hopening
  have hstripped : (managed.outside (stripNewline rest)).length ≤
      (outsideFrom managed none (managed.scan rest)).length := by
    change _ ≤ (managed.outside rest).length
    rcases outside_stripNewline rest with h | h
    · rw [h]
    · rw [h, List.length_cons]
      omega
  simp only [List.length_append, List.length_cons] at hkept
  omega

/-- A text with a pair of markers is managed safely where its markers make one block. -/
theorem safelyManaged_iff_of_paired (hidentity : managed.marks (encode identityFile) = [])
    {x mid rest : List UInt8} (hx : managed.marks x = [])
    (hmid : .mark .closing ∉ managed.scan mid) :
    SafelyManaged identityFile
        (x ++ (managed.text .opening ++ (mid ++ (managed.text .closing ++ rest))))
        (x ++ (encode (block identityFile) ++ stripNewline rest))
        (x ++ (encode (block identityFile) ++ stripNewline rest)) ↔
      OnePair (managed.marks
        (x ++ (managed.text .opening ++ (mid ++ (managed.text .closing ++ rest))))) := by
  have hmarks : managed.marks
      (x ++ (managed.text .opening ++ (mid ++ (managed.text .closing ++ rest)))) =
        .opening :: (managed.marks mid ++ .closing :: managed.marks rest) := by
    rw [Markers.marks_append_mark, Markers.marks_append_mark, hx, List.nil_append]
  have hblocks : managed.blocks (x ++ (encode (block identityFile) ++ stripNewline rest)) =
      body identityFile :: managed.blocks (stripNewline rest) :=
    blocks_append_block hidentity hx _
  have hrest : managed.blocks (stripNewline rest) = [] ↔
      ¬[Mark.opening, .closing] <:+: managed.marks rest := by
    rw [← marks_stripNewline rest]
    exact blocksFrom_eq_nil_iff none
  cases hmidMarks : managed.marks mid with
  | nil =>
    rw [hmarks, hmidMarks, List.nil_append]
    constructor
    · intro h
      have hone := h.one
      rw [hblocks] at hone
      exact hrest.mp (List.cons.inj hone).2
    · intro h
      refine ⟨by rw [hblocks, hrest.mpr h], ?_, rfl⟩
      rw [outside_of_paired hx, Markers.marks_eq_nil_iff.mp hmidMarks, outsideFrom_block,
        outside_append_block hidentity hx]
      refine (List.Sublist.refl x).append ?_
      change (managed.outside rest).Sublist _
      rcases outside_stripNewline rest with h | h
      · rw [h]
        exact List.sublist_cons_self _ _
      · rw [h]
  | cons k ks =>
    have hk : k = .opening := by
      cases k with
      | opening => rfl
      | closing => exact (hmid (Markers.mark_mem_of_marks_cons hmidMarks)).elim
    have hopening : .mark .opening ∈ managed.scan mid :=
      hk ▸ Markers.mark_mem_of_marks_cons hmidMarks
    rw [hmarks, hmidMarks, hk, List.cons_append]
    refine iff_of_false ?_ id
    exact not_safelyManaged_of_reopened hidentity hx hmid hopening rest _

/-- A text with markers, but not with a pair of them, is changed by the second call again. -/
theorem updated_ne_of_not_paired (hidentity : managed.marks (encode identityFile) = [])
    {l : List UInt8} (hpaired : ¬managed.Paired l) (hmarks : managed.marks l ≠ []) :
    updated (updated l (encode (block identityFile))) (encode (block identityFile)) ≠
      updated l (encode (block identityFile)) := by
  have hlong : 0 < (encode (block identityFile)).length := by
    rw [encode_block, Markers.text, List.cons_append, List.length_cons]
    omega
  obtain ⟨n, hn⟩ := exists_appended l (encode (block identityFile))
  rw [updated_of_not_paired hpaired, hn]
  by_cases hclosing : .mark .closing ∈ managed.scan l
  · -- The first closing marker is still before every opening one.
    have hnot : ¬managed.Paired
        (l ++ (List.replicate n newline ++ encode (block identityFile))) :=
      Markers.not_paired_append hclosing hpaired _
    obtain ⟨n', hn'⟩ := exists_appended
      (l ++ (List.replicate n newline ++ encode (block identityFile))) (encode (block identityFile))
    rw [updated_of_not_paired hnot, hn']
    intro hsame
    have hlength := congrArg List.length hsame
    simp only [List.length_append] at hlength
    omega
  · -- The first opening marker gets the closing one of the new block.
    have hopening : .mark .opening ∈ managed.scan l := by
      by_contra hopening
      exact hmarks (Markers.marks_eq_nil_of_notMem hopening hclosing)
    obtain ⟨x, y, rfl, hx⟩ := Markers.exists_cut hopening
    rw [Markers.scan_append_mark, List.mem_append, List.mem_cons, not_or, not_or] at hclosing
    obtain ⟨hclosingx, -, hclosingy⟩ := hclosing
    have hplain : managed.marks x = [] := Markers.marks_eq_nil_of_notMem hx hclosingx
    have hmid : .mark .closing ∉ managed.scan ((y ++ List.replicate n newline) ++
        (managed.text .opening ++ body identityFile)) := by
      rw [← Markers.mem_marks_iff, Markers.marks_append_mark, marks_append_newlines, marks_body,
        hidentity, List.mem_append, List.mem_singleton]
      rintro (h | h)
      · exact hclosingy (Markers.mem_marks_iff.mp h)
      · cases h
    have hsplit : x ++ (managed.text .opening ++ y) ++ (List.replicate n newline ++
        encode (block identityFile)) = x ++ (managed.text .opening ++
          (((y ++ List.replicate n newline) ++ (managed.text .opening ++ body identityFile)) ++
            (managed.text .closing ++ [newline]))) := by
      rw [encode_block]
      simp only [List.append_assoc]
    rw [hsplit, updated_of_paired hplain hmid, stripNewline_cons, ← hsplit]
    intro hsame
    have hlength := congrArg List.length hsame
    rw [Markers.text] at hlength
    simp only [List.length_append, List.length_cons, List.length_nil] at hlength
    omega

/-- A text is managed safely, and again, if and only if its markers are none or make one block. -/
theorem safelyManaged_iff (hidentity : managed.marks (encode identityFile) = [])
    (l : List UInt8) :
    SafelyManaged identityFile l (updated l (encode (block identityFile)))
        (updated (updated l (encode (block identityFile))) (encode (block identityFile))) ↔
      OnePair (managed.marks l) := by
  by_cases hpaired : managed.Paired l
  · obtain ⟨x, mid, rest, rfl, hx, hmid⟩ := hpaired
    rw [updated_of_paired hx hmid, updated_append_block hidentity hx]
    exact safelyManaged_iff_of_paired hidentity hx hmid
  · by_cases hmarks : managed.marks l = []
    · obtain ⟨n, hn⟩ := exists_appended l (encode (block identityFile))
      have hpad : managed.marks (l ++ List.replicate n newline) = [] := by
        rw [marks_append_newlines, hmarks]
      have hr : updated l (encode (block identityFile)) =
          (l ++ List.replicate n newline) ++ (encode (block identityFile) ++ []) := by
        rw [updated_of_not_paired hpaired, hn, List.append_nil, List.append_assoc]
      rw [hmarks, hr, updated_append_block hidentity hpad]
      refine iff_of_true ⟨blocks_append_block hidentity hpad [], ?_, rfl⟩ trivial
      have hl : managed.outside l = l := by
        have hplain : outsideFrom managed none (l.map .plain ++ []) =
            l ++ outsideFrom managed none [] := outsideFrom_plain l
        rw [List.append_nil] at hplain
        rw [Markers.outside, Markers.marks_eq_nil_iff.mp hmarks, hplain]
        exact List.append_nil l
      rw [outside_append_block hidentity hpad, hl, List.append_assoc]
      exact List.sublist_append_left _ _
    · refine iff_of_false (fun h => ?_) fun h => ?_
      · exact updated_ne_of_not_paired hidentity hpaired hmarks h.again
      · unfold OnePair at h
        split at h
        · next hnil => exact hmarks hnil
        · next hpair => exact hpaired (Markers.paired_of_marks hpair)
        · exact h

/-- A marker in the path of the identity is one in the block, which is then not read as it was
written. -/
theorem not_safelyManaged_of_marks (hidentity : managed.marks (encode identityFile) ≠ [])
    (before first second : List UInt8) : ¬SafelyManaged identityFile before first second := by
  intro h
  have hmem : body identityFile ∈ managed.blocks first := by
    rw [h.one]
    exact List.mem_cons_self
  refine hidentity ((marks_body identityFile).symm.trans ?_)
  exact Markers.marks_eq_nil_iff.mpr (scan_of_mem_blocks hmem)

theorem updated_nil (block : List UInt8) : updated [] block = block := by
  have hpaired : ¬managed.Paired [] := by
    rintro ⟨x, mid, rest, hl, -, -⟩
    have hlength := congrArg List.length hl
    rw [Markers.text] at hlength
    simp only [List.length_append, List.length_cons, List.length_nil] at hlength
    omega
  rw [updated_of_not_paired hpaired]
  rfl

theorem readToString_or (file : Option ConfigFile) :
    readToString file = [] ∨ readToString file = bytesOf file := by
  unfold readToString
  split
  · split
    · exact Or.inr rfl
    · exact Or.inl rfl
  · exact Or.inl rfl

theorem isSome_decode_readToString (file : Option ConfigFile) :
    (decode (readToString file)).isSome = true := by
  unfold readToString
  split
  · split
    · next h => exact (Bool.and_eq_true_iff.mp h).2
    · rfl
  · rfl

/-- A call that succeeds. -/
theorem writeManagedSection_ok {host : ConfigHost} {file first : Option ConfigFile}
    (h : writeManagedSection host file identityFile = (.ok (), first)) :
    first = some ⟨updated (readToString file) (encode (block identityFile)),
      (file.map ConfigFile.readable).getD true⟩ := by
  unfold writeManagedSection at h
  dsimp only at h
  split at h
  · cases h
  · cases h
  · exact (congrArg Prod.snd h).symm

/-- The block alone. -/
theorem updated_block (hidentity : managed.marks (encode identityFile) = []) :
    updated (encode (block identityFile)) (encode (block identityFile)) =
      encode (block identityFile) := by
  have hupdated := updated_append_block hidentity (x := []) rfl []
  rwa [List.nil_append, List.append_nil] at hupdated

/-- What the second call writes. -/
theorem updated_readToString (hidentity : managed.marks (encode identityFile) = [])
    (file : Option ConfigFile) :
    updated (readToString (some
        ⟨updated (readToString file) (encode (block identityFile)),
          (file.map ConfigFile.readable).getD true⟩)) (encode (block identityFile)) =
      updated (updated (readToString file) (encode (block identityFile)))
        (encode (block identityFile)) := by
  have hdecode := isSome_decode_updated (isSome_decode_readToString file) (block identityFile)
  cases hreadable : (file.map ConfigFile.readable).getD true with
  | true =>
    have hread : readToString (some
        ⟨updated (readToString file) (encode (block identityFile)), true⟩) =
          updated (readToString file) (encode (block identityFile)) := by
      unfold readToString
      dsimp only
      rw [Bool.true_and]
      exact if_pos hdecode
    rw [hread]
  | false =>
    -- A file that cannot be read is overwritten each time.
    cases file with
    | none => cases hreadable
    | some file =>
      have hunreadable : file.readable = false := hreadable
      have hfile : readToString (some file) = [] := by
        simp only [readToString, hunreadable, Bool.false_and, Bool.false_eq_true, if_false]
      have hagain : readToString (some ⟨encode (block identityFile), false⟩) = [] := rfl
      rw [hfile, updated_nil, hagain, updated_nil, updated_block hidentity]

/-- After two calls that succeed the file is managed safely, if and only if the condition holds. -/
theorem writeManagedSection_iff {host host' : ConfigHost} {file first second : Option ConfigFile}
    (hfirst : writeManagedSection host file identityFile = (.ok (), first))
    (hsecond : writeManagedSection host' first identityFile = (.ok (), second)) :
    SafelyManaged identityFile (bytesOf file) (bytesOf first) (bytesOf second) ↔
      Manageable identityFile file := by
  obtain rfl := writeManagedSection_ok hfirst
  obtain rfl := writeManagedSection_ok hsecond
  by_cases hidentity : managed.marks (encode identityFile) = []
  · unfold Manageable
    rw [and_iff_right hidentity]
    change SafelyManaged identityFile (bytesOf file)
      (updated (readToString file) (encode (block identityFile)))
      (updated (readToString _) (encode (block identityFile))) ↔ _
    rw [updated_readToString hidentity]
    split
    · next hread =>
      rw [← hread]
      exact safelyManaged_iff hidentity (readToString file)
    · next hread =>
      rw [(readToString_or file).resolve_right hread, updated_nil, updated_block hidentity]
      have hblocks := blocks_append_block hidentity (x := []) rfl []
      have houtside := outside_append_block hidentity (x := []) rfl []
      rw [List.nil_append, List.append_nil] at hblocks houtside
      constructor
      · intro h
        have hkept := h.kept
        rw [houtside] at hkept
        exact hkept
      · intro h
        refine ⟨hblocks, ?_, rfl⟩
        rw [houtside]
        exact h
  · refine iff_of_false (not_safelyManaged_of_marks hidentity _ _ _) fun h => ?_
    exact hidentity h.1

end Managing

/-- A host on which nothing fails. -/
def sampleConfigHost : ConfigHost := ⟨.ok (), .ok ()⟩

/-- A config with a host of the user, and a managed block for another identity. -/
def sampleConfig : ConfigFile :=
  ⟨encode ("Host example\n  User me\n\n" ++ block "/old/id" ++ "Host other\n"), true⟩

/-- It is updated. -/
theorem manageable_update :
    SafelyManaged "/home/u/id" sampleConfig.bytes
      (bytesOf (writeManagedSection sampleConfigHost (some sampleConfig) "/home/u/id").2)
      (bytesOf (writeManagedSection sampleConfigHost
        (writeManagedSection sampleConfigHost (some sampleConfig) "/home/u/id").2
        "/home/u/id").2) := by
  have hiff := @writeManagedSection_iff "/home/u/id" sampleConfigHost sampleConfigHost
    (some sampleConfig) _ _ rfl rfl
  have hread : readToString (some sampleConfig) = bytesOf (some sampleConfig) := by
    simp only [readToString, sampleConfig, decode_encode, Option.isSome_some, Bool.and_self,
      if_true]
    rfl
  refine hiff.mpr ⟨by decide +kernel, ?_⟩
  rw [if_pos hread]
  decide +kernel

/-- A config of the user in Latin-1, which is not valid UTF-8. -/
def sampleLatin : ConfigFile := ⟨encode "# caf" ++ [233] ++ encode "\nHost example\n", true⟩

/-- It is lost. -/
theorem not_safelyManaged_latin :
    (writeManagedSection sampleConfigHost (some sampleLatin) "/home/u/id").1 = .ok () ∧
    bytesOf (writeManagedSection sampleConfigHost (some sampleLatin) "/home/u/id").2 =
      encode (block "/home/u/id") ∧
    ∀ second, ¬SafelyManaged "/home/u/id" sampleLatin.bytes
      (bytesOf (writeManagedSection sampleConfigHost (some sampleLatin) "/home/u/id").2)
      second := by
  refine ⟨rfl, by decide +kernel, fun second h => ?_⟩
  have hkept := h.kept
  revert hkept
  decide +kernel

end Devcroft.Ssh
