import Devcroft.Library.Appending
import Devcroft.Library.Text
import Devcroft.Provider.Flox
import Devcroft.Ssh.Managed

/-!
# The ignored artifacts

`init` adds the directory of the artifacts to the `.gitignore` of a project. It reads the file as a
text, appends to the text and writes the file anew.
-/

namespace Devcroft.Cli

open Appending Utf8 Ssh

/-- What is to be ignored. -/
def ENTRY : String := Provider.ARTIFACT_DIR ++ "/"

/-- What is written before it. -/
def NOTICE : String := "\n# devcroft's generated service config, log, and supervisor socket\n"

/-- A line of the text is the entry, but for whitespace around it. -/
def covers (existing : String) : Bool := (Text.lines existing).any fun l => Text.trim l = ENTRY

/-- The text with the entry. -/
def extended (existing : String) : String :=
  let next := if existing ≠ "" ∧ Text.endsWith "\n" existing = false then existing ++ "\n"
    else existing
  next ++ NOTICE ++ ENTRY ++ "\n"

/-- `ignore_artifact_dir`, where the write succeeds: the `.gitignore` after it, in a project with or
without `.git`. What it prints is left out. -/
def ignoreArtifactDir (git : Bool) (gitignore : Option ConfigFile) : Option ConfigFile :=
  let existing := decodeLossy (readToString gitignore)
  if covers existing then gitignore
  else if existing = "" ∧ git = false then gitignore
  else some ⟨encode (extended existing), (gitignore.map ConfigFile.readable).getD true⟩

/-- A line of some bytes. -/
def HasLine (bytes line : List UInt8) : Prop :=
  ∃ before after, bytes = before ++ (line ++ after) ∧ newline ∉ line ∧ EndsLine newline before ∧
    ∀ b ∈ after.head?, b = newline

/-- Some bytes have a line that is the entry, but for whitespace around it. -/
def Covered (bytes : List UInt8) : Prop :=
  ∃ line, HasLine bytes (encode line) ∧ Text.trim line = ENTRY

/-- A call spares what is in the file, and a second one does nothing more: the file begins with what
was in it, is as it was or has gained the entry as a line behind that, and has a line for the entry,
if there was anything in it or the project is under git. -/
structure Spares (git : Bool) (file first second : Option ConfigFile) : Prop where
  kept : bytesOf file <+: bytesOf first
  gained : first = file ∨ ∃ between after,
    bytesOf first = bytesOf file ++ (between ++ (encode ENTRY ++ newline :: after)) ∧
      EndsLine newline (bytesOf file ++ between)
  covered : bytesOf file ≠ [] ∨ git = true → Covered (bytesOf first)
  again : second = first

/-- The file is read as it is, or else in a project under git has nothing in it but what is written
there anyway, and in another one has a line for the entry already. -/
def Appendable (git : Bool) (file : Option ConfigFile) : Prop :=
  readToString file = bytesOf file ∨
    if git then bytesOf file <+: encode NOTICE ∨ bytesOf file = encode (extended "")
    else Covered (bytesOf file)

section Covering

/-- A line of a text is one of its bytes. -/
theorem covered_of_covers {text : String} (h : covers text = true) : Covered (encode text) := by
  obtain ⟨line, hline, htrim⟩ := List.any_eq_true.mp h
  obtain ⟨piece, hpiece, hsame⟩ := Text.exists_of_mem_lines hline
  obtain ⟨chars, hchars, rfl⟩ := List.mem_map.mp hpiece
  obtain ⟨before, after, htext, hnewline, hbefore, hafter⟩ := Text.exists_of_mem_splitOn hchars
  have hencode : text = String.ofList before ++ (String.ofList chars ++ String.ofList after) := by
    apply Text.ext
    simpa using htext
  refine ⟨String.ofList chars, ⟨encode (String.ofList before), encode (String.ofList after), ?_,
    ?_, ?_, ?_⟩, hsame.trans (by simpa using htrim)⟩
  · rw [hencode, encode_append, encode_append]
  · rwa [newline_mem_encode_iff, String.toList_ofList]
  · rcases List.eq_nil_or_concat before with rfl | ⟨init, c, rfl⟩
    · exact endsLine_nil
    · have hc : c = '\n' := hbefore c (by simp)
      have hinit : String.ofList (init.concat c) = String.ofList init ++ "\n" := by
        apply Text.ext
        simp [hc]
      rw [hinit, encode_append]
      exact endsLine_concat _
  · cases after with
    | nil => simp [encode]
    | cons c rest =>
      have hc : c = '\n' := hafter c rfl
      have hrest : String.ofList (c :: rest) = "\n" ++ String.ofList rest := by
        apply Text.ext
        simp [hc]
      rw [hrest, encode_append]
      intro b hb
      exact (Option.some.inj hb).symm

/-- What was written is covered. -/
theorem covers_extended (existing : String) : covers (extended existing) = true := by
  have hentry : '\n' ∉ ENTRY.toList := by decide
  have hnotice : ∃ notice, NOTICE = notice ++ "\n" :=
    ⟨"\n# devcroft's generated service config, log, and supervisor socket", by decide⟩
  obtain ⟨notice, hnotice⟩ := hnotice
  unfold extended
  generalize (if existing ≠ "" ∧ Text.endsWith "\n" existing = false then existing ++ "\n"
    else existing) = next
  have hsplit : next ++ NOTICE ++ ENTRY ++ "\n" =
      (next ++ notice) ++ String.ofList ['\n'] ++ (ENTRY ++ String.ofList ['\n'] ++ "") := by
    rw [hnotice]
    apply Text.ext
    simp
  refine List.any_eq_true.mpr ⟨Text.stripCarriageReturn ENTRY, ?_, by decide⟩
  rw [hsplit]
  exact Text.mem_lines_of_newline hentry

end Covering

section Files

variable {git : Bool} {file : Option ConfigFile}

/-- What is read is a text. -/
theorem encode_decodeLossy_readToString (file : Option ConfigFile) :
    encode (decodeLossy (readToString file)) = readToString file := by
  have htext : ∃ s, encode s = readToString file := by
    unfold readToString
    split
    · next found =>
      split
      · next hread =>
        exact isSome_decode_iff.mp (Bool.and_eq_true_iff.mp hread).2
      · exact ⟨"", rfl⟩
    · exact ⟨"", rfl⟩
  obtain ⟨s, hs⟩ := htext
  rw [← hs, decodeLossy_encode]

/-- A file that is not read as it is, is read as empty. -/
theorem readToString_eq_nil (h : readToString file ≠ bytesOf file) : readToString file = [] := by
  cases file with
  | none => rfl
  | some found =>
    unfold readToString at h ⊢
    simp only at h ⊢
    split
    · next hread =>
      rw [if_pos hread] at h
      exact absurd rfl h
    · rfl

/-- A text is kept in front of the entry, which is a line behind it. -/
theorem extended_eq (existing : String) :
    ∃ between,
      encode (extended existing) = encode existing ++ (between ++ (encode ENTRY ++ [newline])) ∧
      EndsLine newline (encode existing ++ between) := by
  have hnl : encode "\n" = [newline] := by decide
  have hnotice : EndsLine newline (encode NOTICE) ∧ encode NOTICE ≠ [] := by decide +kernel
  unfold extended
  split
  · refine ⟨encode "\n" ++ encode NOTICE, ?_, ?_⟩
    · simp only [encode_append, hnl, List.append_assoc]
    · rw [← List.append_assoc]
      exact (endsLine_append hnotice.2).mpr hnotice.1
  · refine ⟨encode NOTICE, ?_, (endsLine_append hnotice.2).mpr hnotice.1⟩
    simp only [encode_append, hnl, List.append_assoc]

/-- The entry is a line of what is written into an empty file only behind the notice. -/
theorem prefix_notice {before between after : List UInt8}
    (h : encode (extended "") = before ++ (between ++ (encode ENTRY ++ newline :: after)))
    (hends : EndsLine newline (before ++ between)) : before <+: encode NOTICE := by
  have hplace : ∀ k < (encode (extended "")).length,
      EndsLine newline ((encode (extended "")).take k) →
      (encode ENTRY).isPrefixOf ((encode (extended "")).drop k) = true →
      (encode (extended "")).take k <+: encode NOTICE := by decide +kernel
  have hlength := congrArg List.length h
  simp only [List.length_append, List.length_cons] at hlength
  have hassoc : before ++ (between ++ (encode ENTRY ++ newline :: after)) =
      (before ++ between) ++ (encode ENTRY ++ newline :: after) := by simp
  have htake : (encode (extended "")).take (before ++ between).length = before ++ between := by
    rw [h, hassoc, List.take_left]
  have hdrop : (encode (extended "")).drop (before ++ between).length =
      encode ENTRY ++ newline :: after := by
    rw [h, hassoc, List.drop_left]
  have hbetween := hplace (before ++ between).length (by
    simp only [List.length_append]
    omega) (by rwa [htake]) (by
    rw [hdrop]
    exact List.isPrefixOf_iff_prefix.mpr (List.prefix_append _ _))
  rw [htake] at hbetween
  exact (List.prefix_append _ _).trans hbetween

/-- A file that may be read and holds a text is read as that. -/
theorem readToString_text (text : String) :
    readToString (some ⟨encode text, true⟩) = encode text := by
  simp [readToString]

/-- A second call finds covered what the first has written, or, where it cannot read it, writes it
again. -/
theorem ignoreArtifactDir_again (git : Bool) (file : Option ConfigFile) :
    ignoreArtifactDir git (ignoreArtifactDir git file) = ignoreArtifactDir git file := by
  by_cases hsame : ignoreArtifactDir git file = file
  · rw [hsame, hsame]
  have hwrites : covers (decodeLossy (readToString file)) = false ∧
      ¬(decodeLossy (readToString file) = "" ∧ git = false) ∧ ignoreArtifactDir git file =
        some ⟨encode (extended (decodeLossy (readToString file))),
          (file.map ConfigFile.readable).getD true⟩ := by
    unfold ignoreArtifactDir at hsame ⊢
    simp only at hsame ⊢
    split at hsame
    · exact absurd rfl hsame
    split at hsame
    · exact absurd rfl hsame
    next hcovers hempty =>
      rw [if_neg hcovers, if_neg hempty]
      exact ⟨Bool.eq_false_iff.mpr hcovers, hempty, rfl⟩
  obtain ⟨hcovers, hempty, hfirst⟩ := hwrites
  rw [hfirst]
  cases hreadable : (file.map ConfigFile.readable).getD true with
  | true =>
    have hread :
        covers (decodeLossy (encode (extended (decodeLossy (readToString file))))) = true := by
      rw [decodeLossy_encode]
      exact covers_extended _
    simp only [ignoreArtifactDir, readToString_text, hread, if_true]
  | false =>
    have hnone : readToString file = [] := by
      cases file with
      | none => rfl
      | some found => simp [readToString, show found.readable = false from hreadable]
    rw [hnone] at hcovers hempty ⊢
    simp only [ignoreArtifactDir, readToString, Bool.false_and, Bool.false_eq_true, if_false,
      hcovers, hempty, Option.map_some, Option.getD_some]

/-- What a call does: nothing, where the entry is covered or there is nothing to keep it for, or it
writes the text anew with the entry. -/
theorem ignoreArtifactDir_cases (git : Bool) (file : Option ConfigFile) :
    (ignoreArtifactDir git file = file ∧
      (covers (decodeLossy (readToString file)) = true ∨ readToString file = [] ∧ git = false)) ∨
    (bytesOf (ignoreArtifactDir git file) = encode (extended (decodeLossy (readToString file))) ∧
      (readToString file = [] → git = true)) := by
  have hnil : decodeLossy (readToString file) = "" ↔ readToString file = [] := by
    rw [← encode_eq_nil_iff, encode_decodeLossy_readToString]
  unfold ignoreArtifactDir
  simp only
  split
  · next hcovers => exact Or.inl ⟨rfl, Or.inl hcovers⟩
  split
  · next hempty => exact Or.inl ⟨rfl, Or.inr ⟨hnil.mp hempty.1, hempty.2⟩⟩
  · next hempty =>
    refine Or.inr ⟨rfl, fun hread => ?_⟩
    by_contra hgit
    exact hempty ⟨hnil.mpr hread, Bool.eq_false_iff.mpr hgit⟩

/-- Nothing is covered in an empty file. -/
theorem not_covered_nil : ¬Covered [] := by
  rintro ⟨line, ⟨before, after, hempty, -⟩, htrim⟩
  have hrest := (List.append_eq_nil_iff.mp hempty.symm).2
  have hline : line = "" := encode_eq_nil_iff.mp (List.append_eq_nil_iff.mp hrest).1
  rw [hline] at htrim
  exact absurd htrim (by decide)

/-- Where nothing is written, it is only the line for the entry that may be missing. -/
theorem spares_unwritten_iff (hfirst : ignoreArtifactDir git file = file)
    (hwhy : covers (decodeLossy (readToString file)) = true ∨
      readToString file = [] ∧ git = false) :
    Spares git file (ignoreArtifactDir git file)
        (ignoreArtifactDir git (ignoreArtifactDir git file)) ↔
      Appendable git file := by
  have hspares : Spares git file (ignoreArtifactDir git file)
      (ignoreArtifactDir git (ignoreArtifactDir git file)) ↔
      (bytesOf file ≠ [] ∨ git = true → Covered (bytesOf file)) := by
    rw [hfirst, hfirst]
    exact ⟨fun h => h.covered, fun h => ⟨List.prefix_rfl, Or.inl rfl, h, rfl⟩⟩
  rw [hspares]
  by_cases hsame : readToString file = bytesOf file
  · refine iff_of_true (fun h => ?_) (Or.inl hsame)
    rcases hwhy with hcovers | ⟨hread, rfl⟩
    · have hcovered := covered_of_covers hcovers
      rwa [encode_decodeLossy_readToString, hsame] at hcovered
    · exact absurd (hsame.symm.trans hread) (h.resolve_right (by decide))
  · have hread := readToString_eq_nil hsame
    rcases hwhy with hcovers | ⟨-, rfl⟩
    · have hcovered := covered_of_covers hcovers
      rw [encode_decodeLossy_readToString, hread] at hcovered
      exact absurd hcovered not_covered_nil
    · have hne : bytesOf file ≠ [] := fun h => hsame (hread.trans h.symm)
      constructor
      · exact fun h => Or.inr (h (Or.inl hne))
      · exact fun h _ => h.resolve_left hsame

/-- What is written has a line for the entry, and a second call leaves it. So a call that writes
spares what it keeps and adds to. -/
theorem spares_written_iff
    (hfirst : bytesOf (ignoreArtifactDir git file) =
      encode (extended (decodeLossy (readToString file)))) :
    Spares git file (ignoreArtifactDir git file)
        (ignoreArtifactDir git (ignoreArtifactDir git file)) ↔
      bytesOf file <+: bytesOf (ignoreArtifactDir git file) ∧
      (ignoreArtifactDir git file = file ∨ ∃ between after,
        bytesOf (ignoreArtifactDir git file) =
          bytesOf file ++ (between ++ (encode ENTRY ++ newline :: after)) ∧
        EndsLine newline (bytesOf file ++ between)) := by
  have hcovered : Covered (bytesOf (ignoreArtifactDir git file)) := by
    rw [hfirst]
    exact covered_of_covers (covers_extended _)
  constructor
  · exact fun h => ⟨h.kept, h.gained⟩
  · exact fun h => ⟨h.1, h.2, fun _ => hcovered, ignoreArtifactDir_again git file⟩

/-- What is read as it is, is kept by the call that writes. -/
theorem spares_of_read (hsame : readToString file = bytesOf file)
    (hfirst : bytesOf (ignoreArtifactDir git file) =
      encode (extended (decodeLossy (readToString file)))) :
    Spares git file (ignoreArtifactDir git file)
      (ignoreArtifactDir git (ignoreArtifactDir git file)) := by
  obtain ⟨between, hextended, hends⟩ := extended_eq (decodeLossy (readToString file))
  rw [encode_decodeLossy_readToString] at hextended hends
  rw [spares_written_iff hfirst, hfirst, hextended, ← hsame]
  exact ⟨List.prefix_append _ _, Or.inr ⟨between, [], rfl, hends⟩⟩

/-- A file that is as it would be written from nothing is written again as it is. -/
theorem ignoreArtifactDir_eq_self (hread : readToString file = [])
    (hsame : bytesOf file = encode (extended "")) : ignoreArtifactDir true file = file := by
  cases file with
  | none => exact absurd hsame (by decide +kernel)
  | some found =>
    have hcovers : covers (decodeLossy []) = false := by decide +kernel
    have hbytes : found.bytes = encode (extended (decodeLossy [])) := hsame
    simp only [ignoreArtifactDir, hread, hcovers, ← hbytes, Bool.true_eq_false, and_false,
      Bool.false_eq_true, if_false, Option.map_some, Option.getD_some]

/-- A file that is taken for empty is overwritten, so that all that was in it is lost, unless it is
in what is written. -/
theorem spares_lost_iff (hread : readToString file = [])
    (hfirst : bytesOf (ignoreArtifactDir true file) = encode (extended "")) :
    Spares true file (ignoreArtifactDir true file)
        (ignoreArtifactDir true (ignoreArtifactDir true file)) ↔
      bytesOf file <+: encode NOTICE ∨ bytesOf file = encode (extended "") := by
  have hwritten : bytesOf (ignoreArtifactDir true file) =
      encode (extended (decodeLossy (readToString file))) := by
    rw [hfirst, hread]
    rfl
  have hnew : encode (extended "") = encode NOTICE ++ (encode ENTRY ++ [newline]) := by
    decide +kernel
  have hnotice : EndsLine newline (encode NOTICE) := by decide +kernel
  rw [spares_written_iff hwritten, hfirst]
  constructor
  · rintro ⟨-, hself | ⟨between, after, hline, hends⟩⟩
    · right
      rw [← hself, hfirst]
    · exact Or.inl (prefix_notice hline hends)
  · rintro (⟨rest, hrest⟩ | hsame)
    · have hline : encode (extended "") =
          bytesOf file ++ (rest ++ (encode ENTRY ++ newline :: [])) := by
        rw [← List.append_assoc, hrest]
        exact hnew
      exact ⟨⟨_, hline.symm⟩, Or.inr ⟨rest, [], hline, hrest ▸ hnotice⟩⟩
    · exact ⟨hsame ▸ List.prefix_rfl, Or.inl (ignoreArtifactDir_eq_self hread hsame)⟩

/-- The `.gitignore` is spared if and only if it is read as it is, or it cannot be and there is
nothing to lose in it. -/
theorem gitignore_spared_iff (git : Bool) (file : Option ConfigFile) :
    Spares git file (ignoreArtifactDir git file)
        (ignoreArtifactDir git (ignoreArtifactDir git file)) ↔
      Appendable git file := by
  rcases ignoreArtifactDir_cases git file with ⟨hfirst, hwhy⟩ | ⟨hfirst, hgit⟩
  · exact spares_unwritten_iff hfirst hwhy
  · by_cases hsame : readToString file = bytesOf file
    · exact iff_of_true (spares_of_read hsame hfirst) (Or.inl hsame)
    · have hread := readToString_eq_nil hsame
      obtain rfl := hgit hread
      rw [hread] at hfirst
      rw [spares_lost_iff hread hfirst]
      constructor
      · exact fun h => Or.inr h
      · exact fun h => h.resolve_left hsame

/-- A `.gitignore` with a name in Latin-1. -/
def latinIgnore : Option ConfigFile := some ⟨encode "target/\ncaf" ++ [0xE9] ++ encode "/\n", true⟩

/-- In a project under git all of it is gone. -/
theorem gitignore_not_spared :
    ignoreArtifactDir true latinIgnore = some ⟨encode (NOTICE ++ ENTRY ++ "\n"), true⟩ ∧
      ¬Spares true latinIgnore (ignoreArtifactDir true latinIgnore)
        (ignoreArtifactDir true (ignoreArtifactDir true latinIgnore)) := by
  have hfirst : ignoreArtifactDir true latinIgnore =
      some ⟨encode (NOTICE ++ ENTRY ++ "\n"), true⟩ := by decide +kernel
  refine ⟨hfirst, fun h => ?_⟩
  have hkept := h.kept
  rw [hfirst] at hkept
  exact absurd hkept (by decide +kernel)

end Files

end Devcroft.Cli
