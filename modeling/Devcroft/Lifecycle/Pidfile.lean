import Devcroft.Library.Decimal
import Devcroft.Lifecycle.StartTime

/-!
# What is read of a pidfile

`status`, `ps` and `exec` look at the pidfile of a sandbox without its lock, while a command may be
writing it, and a command that is killed leaves it as far as it was written. What they take for the
keeper is the process that was recorded, or nothing at all.
-/

namespace Devcroft.Lifecycle.Status

open Text Utf8

/-- What `write_pidfile` writes. -/
def pidfileText (pid : ℤ) (startTime : ℕ) : String := toString pid ++ " " ++ toString startTime

/-- `write_pidfile`, as far as it comes: the bytes that are in the file afterwards. -/
def writePidfile (processes : Processes) (pid : ℤ) (written : ℕ) : Except String (List UInt8) :=
  match processes.startTime pid with
  | .ok startTime => .ok ((encode (pidfileText pid startTime)).take written)
  | .error e => .error e

section Reading

variable {pid startTime : ℕ}

/-- A pidfile is plain text. -/
theorem ascii_pidfileText (pid startTime : ℕ) :
    ∀ c ∈ (pidfileText pid startTime).toList, c.utf8Size = 1 := by
  have hdigit {n : ℕ} {c : Char} (hc : c ∈ (toString n).toList) : c.utf8Size = 1 := by
    have hbounds := Char.isDigit_iff_toNat.mp ((isDecimal_toString n).2.1 c hc)
    have hlast : '9'.toNat = 57 := by decide
    rw [Char.utf8Size_eq_one_iff, UInt32.le_iff_toNat_le]
    exact (hbounds.2.trans_eq hlast).trans (by decide)
  intro c hc
  rw [pidfileText, String.toList_append, String.toList_append, List.mem_append,
    List.mem_append] at hc
  rcases hc with (hc | hc) | hc
  · exact hdigit (n := pid) hc
  · obtain rfl := List.mem_singleton.mp hc
    decide
  · exact hdigit hc

/-- What `read_pidfile` makes of a text. -/
theorem readPidfile_encode (text : String) :
    readPidfile (.bytes (encode text)) =
      .ok (((splitWhitespace text)[0]?.bind parseI32).bind fun pid =>
        ((splitWhitespace text)[1]?.bind parseU64).map fun startTime => (pid, startTime)) := by
  simp [readPidfile, Stored.readToString]

/-- Without a second word there is no record. -/
theorem readPidfile_short {text : String} (h : (splitWhitespace text).length ≤ 1) :
    readPidfile (.bytes (encode text)) = .ok none := by
  rw [readPidfile_encode, List.getElem?_eq_none h]
  cases (splitWhitespace text)[0]?.bind parseI32 <;> rfl

/-- The words of a pidfile that ends behind the process id. -/
theorem splitWhitespace_pidfile (pid : ℕ) {word : String}
    (hword : ∀ c ∈ word.toList, c.isDigit = true) :
    splitWhitespace (toString pid ++ (" " ++ word)) =
      toString pid :: if word = "" then [] else [word] := by
  have hpid := isDecimal_toString pid
  have hspace : isWhitespace ' ' = true := by decide
  rw [splitWhitespace_append (fun h => hpid.1 (by rw [h]; rfl))
    (fun c hc => not_whitespace_of_isDigit (hpid.2.1 c hc)) (by simp [hspace])]
  change _ :: splitWhitespace (String.ofList [' '] ++ word) = _
  rw [splitWhitespace_cons hspace, splitWhitespace_digits hword]

/-- What is read of a pidfile that was written as far as this: the record, if it is all there, and
otherwise nothing, or the same process id with an earlier start time. -/
theorem readPidfile_written (hpid : pid < 2147483648) (hstart : startTime < UInt64.size)
    (written : ℕ) :
    ((encode (pidfileText pid startTime)).length ≤ written ∧
      readPidfile (.bytes ((encode (pidfileText pid startTime)).take written)) =
        .ok (some (pid, startTime))) ∨
    written < (encode (pidfileText pid startTime)).length ∧
      (readPidfile (.bytes ((encode (pidfileText pid startTime)).take written)) = .ok none ∨
        ∃ earlier, 0 < earlier ∧ earlier < startTime ∧
          readPidfile (.bytes ((encode (pidfileText pid startTime)).take written)) =
            .ok (some (pid, earlier))) := by
  have hascii := ascii_pidfileText pid startTime
  have hdigits : ∀ c ∈ (toString startTime).toList, c.isDigit = true :=
    (isDecimal_toString startTime).2.1
  have hlist : (pidfileText pid startTime).toList =
      (toString pid).toList ++ ' ' :: (toString startTime).toList := by
    have hpid : toString (pid : ℤ) = toString pid := rfl
    rw [pidfileText, hpid, String.toList_append, String.toList_append, List.append_assoc]
    rfl
  rw [take_encode_of_ascii hascii, encode_length_of_ascii hascii, hlist, List.length_append,
    List.length_cons, List.take_append]
  rcases Nat.lt_or_ge (toString pid).toList.length written with hlt | hle
  · obtain ⟨k, rfl⟩ : ∃ k, written = (toString pid).toList.length + 1 + k :=
      ⟨written - (toString pid).toList.length - 1, by omega⟩
    have hword : ∀ c ∈ (String.ofList ((toString startTime).toList.take k)).toList,
        c.isDigit = true := by
      intro c hc
      rw [String.toList_ofList] at hc
      exact hdigits c (List.take_subset _ _ hc)
    have htext : String.ofList (List.take ((toString pid).toList.length + 1 + k)
          (toString pid).toList ++ List.take ((toString pid).toList.length + 1 + k -
            (toString pid).toList.length) (' ' :: (toString startTime).toList)) =
        toString pid ++ (" " ++ String.ofList ((toString startTime).toList.take k)) := by
      apply Text.ext
      rw [List.take_of_length_le (by omega), Nat.add_assoc, Nat.add_sub_cancel_left,
        Nat.add_comm 1 k, List.take_succ_cons]
      simp
    have hwords := splitWhitespace_pidfile pid hword
    rw [htext]
    rcases Nat.eq_zero_or_pos k with rfl | hk
    · have hlength : 0 < (toString startTime).toList.length :=
        List.length_pos_of_ne_nil (isDecimal_toString startTime).1
      refine Or.inr ⟨by omega, Or.inl (readPidfile_short ?_)⟩
      rw [hwords]
      simp
    · obtain ⟨m, hparse, hm⟩ := parseU64_take hstart hk
      have hne : String.ofList ((toString startTime).toList.take k) ≠ "" := by
        intro h
        have hnone : parseU64 "" = none := by decide
        rw [h, hnone] at hparse
        cases hparse
      rw [if_neg hne] at hwords
      have hread : readPidfile (.bytes (encode (toString pid ++
          (" " ++ String.ofList ((toString startTime).toList.take k))))) =
          .ok (some ((pid : ℤ), m)) := by
        rw [readPidfile_encode, hwords]
        simp only [List.getElem?_cons_zero, List.getElem?_cons_succ, Option.bind_some,
          parseI32_toString hpid, hparse, Option.map_some]
      rcases hm with ⟨rfl, hle⟩ | ⟨hlt, hpos, hless⟩
      · exact Or.inl ⟨by omega, hread⟩
      · exact Or.inr ⟨by omega, Or.inr ⟨m, hpos, hless, hread⟩⟩
  · refine Or.inr ⟨by omega, Or.inl (readPidfile_short ?_)⟩
    rw [Nat.sub_eq_zero_of_le hle, List.take_zero, List.append_nil, splitWhitespace_digits]
    · split <;> simp
    · intro c hc
      rw [String.toList_ofList] at hc
      exact (isDecimal_toString pid).2.1 c (List.take_subset _ _ hc)

/-- Whoever looks at a pidfile, while it is being written or after its writer was killed, takes the
process that was recorded for the keeper, when all of the record is there, and no other one. -/
theorem health_written {m : Machine} {s : Sandbox} {writer : Processes} {bytes : List UInt8}
    {written : ℕ} (hpid : pid < 2147483648)
    (hstart : writer.startTime pid = .ok startTime) (hbound : startTime < UInt64.size)
    (hwrite : writePidfile writer pid written = .ok bytes) (hfile : s.pidfile = .bytes bytes)
    (hlater : ∀ current, m.processes.startTime pid = .ok current → startTime ≤ current) :
    ((encode (pidfileText pid startTime)).length ≤ written ∧
      health m s = .ok (if isSameProcess m.processes pid startTime = true ∧ s.accepts = true then
        .healthy pid else .stale pid)) ∨
    written < (encode (pidfileText pid startTime)).length ∧
      (health m s = .ok .none ∨ health m s = .ok (.stale pid)) := by
  have hbytes : bytes = (encode (pidfileText pid startTime)).take written := by
    rw [writePidfile, hstart] at hwrite
    exact (Except.ok.inj hwrite).symm
  rw [health, hfile, hbytes]
  rcases readPidfile_written hpid hbound written with ⟨hle, hread⟩ | ⟨hlt, hread | hread⟩
  · rw [hread]
    refine Or.inl ⟨hle, ?_⟩
    dsimp only
    cases hsame : isSameProcess m.processes pid startTime <;> cases s.accepts <;> simp
  · rw [hread]
    exact Or.inr ⟨hlt, Or.inl rfl⟩
  · obtain ⟨earlier, hpos, hless, hread⟩ := hread
    have hother : isSameProcess m.processes pid earlier = false := by
      rw [isSameProcess, if_neg (by omega)]
      cases hcurrent : m.processes.startTime pid with
      | error e => rfl
      | ok current =>
        have hle := hlater current hcurrent
        exact decide_eq_false (by omega)
    rw [hread]
    refine Or.inr ⟨hlt, Or.inr ?_⟩
    simp only [hother, if_true]

end Reading

/-- A process that was started at this time. -/
def sampleProcesses : Processes := ⟨fun _ => true, fun _ => .ok 567⟩

/-- A sandbox whose keeper answers. -/
def sampleSandbox (pidfile : List UInt8) : Sandbox := ⟨[], .absent, .bytes pidfile, true, none⟩

/-- The last digit is missing: this is not the keeper. -/
theorem health_written_cut :
    health { sampleMachine with processes := sampleProcesses }
        (sampleSandbox (encode "1234 56")) = .ok .none ∨
      health { sampleMachine with processes := sampleProcesses }
        (sampleSandbox (encode "1234 56")) = .ok (.stale 1234) := by
  have hwrite : writePidfile sampleProcesses 1234 7 = .ok (encode "1234 56") := rfl
  have hall := health_written (m := { sampleMachine with processes := sampleProcesses })
    (s := sampleSandbox (encode "1234 56")) (by decide) rfl (by decide) hwrite rfl
    fun current h => (Except.ok.inj h).le
  rcases hall with ⟨hle, -⟩ | ⟨-, hhealth⟩
  · exact absurd hle (by decide)
  · exact hhealth

end Devcroft.Lifecycle.Status
