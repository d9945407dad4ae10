import Devcroft.Proxy.Request

/-!
# The grammar of an authority

`split_host_port` reads `host`, `host:port`, `[v6]` and `[v6]:port`. It accepts every
string of this grammar with what is written there, and some strings that are none.
-/

namespace Devcroft.Proxy

open Buffered

/-- What is written in an authority: a host, and a decimal port or none for the default. -/
inductive Written (default : UInt16) : String → String → UInt16 → Prop where
  | host {host : String} (hne : host ≠ "") (hplain : Text.startsWith "[" host = false)
      (hcolon : ':' ∉ host.toList) : Written default host host default
  | hostPort {host digits : String} {port : UInt16} (hne : host ≠ "")
      (hplain : Text.startsWith "[" host = false) (hcolon : ':' ∉ host.toList)
      (hport : Text.IsDecimal digits port.toNat) :
      Written default (host ++ ":" ++ digits) host port
  | v6 {host : String} (hne : host ≠ "") (hclose : ']' ∉ host.toList) :
      Written default ("[" ++ (host ++ "]")) host default
  | v6Port {host digits : String} {port : UInt16} (hne : host ≠ "") (hclose : ']' ∉ host.toList)
      (hport : Text.IsDecimal digits port.toNat) :
      Written default ("[" ++ (host ++ "]" ++ (":" ++ digits))) host port

/-- The strings that `split_host_port` accepts although nothing is written there: nothing at all, a
host that is empty or has a colon, a port with a plus sign, and more than a port after a bracket. -/
def Misread (authority : String) : Prop :=
  match Text.stripPrefix "[" authority with
  | some rest =>
    match Text.splitOnce ']' rest with
    | none => False
    | some (host, rest) =>
      match Text.stripPrefix ":" rest with
      | some p => (Text.parseU16 p).isSome ∧ (host = "" ∨ Text.startsWith "+" p = true)
      | none => rest ≠ "" ∨ host = ""
  | none =>
    match Text.rsplitOnce ':' authority with
    | some (host, p) =>
      host = "" ∨
        ((Text.parseU16 p).isSome ∧ (':' ∈ host.toList ∨ Text.startsWith "+" p = true))
    | none => authority = ""

/-- What is written in a bracketed authority. -/
def WrittenBracketed (default : UInt16) (rest host : String) (port : UInt16) : Prop :=
  match Text.splitOnce ']' rest with
  | none => False
  | some (host', rest') =>
    match Text.stripPrefix ":" rest' with
    | some p => host' = host ∧ host' ≠ "" ∧ Text.IsDecimal p port.toNat
    | none => host' = host ∧ (host' ≠ "" ∧ rest' = "") ∧ port = default

/-- What is written in an authority without a bracket. -/
def WrittenPlain (default : UInt16) (authority host : String) (port : UInt16) : Prop :=
  match Text.rsplitOnce ':' authority with
  | some (host', p) =>
    host' = host ∧ (host' ≠ "" ∧ ':' ∉ host'.toList) ∧ Text.IsDecimal p port.toNat
  | none => authority = host ∧ authority ≠ "" ∧ port = default

/-- An authority without a bracket in front is written as its parts. -/
theorem WrittenPlain.written {default port : UInt16} {authority host : String}
    (h : WrittenPlain default authority host port)
    (hplain : Text.startsWith "[" authority = false) : Written default authority host port := by
  unfold WrittenPlain at h
  split at h
  · next host' p hsplit =>
    obtain ⟨htext, -⟩ := Text.rsplitOnce_eq_some hsplit
    obtain ⟨rfl, ⟨hne, hcolon⟩, hport⟩ := h
    obtain rfl : authority = host' ++ ":" ++ p := Text.ext (by simp [htext])
    rw [String.append_assoc, Text.startsWith_append hne] at hplain
    exact .hostPort hne hplain hcolon hport
  · next hsplit =>
    obtain ⟨rfl, hne, rfl⟩ := h
    exact .host hne hplain (Text.rsplitOnce_eq_none_iff.mp hsplit)

/-- An authority with a bracket in front is written as its parts. -/
theorem WrittenBracketed.written {default port : UInt16} {rest host : String}
    (h : WrittenBracketed default rest host port) : Written default ("[" ++ rest) host port := by
  unfold WrittenBracketed at h
  split at h
  · exact h.elim
  · next host' rest' hsplit =>
    obtain ⟨hrest, hclose⟩ := Text.splitOnce_eq_some hsplit
    obtain rfl : rest = host' ++ "]" ++ rest' := Text.ext (by simp [hrest])
    split at h
    · next p hp =>
      obtain ⟨rfl, hne, hport⟩ := h
      obtain rfl := Text.stripPrefix_eq_some_iff.mp hp
      exact .v6Port hne hclose hport
    · obtain ⟨rfl, ⟨hne, rfl⟩, rfl⟩ := h
      rw [String.append_empty]
      exact .v6 hne hclose

/-- What is written, as the parser looks for it. -/
theorem written_iff {default : UInt16} {authority host : String} {port : UInt16} :
    Written default authority host port ↔
      match Text.stripPrefix "[" authority with
      | some rest => WrittenBracketed default rest host port
      | none => WrittenPlain default authority host port := by
  have hclosed : ∀ host rest : String, ']' ∉ host.toList →
      Text.splitOnce ']' (host ++ "]" ++ rest) = some (host, rest) :=
    fun _ _ h => Text.splitOnce_append h
  have hcut : ∀ host digits : String, ':' ∉ digits.toList →
      Text.rsplitOnce ':' (host ++ ":" ++ digits) = some (host, digits) :=
    fun _ _ h => Text.rsplitOnce_append h
  have hbracket : ∀ rest, Text.stripPrefix "[" ("[" ++ rest) = some rest :=
    fun _ => Text.stripPrefix_eq_some_iff.mpr rfl
  have happend : ∀ host rest : String, host ≠ "" →
      Text.startsWith "[" (host ++ rest) = Text.startsWith "[" host :=
    fun _ rest h => Text.startsWith_append h '[' rest
  constructor
  · intro h
    cases h with
    | host hne hplain hcolon =>
      rw [Text.stripPrefix_eq_none_iff.mpr hplain]
      dsimp only
      rw [WrittenPlain, Text.rsplitOnce_eq_none_iff.mpr hcolon]
      exact ⟨rfl, hne, rfl⟩
    | hostPort hne hplain hcolon hport =>
      rw [Text.stripPrefix_eq_none_iff.mpr (by rw [String.append_assoc, happend _ _ hne, hplain])]
      dsimp only
      rw [WrittenPlain, hcut _ _ (hport.notMem (by decide))]
      exact ⟨rfl, ⟨hne, hcolon⟩, hport⟩
    | v6 hne hclose =>
      have hwhole := hclosed host "" hclose
      rw [String.append_empty] at hwhole
      rw [hbracket]
      dsimp only
      rw [WrittenBracketed, hwhole]
      exact ⟨rfl, ⟨hne, rfl⟩, rfl⟩
    | v6Port hne hclose hport =>
      rw [hbracket]
      dsimp only
      rw [WrittenBracketed, hclosed _ _ hclose]
      dsimp only
      rw [Text.stripPrefix_eq_some_iff.mpr rfl]
      exact ⟨rfl, hne, hport⟩
  · cases hstrip : Text.stripPrefix "[" authority with
    | some rest =>
      obtain rfl := Text.stripPrefix_eq_some_iff.mp hstrip
      exact fun h => h.written
    | none => exact fun h => h.written (Text.stripPrefix_eq_none_iff.mp hstrip)

/-- A text after the colon is read as it should be, for a host on which `C` is asked, exactly when
parsing does not accept it without `C` or with a plus sign. -/
theorem portText_iff (C : Prop) (host' p : String) (e : IoError) :
    (∀ host port, (match Text.parseU16 p with
        | some port => Except.ok (host', port)
        | none => .error e) = .ok (host, port) ↔
      host' = host ∧ C ∧ Text.IsDecimal p port.toNat) ↔
    ¬((Text.parseU16 p).isSome ∧ (¬C ∨ Text.startsWith "+" p = true)) := by
  cases hparse : Text.parseU16 p with
  | none =>
    have hnone : ∀ port : UInt16, ¬Text.IsDecimal p port.toNat := by
      intro port hport
      rw [(Text.parseU16_eq_some_iff hport.not_plus).mpr hport] at hparse
      cases hparse
    simp [hnone]
  | some found =>
    constructor
    · rintro h ⟨-, hnot | hplus⟩
      · exact hnot ((h host' found).mp rfl).2.1
      · have hdecimal := ((h host' found).mp rfl).2.2
        rw [hdecimal.not_plus] at hplus
        cases hplus
    · intro h host port
      simp only [Option.isSome_some, true_and, not_or, not_not, Bool.not_eq_true] at h
      have hport : found = port ↔ Text.IsDecimal p port.toNat := by
        rw [← Text.parseU16_eq_some_iff h.2, hparse, Option.some.injEq]
      rw [← hport]
      simp [h.1]

/-- A host without a written port is read as it should be, where `C` is asked, exactly when `C`
holds. -/
theorem defaultPort_iff (C : Prop) (host' : String) (default : UInt16) :
    (∀ host port, (Except.ok (host', default) : Except IoError (String × UInt16)) =
        .ok (host, port) ↔ host' = host ∧ C ∧ port = default) ↔ C := by
  constructor
  · intro h
    exact ((h host' default).mp rfl).2.1
  · intro h host port
    simp [h, eq_comm]

/-- Exactly when an authority is split into what is written in it, and refused if nothing is: it is
not among the misread ones. -/
theorem splitHostPort_iff (authority : String) (default : UInt16) :
    (∀ host port, splitHostPort authority default = .ok (host, port) ↔
      Written default authority host port) ↔ ¬Misread authority := by
  simp only [written_iff]
  unfold Misread splitHostPort
  cases hstrip : Text.stripPrefix "[" authority with
  | some rest =>
    dsimp only
    unfold WrittenBracketed
    cases hsplit : Text.splitOnce ']' rest with
    | none => simp
    | some pieces =>
      obtain ⟨host', rest'⟩ := pieces
      dsimp only
      cases hport : Text.stripPrefix ":" rest' with
      | some p =>
        refine (portText_iff (host' ≠ "") host' p _).trans ?_
        simp
      | none =>
        dsimp only
        rw [defaultPort_iff]
        simp [and_comm]
  | none =>
    dsimp only
    unfold WrittenPlain
    cases hsplit : Text.rsplitOnce ':' authority with
    | none =>
      dsimp only
      rw [defaultPort_iff]
    | some pieces =>
      obtain ⟨host', p⟩ := pieces
      dsimp only
      by_cases hempty : host' = ""
      · subst hempty
        simp only [ne_eq, not_true, if_false, false_and, and_false, iff_false, true_or,
          not_forall]
        exact ⟨authority, default, fun h => h rfl⟩
      · rw [if_pos hempty]
        refine (portText_iff (host' ≠ "" ∧ ':' ∉ host'.toList) host' p _).trans ?_
        simp [hempty]

/-- Nothing is written in an empty authority, but a host is read from it. -/
theorem not_splitHostPort_empty :
    splitHostPort "" 80 = .ok ("", 80) ∧ (∀ host port, ¬Written 80 "" host port) ∧
      splitHostPort "a:b:80" 80 = .ok ("a:b", 80) ∧
      splitHostPort "[::1]junk" 80 = .ok ("::1", 80) ∧
      splitHostPort "a.org:+80" 443 = .ok ("a.org", 80) ∧
      ¬∀ host port, splitHostPort "" 80 = .ok (host, port) ↔ Written 80 "" host port := by
  have hnone : ∀ host port, ¬Written 80 "" host port := by
    intro host port h
    have hwritten := written_iff.mp h
    have hstrip : Text.stripPrefix "[" "" = none := by decide
    have hcut : Text.rsplitOnce ':' "" = none := by decide
    rw [hstrip] at hwritten
    dsimp only at hwritten
    rw [WrittenPlain, hcut] at hwritten
    exact hwritten.2.1 rfl
  refine ⟨by decide, hnone, by decide, by decide, by decide, fun h => ?_⟩
  exact hnone "" 80 ((h "" 80).mp (by decide))

end Devcroft.Proxy
