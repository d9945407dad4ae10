import Devcroft.Library.Hex
import Devcroft.Library.Base64
import Devcroft.Proxy.Request

/-!
# The credential of a session

`generate_token`, and what `authorized` accepts as a credential for a token: exactly the
`Basic` credentials whose user name it is.
-/

namespace Devcroft.Proxy

/-- `TOKEN_BYTES`. -/
def TOKEN_BYTES : ℕ := 16

/-- `generate_token`, from the random bytes that it draws. -/
def generateToken (bytes : Vector UInt8 TOKEN_BYTES) : String :=
  String.ofList (bytes.toList.flatMap fun b => Hex.pad 2 b.toNat)

/-- A token is in lower case. -/
theorem mem_generateToken {bytes : Vector UInt8 TOKEN_BYTES} {c : Char}
    (h : c ∈ (generateToken bytes).toList) : c ∈ "0123456789abcdef".toList := by
  rw [generateToken, String.toList_ofList] at h
  obtain ⟨b, -, hc⟩ := List.mem_flatMap.mp h
  exact Hex.mem_pad hc

/-- A token is not empty. -/
theorem generateToken_ne_empty (bytes : Vector UInt8 TOKEN_BYTES) : generateToken bytes ≠ "" := by
  intro h
  have hnil : bytes.toList.flatMap (fun b => Hex.pad 2 b.toNat) = [] := by
    have := congrArg String.toList h
    simpa [generateToken] using this
  have hne : bytes.toList ≠ [] := by
    apply List.ne_nil_of_length_pos
    rw [Vector.length_toList]
    decide
  obtain ⟨b, hb⟩ := List.exists_mem_of_ne_nil _ hne
  exact Hex.pad_ne_nil _ _ (List.flatMap_eq_nil_iff.mp hnil b hb)

/-- The fold finds no difference exactly when no pair differs. -/
theorem foldl_or_xor_eq_zero_iff {pairs : List (UInt8 × UInt8)} {acc : UInt8} :
    pairs.foldl (fun acc (x, y) => acc ||| (x ^^^ y)) acc = 0 ↔
      acc = 0 ∧ ∀ pair ∈ pairs, pair.1 = pair.2 := by
  induction pairs generalizing acc with
  | nil => simp
  | cons pair rest ih =>
    obtain ⟨x, y⟩ := pair
    rw [List.foldl_cons, ih, UInt8.or_eq_zero_iff, UInt8.xor_eq_zero_iff, List.forall_mem_cons,
      and_assoc]

/-- Bytes are compared as a whole. -/
theorem constantTimeEq_eq_true_iff {a b : List UInt8} : constantTimeEq a b = true ↔ a = b := by
  unfold constantTimeEq
  split
  · next hlength =>
    constructor
    · intro h
      cases h
    · rintro rfl
      exact (hlength rfl).elim
  · next hlength =>
    rw [decide_eq_true_eq, foldl_or_xor_eq_zero_iff]
    have hlength : a.length = b.length := not_not.mp hlength
    constructor
    · rintro ⟨-, hpairs⟩
      refine List.ext_getElem hlength fun i ha hb => ?_
      have hi : i < (a.zip b).length := by
        rw [List.length_zip]
        omega
      have hpair := hpairs _ (List.getElem_mem hi)
      rwa [List.getElem_zip] at hpair
    · rintro rfl
      refine ⟨rfl, fun pair hpair => ?_⟩
      obtain ⟨i, hi, rfl⟩ := List.getElem_of_mem hpair
      rw [List.getElem_zip]

/-- What a client must send: a `Basic` credential, in base64, whose user name is the token, which is
hexadecimal and not empty. -/
theorem authorized_generateToken_iff (base64Decode : String → Option (List UInt8))
    (hdecode : ∀ s output, base64Decode s = some output ↔ s = Base64.encode output)
    (header : Option String) (bytes : Vector UInt8 TOKEN_BYTES) :
    (authorized base64Decode header (generateToken bytes) = true ↔
      ∃ encoded text, header = some ("Basic " ++ encoded) ∧
        Text.trim encoded = Base64.encode (Utf8.encode text) ∧
        (text = generateToken bytes ∨ ∃ rest, text = generateToken bytes ++ ":" ++ rest)) ∧
    (∀ a b, constantTimeEq a b = true ↔ a = b) ∧ generateToken bytes ≠ "" ∧
    ∀ c ∈ (generateToken bytes).toList, c ∈ "0123456789abcdef".toList := by
  have hcolon : ':' ∉ (generateToken bytes).toList := by
    intro hmem
    have hhex := mem_generateToken hmem
    revert hhex
    decide
  refine ⟨?_, fun a b => constantTimeEq_eq_true_iff, generateToken_ne_empty bytes,
    fun c => mem_generateToken⟩
  constructor
  · intro h
    unfold authorized at h
    split at h
    · cases h
    · next header =>
      split at h
      · cases h
      · next encoded hencoded =>
        split at h
        · cases h
        · next output houtput =>
          split at h
          · cases h
          · next text htext =>
            rw [constantTimeEq_eq_true_iff] at h
            refine ⟨encoded, text, ?_, ?_, ?_⟩
            · rw [Text.stripPrefix_eq_some_iff.mp hencoded]
            · rw [Utf8.encode_of_decode htext]
              exact (hdecode _ _).mp houtput
            · exact (Text.splitFirst_eq_iff hcolon).mp (Utf8.encode_injective h)
  · rintro ⟨encoded, text, rfl, htrim, huser⟩
    have hprefix := Text.stripPrefix_eq_some_iff.mpr (Eq.refl ("Basic " ++ encoded))
    have houtput := (hdecode _ _).mpr htrim
    have hfirst := (Text.splitFirst_eq_iff hcolon).mpr huser
    simp only [authorized, hprefix, houtput, Utf8.decode_encode, hfirst, constantTimeEq_eq_true_iff]

/-- The credential that `curl` sends, and the token of sixteen zero bytes that it presents. -/
theorem authorized_zero_token :
    authorized Base64.decode
      (some "Basic MDAwMDAwMDAwMDAwMDAwMDAwMDAwMDAwMDAwMDAwMDA6")
      (generateToken (Vector.replicate TOKEN_BYTES 0)) = true := by
  refine (authorized_generateToken_iff Base64.decode (fun _ _ => Base64.decode_eq_some_iff) _ _).1.mpr
    ⟨"MDAwMDAwMDAwMDAwMDAwMDAwMDAwMDAwMDAwMDAwMDA6", "00000000000000000000000000000000:", ?_, ?_,
      Or.inr ⟨"", ?_⟩⟩
  · decide +kernel
  · decide +kernel
  · decide +kernel

end Devcroft.Proxy
