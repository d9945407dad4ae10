import Devcroft.Library.Environ
import Devcroft.Library.Utf8
import Devcroft.Provider.Validate

/-!
# Shared pieces of the providers

The environment that every activation runs with, what an activation changes of it, and
the fingerprint that detects a change of a provider's own files.
-/

namespace Devcroft.Provider

open Environ

/-- `CANONICAL_PATH`. -/
def CANONICAL_PATH : String := "/usr/local/sbin:/usr/local/bin:/usr/sbin:/usr/bin:/sbin:/bin"

/-- `canonical_base_env`: the environment of an activation, from the variable `HOME`. -/
def canonicalBaseEnv (home : Option String) : Except ProviderError (List (String × String)) :=
  match home with
  | none => .error (.resolutionFailed "HOME is not set; provider activation needs it")
  | some home => .ok [("HOME", home), ("PATH", CANONICAL_PATH)]

/-- `parse_env_dump`: the entries `key=value` of a dump, the last of a key. -/
def parseEnvDump (raw : List UInt8) : Vars :=
  Std.TreeMap.ofList
    (((Text.split '\x00' (Utf8.decodeLossy raw)).filter (· ≠ "")).filterMap (Text.splitOnce '='))

/-- `DEFAULT_STORE_ROOT`. -/
def DEFAULT_STORE_ROOT : String := "/nix/store"

/-- `store_grants`: the store of the first entry of `PATH` that has one. -/
def storeGrants (activated : Vars) : List String :=
  match (Text.split ':' (activated.getD "PATH" "")).findSome? fun entry =>
      (Text.find DEFAULT_STORE_ROOT entry).map fun i =>
        Text.sliceTo (i + DEFAULT_STORE_ROOT.length) entry with
  | some root => [root]
  | none => [DEFAULT_STORE_ROOT]

/-- `changed_env`: what an activation added or changed. -/
def changedEnv (baseline activated : Vars) : Vars :=
  activated.filter fun key value => baseline[key]? ≠ some value

/-- `unset_env`: what it removed. -/
def unsetEnv (baseline activated : Vars) : List String :=
  baseline.keys.filter fun key => !activated.contains key

@[simp] theorem getElem?_changedEnv (baseline activated : Vars) (key : String) :
    (changedEnv baseline activated)[key]? =
      activated[key]?.filter fun value => baseline[key]? ≠ some value := by
  rw [changedEnv, Std.TreeMap.getElem?_filter']

@[simp] theorem mem_unsetEnv {baseline activated : Vars} {key : String} :
    key ∈ unsetEnv baseline activated ↔ key ∈ baseline ∧ key ∉ activated := by
  rw [unsetEnv, List.mem_filter, Std.TreeMap.mem_keys, Bool.not_eq_true', ← Bool.not_eq_true,
    Std.TreeMap.contains_iff_mem]

/-- `optional_file_part`: a file's bytes marked as present, or the mark of an absent one. -/
def optionalFilePart : Option (List UInt8) → List UInt8
  | some bytes => 80 :: bytes
  | none => [65]

def FNV_OFFSET : UInt64 := 0xcbf29ce484222325

def FNV_PRIME : UInt64 := 0x100000001b3

/-- One byte into the hash state. -/
def fnvByte (hash : UInt64) (byte : UInt8) : UInt64 := (hash ^^^ byte.toUInt64) * FNV_PRIME

/-- One part into the hash state, with its separator. -/
def fnvPart (hash : UInt64) (part : List UInt8) : UInt64 :=
  (part.foldl fnvByte hash ^^^ 0xff) * FNV_PRIME

/-- A 64-bit number as 16 hexadecimal digits. -/
def hex16 (n : UInt64) : String :=
  let digits := Nat.toDigits 16 n.toNat
  String.ofList (List.replicate (16 - digits.length) '0' ++ digits)

/-- `fingerprint`. -/
def fingerprint (parts : List (List UInt8)) : String := hex16 (parts.foldl fnvPart FNV_OFFSET)

end Devcroft.Provider
