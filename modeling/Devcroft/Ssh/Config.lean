import Devcroft.Library.Marked
import Devcroft.Library.Utf8

/-!
# The managed section of the ssh config

`write_managed_section` puts a block between two markers into the user's own ssh config,
or updates it there. The texts it works on are lists of bytes, as the indices are that it
cuts them at.
-/

namespace Devcroft.Ssh

open Marked Utf8

def BEGIN_MARKER : String := "# >>> devcroft managed block — do not edit >>>"

def END_MARKER : String := "# <<< devcroft managed block — do not edit <<<"

/-- `render`. -/
def render (identityFile : String) : String :=
  "Host *.devcroft\n  ProxyCommand devcroft proxy %n\n  IdentityFile " ++ identityFile ++
    "\n  StrictHostKeyChecking no\n  UserKnownHostsFile /dev/null\n"

/-- The block that is written. -/
def block (identityFile : String) : String :=
  BEGIN_MARKER ++ "\n" ++ render identityFile ++ END_MARKER ++ "\n"

/-- A file. -/
structure ConfigFile where
  bytes : List UInt8
  /-- Whether it may be read. -/
  readable : Bool
  deriving DecidableEq

/-- `read_to_string`, with the empty text where it fails. -/
def readToString : Option ConfigFile → List UInt8
  | some file => if file.readable && (decode file.bytes).isSome then file.bytes else []
  | none => []

/-- A text without a newline that it begins with. -/
def stripNewline : List UInt8 → List UInt8
  | [] => []
  | b :: rest => if b = newline then rest else b :: rest

/-- The config with the block at its end. -/
def appended (existing block : List UInt8) : List UInt8 :=
  let out := if existing ≠ [] ∧ existing.getLast? ≠ some newline then existing ++ [newline]
    else existing
  let out := if out ≠ [] then out ++ [newline] else out
  out ++ block

/-- The config with the block in it. -/
def updated (existing block : List UInt8) : List UInt8 :=
  match find (encode BEGIN_MARKER) existing, find (encode END_MARKER) existing with
  | some start, some stop =>
    if start < stop then
      existing.take start ++ block ++
        stripNewline (existing.drop (stop + (encode END_MARKER).length))
    else appended existing block
  | _, _ => appended existing block

/-- How creating the directory and writing the file fare. -/
structure ConfigHost where
  /-- `create_dir_all` of the parent directory, if the path has one. -/
  createDirAll : Except String Unit
  /-- `fs::write`, with what it leaves where it fails. -/
  write : Except (String × Option ConfigFile) Unit

/-- `write_managed_section`. -/
def writeManagedSection (host : ConfigHost) (file : Option ConfigFile) (identityFile : String) :
    Except String Unit × Option ConfigFile :=
  let bytes := updated (readToString file) (encode (block identityFile))
  match host.createDirAll, host.write with
  | .error e, _ => (.error e, file)
  | .ok (), .error (e, left) => (.error e, left)
  | .ok (), .ok () => (.ok (), some ⟨bytes, (file.map ConfigFile.readable).getD true⟩)

end Devcroft.Ssh
