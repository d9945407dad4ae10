import Devcroft.Provider.Validate

/-!
# The manifest

The declarative sandbox manifest `devcroft.toml` after parsing, with the defaults of
its optional fields, and the errors and warnings that parsing it can give.
-/

namespace Devcroft.Config

/-- A TOML value, as the `toml` crate represents it. -/
inductive Value where
  | string (s : String)
  | integer (n : ℤ)
  | float (text : String)
  | boolean (b : Bool)
  | datetime (text : String)
  | array (values : List Value)
  | table (entries : List (String × Value))

/-- `toml::Table`: keys with values, in the order of iteration. -/
abbrev Table := List (String × Value)

/-- `Value::as_table`. -/
def Value.asTable : Value → Option Table
  | table entries => some entries
  | _ => none

/-- `[env]`. -/
structure Env where
  provider : String
  vars : List (String × String)
  deriving DecidableEq

/-- The `Default` of `[env]`. -/
def Env.default : Env := ⟨"flox", []⟩

/-- `[filesystem]`. -/
structure Filesystem where
  allow : List String
  read : List String
  deny : List String
  deriving DecidableEq

/-- The `Default` of `[filesystem]`. -/
def Filesystem.default : Filesystem := ⟨["."], [], []⟩

/-- `network.default`. -/
inductive NetworkDefault where
  | deny
  | allow
  deriving DecidableEq

/-- `[network]`. -/
structure Network where
  default : NetworkDefault
  allow : List String
  /-- Loopback TCP ports that the sandbox may bind and connect on. -/
  ports : List UInt16
  deriving DecidableEq

/-- The `Default` of `[network]`. -/
def Network.default' : Network := ⟨.deny, [], []⟩

/-- `[ssh]`. -/
structure Ssh where
  forwardAgent : Bool
  deriving DecidableEq

/-- `[hooks]`. -/
structure Hooks where
  postCreate : Option String
  postStart : Option String
  deriving DecidableEq

/-- `[sandbox]`. -/
structure Sandbox where
  name : String
  deriving DecidableEq

/-- The manifest, fully resolved. -/
structure Manifest where
  sandbox : Sandbox
  env : Env
  filesystem : Filesystem
  network : Network
  ssh : Ssh
  hooks : Hooks
  deriving DecidableEq

/-- `[sandbox]` before its checks. -/
structure RawSandbox where
  name : Option String
  isolation : Option String
  deriving DecidableEq

/-- The target of deserialization, before the checks of mandatory fields. -/
structure RawManifest where
  sandbox : RawSandbox
  env : Env
  filesystem : Filesystem
  network : Network
  ssh : Ssh
  hooks : Hooks
  deriving DecidableEq

/-- The `Default` of a manifest: what an empty table deserializes to. -/
def RawManifest.default : RawManifest :=
  ⟨⟨none, none⟩, Env.default, Filesystem.default, Network.default', ⟨false⟩, ⟨none, none⟩⟩

/-- `ISOLATION_TIER`. -/
def ISOLATION_TIER : String := "process"

/-- The errors of parsing manifest text. -/
inductive ConfigError where
  | parse (message : String)
  | unknownKey (path : String) (suggestion : Option String)
  | missingName
  | invalidName (name suggestion : String)
  | invalidPath (field value : String)
  | uselessDeny (path : String)
  | invalidProvider (e : Provider.ProviderError)
  | removedIsolationTier (name : String)
  | invalidIsolationTier (name : String)
  deriving DecidableEq

/-- A `ConfigError` as it is displayed. -/
def ConfigError.display : ConfigError → String
  | parse e => "invalid TOML: " ++ e
  | unknownKey path none => "unknown key `" ++ path ++ "`"
  | unknownKey path (some s) => "unknown key `" ++ path ++ "`; did you mean `" ++ s ++ "`?"
  | missingName => "`[sandbox].name` is required"
  | invalidName name suggestion =>
    "invalid sandbox name `" ++ name ++ "`: must match [a-z0-9][a-z0-9-]\x7b0,31\x7d; try `" ++
      suggestion ++ "`"
  | invalidPath field value => "invalid path in `filesystem." ++ field ++ "`: `" ++ value ++ "`"
  | uselessDeny path =>
    "`filesystem.deny` entry `" ++ path ++ "` is never granted by `allow` or `read`"
  | invalidProvider e => e.display
  | removedIsolationTier name =>
    "`[sandbox].isolation = \"" ++ name ++ "\"` names a tier devcroft no longer " ++
      "provides; the supported tier is `" ++ ISOLATION_TIER ++ "`. For a boundary " ++
      "stronger than the process tier, run devcroft inside a VM — that is " ++
      "the supported path, and is already how the macOS path works"
  | invalidIsolationTier name =>
    "`[sandbox].isolation = \"" ++ name ++ "\"` is not a known isolation tier; " ++
      "the supported tier is `" ++ ISOLATION_TIER ++ "`"

/-- What parsing an accepted manifest may warn about. -/
inductive Warning where
  /-- A grant of a known credential directory. -/
  | sensitivePath (field path : String)
  /-- A variable whose value looks as if it expected interpolation. -/
  | noInterpolation
  deriving DecidableEq

/-- A `Warning` as it is displayed. -/
def Warning.display : Warning → String
  | sensitivePath field path =>
    "`filesystem." ++ field ++ "` grants `" ++ path ++ "`, a known credential directory"
  | noInterpolation =>
    "`[env] vars` values are literal strings; host environment variables are not interpolated"

end Devcroft.Config
