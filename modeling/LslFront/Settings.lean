import LslFront.Json.Reader
import LslFront.Script.Reader

/-!
# Settings

The defaults of the compiler, kept in a JSON file.  Only the version is required; every other
field has a default.  The file holds an object, whose unknown fields are passed over and whose
known fields may not be repeated, or an array with the fields in order, of which the last ones
may be missing.
-/

namespace LslFront

structure Settings where
  version : UInt32
  defaultMode : String
  /-- Extensions for every script. -/
  enable : List String
  /-- Searched for includes after the script's own directory. -/
  includeDirs : List String
  maxIncludeDepth : UInt64
deriving DecidableEq, Repr

/-- Why there are no settings, or no options in them. -/
inductive SettingsFault where
  | unreadable (failure : ReadFailure)
  | malformed
  | unknownMode (name : String)
  | unknownExtension (name : String)
deriving DecidableEq, Repr

def SettingsFault.text : SettingsFault → String
  | unreadable failure => s!"I/O error: {failure.text}"
  | malformed => "JSON error: the settings do not have the expected form"
  | unknownMode name => s!"Unknown mode '{name}' (expected lsl, aurora, whitecore, or assl)"
  | unknownExtension name => s!"Unknown extension '{name}' (expected admin)"

namespace Settings

/-- What holds without a settings file. -/
def standard : Settings :=
  ⟨1, "aurora", [], [], 8⟩

/-! ### Options -/

/-- The features of all extensions, or the first name that is none. -/
def extensions : List String → Except SettingsFault Dialect
  | [] => .ok .empty
  | name :: rest =>
      match Dialect.ofExtension? name.toList with
      | some dialect => (extensions rest).map dialect.union
      | none => .error (.unknownExtension name)

def options (settings : Settings) : Except SettingsFault Options :=
  match Dialect.ofMode? settings.defaultMode.toList with
  | none => .error (.unknownMode settings.defaultMode)
  | some mode =>
      (extensions settings.enable).map fun enabled =>
        ⟨mode.union enabled, settings.maxIncludeDepth.toNat⟩

/-! ### Reading -/

def natural? (bound : Nat) : Json → Option Nat
  | .number text => do
      let n ← text.toList.foldlM (fun n c => (Text.decDigit? c).map (n * 10 + ·)) 0
      if n < bound then some n else none
  | _ => none

def word32? (json : Json) : Option UInt32 :=
  (natural? (Nat.pow 2 32) json).map .ofNat

def word64? (json : Json) : Option UInt64 :=
  (natural? (Nat.pow 2 64) json).map .ofNat

def string? : Json → Option String
  | .string text => text
  | _ => none

def strings? : Json → Option (List String)
  | .array items => items.mapM string?
  | _ => none

/-- The field of a name, which may occur once at most.  The inner option says whether it does
    occur. -/
def field? (fields : List (JsonText × Json)) (name : String) : Option (Option Json) :=
  match fields.filter fun (known, _) => known == some name with
  | [] => some none
  | [(_, value)] => some (some value)
  | _ => none

/-- The value of a field that may be missing. -/
def read? {α : Type} (read : Json → Option α) (default : α) : Option Json → Option α
  | none => some default
  | some json => read json

/-- The settings from their fields in order. -/
def ofFields? (version defaultMode enable includeDirs maxIncludeDepth : Option Json) :
    Option Settings := do
  let version ← version >>= word32?
  let defaultMode ← read? string? standard.defaultMode defaultMode
  let enable ← read? strings? standard.enable enable
  let includeDirs ← read? strings? standard.includeDirs includeDirs
  let maxIncludeDepth ← read? word64? standard.maxIncludeDepth maxIncludeDepth
  return ⟨version, defaultMode, enable, includeDirs, maxIncludeDepth⟩

/-- The settings that a JSON value writes. -/
def ofJson? : Json → Option Settings
  | .object fields => do
      if fields.any (·.1.isNone) then none
      ofFields? (← field? fields "version") (← field? fields "default_mode")
        (← field? fields "enable") (← field? fields "include_dirs")
        (← field? fields "max_include_depth")
  | .array items =>
      if items.length > 5 then none
      else ofFields? items[0]? items[1]? items[2]? items[3]? items[4]?
  | _ => none

def ofText (text : String) : Except SettingsFault Settings :=
  match Json.ofText? text >>= ofJson? with
  | some settings => .ok settings
  | none => .error .malformed

/-! ### Writing -/

/-- The settings as an object with every field. -/
def toJson (settings : Settings) : Json :=
  .record [("version", .natural settings.version.toNat),
    ("default_mode", .text settings.defaultMode),
    ("enable", .array (settings.enable.map .text)),
    ("include_dirs", .array (settings.includeDirs.map .text)),
    ("max_include_depth", .natural settings.maxIncludeDepth.toNat)]

def toText (settings : Settings) : String :=
  settings.toJson.pretty

end Settings

end LslFront
