import DeskCalculator.Text.Utf8Lines
import DeskCalculator.Toml.Document

/-!
# Settings

What the user may set in a TOML file. A key that is absent keeps its standard value, one of the
wrong type makes the whole file invalid, and other keys are of no account.
-/
namespace DeskCalculator

structure Settings where
  /-- What an interactive session writes before each line of input. -/
  prompt : List Char
  /-- Whether a session shows the live preview after each edit. -/
  showPreview : Bool
  /-- Whether every finite result of a commit is copied. -/
  copyOnCommit : Bool
  logFilter : List Char
deriving DecidableEq

/-- The contents of a settings file, as far as it can be read. -/
inductive SettingsFile where
  | missing
  | unreadable
  | bytes (content : List UInt8)
deriving DecidableEq

inductive SettingsError where
  | unreadable
  | invalid
deriving DecidableEq

namespace SettingsError

def message (path : String) : SettingsError → String
  | .unreadable => "Failed to read config file " ++ path
  | .invalid => "Invalid config file " ++ path

end SettingsError

namespace Settings

/-- The settings of a user who has set nothing. -/
def standard : Settings := ⟨"> ".toList, true, false, "calculette=warn".toList⟩

/-- The text of a key, or its standard value. -/
def textOr (table : Toml.Table) (key : String) (standard : List Char) : Option (List Char) :=
  match table.get? key.toList with
  | none => some standard
  | some (.string text) => some text
  | some _ => none

def flagOr (table : Toml.Table) (key : String) (standard : Bool) : Option Bool :=
  match table.get? key.toList with
  | none => some standard
  | some (.boolean b) => some b
  | some _ => none

def ofTable? (table : Toml.Table) : Option Settings := do
  let prompt ← textOr table "prompt" standard.prompt
  let showPreview ← flagOr table "show_preview" standard.showPreview
  let copyOnCommit ← flagOr table "copy_on_commit" standard.copyOnCommit
  let logFilter ← textOr table "log_filter" standard.logFilter
  return { prompt, showPreview, copyOnCommit, logFilter }

def ofText? (text : List Char) : Option Settings := (Toml.document? text).bind ofTable?

/-- The settings that a file makes; a missing file makes the standard ones. -/
def ofFile : SettingsFile → Except SettingsError Settings
  | .missing => .ok standard
  | .unreadable => .error .unreadable
  | .bytes content =>
    match decodeUtf8? content with
    | none => .error .unreadable
    | some text =>
      match ofText? text with
      | none => .error .invalid
      | some settings => .ok settings

end Settings

end DeskCalculator
