import Engraver.Files
import Engraver.Settings.Check
import Engraver.Settings.Decode
import Engraver.Toml.Document

/-!
# Settings from a file

The file must be a settings document, its values must be of the right kinds, and they must make
sense.
-/

namespace Engraver

inductive SettingsError where
  | file (cause : FileError)
  /-- It is no settings document, or a value is of the wrong kind. -/
  | unreadable
  | invalid (cause : SettingsFault)

def SettingsError.message : SettingsError → String
  | file cause => "IO error: " ++ cause.message
  | unreadable => "TOML parse error"
  | invalid cause => "Invalid configuration: " ++ cause.message

namespace Settings

/-- The settings that a text holds, whether they make sense or not. -/
def read? (text : String) : Option Settings := do
  let entries ← Toml.parse text
  ofValue? (.table .headed entries)

def load (file : Contents) : Except SettingsError Settings := do
  let text ← file.text.mapError .file
  let some settings := read? text | throw .unreadable
  settings.check.mapError .invalid
  return settings

end Settings

end Engraver
