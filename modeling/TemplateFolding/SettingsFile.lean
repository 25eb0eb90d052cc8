import TemplateFolding.Settings
import TemplateFolding.Source.FileTree
import TemplateFolding.Toml.Document

/-!
# Settings files

Settings are read from the `editor` item of a TOML document. It is a table with the settings by
name or an array with the settings in order. A setting that is left out keeps its default, and what
is no setting is passed over.
-/

namespace TemplateFolding

/-- Why there are no settings in a file. -/
inductive SettingsError where
  | file (error : FileError)
  /-- It is no TOML document, or an item in it has the wrong type. -/
  | malformed
  | zeroLineLength
deriving DecidableEq

/-- The error in words. -/
def SettingsError.message : SettingsError → String
  | .file error => "IO error: " ++ error.message
  | .malformed => "TOML parse error"
  | .zeroLineLength => "Invalid configuration: preferred_line_length must be positive"

namespace Settings

/-- The truth value of an item, or the default where there is no item. -/
def readFlag (default : Bool) : Option Toml.Item → Option Bool
  | none => some default
  | some (.bool b) => some b
  | some _ => none

/-- The number of an item that is not negative, or the default where there is no item. -/
def readLength (default : Nat) : Option Toml.Item → Option Nat
  | none => some default
  | some (.integer n) => n.toNat?
  | some _ => none

/-- The settings with the given items. -/
def ofItems? (softWrap softWrapAtPreferredLineLength preferredLineLength atomicSoftTabs :
    Option Toml.Item) : Option Settings := do
  let defaults : Settings := {}
  some ⟨← readFlag defaults.softWrap softWrap,
    ← readFlag defaults.softWrapAtPreferredLineLength softWrapAtPreferredLineLength,
    ← readLength defaults.preferredLineLength preferredLineLength,
    ← readFlag defaults.atomicSoftTabs atomicSoftTabs⟩

/-- The settings that an item holds. A moment is taken for a table without settings. -/
def ofItem? : Toml.Item → Option Settings
  | .table _ entries =>
    let named (name : String) := Toml.Entries.get? name.toList entries
    ofItems? (named "soft_wrap") (named "soft_wrap_at_preferred_line_length")
      (named "preferred_line_length") (named "atomic_soft_tabs")
  | .array items => ofItems? items[0]? items[1]? items[2]? items[3]?
  | .moment => some {}
  | _ => none

/-- The settings in the text of a file. -/
def ofText (t : Text) : Except SettingsError Settings :=
  match Toml.readDocument t with
  | none => .error .malformed
  | some entries =>
    match (entries.get? "editor".toList).elim (some {}) ofItem? with
    | none => .error .malformed
    | some settings =>
      if settings.preferredLineLength = 0 then .error .zeroLineLength else .ok settings

/-- The settings in a file. -/
def load (top : FileTree) (path : Path) : Except SettingsError Settings :=
  match top.readText path with
  | .error error => .error (.file error)
  | .ok t => ofText t

end Settings

end TemplateFolding
