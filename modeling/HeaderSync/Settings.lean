import HeaderSync.Merge.Basic
import HeaderSync.Text.Quoted
import HeaderSync.Toml.Reader

/-!
# Settings

The settings of a project, as its configuration file gives them. Every setting has a default.

* `Settings.ofToml?`: the settings that a document gives; entries of other names are ignored.
* `Settings.issues`: what makes settings unusable.
* `Settings.read`: both together.
* `Settings.names`, `Settings.renderOptions`, `Settings.mergeOptions`, `Settings.preamble`: what the
  settings mean for the rest of the library.
-/

namespace HeaderSync

open Text

structure Settings where
  indent : Text
  interfacePattern : Text
  /-- Implementation names by interface name. -/
  implementations : List (Text × Text)
  namespaceStyle : NamespaceStyle
  includeHeader : Bool
  removeUnmatched : Bool
  /-- Lines at the top of generated headers. -/
  headerLines : List Text
  /-- Lines at the top of generated sources. -/
  sourceLines : List Text
deriving DecidableEq, Repr

namespace Settings

def default : Settings where
  indent := "    "
  interfacePattern := NamePattern.default.text
  implementations := []
  namespaceStyle := .qualified
  includeHeader := true
  removeUnmatched := true
  headerLines := []
  sourceLines := []

end Settings

/-! ## From documents -/

namespace Toml

def text? : Toml → Option Text
  | string t => some t
  | _ => none

def bool? : Toml → Option Bool
  | boolean b => some b
  | _ => none

def texts? : Toml → Option (List Text)
  | array items => items.mapM text?
  | _ => none

/-- A table of texts. -/
def textEntries? : Toml → Option (List (Text × Text))
  | table _ entries => entries.mapM fun (key, value) => value.text?.map fun t => (key, t)
  | _ => none

/-- An array or a table with nothing in it. -/
def isVoid : Toml → Bool
  | array items => items.isEmpty
  | table _ entries => entries.isEmpty
  | _ => false

/-- The word of a choice: a text, or the only key of a table with nothing under it. -/
def choice? : Toml → Option Text
  | string t => some t
  | table _ [(key, value)] => if value.isVoid then some key else none
  | _ => none

def style? (t : Toml) : Option NamespaceStyle := do
  let word ← t.choice?
  if word == ("qualified" : Text) then some .qualified
  else if word == ("blocks" : Text) then some .blocks
  else none

/-- The entry of a table under `key`. -/
def entry? (key : Text) : Toml → Option Toml
  | table _ entries => entries.lookup key
  | _ => none

/-- The value of a setting of a section: that of its key if the section is a table, that of its
place if the section is an array, and the default if it is left out. A section cannot be anything
else. -/
def setting? {α : Type} (section_ : Option Toml) (key : Text) (place : Nat) (default : α)
    (read? : Toml → Option α) : Option α :=
  match section_ with
  | none => some default
  | some (table _ entries) => (entries.lookup key).elim (some default) read?
  | some (array items) | some (rows items) => items[place]?.elim (some default) read?
  | some _ => none

end Toml

namespace Settings

/-- The settings of a document; none if one of them has a value of the wrong kind. -/
def ofToml? (document : Toml) : Option Settings := do
  let format := document.entry? "format"
  let naming := document.entry? "naming"
  let source := document.entry? "source"
  let merge := document.entry? "merge"
  let fileHeader := document.entry? "file_header"
  return {
    indent := ← Toml.setting? format "indent" 0 default.indent Toml.text?
    interfacePattern :=
      ← Toml.setting? naming "interface_pattern" 0 default.interfacePattern Toml.text?
    implementations := ← Toml.setting? naming "implementations" 1 [] Toml.textEntries?
    namespaceStyle := ← Toml.setting? source "namespace_style" 0 .qualified Toml.style?
    includeHeader := ← Toml.setting? source "include_header" 1 true Toml.bool?
    removeUnmatched := ← Toml.setting? merge "remove_unmatched" 0 true Toml.bool?
    headerLines := ← Toml.setting? fileHeader "header" 0 [] Toml.texts?
    sourceLines := ← Toml.setting? fileHeader "source" 1 [] Toml.texts? }

end Settings

/-! ## Validation -/

/-- A setting that cannot be used. -/
inductive SettingsIssue where
  | invalidIndent (value : Text)
  | missingPlaceholder (value : Text)
  | invalidIdentifier (field value : Text)
deriving DecidableEq, Repr

def SettingsIssue.message : SettingsIssue → Text
  | .invalidIndent value => "format.indent must be spaces or tabs, got " ++ quoted value
  | .missingPlaceholder value =>
    "naming.interface_pattern must contain " ++ namePlaceholder ++ " exactly once, got '" ++
      value ++ "'"
  | .invalidIdentifier field value => field ++ " is not a valid C++ identifier: '" ++ value ++ "'"

/-- A C++ identifier of ASCII characters. -/
def isAsciiIdentifier : Text → Bool
  | [] => false
  | c :: t =>
    (isAsciiLetter c || c == '_') && t.all fun c => isAsciiLetter c || isAsciiDigit c || c == '_'

/-- The order of texts by the code points of their characters. -/
def textLe : Text → Text → Bool
  | [], _ => true
  | _ :: _, [] => false
  | a :: s, b :: t => a < b || (a == b && textLe s t)

namespace Settings

def indentIssues (s : Settings) : List SettingsIssue :=
  if s.indent.isEmpty || !s.indent.all (fun c => c == ' ' || c == '\t') then
    [.invalidIndent s.indent]
  else []

def patternIssues (s : Settings) : List SettingsIssue :=
  let pattern := s.interfacePattern
  if (splitOn namePlaceholder pattern).length != 2 then [.missingPlaceholder pattern]
  else if !isAsciiIdentifier (NamePattern.interfaceName ⟨pattern⟩ "Name") then
    [.invalidIdentifier "naming.interface_pattern" pattern]
  else []

def implementationIssues (interface implementation : Text) : List SettingsIssue :=
  ([interface, implementation].filter fun name => !isAsciiIdentifier name).map
    (.invalidIdentifier ("naming.implementations." ++ interface))

/-- What makes the settings unusable; implementations are looked at in the order of their
interfaces. -/
def issues (s : Settings) : List SettingsIssue :=
  s.indentIssues ++ s.patternIssues ++
    (s.implementations.mergeSort fun a b => textLe a.1 b.1).flatMap fun (interface, name) =>
      implementationIssues interface name

end Settings

/-- Why a text gives no settings. -/
inductive SettingsError where
  /-- It is no document, or a setting has a value of the wrong kind. -/
  | notToml
  | unusable (issues : List SettingsIssue)
deriving DecidableEq, Repr

/-- The wording of the error for settings that come from `origin`. -/
def SettingsError.message (origin : Text) : SettingsError → Text
  | .notToml => origin ++ ": not valid TOML:"
  | .unusable issues =>
    origin ++ ": unusable settings: " ++ joinWith "\n" (issues.map SettingsIssue.message)

namespace Settings

/-- The settings that a text gives. -/
def read (t : Text) : Except SettingsError Settings :=
  match (Toml.read? t).bind ofToml? with
  | none => .error .notToml
  | some settings =>
    if settings.issues.isEmpty then .ok settings else .error (.unusable settings.issues)

/-! ## Use -/

/-- The names that the settings give. -/
def names (s : Settings) : ConfiguredNames :=
  ⟨⟨s.interfacePattern⟩, s.implementations⟩

def renderOptions (s : Settings) (mode : Mode) : RenderOptions :=
  { RenderOptions.ofMode mode with indent := s.indent, style := s.namespaceStyle }

def mergeOptions (s : Settings) (mode : Mode) (fileName : Text) : MergeOptions :=
  { MergeOptions.ofMode mode fileName with
    indent := s.indent, style := s.namespaceStyle, removeUnmatched := s.removeUnmatched }

/-- What stands above a file generated in the mode; it includes `header`, if the settings want it.
-/
def preamble (s : Settings) (mode : Mode) (header : Option Text) : Preamble where
  commentLines := if mode.isSource then s.sourceLines else s.headerLines
  includes := if s.includeHeader then header else none

end Settings

end HeaderSync
