/-
Loading settings.

The standard settings come first, then those of a file, then single settings that
are given by key. Each setting is then read as what it has to be: text can be read
from any single value, and a truth value also from a number or one of the usual
words. Names that no setting has are left alone.
-/
import Bracemark.Settings
import Bracemark.Settings.Key
import Bracemark.Settings.File
import Bracemark.Text.Lowercase
import Bracemark.Text.Quoted

set_option autoImplicit false

namespace Bracemark

open Text

/-! ## Errors -/

/-- Why settings cannot be loaded. -/
inductive SettingsError where
  /-- A key is no path. -/
  | badKey (key : String)
  /-- A file that must be there is not. -/
  | noFile (name : String)
  /-- A file is there but cannot be read. -/
  | unreadableFile (reason : String)
  /-- A file is not well formed. -/
  | badFile (name : String)
  /-- The value for a key is not of the kind that it has to be. -/
  | wrongType (found wanted key : String) (origin : Option String)
  /-- All settings together are not a table, or a list that is too short. -/
  | wrongShape (found : String)
deriving DecidableEq, Repr

/-- What is reported about settings that cannot be loaded. -/
def SettingsError.message : SettingsError → String
  | .badKey key => "invalid key " ++ inDoubleQuotes key
  | .noFile name => "configuration file \"" ++ name ++ "\" not found"
  | .unreadableFile reason => reason
  | .badFile name => "malformed configuration file in " ++ name
  | .wrongType found wanted key origin =>
    "invalid type: " ++ found ++ ", expected " ++ wanted ++ " for key \x60" ++ key ++ "\x60" ++
      (match origin with
        | none => ""
        | some name => " in " ++ name)
  | .wrongShape found => found

/-! ## Reading values -/

namespace Value

/-- The file that a value came from. -/
def origin? : Value → Option String
  | .scalar origin _ => origin
  | _ => none

/-- The error that a value is not of the kind wanted. -/
def mismatch {α : Type} (v : Value) (found wanted key : String) : Except SettingsError α :=
  .error (.wrongType found wanted key v.origin?)

/-- A value that is read as text. -/
def asText (key : String) (v : Value) : Except SettingsError String :=
  let wanted := "a string"
  match v with
  | .scalar _ (.text s) => .ok s
  | .scalar _ (.flag b) => .ok (if b then "true" else "false")
  | .scalar _ (.number n) => .ok (toString n)
  | .scalar _ .nothing => v.mismatch "unit value" wanted key
  | .table _ => v.mismatch "map" wanted key
  | .list _ => v.mismatch "sequence" wanted key

/-- A value that is read as a truth value. -/
def asFlag (key : String) (v : Value) : Except SettingsError Bool :=
  let wanted := "a boolean"
  match v with
  | .scalar _ (.flag b) => .ok b
  | .scalar _ (.number n) => .ok (decide (n ≠ 0))
  | .scalar _ (.text s) =>
    let word := lowercased s
    if word ∈ ["1", "true", "on", "yes"] then .ok true
    else if word ∈ ["0", "false", "off", "no"] then .ok false
    else v.mismatch ("string " ++ inDoubleQuotes word) wanted key
  | .scalar _ .nothing => v.mismatch "unit value" wanted key
  | .table _ => v.mismatch "map" wanted key
  | .list _ => v.mismatch "sequence" wanted key

end Value

/-! ## The table of settings -/

/-- What a setting is read as. -/
inductive FieldKind where
  | text
  | flag
deriving DecidableEq, Repr, Inhabited

/-- Refuses a value that cannot be read as a setting of some kind. -/
def FieldKind.check (kind : FieldKind) (key : String) (v : Value) : Except SettingsError Unit :=
  match kind with
  | .text => discard (v.asText key)
  | .flag => discard (v.asFlag key)

namespace Settings

/-- The table that settings for writing stand in. -/
def tableName : String := "render"

/-- The names of the settings, in the order in which they are kept, with what they are
read as. -/
def fields : List (String × FieldKind) :=
  [("html_class_prefix", .text), ("indent", .text), ("section_separator", .text),
    ("list_separator", .text), ("table_separator", .text), ("figure_separator", .text),
    ("show_heading_numbers", .flag), ("show_table_numbers", .flag),
    ("show_figure_numbers", .flag), ("table_label", .text), ("figure_label", .text)]

/-- Some settings as values, in the order of their names. -/
def toValues (s : Settings) : List Value :=
  let text := fun t => Value.scalar none (.text t)
  let flag := fun b => Value.scalar none (.flag b)
  [text s.classPrefix, text s.indent, text s.sectionSeparator, text s.listSeparator,
    text s.tableSeparator, text s.figureSeparator, flag s.showHeadingNumbers,
    flag s.showTableNumbers, flag s.showFigureNumbers, text s.tableLabel, text s.figureLabel]

/-- Some settings as a tree of values. -/
def toValue (s : Settings) : Value :=
  .table [(tableName, .table ((fields.map (·.1)).zip s.toValues))]

/-- Settings from where each of them is found: `find` gives the value for the name
and position of a setting, and the key by which an error names it. -/
def ofValues (find : String → Nat → Except SettingsError (String × Value)) :
    Except SettingsError Settings := do
  let text := fun name index => do
    let (key, v) ← find name index
    v.asText key
  let flag := fun name index => do
    let (key, v) ← find name index
    v.asFlag key
  return {
    classPrefix := ← text "html_class_prefix" 0
    indent := ← text "indent" 1
    sectionSeparator := ← text "section_separator" 2
    listSeparator := ← text "list_separator" 3
    tableSeparator := ← text "table_separator" 4
    figureSeparator := ← text "figure_separator" 5
    showHeadingNumbers := ← flag "show_heading_numbers" 6
    showTableNumbers := ← flag "show_table_numbers" 7
    showFigureNumbers := ← flag "show_figure_numbers" 8
    tableLabel := ← text "table_label" 9
    figureLabel := ← text "figure_label" 10 }

/-- What is reported when settings are not a table. -/
def shapeMessage (found : String) : String :=
  "invalid type: " ++ found ++ ", expected struct RenderConfig"

/-- The key by which an error names a setting in the table. -/
def fieldKey (name : String) : String :=
  tableName ++ "." ++ name

/-- Settings from their table. A value of the wrong kind is an error before a setting
that has no value. -/
def ofTable (v : Value) : Except SettingsError Settings := do
  fields.forM fun (name, kind) =>
    match v.member? name with
    | some member => kind.check (fieldKey name) member
    | none => .ok ()
  ofValues fun name _ =>
    match v.member? name with
    | some member => .ok (fieldKey name, member)
    | none => .error (.wrongShape ("missing field \x60" ++ name ++ "\x60"))

/-- Settings from a tree of values. The values may also stand in a list, in the
order of their names. -/
def ofValue (v : Value) : Except SettingsError Settings :=
  match (v.member? tableName).getD .nothing with
  | .table members => ofTable (.table members)
  | .list items =>
    ofValues fun _ index =>
      match items[index]? with
      | some v => .ok (tableName ++ "[" ++ toString index ++ "]", v)
      | none =>
        .error (.wrongShape ("invalid length " ++ toString index ++
          ", expected struct RenderConfig with 11 elements"))
  | .scalar _ .nothing => .error (.wrongShape (shapeMessage "unit value"))
  | .scalar _ (.flag b) =>
    .error (.wrongShape (shapeMessage ("boolean \x60" ++ (if b then "true" else "false") ++ "\x60")))
  | .scalar _ (.number n) =>
    .error (.wrongShape (shapeMessage ("integer \x60" ++ toString n ++ "\x60")))
  | .scalar _ (.text s) => .error (.wrongShape (shapeMessage ("string " ++ inDoubleQuotes s)))

end Settings

/-! ## Sources -/

/-- The text of a settings file, if it has one. -/
inductive SettingsText where
  | absent
  | unreadable (reason : String)
  | text (s : String)
deriving DecidableEq, Repr, Inhabited

/-- A settings file: its name, its text, and whether it has to be there. -/
structure SettingsFileSource where
  name : String
  text : SettingsText
  required : Bool
deriving DecidableEq, Repr

namespace SettingsFileSource

/-- The path that the parts of a name in a file stand for. The first part is a key of
its own, with steps of its own, wherever it can be read as one. -/
def partsPath : List String → Path
  | [] => []
  | part :: parts => (Path.ofKey? part).getD [.name part] ++ parts.map PathStep.name

/-- The assignments of a file, each value with the file's name. -/
def assignments (f : SettingsFileSource) : Except SettingsError (List (Path × Value)) :=
  match f.text with
  | .absent => if f.required then .error (.noFile f.name) else .ok []
  | .unreadable reason => if f.required then .error (.unreadableFile reason) else .ok []
  | .text text =>
    match SettingsFile.read? text with
    | none => .error (.badFile f.name)
    | some assigned =>
      .ok (assigned.map fun (parts, value) => (partsPath parts, .scalar (some f.name) value))

end SettingsFileSource

/-- Where settings come from, beyond the standard ones. -/
structure SettingsSources where
  /-- A file, if one is named. -/
  file : Option SettingsFileSource
  /-- Single settings by key, in the order they were given. -/
  overrides : List (Path × Value)

namespace SettingsSources

/-- The standard settings alone. -/
def standard : SettingsSources := ⟨none, []⟩

/-- Adds a single setting. -/
def withOverride (s : SettingsSources) (key : String) (value : Scalar) :
    Except SettingsError SettingsSources :=
  match Path.ofKey? key with
  | none => .error (.badKey key)
  | some path => .ok { s with overrides := s.overrides ++ [(path, .scalar none value)] }

/-- Puts the sources together and reads the settings. -/
def load (s : SettingsSources) : Except SettingsError Settings := do
  let fromFile ← match s.file with
    | none => pure []
    | some f => f.assignments
  Settings.ofValue ((Settings.standard.toValue.writeAll fromFile).writeAll s.overrides)

end SettingsSources

end Bracemark
