/-
The command.

It loads the settings, reads the document, and writes it in the format asked for.
Whatever goes wrong is reported in one line, and then nothing is written: first a
fault among the overrides, then in the settings file, then a setting of the wrong
kind, then a document that cannot be read, and last an unknown format.

Files are given as a function from their names to what they hold, so that nothing
here depends on the world.
-/
import Bracemark.CommandLine.Invocation
import Bracemark.Settings.Loading
import Bracemark.Format

set_option autoImplicit false

namespace Bracemark

open Text

/-! ## Files and results -/

/-- What is found under the name of a file. -/
inductive FileContent where
  | text (s : String)
  /-- Bytes that are no text. -/
  | binary
  | missing
  | directory
  /-- The name goes on past a file. -/
  | pastFile
  /-- The file may not be read. -/
  | denied
deriving DecidableEq, Repr

namespace FileContent

/-- What a file holds. -/
def ofBytes (bytes : ByteArray) : FileContent :=
  match String.fromUTF8? bytes with
  | some s => .text s
  | none => .binary

/-- The text of a file, or why it has none. -/
def asText : FileContent → Except String String
  | .text s => .ok s
  | .binary => .error "stream did not contain valid UTF-8"
  | .missing => .error "No such file or directory (os error 2)"
  | .directory => .error "Is a directory (os error 21)"
  | .pastFile => .error "Not a directory (os error 20)"
  | .denied => .error "Permission denied (os error 13)"

/-- Whether there is a file, which can be read or not. -/
def isFile : FileContent → Bool
  | .text _ | .binary | .denied => true
  | _ => false

/-- A file as a settings file. -/
def asSettings (c : FileContent) : SettingsText :=
  if c.isFile then
    match c.asText with
    | .ok s => .text s
    | .error reason => .unreadable reason
  else .absent

end FileContent

/-- What is found under each name. -/
abbrev Files := String → FileContent

/-- What the command comes to. -/
structure Outcome where
  status : Nat
  output : String
  report : String
deriving DecidableEq, Repr

/-! ## Errors -/

/-- Why the command cannot write the document. -/
inductive Failure where
  | settings (e : SettingsError)
  /-- The document cannot be read. -/
  | file (reason : String)
  | format (e : UnknownFormat)
  /-- An override is no key with a value. -/
  | override (text : String)
  | fault (f : Fault)
deriving DecidableEq, Repr

/-- What is reported about a failure. -/
def Failure.message : Failure → String
  | .settings e => "configuration error: " ++ e.message
  | .file reason => "i/o error: " ++ reason
  | .format e => e.message
  | .override text => "invalid override '" ++ text ++ "': expected key=value"
  | .fault f => f.message

namespace CommandLine

/-- The name under which the command reports. -/
def commandName : String := "simark"

/-- The version that the command reports. -/
def version : String := "0.1.0"

/-- What the command reports about its use. -/
def usage : String :=
  "Render " ++ commandName ++ " documents\n\nUsage: " ++ commandName ++ " [OPTIONS] <path>\n\n" ++
  "Arguments:\n  <path>  Path to the " ++ commandName ++ " file\n\nOptions:\n" ++
  "  -f, --format <format>  Output format (html, plain, tree, json) [default: html]\n" ++
  "  -c, --config <config>  TOML file layered over the built-in defaults\n" ++
  "      --set <KEY=VALUE>  Override a render setting, e.g. --set table_label=Tab.\n" ++
  "  -h, --help             Print help\n" ++
  "  -V, --version          Print version\n"

/-! ## Settings -/

/-- A file name without steps that stay where they are; an absolute name is left as
it is. -/
def plainName (name : String) : String :=
  if name.startsWith "/" then name
  else "/".intercalate ((name.splitOn "/").filter fun step => step != "" && step != ".")

/-- A file name with the usual extension of settings files added to its last step,
which has to be a name. -/
def extendedName? (name : String) : Option String :=
  let steps := (name.splitOn "/").filter fun step => step != "" && step != "."
  match steps.getLast? with
  | none | some ".." => none
  | some _ => some ((if name.startsWith "/" then "/" else "") ++ "/".intercalate steps ++ ".toml")

/-- The settings file with a name; where there is none, the file with the usual
extension added. -/
def settingsFile (files : Files) (name : String) : SettingsFileSource :=
  if (files name).isFile then ⟨plainName name, (files name).asSettings, true⟩
  else
    match (extendedName? name).filter fun extended => (files extended).isFile with
    | some extended => ⟨extended, (files extended).asSettings, true⟩
    | none => ⟨name, .absent, true⟩

/-- Cuts an override at its first equals sign into key and value. A key without a
dot is one of the settings for writing. -/
def splitOverride (text : String) : Except Failure (String × String) :=
  let cs := text.toList
  match cs.dropWhile (· != '=') with
  | [] => .error (.override text)
  | _ :: value =>
    let key := trimBlanks (cs.takeWhile (· != '='))
    if key.isEmpty then .error (.override text)
    else
      let key := String.ofList key
      let key := if key.toList.contains '.' then key else Settings.tableName ++ "." ++ key
      .ok (key, String.ofList value)

/-- The value that an override gives: a truth value where it is written so. -/
def overrideValue (value : String) : Scalar :=
  if value = "true" then .flag true
  else if value = "false" then .flag false
  else .text value

/-- Adds overrides to some sources of settings. -/
def addOverrides (s : SettingsSources) : List String → Except Failure SettingsSources
  | [] => .ok s
  | text :: texts => do
    let (key, value) ← splitOverride text
    let s ← (s.withOverride key (overrideValue value)).mapError Failure.settings
    addOverrides s texts

/-- The settings that a command line asks for. -/
def loadSettings (files : Files) (i : Invocation) : Except Failure Settings := do
  let sources : SettingsSources := ⟨i.config.map (settingsFile files), []⟩
  let sources ← addOverrides sources i.overrides
  sources.load.mapError Failure.settings

/-! ## The document -/

/-- The text of a file. -/
def readText (files : Files) (path : String) : Except Failure String :=
  (files path).asText.mapError Failure.file

/-- The document around a piece of HTML. -/
def wrap (f : Format) (s : Settings) (text : String) : String :=
  match f with
  | .html => "<div class=\"" ++ s.classPrefix ++ "document\">\n" ++ text ++ "</div>\n"
  | _ => text

/-- What is written for a command line. -/
def write (files : Files) (i : Invocation) : Except Failure String := do
  -- The order of these steps is the order in which failures are reported.
  let settings ← loadSettings files i
  let source ← readText files i.path
  let document := Document.read .standard source
  let format ← (FormatSet.standard.get (i.format.getD "html")).mapError Failure.format
  let (text, _) ← (format.write settings document).mapError Failure.fault
  return wrap format settings text

/-- What the command comes to. -/
def run (files : Files) (arguments : List String) : Outcome :=
  match Request.ofArguments arguments with
  | .misuse => ⟨2, "", usage⟩
  | .help => ⟨0, usage, ""⟩
  | .version => ⟨0, commandName ++ " " ++ version ++ "\n", ""⟩
  | .document i =>
    match write files i with
    | .ok text => ⟨0, text, ""⟩
    | .error e => ⟨1, "", commandName ++ ": " ++ e.message ++ "\n"⟩

end CommandLine

end Bracemark
