/-
Output formats.

HTML and plain text are written after the document has been prepared; the outline
and the JSON text show its tree as it is. A format is chosen by its name. Where a
user writes the name its case does not matter; a set of formats knows its members
by their exact names.
-/
import Bracemark.Render
import Bracemark.Dump.Outline
import Bracemark.Dump.Json

set_option autoImplicit false

namespace Bracemark

open Text

/-! ## Formats -/

/-- The formats. -/
inductive Format where
  | html
  | plain
  | tree
  | json
deriving DecidableEq, Repr, Inhabited

/-- A name that no format has, and the names there are. -/
structure UnknownFormat where
  name : String
  available : List String
deriving DecidableEq, Repr

/-- What is reported about an unknown format. -/
def UnknownFormat.message (e : UnknownFormat) : String :=
  "unknown output format '" ++ e.name ++ "' (available: " ++ ", ".intercalate e.available ++ ")"

namespace Format

/-- All formats. -/
def all : List Format := [.html, .plain, .tree, .json]

/-- The name of a format. -/
def name : Format → String
  | .html => "html"
  | .plain => "plain"
  | .tree => "tree"
  | .json => "json"

/-- What a format is. -/
def description : Format → String
  | .html => "HTML fragment"
  | .plain => "Plain text with numbering"
  | .tree => "Indented one-line-per-node tree dump"
  | .json => "Parse tree as JSON"

/-- The format with a name, whatever its case. -/
def ofName (name : String) : Except UnknownFormat Format :=
  match all.find? fun f => sameLetters f.name name with
  | some f => .ok f
  | none => .error ⟨name, all.map Format.name⟩

/-- Writes a document in a format; gives the text and the document as it is
afterwards. -/
def write (f : Format) (s : Settings) (d : Document) : Except Fault (String × Document) :=
  match f with
  | .html => d.render .html s
  | .plain => d.render .plain s
  | .tree => .ok (d.outline, d)
  | .json => .ok (d.json, d)

end Format

/-! ## Sets of formats -/

/-- The formats that can be chosen. -/
structure FormatSet where
  formats : List Format
deriving DecidableEq, Repr

namespace FormatSet

/-- No format can be chosen. -/
def empty : FormatSet := ⟨[]⟩

/-- All formats can be chosen. -/
def standard : FormatSet := ⟨Format.all⟩

/-- The names of the formats, sorted. -/
def names (s : FormatSet) : List String :=
  (s.formats.map Format.name).mergeSort fun a b => decide (a ≤ b)

/-- The format with exactly this name. -/
def get? (s : FormatSet) (name : String) : Option Format :=
  s.formats.find? fun f => f.name == name

/-- The format with exactly this name, or what there is instead. -/
def get (s : FormatSet) (name : String) : Except UnknownFormat Format :=
  match s.get? name with
  | some f => .ok f
  | none => .error ⟨name, s.names⟩

end FormatSet

end Bracemark
