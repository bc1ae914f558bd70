/-
The tree of a document as JSON.

Objects are written with their members in the order of their names, each on a
line of its own, indented by two spaces a level. Strings keep every character as
it is except quotes, backslashes and controls.
-/
import Bracemark.Document

set_option autoImplicit false

namespace Bracemark

/-! ## Values -/

/-- The JSON values that occur in a tree. -/
inductive Json where
  | natural (n : Nat)
  | flag (b : Bool)
  | string (s : String)
  | array (items : List Json)
  | object (members : List (String × Json))
deriving Repr, Inhabited

namespace Json

/-- How a character is written in a string. -/
def escapeChar (c : Char) : List Char :=
  if c = '"' then ['\\', '"']
  else if c = '\\' then ['\\', '\\']
  else if c = '\n' then ['\\', 'n']
  else if c = '\r' then ['\\', 'r']
  else if c = '\t' then ['\\', 't']
  else if c = '\x08' then ['\\', 'b']
  else if c = '\x0c' then ['\\', 'f']
  else if c.toNat < 0x20 then
    ['\\', 'u', '0', '0', Nat.digitChar (c.toNat / 16), Nat.digitChar (c.toNat % 16)]
  else [c]

/-- A string with its quotes. -/
def quote (s : String) : String :=
  "\"" ++ String.ofList (s.toList.flatMap escapeChar) ++ "\""

/-- A new line at some level. -/
def newLine (level : Nat) : String :=
  "\n" ++ String.join (List.replicate level "  ")

mutual

/-- A value that stands at some level. -/
def write (level : Nat) : Json → String
  | .natural n => toString n
  | .flag b => if b then "true" else "false"
  | .string s => quote s
  | .array [] => "[]"
  | .array (item :: items) =>
    "[" ++ newLine (level + 1) ++ write (level + 1) item ++ writeItems (level + 1) items ++
      newLine level ++ "]"
  | .object [] => "\x7b\x7d"
  | .object (member :: members) =>
    "\x7b" ++ newLine (level + 1) ++ writeMember (level + 1) member ++
      writeMembers (level + 1) members ++ newLine level ++ "\x7d"

/-- A member of an object. -/
def writeMember (level : Nat) : String × Json → String
  | (name, value) => quote name ++ ": " ++ write level value

/-- The items of an array after the first. -/
def writeItems (level : Nat) : List Json → String
  | [] => ""
  | item :: items => "," ++ newLine level ++ write level item ++ writeItems level items

/-- The members of an object after the first. -/
def writeMembers (level : Nat) : List (String × Json) → String
  | [] => ""
  | member :: members =>
    "," ++ newLine level ++ writeMember level member ++ writeMembers level members

end

end Json

/-! ## Trees -/

/-- An argument. -/
def Argument.json (a : Argument) : Json :=
  let name := (a.name.map fun name => ("name", Json.string name)).toList
  .object (name ++ [("value", .string a.value)])

namespace Node

/-- A node with the given kind and span, from what its children are written as. -/
def jsonOf (kind : Kind) (span : Span) (children : List Json) : Json :=
  let inside := if children.isEmpty then [] else [("children", Json.array children)]
  let label := [("kind", Json.string kind.label)]
  let place := [("span", Json.array [.natural span.start, .natural span.stop])]
  .object <| match kind with
    | .text s => inside ++ label ++ place ++ [("text", .string s)]
    | .element e =>
      ("arguments", .array (e.arguments.entries.map Argument.json)) ::
        inside ++ label ++ [("name", .string e.name)] ++ place
    | .unknown closed => inside ++ [("closed", .flag closed)] ++ label ++ place
    | .tableSection role => inside ++ label ++ [("role", .string role.name)] ++ place
    | .cell c =>
      inside ++ [("col", .natural c.box.col), ("colspan", .natural c.box.colspan)] ++ label ++
        [("row", .natural c.box.row), ("rowspan", .natural c.box.rowspan)] ++ place
    | .table t =>
      inside ++ [("cols", .natural t.cols)] ++ label ++ [("rows", .natural t.rows)] ++ place
    | _ => inside ++ label ++ place

mutual

/-- A node and all nodes inside it as a value. -/
def json : Node → Json
  | .mk span kind children _ => jsonOf kind span (jsonAll children)

/-- Some nodes as values. -/
def jsonAll : List Node → List Json
  | [] => []
  | n :: ns => n.json :: jsonAll ns

end

end Node

/-- The tree of a document as JSON. -/
def Document.json (d : Document) : String :=
  d.root.json.write 0

end Bracemark
