/-
The outline of a document.

One line for each node, indented by its depth in the tree: its kind, its span,
and what tells it from other nodes of that kind. Texts are quoted, an element is
shown by its name, a section of a table by its role and a cell by its box.
-/
import Bracemark.Document
import Bracemark.Text.Quoted

set_option autoImplicit false

namespace Bracemark

open Text

namespace Kind

/-- What tells a node from others of its kind. -/
def detail : Kind → String
  | .text s => " " ++ inSingleQuotes s
  | .element e => " " ++ e.name
  | .unknown false => " unclosed"
  | .tableSection role => " " ++ role.htmlTag
  | .cell c =>
    " r" ++ toString c.box.row ++ " c" ++ toString c.box.col ++ " " ++
      toString c.box.rowspan ++ "x" ++ toString c.box.colspan
  | _ => ""

end Kind

namespace Node

/-- The line of a node. -/
def outlineLine (level : Nat) (n : Node) : String :=
  String.join (List.replicate level "    ") ++ n.kind.label ++ "[" ++ toString n.span.start ++
    ":" ++ toString n.span.stop ++ "]" ++ n.kind.detail ++ "\n"

/-- The lines of a node and all nodes inside it. -/
def outline (n : Node) : String :=
  String.join ((n.walk 0).map fun (level, m) => m.outlineLine level)

end Node

/-- The outline of a document. -/
def Document.outline (d : Document) : String :=
  d.root.outline

end Bracemark
