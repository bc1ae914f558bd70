/-
Writing plain text.

Blocks are set apart by empty lines, list items begin with their markers, and a
table is one line for each row with bars between its cells.
-/
import Bracemark.Render.Html

set_option autoImplicit false

namespace Bracemark

open Text

/-! ## Elements -/

namespace Item

/-- What a list item begins with. -/
def marker (i : Item) : String :=
  match i.style with
  | none => "*"
  | some style => if style.isOrdered then i.label ++ "." else style.bullet

/-- A list item: its text on one line after the marker, and the blocks inside it
on the lines after that. -/
def plain (i : Item) (line blocks : String) : String :=
  String.join (List.replicate (i.level - 1) "  ") ++ i.marker ++ " " ++ trim line ++ "\n" ++ blocks

end Item

/-- A figure in plain text. -/
def Figure.plain (f : Figure) (s : Settings) (inside : String) : String :=
  let caption := f.caption s inside
  let shown := "[" ++ f.url ++ "]" ++ (if caption = "" then "" else " " ++ caption)
  if f.inLine then shown else shown ++ "\n\n"

/-- What the children of a node are written as, each with whether it flows in a
line. -/
abbrev WrittenParts := List (Bool × String)

namespace WrittenParts

/-- All parts put together. -/
def all (parts : WrittenParts) : String :=
  String.join (parts.map (·.2))

/-- The parts that flow in a line, or those that do not, put together. -/
def only (parts : WrittenParts) (flowing : Bool) : String :=
  String.join ((parts.filter fun part => part.1 == flowing).map (·.2))

end WrittenParts

/-- An element in plain text. `n` is its node and `parts` what its children are
written as. -/
def Feature.plain (c : Context) (n : Node) (parts : WrittenParts) (feature : Feature) : String :=
  let inside := parts.all
  match feature with
  | .lineBreak => inside ++ "\n"
  | .paragraph => trim inside ++ "\n\n"
  | .heading h => h.label ++ trim inside ++ "\n\n"
  | .list l => inside ++ (if l.nested then "" else "\n")
  | .item i => i.plain (parts.only true) (parts.only false)
  | .link url => if n.children.isEmpty then url else inside ++ " <" ++ url ++ ">"
  | .get name value => value.getD (c.valueOf name)
  | .assign _ | .increment _ => ""
  | .entity plain _ => plain
  | .code => n.plainText ++ "\n\n"
  | .image f => f.plain c.settings inside
  | .emphasis _ | .division _ | .float _ _ | .align _ => inside

/-! ## Nodes -/

namespace Node

mutual

/-- A node in plain text. -/
def plain (c : Context) : Node → String
  | .mk _ (.text s) _ _ => s
  | .mk _ .gap _ _ => "\n"
  | .mk _ (.unknown closed) children _ =>
    "\x7b" ++ plainAll c children ++ (if closed then "\x7d" else "")
  | .mk _ .paragraph children _ => trim (plainAll c children) ++ "\n\n"
  | .mk span (.element e) children layout =>
    e.feature.plain c (.mk span (.element e) children layout) (plainParts c children)
  | .mk _ (.table t) children _ => plainTable c t children ++ "\n"
  | .mk _ _ children _ => plainAll c children

/-- Nodes one after another in plain text. -/
def plainAll (c : Context) : List Node → String
  | [] => ""
  | n :: ns => n.plain c ++ plainAll c ns

/-- Nodes in plain text, each with whether it flows in a line. -/
def plainParts (c : Context) : List Node → WrittenParts
  | [] => []
  | n :: ns => (n.isInline, n.plain c) :: plainParts c ns

/-- The caption and the rows of a table. -/
def plainTable (c : Context) (t : Table) : List Node → String
  | [] => ""
  | .mk _ .caption children _ :: ns =>
    t.label c.settings ++ trim (plainAll c children) ++ "\n" ++ plainTable c t ns
  | .mk _ (.tableSection _) groups _ :: ns => plainGroups c groups ++ plainTable c t ns
  | _ :: ns => plainTable c t ns

/-- The rows of some groups. -/
def plainGroups (c : Context) : List Node → String
  | [] => ""
  | .mk _ _ rows _ :: ns => plainRows c rows ++ plainGroups c ns

/-- Rows, each on a line of its own. -/
def plainRows (c : Context) : List Node → String
  | [] => ""
  | .mk _ _ cells _ :: ns =>
    " | ".intercalate (plainCells c cells) ++ "\n" ++ plainRows c ns

/-- The texts of the cells of a row. -/
def plainCells (c : Context) : List Node → List String
  | [] => []
  | .mk _ _ children _ :: ns => trim (plainAll c children) :: plainCells c ns

end

end Node

end Bracemark
