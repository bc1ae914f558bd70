/-
Writing HTML.

Every node is written as a piece of HTML from what its children are written as.
Blocks stand on lines of their own, indented by their depth; inside cells nothing
is broken into lines. All text of the document goes through `escapeHtml`.

A table is written from the top: it knows the grid from which its cells take
their borders, so rows and cells are written by the functions for tables.
-/
import Bracemark.Node
import Bracemark.Render.Context

set_option autoImplicit false

namespace Bracemark

open Text Context

/-! ## Lines -/

/-- What a block begins its line with. -/
def Settings.indentFor (s : Settings) (l : Layout) : String :=
  if l.compact then "" else String.join (List.replicate l.depth s.indent)

/-- What a block ends its line with. -/
def Layout.lineEnd (l : Layout) : String :=
  if l.compact then "" else "\n"

/-! ## Elements -/

namespace Feature

/-- Text between the tags of one letter each. -/
def emphasized (inner : String) (tags : List Char) : String :=
  tags.foldl
    (fun inner tag =>
      let name := String.ofList [tag]
      "<" ++ name ++ ">" ++ inner ++ "</" ++ name ++ ">") inner

/-- The level of the HTML heading, from one to six. -/
def htmlLevel (level : Int) : Int :=
  if level < 1 then 1 else if 6 < level then 6 else level

end Feature

namespace Figure

/-- The caption of a figure: its label and number, if they are shown, and what is
inside the element, without white space around all of it. -/
def caption (f : Figure) (s : Settings) (inside : String) : String :=
  if !f.showCaption then ""
  else if f.showNumber && s.showFigureNumbers then
    trim (s.figureLabel ++ " " ++ f.number ++ ". " ++ inside)
  else trim inside

/-- A figure in HTML. -/
def html (f : Figure) (s : Settings) (l : Layout) (inside : String) : String :=
  let indent := if f.inLine then "" else s.indentFor l
  let lineEnd := if f.inLine then "" else l.lineEnd
  let style := f.size.styleAttribute
  let caption := f.caption s inside
  let caption :=
    if caption = "" then "" else "<figcaption" ++ style ++ ">" ++ caption ++ "</figcaption>"
  indent ++ "<figure" ++ classAttribute s "image" ++ "><img src=\"" ++ escapeHtml f.url ++ "\"" ++
    style ++ ">" ++ caption ++ "</figure>" ++ lineEnd

end Figure

/-- An element in HTML. `n` is its node and `inside` what its children are written
as. -/
def Feature.html (c : Context) (n : Node) (inside : String) (feature : Feature) : String :=
  let s := c.settings
  let indent := s.indentFor n.layout
  let lineEnd := n.layout.lineEnd
  match feature with
  | .emphasis tags => emphasized inside tags.toList
  | .lineBreak => inside ++ "<br>"
  | .paragraph =>
    indent ++ "<p" ++ classAttribute s "paragraph" ++ ">" ++ trim inside ++ "</p>" ++ lineEnd
  | .heading h =>
    let tag := "h" ++ toString (htmlLevel h.shownLevel)
    let title := if h.shownLevel = 0 then classAttribute s "title" else ""
    indent ++ "<" ++ tag ++ title ++ ">" ++ escapeHtml h.label ++ trim inside ++
      "</" ++ tag ++ ">" ++ lineEnd
  | .division _ =>
    indent ++ "<section" ++ classAttribute s "section" ++ ">" ++ lineEnd ++ inside ++
      indent ++ "</section>" ++ lineEnd
  | .list l =>
    let tag := if l.style.isOrdered then "ol" else "ul"
    let start :=
      if l.start ≠ 1 ∧ l.style.isOrdered = true then " start=\"" ++ toString l.start ++ "\"" else ""
    indent ++ "<" ++ tag ++ classAttribute s "list" ++ " style=\"list-style-type: " ++
      l.style.css ++ ";\"" ++ start ++ ">" ++ lineEnd ++ inside ++
      indent ++ "</" ++ tag ++ ">" ++ lineEnd
  | .item _ =>
    indent ++ "<li" ++ classAttribute s "item" ++ ">" ++ trim inside ++ "</li>" ++ lineEnd
  | .link url =>
    let shown := if n.children.isEmpty then escapeHtml url else inside
    "<a href=\"" ++ escapeHtml url ++ "\">" ++ shown ++ "</a>"
  | .get name value => escapeHtml (value.getD (c.valueOf name))
  | .assign _ | .increment _ => ""
  | .entity _ html => html
  | .code =>
    indent ++ "<pre" ++ classAttribute s "code" ++ ">" ++ escapeHtml n.plainText ++ "</pre>" ++
      lineEnd
  | .float side clear =>
    indent ++ "<div" ++ classAttribute s "float" ++ " style=\"float: " ++ side.css ++ ";" ++
      (if clear then " clear: both;" else "") ++ "\">" ++ lineEnd ++ inside ++
      indent ++ "</div>" ++ lineEnd
  | .align side =>
    indent ++ "<div" ++ classAttribute s "align" ++ " style=\"text-align: " ++ side.css ++
      ";\">" ++ lineEnd ++ inside ++ indent ++ "</div>" ++ lineEnd
  | .image f => f.html s n.layout inside

/-! ## Tables -/

/-- The label and number before the caption of a table, if they are shown. -/
def Table.label (t : Table) (s : Settings) : String :=
  if t.showNumber && s.showTableNumbers && t.number ≠ "" then
    s.tableLabel ++ " " ++ t.number ++ ". "
  else ""

/-- The style of a cell with the given format, one declaration after another. -/
def CellFormat.declarations (f : CellFormat) : List String :=
  let edge (name : String) (b : Option Border) : List String :=
    (b.map fun b => "border-" ++ name ++ ": " ++ b.css).toList
  edge "top" f.top ++ edge "right" f.right ++ edge "bottom" f.bottom ++ edge "left" f.left ++
    (f.align.map fun a => "text-align: " ++ a.css).toList

/-- The attributes of a cell: its spans where they exceed one, and its style. -/
def Cell.attributes (cell : Cell) (g : Grid) : String :=
  let spanned (name : String) (n : Nat) : String :=
    if 1 < n then " " ++ name ++ "=\"" ++ toString n ++ "\"" else ""
  let declarations := (g.cellFormat cell.box).declarations
  spanned "rowspan" cell.box.rowspan ++ spanned "colspan" cell.box.colspan ++
    (if declarations.isEmpty then ""
      else " style=\"" ++ "; ".intercalate declarations ++ ";\"")

/-- A cell in HTML. -/
def Cell.html (cell : Cell) (t : Table) (role : Role) (inside : String) : String :=
  let tag := if role = .head then "th" else "td"
  "<" ++ tag ++ cell.attributes t.grid ++ ">" ++ inside ++ "</" ++ tag ++ ">"

/-! ## Nodes -/

namespace Node

mutual

/-- A node in HTML. -/
def html (c : Context) : Node → String
  | .mk _ (.text s) _ _ => escapeHtml s
  | .mk _ .gap _ _ => "\n"
  | .mk _ (.unknown closed) children _ =>
    "\x7b" ++ htmlAll c children ++ (if closed then "\x7d" else "")
  | .mk _ .paragraph children layout =>
    c.settings.indentFor layout ++ "<p" ++ classAttribute c.settings "paragraph" ++ ">" ++
      trim (htmlAll c children) ++ "</p>" ++ layout.lineEnd
  | .mk span (.element e) children layout =>
    e.feature.html c (.mk span (.element e) children layout) (htmlAll c children)
  | .mk _ (.table t) children layout =>
    c.settings.indentFor layout ++ "<table" ++ classAttribute c.settings "table" ++ ">" ++
      layout.lineEnd ++ htmlTable c t children ++
      c.settings.indentFor layout ++ "</table>" ++ layout.lineEnd
  | .mk _ _ children _ => htmlAll c children

/-- Nodes one after another in HTML. -/
def htmlAll (c : Context) : List Node → String
  | [] => ""
  | n :: ns => n.html c ++ htmlAll c ns

/-- The caption and the sections of a table. -/
def htmlTable (c : Context) (t : Table) : List Node → String
  | [] => ""
  | .mk _ .caption children layout :: ns =>
    c.settings.indentFor layout ++ "<caption>" ++ escapeHtml (t.label c.settings) ++
      trim (htmlAll c children) ++ "</caption>" ++ layout.lineEnd ++ htmlTable c t ns
  | .mk _ (.tableSection role) groups layout :: ns =>
    c.settings.indentFor layout ++ "<" ++ role.htmlTag ++ ">" ++ layout.lineEnd ++
      htmlGroups c t role groups ++
      c.settings.indentFor layout ++ "</" ++ role.htmlTag ++ ">" ++ layout.lineEnd ++
      htmlTable c t ns
  | _ :: ns => htmlTable c t ns

/-- The groups of a section. -/
def htmlGroups (c : Context) (t : Table) (role : Role) : List Node → String
  | [] => ""
  | .mk _ _ rows _ :: ns => htmlRows c t role rows ++ htmlGroups c t role ns

/-- The rows of a group. -/
def htmlRows (c : Context) (t : Table) (role : Role) : List Node → String
  | [] => ""
  | .mk _ _ cells layout :: ns =>
    c.settings.indentFor layout ++ "<tr>" ++ htmlCells c t role cells ++ "</tr>" ++
      layout.lineEnd ++ htmlRows c t role ns

/-- The cells of a row. -/
def htmlCells (c : Context) (t : Table) (role : Role) : List Node → String
  | [] => ""
  | .mk _ (.cell cell) children _ :: ns =>
    cell.html t role (htmlAll c children) ++ htmlCells c t role ns
  | _ :: ns => htmlCells c t role ns

end

end Node

end Bracemark
