/-
The body of a table.

A body consists of captions, break lines, rows and white space. A break line has
three dashes or more, with arguments after them. A row is one line of cells with
bars between them; a cell is an element that says so and stands alone in its
cell, or whatever content there is up to the next bar or the end of the line.
-/
import Bracemark.Parser.Element

set_option autoImplicit false

namespace Bracemark.Parser

open Reading

variable {m : Type → Type} [Reading m]

/-! ## Between rows -/

/-- A line that separates groups of rows: an empty group with the settings of the
rows that follow. -/
def breakLine : m Node := do
  let start ← here
  let line ← pattern .groupBreak
  let as ← ofOption (Arguments.ofText? line.word)
  let group ← ofOption (RowGroup.ofArguments? as)
  let stop ← here
  return .leaf (start.spanTo stop) (.rowGroup group)

/-- White space between rows. Nothing is kept of it but where it began. -/
def blankRows : m Node := do
  let start ← here
  let _ ← pattern .blank
  return .null start.offset

/-! ## Rows -/

/-- Whether a cell may end at a place. -/
def endsCell (place : Place) : Bool :=
  match place.rest with
  | [] => true
  | c :: _ => c == '|' || c == '\n' || c == '}'

/-- A cell that is one cell element with nothing but spaces around it. -/
def explicitCell (inner : Grammar → m Node) : m Node := do
  let _ ← pattern .spaces
  let node ← ofForm inner .cell
  let _ ← pattern .spaces
  let stop ← here
  require (endsCell stop)
  return node

/-- The settings of the text of a cell. -/
def cellFrame : Frame := [(Key.cellText, .flag true)]

/-- A cell of content. -/
def contentCell (inner : Grammar → m Node) : m Node := do
  let start ← here
  let nodes ← inFrame cellFrame (parts inner)
  let stop ← here
  return cellNode (start.spanTo stop) .plain nodes

/-- A cell. -/
def cell (inner : Grammar → m Node) : m Node :=
  orElse (explicitCell inner) (contentCell inner)

/-- A bar and the cell after it. -/
def nextCell (inner : Grammar → m Node) : m Node := do
  exactly ['|']
  cell inner

/-- A row: cells with bars between them up to the end of the line or the closing
brace. A row takes a byte at least. -/
def row (inner : Grammar → m Node) : m Node := do
  let start ← here
  let head ← cell inner
  let tail ← many (nextCell inner) 0 none
  let stop ← here
  require (decide (stop.offset ≠ start.offset))
  let ended ← optional (pattern .rowEnd)
  let last ← here
  require (ended.isSome || last.startsWith '}')
  return .branch (start.spanTo stop) .row (head :: tail)

end Bracemark.Parser
