/-
The grid of a table's borders and alignments.

A grid of so many rows and columns holds a border for every edge, above each row
and below the last, left of each column and right of the last, and an alignment
for every position. Format strings are written into it one after another, the
table's first, then those of its groups of rows, then those of its cells; a later
code takes the place of an earlier one and a dot leaves it.
-/
import Bracemark.Table.Codes
import Bracemark.Table.Placement

set_option autoImplicit false

namespace Bracemark

/-! ## Tables of codes -/

/-- A rectangle of codes, row by row; `none` where no code has been written. -/
abbrev Matrix (α : Type) := List (List (Option α))

namespace Matrix

variable {α : Type}

/-- A matrix without codes. -/
def blank (rows cols : Nat) : Matrix α :=
  List.replicate rows (List.replicate cols none)

/-- The code at a position, if the position exists and has one. -/
def get? (m : Matrix α) (row col : Nat) : Option α :=
  ((m[row]?).bind fun codes => codes[col]?).join

/-- Writes a code at a position; `none` writes nothing. -/
def write (m : Matrix α) (row col : Nat) (code : Option α) : Matrix α :=
  m.modify row fun line => line.modify col fun old => code.or old

/-- Writes one code over a whole row. -/
def writeRow (m : Matrix α) (row : Nat) (code : Option α) : Matrix α :=
  m.modify row fun line => line.map fun old => code.or old

/-- Writes codes along a row, one for each column. -/
def writeAlong (m : Matrix α) (row : Nat) (codes : List (Option α)) : Matrix α :=
  m.modify row fun line => line.zipWith (fun old code => code.or old) codes

@[simp] theorem length_write (m : Matrix α) (row col : Nat) (code : Option α) :
    (m.write row col code).length = m.length := by
  simp [write]

@[simp] theorem length_writeRow (m : Matrix α) (row : Nat) (code : Option α) :
    (m.writeRow row code).length = m.length := by
  simp [writeRow]

@[simp] theorem length_writeAlong (m : Matrix α) (row : Nat) (codes : List (Option α)) :
    (m.writeAlong row codes).length = m.length := by
  simp [writeAlong]

end Matrix

/-! ## Grids -/

/-- The borders and alignments of a table. -/
structure Grid where
  rows : Nat
  cols : Nat
  /-- The line above each row, and below the last one. -/
  horizontal : Matrix Border
  /-- The line left of each column, and right of the last one. -/
  vertical : Matrix Border
  align : Matrix Align
deriving DecidableEq, Repr

/-- The borders and the alignment of one cell. -/
structure CellFormat where
  top : Option Border
  right : Option Border
  bottom : Option Border
  left : Option Border
  align : Option Align
deriving DecidableEq, Repr, Inhabited

/-- The codes that a cell carries for its own edges and text. -/
structure CellCodes where
  /-- The four edges in the order top, right, bottom, left. -/
  border : Option (Codes Border)
  align : Option (Codes Align)
deriving DecidableEq, Repr

namespace CellCodes

/-- A cell without codes. -/
def empty : CellCodes := ⟨none, none⟩

/-- The code for one of the four edges, counted from the top clockwise. -/
def edge (c : CellCodes) (index : Nat) : Option Border :=
  c.border.bind fun codes => codes.codeAt index

/-- The code for the text. -/
def text (c : CellCodes) : Option Align :=
  c.align.bind fun codes => codes.codeAt 0

end CellCodes

namespace Grid

/-- A grid without codes. -/
def blank (rows cols : Nat) : Grid :=
  ⟨rows, cols, .blank (rows + 1) cols, .blank rows (cols + 1), .blank rows cols⟩

/-- The numbers from `start` on, `count` of them. -/
def indices (start count : Nat) : List Nat :=
  (List.range count).map (start + ·)

/-- Writes the format of a table or a group of rows over `count` rows from row
`first` on, as far as the grid goes. -/
def applySpec (g : Grid) (spec : FormatSpec) (first count : Nat) : Grid :=
  if g.rows < first then g
  else
    -- So many rows have one line more than that: the last line lies below them
    -- and is the first line of the rows that follow.
    let rows := min (first + count) g.rows - first
    let horizontal := match spec.horizontal with
      | none => g.horizontal
      | some codes =>
        (List.range (rows + 1)).foldl
          (fun m i => m.writeRow (first + i) (codes.codeAt i)) g.horizontal
    let vertical := match spec.vertical with
      | none => g.vertical
      | some codes =>
        (indices first rows).foldl
          (fun m row => m.writeAlong row (codes.expand (g.cols + 1))) g.vertical
    let align := match spec.align with
      | none => g.align
      | some codes =>
        (indices first rows).foldl
          (fun m row => m.writeAlong row (codes.expand g.cols)) g.align
    { g with horizontal, vertical, align }

/-- Writes a cell's own codes along the four sides of its box and over the
positions inside. -/
def applyCell (g : Grid) (codes : CellCodes) (box : Box) : Grid :=
  let cols := indices box.col box.colspan
  let rows := indices box.row box.rowspan
  let horizontal := cols.foldl
    (fun m col =>
      (m.write box.row col (codes.edge 0)).write (box.row + box.rowspan) col (codes.edge 2))
    g.horizontal
  let vertical := rows.foldl
    (fun m row =>
      (m.write row box.col (codes.edge 3)).write row (box.col + box.colspan) (codes.edge 1))
    g.vertical
  let align := rows.foldl
    (fun m row => cols.foldl (fun m col => m.write row col codes.text) m)
    g.align
  { g with horizontal, vertical, align }

/-- The border on the line above row `line`, in column `col`. -/
def horizontal? (g : Grid) (line col : Nat) : Option Border :=
  g.horizontal.get? line col

/-- The border in row `row`, on the line left of column `line`. -/
def vertical? (g : Grid) (row line : Nat) : Option Border :=
  g.vertical.get? row line

/-- The alignment at a position. -/
def align? (g : Grid) (row col : Nat) : Option Align :=
  g.align.get? row col

/-- What a cell shows: the borders at the outer edges of its box, read at its
first row and column, and the alignment there. -/
def cellFormat (g : Grid) (box : Box) : CellFormat where
  top := g.horizontal? box.row box.col
  right := g.vertical? box.row (box.col + box.colspan)
  bottom := g.horizontal? (box.row + box.rowspan) box.col
  left := g.vertical? box.row box.col
  align := g.align? box.row box.col

end Grid

end Bracemark
