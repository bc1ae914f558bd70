/-
Where the cells of a group of rows come to lie.

Cells are placed row by row, each in the first column that no earlier cell of the
group covers. A cell asks for a number of rows and columns. It never gets rows
past the end of its group, and it never gets columns that are covered already or
that lie beyond the probe width, which is the width that the group would have if
no cell asked for more than one column.
-/

set_option autoImplicit false

namespace Bracemark

/-! ## Requests and boxes -/

/-- The rows and columns that a cell asks for. -/
structure Extent where
  rows : Nat
  cols : Nat
deriving DecidableEq, Repr, Inhabited

/-- The rectangle that a cell covers. -/
structure Box where
  row : Nat
  col : Nat
  rowspan : Nat
  colspan : Nat
deriving DecidableEq, Repr, Inhabited

/-- A cell that asks for one row and one column. -/
def Extent.single : Extent := ⟨1, 1⟩

/-- A single position in the corner, where no cell has been placed yet. -/
def Box.corner : Box := ⟨0, 0, 1, 1⟩

/-- `clamp low high n` is `n`, or the bound that it lies beyond. -/
def clamp (low high n : Nat) : Nat :=
  if n < low then low else if high < n then high else n

theorem le_clamp {low high : Nat} (h : low ≤ high) (n : Nat) : low ≤ clamp low high n := by
  unfold clamp; split
  · exact Nat.le_refl _
  · split <;> omega

theorem clamp_le {low high : Nat} (h : low ≤ high) (n : Nat) : clamp low high n ≤ high := by
  unfold clamp; split
  · exact h
  · split <;> omega

/-! ## Covered positions -/

/-- For each row of a group, which of its columns are covered. Columns past the
end of a line are free. -/
structure Occupancy where
  lines : List (List Bool)
deriving DecidableEq, Repr, Inhabited

namespace Occupancy

/-- Nothing is covered. -/
def free (rows : Nat) : Occupancy :=
  ⟨List.replicate rows []⟩

/-- The columns of a row. -/
def line (o : Occupancy) (row : Nat) : List Bool :=
  o.lines.getD row []

/-- Whether a position is covered. -/
def isTaken (o : Occupancy) (row col : Nat) : Bool :=
  (o.line row).getD col false

/-- The first column that is not covered, at `col` or to the right of it. -/
def firstFree (o : Occupancy) (row col : Nat) : Nat :=
  col + (((o.line row).drop col).takeWhile id).length

/-- The number of free columns from `col` up to the next covered one; `none` when
no column to the right is covered. -/
def freeRun? (o : Occupancy) (row col : Nat) : Option Nat :=
  ((o.line row).drop col).findIdx? id

/-- Covers some columns of one line. -/
def coverLine (col colspan : Nat) (line : List Bool) : List Bool :=
  let padded := line ++ List.replicate (col + colspan - line.length) false
  padded.take col ++ List.replicate colspan true ++ padded.drop (col + colspan)

/-- Covers a rectangle. -/
def cover (o : Occupancy) (row col rowspan colspan : Nat) : Occupancy :=
  ⟨o.lines.mapIdx fun r line =>
    if row ≤ r ∧ r < row + rowspan then coverLine col colspan line else line⟩

end Occupancy

/-! ## The probe -/

/-- Places the cells of one row one column wide, from column `col` on; gives the
column after the last of them. -/
def probeRow (count row : Nat) : Nat → Occupancy → List Extent → Nat × Occupancy
  | col, o, [] => (col, o)
  | col, o, cell :: cells =>
    let free := o.firstFree row col
    let rows := clamp 1 (count - row) cell.rows
    probeRow count row (free + 1) (o.cover row free rows 1) cells

/-- Probes the rows from `row` on and gives the largest width of a row. -/
def probeRows (count : Nat) : Nat → Occupancy → List (List Extent) → Nat
  | _, _, [] => 0
  | row, o, cells :: rows =>
    let (width, o) := probeRow count row 0 o cells
    max width (probeRows count (row + 1) o rows)

/-- The width of a group whose cells are all one column wide. -/
def probeWidth (rows : List (List Extent)) : Nat :=
  probeRows rows.length 0 (.free rows.length) rows

/-! ## Placing -/

/-- The number of columns that a cell in a free column may have. A cell past the
probe width still gets one, and no cell reaches into one that comes down from a row
above. -/
def Occupancy.room (o : Occupancy) (probe row col : Nat) : Nat :=
  let wanted := max (probe - col) 1
  match o.freeRun? row col with
  | none => wanted
  | some run => min wanted run

/-- The box of the next cell of a row, from column `col` on. `first` is the number of
the group's first row in the table. Rows and columns are numbers without a bound, and
`first + row` never overflows. Numbers of a limited size give the same box where the
number after the last row of the group and twice the number of cells in it are below
the limit (`Guarded.place_eq`). In a table `first` counts the rows of the groups
before, so only a table with about as many rows as that comes near the limit. -/
def nextBox (first count probe row col : Nat) (o : Occupancy) (cell : Extent) : Box :=
  let free := o.firstFree row col
  ⟨first + row, free, clamp 1 (count - row) cell.rows, clamp 1 (o.room probe row free) cell.cols⟩

/-- Places the cells of one row from column `col` on. -/
def placeRow (first count probe row : Nat) :
    Nat → Occupancy → List Extent → List Box × Nat × Occupancy
  | col, o, [] => ([], col, o)
  | col, o, cell :: cells =>
    let box := nextBox first count probe row col o cell
    let (boxes, stop, o) := placeRow first count probe row (box.col + box.colspan)
      (o.cover row box.col box.rowspan box.colspan) cells
    (box :: boxes, stop, o)

/-- Places the rows from `row` on and gives the largest width of a row. -/
def placeRows (first count probe : Nat) :
    Nat → Occupancy → List (List Extent) → List (List Box) × Nat
  | _, _, [] => ([], 0)
  | row, o, cells :: rows =>
    let (boxes, width, o) := placeRow first count probe row 0 o cells
    let (more, most) := placeRows first count probe (row + 1) o rows
    (boxes :: more, max width most)

/-- The boxes of the cells of a group of rows, and the group's width. `first` is
the number of the group's first row in the table. -/
def place (first : Nat) (rows : List (List Extent)) : List (List Box) × Nat :=
  placeRows first rows.length (probeWidth rows) 0 (.free rows.length) rows

end Bracemark
