/-
What tables are made of.

A cell knows how many rows and columns it asks for, the codes it carries, and the
box it was given when the table was laid out. A group of rows lies between two
break lines and may name its role and its formats. A table holds the settings of
its element and, once laid out, its size and grid; the number is attached when
the document is prepared for writing.
-/
import Bracemark.Table.Grid

set_option autoImplicit false

namespace Bracemark

/-! ## Cells -/

/-- A cell of a table. -/
structure Cell where
  asked : Extent
  codes : CellCodes
  box : Box
deriving DecidableEq, Repr

namespace Cell

/-- A cell that has not been placed. A cell asks for a row and a column at
least. -/
def ofExtent (rows cols : Nat) (codes : CellCodes) : Cell :=
  ⟨⟨max rows 1, max cols 1⟩, codes, .corner⟩

/-- A cell without settings. -/
def plain : Cell := ofExtent 1 1 .empty

/-- A span argument: one when missing, at least one when given. -/
def spanOf? : Lookup Int → Option Nat
  | .missing => some 1
  | .invalid => none
  | .value n => some (max n 1).toNat

/-- The settings of a cell element, unless one of them is invalid. -/
def ofArguments? (as : Arguments) : Option Cell := do
  let rows ← spanOf? (as.number "rowspan" none)
  let cols ← spanOf? (as.number "colspan" none)
  let border ← FormatSpec.readCodes? Codes.borders? (as.get? "border" none)
  let align ← FormatSpec.readCodes? Codes.alignments? (as.get? "align" none)
  return ofExtent rows cols ⟨border, align⟩

end Cell

/-! ## Groups of rows -/

/-- The rows between two break lines. -/
structure RowGroup where
  format : FormatSpec
  /-- The role that the break line names. -/
  role : Option Role
  firstRow : Nat
  rowCount : Nat
deriving DecidableEq, Repr

namespace RowGroup

/-- A group without settings, such as the one before the first break line. -/
def plain : RowGroup := ⟨.empty, none, 0, 0⟩

/-- The settings on a break line, unless one of them is invalid. -/
def ofArguments? (as : Arguments) : Option RowGroup := do
  let role ← match as.get? "section" (some 0) with
    | none => some none
    | some name => (Role.ofName? name).map some
  let format ← FormatSpec.ofArguments? as
  return ⟨format, role, 0, 0⟩

end RowGroup

/-! ## Tables -/

/-- A table. -/
structure Table where
  format : FormatSpec
  /-- The number of groups at the top that make up the head. -/
  head : Nat
  /-- The number of groups at the bottom that make up the foot. -/
  foot : Nat
  /-- Whether the caption shows the table's number. -/
  showNumber : Bool
  rows : Nat
  cols : Nat
  grid : Grid
  /-- The table's number, once the document has been prepared. -/
  number : String
deriving DecidableEq, Repr

namespace Table

/-- A count of groups: none when missing; a negative one is invalid. -/
def countOf? : Lookup Int → Option Nat
  | .missing => some 0
  | .invalid => none
  | .value n => if n < 0 then none else some n.toNat

/-- The settings of a table element, unless one of them is invalid. -/
def ofArguments? (as : Arguments) : Option Table := do
  let format ← FormatSpec.ofArguments? as
  let head ← countOf? (as.number "head" none)
  let foot ← countOf? (as.number "foot" none)
  return ⟨format, head, foot, (as.flag "numbers" none).resolve true true, 0, 0, .blank 0 0, ""⟩

/-- The role of the group at `index` among `count` groups: the head counts from
the top and the foot from the bottom, and the head wins where they meet. -/
def roleAt (t : Table) (index count : Nat) : Role :=
  if index < t.head then .head
  else if count ≤ index + t.foot then .foot
  else .body

end Table

end Bracemark
