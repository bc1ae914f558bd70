/-
Laying out a table.

The body of a table is read as captions, break lines and rows, one after another.
Break lines cut the rows into groups, and groups without rows are left out. The
cells of each group are placed, the format strings of the table, its groups and
its cells are written into the grid, and the groups are sorted into head, body
and foot. The captions are put together into one, which comes first.

A table without rows cannot be laid out.
-/
import Bracemark.Node.Assembly

set_option autoImplicit false

namespace Bracemark

/-! ## Rows and their cells -/

namespace Node

/-- The cells of a row. -/
def cells (row : Node) : List Cell :=
  row.children.filterMap cell?

/-- Gives the cells among some nodes their boxes, in order. -/
def withBoxes : List Node → List Box → List Node
  | [], _ => []
  | n :: ns, [] => n :: ns
  | n :: ns, box :: boxes =>
    match n.kind with
    | .cell c => n.withKind (.cell { c with box }) :: withBoxes ns boxes
    | _ => n :: withBoxes ns (box :: boxes)

/-- Places the cells of a group of rows, whose first row has the number `first`;
gives the rows and the width of the group. -/
def placeRows (first : Nat) (rows : List Node) : List Node × Nat :=
  let (boxes, width) := place first (rows.map fun row => row.cells.map (·.asked))
  (rows.zipWith (fun row boxes => row.withChildren (withBoxes row.children boxes)) boxes, width)

end Node

/-! ## Groups of rows -/

/-- The rows between two break lines. -/
structure Block where
  group : RowGroup
  rows : List Node

namespace Block

/-- The captions of a table body, and its groups of rows. `group` holds the
settings of the group that is being collected and `rows` its rows so far, last
one first. -/
def collect (group : RowGroup) (rows : List Node) : List Node → List Node × List Block
  | [] => ([], [⟨group, rows.reverse⟩])
  | n :: ns =>
    match n.kind with
    | .caption =>
      let (captions, blocks) := collect group rows ns
      (n :: captions, blocks)
    | .rowGroup next =>
      let (captions, blocks) := collect next [] ns
      (captions, ⟨group, rows.reverse⟩ :: blocks)
    | .row => collect group (n :: rows) ns
    | _ => collect group rows ns

/-- The captions of a table body, and those of its groups that have rows. -/
def ofItems (items : List Node) : List Node × List Block :=
  let (captions, blocks) := collect .plain [] items
  (captions, blocks.filter fun b => !b.rows.isEmpty)

/-- Numbers the rows of all groups from `first` on and places their cells; gives
the groups, the number of rows, and the largest width. -/
def placeAll (first : Nat) : List Block → List Block × Nat × Nat
  | [] => ([], first, 0)
  | b :: bs =>
    let (rows, width) := Node.placeRows first b.rows
    let (more, count, most) := placeAll (first + b.rows.length) bs
    let group := { b.group with firstRow := first, rowCount := b.rows.length }
    (⟨group, rows⟩ :: more, count, max width most)

/-- Writes the formats of a table, its groups and its cells into a grid. -/
def writeFormats (format : FormatSpec) (blocks : List Block) (g : Grid) : Grid :=
  let g := g.applySpec format 0 g.rows
  let g := blocks.foldl
    (fun g b => g.applySpec b.group.format b.group.firstRow b.group.rowCount) g
  let cells := blocks.flatMap fun b => b.rows.flatMap Node.cells
  cells.foldl (fun g c => g.applyCell c.codes c.box) g

/-- The node of a group. -/
def node (b : Block) : Node :=
  .branch (Node.outerSpan b.rows) (.rowGroup b.group) b.rows

/-- The groups with the roles that they name or that their places give them. -/
def withRoles (t : Table) (blocks : List Block) : List (Role × Block) :=
  blocks.mapIdx fun index b => (b.group.role.getD (t.roleAt index blocks.length), b)

/-- The section of the groups with a role; none if there are no such groups. -/
def sectionOf (role : Role) (blocks : List (Role × Block)) : List Node :=
  let groups := (blocks.filter fun b => b.1 == role).map fun b => b.2.node
  if groups.isEmpty then [] else [.branch (Node.outerSpan groups) (.tableSection role) groups]

end Block

/-! ## The table -/

/-- One caption from all captions of a table; none if there are none. -/
def captionOf (captions : List Node) : List Node :=
  if captions.isEmpty then []
  else
    let content := captions.flatMap Node.children
    [(Node.branch (Node.outerSpan captions) .caption content).assemble]

/-- Lays out the items of a table's body. There is no table without rows. -/
def Table.layout? (span : Span) (t : Table) (items : List Node) : Option Node :=
  let (captions, blocks) := Block.ofItems items
  if blocks.isEmpty then none
  else
    let (blocks, rows, cols) := Block.placeAll 0 blocks
    let grid := Block.writeFormats t.format blocks (.blank rows cols)
    let withRoles := Block.withRoles t blocks
    let sections := [Role.head, .body, .foot].flatMap fun role => Block.sectionOf role withRoles
    some (.branch span (.table { t with rows, cols, grid }) (captionOf captions ++ sections))

end Bracemark
