/-
Placing cells a second time.

The spans that a table shows for its cells are those that placing has given them. They can be
taken at their word: asked for in turn they are granted, and every cell comes to lie where it was.

The second pass sees other requests than the first, and its probe width is worked out from them.
But a number that has been clamped stays as it is when it is clamped to the same bounds again. The
probe looks at rows only, whose bounds are those of the group, so its width is the same
(`probeRows_settled`). From there both passes go cell by cell through the same occupancies, and
with them the same bounds for the columns (`placeRow_settled`).
-/
import Bracemark.Proofs.TableBoxes

set_option autoImplicit false

namespace Bracemark

/-! ## Requests for what has been given -/

/-- The rows and columns of a box, as a request. -/
def Box.extent (b : Box) : Extent :=
  ⟨b.rowspan, b.colspan⟩

/-- The cell that asks for the spans it has been given. -/
def Cell.settled (c : Cell) : Cell :=
  { c with asked := c.box.extent }

/-- A kind whose cell asks for the spans it has been given. -/
def Kind.settled : Kind → Kind
  | .cell c => .cell c.settled
  | kind => kind

namespace Node

/-- A node whose cell asks for the spans it has been given. -/
def settled (n : Node) : Node :=
  n.withKind n.kind.settled

/-- A row whose cells ask for the spans they have been given. -/
def settledRow (row : Node) : Node :=
  row.withChildren (row.children.map settled)

end Node

/-! ## The second pass over requests -/

theorem clamp_clamp {low high : Nat} (h : low ≤ high) (n : Nat) :
    clamp low high (clamp low high n) = clamp low high n := by
  rw [clamp_eq_min (le_clamp h n), Nat.min_eq_left (clamp_le h n)]

section

variable {first count probe row : Nat}

theorem nextBox_settled (hrow : row < count) (col : Nat) (o : Occupancy) (cell : Extent) :
    nextBox first count probe row col o (nextBox first count probe row col o cell).extent =
      nextBox first count probe row col o cell := by
  have hroom := o.room_pos probe row col
  simp only [nextBox, Box.extent, clamp_clamp (show 1 ≤ count - row by omega), clamp_clamp hroom]

/-- The probe of a row sees no difference, since it looks at rows only. The boxes may come
from another column and another occupancy: the rows of a box do not depend on them. -/
theorem probeRow_settled (hrow : row < count) (cells : List Extent) :
    ∀ (col : Nat) (o : Occupancy) (col' : Nat) (o' : Occupancy),
      probeRow count row col o
          ((placeRow first count probe row col' o' cells).1.map Box.extent) =
        probeRow count row col o cells := by
  induction cells with
  | nil => exact fun _ _ _ _ => rfl
  | cons cell cells ih =>
    intro col o col' o'
    rw [placeRow, List.map_cons, probeRow, probeRow, ih, Box.extent, nextBox_rowspan,
      clamp_clamp (show 1 ≤ count - row by omega)]

theorem probeRows_settled (rows : List (List Extent)) :
    ∀ (row : Nat) (o o' : Occupancy), row + rows.length ≤ count →
      probeRows count row o
          ((placeRows first count probe row o' rows).1.map (·.map Box.extent)) =
        probeRows count row o rows := by
  induction rows with
  | nil => exact fun _ _ _ _ => rfl
  | cons cells rows ih =>
    intro row o o' h
    rw [List.length_cons] at h
    have hrest : ∀ o o', probeRows count (row + 1) o
        ((placeRows first count probe (row + 1) o' rows).1.map (·.map Box.extent)) =
          probeRows count (row + 1) o rows := fun o o' => ih (row + 1) o o' (by omega)
    rw [placeRows, List.map_cons, probeRows, probeRows, probeRow_settled (by omega)]
    simp only [hrest]

theorem placeRow_settled (hrow : row < count) (cells : List Extent) :
    ∀ (col : Nat) (o : Occupancy),
      placeRow first count probe row col o
          ((placeRow first count probe row col o cells).1.map Box.extent) =
        placeRow first count probe row col o cells := by
  induction cells with
  | nil => exact fun _ _ => rfl
  | cons cell cells ih =>
    intro col o
    have hbox : nextBox first count probe row col o
        (nextBox first count probe row col o cell).extent =
      nextBox first count probe row col o cell := nextBox_settled hrow col o cell
    rw [placeRow, List.map_cons, placeRow, hbox, ih]

theorem placeRows_settled (rows : List (List Extent)) :
    ∀ (row : Nat) (o : Occupancy), row + rows.length ≤ count →
      placeRows first count probe row o
          ((placeRows first count probe row o rows).1.map (·.map Box.extent)) =
        placeRows first count probe row o rows := by
  induction rows with
  | nil => exact fun _ _ _ => rfl
  | cons cells rows ih =>
    intro row o h
    rw [List.length_cons] at h
    have hrest := fun o => ih (row + 1) o (by omega)
    rw [placeRows, List.map_cons, placeRows, placeRow_settled (by omega)]
    simp only [hrest]

end

/-- Placing what has been placed changes neither a box nor the width. -/
theorem place_settled (first : Nat) (rows : List (List Extent)) :
    place first ((place first rows).1.map (·.map Box.extent)) = place first rows := by
  have hfits : 0 + rows.length ≤ rows.length := by omega
  have hlength : ((place first rows).1.map (·.map Box.extent)).length = rows.length := by
    rw [List.length_map, place, Node.length_placeRows]
  have hprobe : probeWidth ((place first rows).1.map (·.map Box.extent)) = probeWidth rows := by
    rw [probeWidth, hlength, place, probeRows_settled rows 0 _ _ hfits, probeWidth]
  rw [place, hlength, hprobe, place, placeRows_settled rows 0 _ hfits]

/-! ## The second pass over rows of nodes -/

namespace Node

theorem cell?_settled (n : Node) : n.settled.cell? = n.cell?.map Cell.settled := by
  unfold settled cell? withKind Kind.settled
  cases n.kind <;> rfl

theorem cells_settledRow (row : Node) : row.settledRow.cells = row.cells.map Cell.settled := by
  change (row.children.map settled).filterMap cell? =
    (row.children.filterMap cell?).map Cell.settled
  rw [List.filterMap_map, List.map_filterMap]
  exact List.filterMap_congr fun n _ => cell?_settled n

theorem boxes_settledRow (row : Node) : row.settledRow.boxes = row.boxes := by
  rw [boxes, cells_settledRow, List.map_map]
  rfl

theorem asked_settledRow (row : Node) :
    row.settledRow.cells.map (·.asked) = row.boxes.map Box.extent := by
  rw [cells_settledRow, List.map_map, boxes, List.map_map]
  rfl

theorem withKind_self (n : Node) : n.withKind n.kind = n := by
  cases n
  rfl

theorem withChildren_self (n : Node) : n.withChildren n.children = n := by
  cases n
  rfl

/-- Giving the cells among some nodes the boxes that they have changes nothing. -/
theorem withBoxes_self (ns : List Node) (boxes : List Box) :
    boxes = (ns.filterMap cell?).map (·.box) → withBoxes ns boxes = ns := by
  fun_induction withBoxes ns boxes with
  | case1 => exact fun _ => rfl
  | case2 => exact fun _ => rfl
  | case3 n ns box boxes c hkind ih =>
    intro h
    rw [List.filterMap_cons_some (cell?_eq_some.mpr hkind), List.map_cons] at h
    obtain ⟨rfl, hrest⟩ := List.cons_eq_cons.mp h
    rw [ih hrest, ← hkind, withKind_self]
  | case4 n ns box boxes hkind ih =>
    intro h
    have hnone : n.cell? = none :=
      Option.eq_none_iff_forall_ne_some.mpr fun c hc => hkind c (cell?_eq_some.mp hc)
    rw [List.filterMap_cons_none hnone] at h
    rw [ih h]

theorem zipWith_boxes_self (rows : List Node) :
    rows.zipWith (fun row bs => row.withChildren (withBoxes row.children bs))
      (rows.map boxes) = rows := by
  induction rows with
  | nil => rfl
  | cons row rows ih =>
    rw [List.map_cons, List.zipWith_cons_cons, ih, withBoxes_self row.children row.boxes rfl,
      withChildren_self]

/-- **Placing is settled after one pass.** Where every cell asks for the spans that it has been
given, placing gives the width that it gave before, and leaves every row as it is, with every
cell in its row and column and with its spans. -/
theorem placeRows_settledRow (first : Nat) (rows : List Node) :
    placeRows first ((placeRows first rows).1.map settledRow) =
      ((placeRows first rows).1.map settledRow, (placeRows first rows).2) := by
  have hboxes := map_boxes_placeRows first rows
  generalize hplaced : placeRows first rows = placed at hboxes ⊢
  have hwidth : placed.2 = (place first (rows.map fun row => row.cells.map (·.asked))).2 := by
    rw [← hplaced]
    rfl
  have hasked : (placed.1.map settledRow).map (fun row => row.cells.map (·.asked)) =
      (placed.1.map boxes).map (·.map Box.extent) := by
    rw [List.map_map, List.map_map]
    exact List.map_congr_left fun row _ => asked_settledRow row
  have hsame : (placed.1.map settledRow).map boxes = placed.1.map boxes := by
    rw [List.map_map]
    exact List.map_congr_left fun row _ => boxes_settledRow row
  -- What is asked for now is what was given, so placing gives the same boxes again.
  have hplace := place_settled first (rows.map fun row => row.cells.map (·.asked))
  rw [← hboxes, ← hasked] at hplace
  rw [placeRows, hplace]
  simp only [← hboxes, ← hwidth, ← hsame, zipWith_boxes_self]

end Node

end Bracemark
