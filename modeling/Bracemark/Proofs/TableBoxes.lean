/-
The boxes of a whole table.

Placing looks at one group of rows at a time and gives the cells in its rows boxes that make up a
consistent grid (`Node.placeRows_consistent`). Taken together, the boxes of all groups lie in the
grid of the table, they do not overlap, and they come row by row and from left to right in the
order of the source (`Table.wellPlaced_laidOut`). Groups cannot meet: the boxes of each keep to the
rows of their own group.

For the whole table nothing is asked of the requests. A cell that asks for no row or no column is
placed like one that asks for one (`place_raised`), so the theory of positive requests speaks for
all of them.
-/
import Bracemark.Proofs.Placement
import Bracemark.Proofs.TableLayout

set_option autoImplicit false

namespace Bracemark

/-! ## Requests for nothing -/

/-- The request, with a row and a column at least. -/
def Extent.raised (e : Extent) : Extent :=
  ⟨max e.rows 1, max e.cols 1⟩

theorem Extent.positive_raised (e : Extent) : e.raised.Positive :=
  ⟨Nat.le_max_right _ _, Nat.le_max_right _ _⟩

theorem clamp_max_one {high : Nat} (h : 1 ≤ high) (n : Nat) :
    clamp 1 high (max n 1) = clamp 1 high n := by
  by_cases hn : 1 ≤ n
  · rw [Nat.max_eq_left hn]
  · have hzero : n = 0 := by omega
    subst hzero
    rw [Nat.max_eq_right (by omega), clamp_eq_min (Nat.le_refl 1), Nat.min_eq_left h]
    rfl

section

variable {first count probe row : Nat}

theorem nextBox_raised (hrow : row < count) (col : Nat) (o : Occupancy) (cell : Extent) :
    nextBox first count probe row col o cell.raised = nextBox first count probe row col o cell := by
  have hroom := o.room_pos probe row col
  simp only [nextBox, Extent.raised, clamp_max_one (show 1 ≤ count - row by omega),
    clamp_max_one hroom]

theorem probeRow_raised (hrow : row < count) (cells : List Extent) :
    ∀ (col : Nat) (o : Occupancy),
      probeRow count row col o (cells.map Extent.raised) = probeRow count row col o cells := by
  induction cells with
  | nil => exact fun _ _ => rfl
  | cons cell cells ih =>
    intro col o
    rw [List.map_cons, probeRow, probeRow, ih, Extent.raised,
      clamp_max_one (show 1 ≤ count - row by omega)]

theorem probeRows_raised (rows : List (List Extent)) :
    ∀ (row : Nat) (o : Occupancy), row + rows.length ≤ count →
      probeRows count row o (rows.map (·.map Extent.raised)) = probeRows count row o rows := by
  induction rows with
  | nil => exact fun _ _ _ => rfl
  | cons cells rows ih =>
    intro row o h
    rw [List.length_cons] at h
    have hrest : ∀ o, probeRows count (row + 1) o (rows.map (·.map Extent.raised)) =
        probeRows count (row + 1) o rows := fun o => ih (row + 1) o (by omega)
    rw [List.map_cons, probeRows, probeRows, probeRow_raised (by omega)]
    simp only [hrest]

theorem placeRow_raised (hrow : row < count) (cells : List Extent) :
    ∀ (col : Nat) (o : Occupancy),
      placeRow first count probe row col o (cells.map Extent.raised) =
        placeRow first count probe row col o cells := by
  induction cells with
  | nil => exact fun _ _ => rfl
  | cons cell cells ih =>
    intro col o
    rw [List.map_cons, placeRow, placeRow, nextBox_raised hrow, ih]

theorem placeRows_raised (rows : List (List Extent)) :
    ∀ (row : Nat) (o : Occupancy), row + rows.length ≤ count →
      placeRows first count probe row o (rows.map (·.map Extent.raised)) =
        placeRows first count probe row o rows := by
  induction rows with
  | nil => exact fun _ _ _ => rfl
  | cons cells rows ih =>
    intro row o h
    rw [List.length_cons] at h
    have hrest : ∀ o, placeRows first count probe (row + 1) o (rows.map (·.map Extent.raised)) =
        placeRows first count probe (row + 1) o rows := fun o => ih (row + 1) o (by omega)
    rw [List.map_cons, placeRows, placeRows, placeRow_raised (by omega)]
    simp only [hrest]

end

/-- A request for no row or no column is placed like one for a single one. -/
theorem place_raised (first : Nat) (rows : List (List Extent)) :
    place first (rows.map (·.map Extent.raised)) = place first rows := by
  have hfits : 0 + rows.length ≤ rows.length := by omega
  rw [place, place, List.length_map, placeRows_raised rows 0 _ hfits, probeWidth, probeWidth,
    List.length_map, probeRows_raised rows 0 _ hfits]

/-! ## Boxes in the order of the source -/

/-- The box comes before the other one in the order of the source: it begins in a row above,
or in the same row and further left. -/
def Box.Before (a b : Box) : Prop :=
  a.row < b.row ∨ a.row = b.row ∧ a.col < b.col

/-- The boxes lie in the rows from `first` up to `last` and in `cols` columns, none of them is
empty, no two overlap, and they come in the order of the source. -/
structure WellPlaced (first last cols : Nat) (boxes : List Box) : Prop where
  first_le : ∀ b ∈ boxes, first ≤ b.row
  le_last : ∀ b ∈ boxes, b.row + b.rowspan ≤ last
  le_cols : ∀ b ∈ boxes, b.col + b.colspan ≤ cols
  rowspan_pos : ∀ b ∈ boxes, 1 ≤ b.rowspan
  colspan_pos : ∀ b ∈ boxes, 1 ≤ b.colspan
  disjoint : boxes.Pairwise Box.Disjoint
  ordered : boxes.Pairwise Box.Before

theorem WellPlaced.nil (first last cols : Nat) : WellPlaced first last cols [] :=
  ⟨by simp, by simp, by simp, by simp, by simp, .nil, .nil⟩

/-- Boxes above a row and boxes from that row on do not meet. -/
theorem WellPlaced.append {first mid last cols cols' : Nat} {xs ys : List Box}
    (hx : WellPlaced first mid cols xs) (hy : WellPlaced mid last cols' ys)
    (hfirst : first ≤ mid) (hlast : mid ≤ last) :
    WellPlaced first last (max cols cols') (xs ++ ys) where
  first_le b hb := by
    rcases List.mem_append.mp hb with hb | hb
    · exact hx.first_le b hb
    · exact hfirst.trans (hy.first_le b hb)
  le_last b hb := by
    rcases List.mem_append.mp hb with hb | hb
    · exact (hx.le_last b hb).trans hlast
    · exact hy.le_last b hb
  le_cols b hb := by
    rcases List.mem_append.mp hb with hb | hb
    · exact (hx.le_cols b hb).trans (Nat.le_max_left _ _)
    · exact (hy.le_cols b hb).trans (Nat.le_max_right _ _)
  rowspan_pos b hb := (List.mem_append.mp hb).elim (hx.rowspan_pos b) (hy.rowspan_pos b)
  colspan_pos b hb := (List.mem_append.mp hb).elim (hx.colspan_pos b) (hy.colspan_pos b)
  disjoint := by
    refine List.pairwise_append.mpr ⟨hx.disjoint, hy.disjoint, fun a ha b hb r c hab => ?_⟩
    have habove := hx.le_last a ha
    have hbelow := hy.first_le b hb
    obtain ⟨⟨⟨-, har⟩, -⟩, ⟨hbr, -⟩, -⟩ := hab
    omega
  ordered := by
    refine List.pairwise_append.mpr ⟨hx.ordered, hy.ordered, fun a ha b hb => .inl ?_⟩
    have habove := hx.le_last a ha
    have hspan := hx.rowspan_pos a ha
    have hbelow := hy.first_le b hb
    omega

/-! ## One group -/

section

variable {first width : Nat} {rows : List (List Extent)} {boxes : List (List Box)}

theorem ConsistentGrid.rowServed (h : ConsistentGrid first rows boxes width) {r : Nat}
    (hr : r < boxes.length) : ∃ cells,
      RowServed first rows.length (probeWidth rows) width boxes.flatten r cells boxes[r] := by
  have hr' : r < rows.length := h.length_eq ▸ hr
  exact ⟨rows[r], h.row r rows[r] boxes[r] (List.getElem?_eq_getElem hr')
    (List.getElem?_eq_getElem hr)⟩

theorem RowServed.exists_serves {count probe row : Nat} {all bs : List Box} {cells : List Extent}
    (h : RowServed first count probe width all row cells bs) {b : Box} (hb : b ∈ bs) :
    ∃ cell, b.Serves first count probe row cell := by
  obtain ⟨i, hi, rfl⟩ := List.mem_iff_getElem.mp hb
  have hlength := h.serves.length_eq
  exact ⟨_, h.serves.get (by omega) hi⟩

/-- A box of a consistent grid serves some cell and lies in the width. -/
theorem ConsistentGrid.exists_serves (h : ConsistentGrid first rows boxes width) {b : Box}
    (hb : b ∈ boxes.flatten) :
    ∃ (r : Nat) (cell : Extent), b.Serves first rows.length (probeWidth rows) r cell ∧
      b.col + b.colspan ≤ width := by
  obtain ⟨bs, hbs, hmem⟩ := List.mem_flatten.mp hb
  obtain ⟨r, hr, rfl⟩ := List.mem_iff_getElem.mp hbs
  obtain ⟨cells, hrow⟩ := h.rowServed hr
  obtain ⟨cell, hserves⟩ := hrow.exists_serves hmem
  exact ⟨r, cell, hserves, hrow.in_width b hmem⟩

/-- The boxes of a row begin in that row. -/
theorem ConsistentGrid.row_eq (h : ConsistentGrid first rows boxes width) {r : Nat}
    (hr : r < boxes.length) {b : Box} (hb : b ∈ boxes[r]) : b.row = first + r := by
  obtain ⟨cells, hrow⟩ := h.rowServed hr
  obtain ⟨cell, hserves⟩ := hrow.exists_serves hb
  exact hserves.row_eq

theorem ConsistentGrid.wellPlaced (h : ConsistentGrid first rows boxes width) :
    WellPlaced first (first + rows.length) width boxes.flatten where
  first_le b hb := by
    obtain ⟨r, cell, hserves, -⟩ := h.exists_serves hb
    have hrow := hserves.row_eq
    omega
  le_last b hb := by
    obtain ⟨r, cell, hserves, -⟩ := h.exists_serves hb
    exact hserves.in_group
  le_cols b hb := by
    obtain ⟨r, cell, -, hwidth⟩ := h.exists_serves hb
    exact hwidth
  rowspan_pos b hb := by
    obtain ⟨r, cell, hserves, -⟩ := h.exists_serves hb
    exact hserves.rowspan_pos
  colspan_pos b hb := by
    obtain ⟨r, cell, hserves, -⟩ := h.exists_serves hb
    exact hserves.colspan_pos
  disjoint := h.disjoint
  ordered := by
    refine List.pairwise_flatten.mpr ⟨fun bs hbs => ?_, ?_⟩
    · obtain ⟨r, hr, rfl⟩ := List.mem_iff_getElem.mp hbs
      obtain ⟨cells, hrow⟩ := h.rowServed hr
      refine hrow.increasing.imp_of_mem fun {a b} ha hb hab => .inr ⟨?_, hab⟩
      rw [h.row_eq hr ha, h.row_eq hr hb]
    · refine List.pairwise_iff_getElem.mpr fun i j hi hj hij a ha b hb => .inl ?_
      rw [h.row_eq hi ha, h.row_eq hj hb]
      omega

end

/-- The boxes of a group of rows are well placed, whatever its cells ask for. -/
theorem wellPlaced_place (first : Nat) (rows : List (List Extent)) :
    WellPlaced first (first + rows.length) (place first rows).2 (place first rows).1.flatten := by
  have hpos : ∀ cells ∈ rows.map (·.map Extent.raised), ∀ e ∈ cells, e.Positive := by
    intro cells hcells e he
    obtain ⟨cells', -, rfl⟩ := List.mem_map.mp hcells
    obtain ⟨e', -, rfl⟩ := List.mem_map.mp he
    exact e'.positive_raised
  have h := (place_consistent first _ hpos).wellPlaced
  rwa [place_raised, List.length_map] at h

/-! ## Boxes in rows of nodes -/

namespace Node

/-- The boxes of the cells of a row. -/
def boxes (row : Node) : List Box :=
  row.cells.map (·.box)

theorem forall₂_length_placeRows (first count probe : Nat) (rows : List (List Extent)) :
    ∀ (row : Nat) (o : Occupancy),
      List.Forall₂ (fun cells bs => bs.length = cells.length) rows
        (Bracemark.placeRows first count probe row o rows).1 := by
  induction rows with
  | nil => exact fun _ _ => .nil
  | cons cells rows ih =>
    intro row o
    rw [Bracemark.placeRows]
    exact .cons (placeRow_boxes first count probe row cells 0 o).1 (ih _ _)

/-- Rows that are given as many boxes as they have cells have those boxes. -/
theorem map_boxes_zipWith {rows : List Node} {boxes : List (List Box)}
    (h : List.Forall₂ (fun row bs => bs.length = row.cells.length) rows boxes) :
    (rows.zipWith (fun row bs => row.withChildren (withBoxes row.children bs)) boxes).map
      Node.boxes = boxes := by
  induction h with
  | nil => rfl
  | @cons row bs rows boxes hlength _ ih =>
    rw [List.zipWith_cons_cons, List.map_cons, ih]
    exact congrArg (· :: boxes) (boxes_withBoxes row.children bs hlength)

/-- The placed rows have the boxes that placing gives for what their cells ask for. -/
theorem map_boxes_placeRows (first : Nat) (rows : List Node) :
    (placeRows first rows).1.map Node.boxes =
      (place first (rows.map fun row => row.cells.map (·.asked))).1 := by
  refine map_boxes_zipWith ?_
  have h := forall₂_length_placeRows first (rows.map fun row => row.cells.map (·.asked)).length
    (probeWidth (rows.map fun row => row.cells.map (·.asked)))
    (rows.map fun row => row.cells.map (·.asked)) 0
    (.free (rows.map fun row => row.cells.map (·.asked)).length)
  rw [List.forall₂_map_left_iff] at h
  simpa only [List.length_map] using h

/-- **Placing the cells of a group of rows gives a consistent grid**, whatever rows and columns they
ask for. The grid is that of the boxes that the cells have afterwards, and the rows are the same but
for these boxes. -/
theorem placeRows_consistent (first : Nat) (rows : List Node)
    (hpos : ∀ row ∈ rows, ∀ cell ∈ row.cells, cell.asked.Positive) :
    ConsistentGrid first (rows.map fun row => row.cells.map (·.asked))
        ((placeRows first rows).1.map Node.boxes) (placeRows first rows).2 ∧
      (placeRows first rows).1.map unplacedRow = rows.map unplacedRow := by
  have hasked : ∀ cells ∈ rows.map fun row => row.cells.map (·.asked),
      ∀ e ∈ cells, e.Positive := by
    intro cells hcells e he
    obtain ⟨row, hrow, rfl⟩ := List.mem_map.mp hcells
    obtain ⟨cell, hcell, rfl⟩ := List.mem_map.mp he
    exact hpos row hrow cell hcell
  refine ⟨?_, map_unplacedRow_placeRows first rows⟩
  rw [map_boxes_placeRows]
  exact place_consistent first _ hasked

/-- In two rows, a cell that reaches down stops a wide one below it. -/
theorem placeRows_consistent_overhang :
    let cell (rows cols : Nat) : Node := leaf ⟨0, 1⟩ (.cell (.ofExtent rows cols .empty))
    let row (cells : List Node) : Node := branch ⟨0, 1⟩ .row cells
    let rows := [row [cell 1 1, cell 2 9, cell 7 1], row [cell 3 4]]
    (∀ row ∈ rows, ∀ cell ∈ row.cells, cell.asked.Positive) ∧
      (placeRows 5 rows).1.map Node.boxes =
        [[⟨5, 0, 1, 1⟩, ⟨5, 1, 2, 2⟩, ⟨5, 3, 2, 1⟩], [⟨6, 0, 1, 1⟩]] ∧
      ConsistentGrid 5 [[⟨1, 1⟩, ⟨2, 9⟩, ⟨7, 1⟩], [⟨3, 4⟩]]
        [[⟨5, 0, 1, 1⟩, ⟨5, 1, 2, 2⟩, ⟨5, 3, 2, 1⟩], [⟨6, 0, 1, 1⟩]] 4 := by
  intro cell row rows
  have hpos : ∀ row ∈ rows, ∀ cell ∈ row.cells, cell.asked.Positive := by
    simp only [Extent.Positive]
    decide
  have hboxes : (placeRows 5 rows).1.map Node.boxes =
      [[⟨5, 0, 1, 1⟩, ⟨5, 1, 2, 2⟩, ⟨5, 3, 2, 1⟩], [⟨6, 0, 1, 1⟩]] := by
    decide +kernel
  have hwidth : (placeRows 5 rows).2 = 4 := by
    decide +kernel
  have h := (placeRows_consistent 5 rows hpos).1
  rw [hboxes, hwidth] at h
  exact ⟨hpos, hboxes, h⟩

end Node

/-! ## All groups -/

namespace Block

/-- The cells of some groups in the order of the source. -/
def allCells (blocks : List Block) : List Cell :=
  (allRows blocks).flatMap Node.cells

theorem allCells_eq_flatMap (blocks : List Block) :
    allCells blocks = blocks.flatMap fun b => b.rows.flatMap Node.cells :=
  List.flatMap_assoc

theorem length_allCells_cons (b : Block) (bs : List Block) :
    (allCells (b :: bs)).length = (b.rows.flatMap Node.cells).length + (allCells bs).length := by
  rw [allCells, allRows_cons, List.flatMap_append, List.length_append, allCells]

theorem wellPlaced_placeAll (blocks : List Block) :
    ∀ first : Nat, WellPlaced first (placeAll first blocks).2.1 (placeAll first blocks).2.2
      ((allRows (placeAll first blocks).1).flatMap Node.boxes) := by
  induction blocks with
  | nil => exact fun first => .nil first first 0
  | cons b bs ih =>
    intro first
    have hgroup := wellPlaced_place first (b.rows.map fun row => row.cells.map (·.asked))
    rw [List.length_map, ← Node.map_boxes_placeRows, ← List.flatMap_def] at hgroup
    have hlast := count_placeAll bs (first + b.rows.length)
    have h := hgroup.append (ih (first + b.rows.length)) (by omega) (by omega)
    rwa [← List.flatMap_append] at h

end Block

/-! ## The table that has been laid out -/

/-- The groups in the sections of a table, from first to last. -/
def Node.tableGroups (n : Node) : List Node :=
  (n.children.filter isTableSection).flatMap children

namespace Table

theorem groups_of_isSection {role : Role} {groups : List Block} {ns : List Node}
    (h : IsSection role groups ns) :
    (ns.filter Node.isTableSection).flatMap Node.children = groups.map Block.node := by
  cases h with
  | absent => rfl
  | present _ hkind hchildren =>
    rw [List.filter_cons_of_pos (by simp [Node.isTableSection, hkind]), List.filter_nil,
      List.flatMap_singleton, hchildren]

/-- The table with its size and its grid. -/
def laidOut (t : Table) (items : List Node) : Table :=
  let (_, rows, cols) := Block.placeAll 0 (Block.ofItems items).2
  { t with
    rows, cols, grid := Block.writeFormats t.format (Block.placed items) (.blank rows cols) }

variable {t : Table} {span : Span} {items : List Node} {n : Node}

theorem kind_layout? (hn : t.layout? span items = some n) : n.kind = .table (t.laidOut items) := by
  simp only [layout?] at hn
  split at hn
  · cases hn
  · cases hn
    rfl

/-- The groups in the sections of a table are its groups of rows, sorted by role. -/
theorem tableGroups_perm (hn : t.layout? span items = some n) :
    n.tableGroups.Perm ((Block.placed items).map Block.node) := by
  obtain ⟨-, -, -, -, hchildren⟩ := layout?_eq_some hn
  obtain ⟨sorted, hsorted⟩ : ∃ sorted, sorted = Block.withRoles t (Block.placed items) := ⟨_, rfl⟩
  have hsection : ∀ role, ((Block.sectionOf role sorted).filter Node.isTableSection).flatMap
      Node.children = (((sorted.filter (·.1 == role)).map (·.2)).map Block.node) :=
    fun role => groups_of_isSection (Block.isSection_sectionOf role sorted)
  have hgroups : n.tableGroups = ((sorted.filter (·.1 == .head) ++ sorted.filter (·.1 == .body) ++
      sorted.filter (·.1 == .foot)).map (·.2)).map Block.node := by
    rw [Node.tableGroups, hchildren, ← hsorted, List.flatMap_cons, List.flatMap_cons,
      List.flatMap_singleton]
    simp only [List.filter_append, List.flatMap_append, hsection, List.map_append,
      filter_isTableSection_of_isCaption (isCaption_captionOf items), List.nil_append,
      List.append_assoc]
  rw [hgroups, ← Block.map_withRoles t (Block.placed items), ← hsorted]
  exact (Block.perm_byRole sorted).map Block.node

/-- The rows of a table are those of its groups, section by section. -/
theorem tableRows_perm_placed (hn : t.layout? span items = some n) :
    n.tableRows.Perm (Block.allRows (Block.placed items)) := by
  have hgroups := (tableGroups_perm hn).flatMap_right Node.children
  rwa [List.flatMap_map] at hgroups

/-- The boxes of a table that has been laid out are well placed in its rows and columns. -/
theorem wellPlaced_laidOut (t : Table) (items : List Node) :
    WellPlaced 0 (t.laidOut items).rows (t.laidOut items).cols
      ((Block.allCells (Block.placed items)).map (·.box)) := by
  rw [Block.allCells, List.map_flatMap]
  exact Block.wellPlaced_placeAll _ 0

end Table

end Bracemark
