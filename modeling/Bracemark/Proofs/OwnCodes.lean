/-
A cell's own codes win.

At its upper and left edge and inside, a cell is the last one to speak about the place where its
format is read, so what it says there stands (`WellPlaced.lastGiven_top`,
`WellPlaced.lastGiven_left`, `WellPlaced.lastGiven_text`). The others that speak about the place are
cells above or to the left of it, which come earlier; a later one would overlap it.

At its lower and right edge it is the last one but for a neighbour: the cell below, which always
comes later, and the cell to the right if that begins in the same row. A cell to the right that
reaches down from a row above has spoken before (`WellPlaced.lastGiven_bottom`,
`WellPlaced.lastGiven_right`).
-/
import Bracemark.Proofs.LastWriter

set_option autoImplicit false

namespace Bracemark

/-! ## What a cell says along its box -/

section

variable {α : Type} {p q : Prop} [Decidable p] [Decidable q]

theorem lastGiven_pair_left (code code' : Option α) (hp : p) (hq : ¬q) :
    lastGiven [if p then code else none, if q then code' else none] = code := by
  rw [if_pos hp, if_neg hq, lastGiven_cons, lastGiven_singleton, Option.none_or]

theorem lastGiven_pair_right (code code' : Option α) (hp : ¬p) (hq : q) :
    lastGiven [if p then code else none, if q then code' else none] = code' := by
  rw [if_neg hp, if_pos hq, lastGiven_cons, lastGiven_singleton, Option.or_none]

theorem lastGiven_pair_eq_none {code code' : Option α} (hp : p → code = none)
    (hq : q → code' = none) :
    lastGiven [if p then code else none, if q then code' else none] = none := by
  rw [ite_eq_right_iff.mpr hp, ite_eq_right_iff.mpr hq]
  rfl

end

namespace CellCodes

variable {codes : CellCodes} {box : Box} {line row col : Nat}

theorem strokes_top (hcol : box.col ≤ col ∧ col < box.col + box.colspan) (hspan : 1 ≤ box.rowspan) :
    (codes.strokes box).horizontal box.row col = codes.edge 0 :=
  (if_pos hcol).trans (lastGiven_pair_left _ _ rfl (by omega))

theorem strokes_bottom (hcol : box.col ≤ col ∧ col < box.col + box.colspan)
    (hspan : 1 ≤ box.rowspan) :
    (codes.strokes box).horizontal (box.row + box.rowspan) col = codes.edge 2 :=
  (if_pos hcol).trans (lastGiven_pair_right _ _ (by omega) rfl)

theorem strokes_left (hrow : box.row ≤ row ∧ row < box.row + box.rowspan)
    (hspan : 1 ≤ box.colspan) :
    (codes.strokes box).vertical row box.col = codes.edge 3 :=
  (if_pos hrow).trans (lastGiven_pair_left _ _ rfl (by omega))

theorem strokes_right (hrow : box.row ≤ row ∧ row < box.row + box.rowspan)
    (hspan : 1 ≤ box.colspan) :
    (codes.strokes box).vertical row (box.col + box.colspan) = codes.edge 1 :=
  (if_pos hrow).trans (lastGiven_pair_right _ _ (by omega) rfl)

theorem strokes_inside (h : box.Has row col) : (codes.strokes box).align row col = codes.text :=
  (if_pos h.1).trans (if_pos h.2)

/-- A cell says nothing about a line that it does not touch. -/
theorem strokes_horizontal_eq_none
    (htop : box.col ≤ col ∧ col < box.col + box.colspan → line = box.row → codes.edge 0 = none)
    (hbottom : box.col ≤ col ∧ col < box.col + box.colspan → line = box.row + box.rowspan →
      codes.edge 2 = none) : (codes.strokes box).horizontal line col = none :=
  ite_eq_right_iff.mpr fun hcol => lastGiven_pair_eq_none (htop hcol) (hbottom hcol)

theorem strokes_vertical_eq_none
    (hleft : box.row ≤ row ∧ row < box.row + box.rowspan → line = box.col → codes.edge 3 = none)
    (hright : box.row ≤ row ∧ row < box.row + box.rowspan → line = box.col + box.colspan →
      codes.edge 1 = none) : (codes.strokes box).vertical row line = none :=
  ite_eq_right_iff.mpr fun hrow => lastGiven_pair_eq_none (hleft hrow) (hright hrow)

theorem strokes_align_eq_none (h : ¬box.Has row col) :
    (codes.strokes box).align row col = none := by
  by_cases hrow : box.row ≤ row ∧ row < box.row + box.rowspan
  · exact (if_pos hrow).trans (if_neg fun hcol => h ⟨hrow, hcol⟩)
  · exact if_neg hrow

end CellCodes

/-! ## The last cell to speak -/

/-- The last one that gives a code has its way. -/
theorem lastGiven_of_split {α β : Type} {code : β → Option α} {before after : List β} {x : β}
    {a : α} (h : code x = some a) (hafter : ∀ y ∈ after, code y = none) :
    lastGiven ((before ++ x :: after).map code) = some a := by
  have hnone : lastGiven (after.map code) = none := by
    refine lastGiven_eq_none fun c hc => ?_
    obtain ⟨y, hy, rfl⟩ := List.mem_map.mp hc
    exact hafter y hy
  rw [List.map_append, List.map_cons, lastGiven_append, lastGiven_cons, hnone, h]
  rfl

/-- What is known of the cells that come after a cell: they do not overlap it, and they begin in a
row below it or further right in its row. -/
theorem WellPlaced.after {first last cols : Nat} {before after : List Cell} {c d : Cell}
    (h : WellPlaced first last cols ((before ++ c :: after).map (·.box))) (hd : d ∈ after) :
    c.box.Disjoint d.box ∧ c.box.Before d.box := by
  have hmem : d.box ∈ after.map (·.box) := List.mem_map_of_mem hd
  have hdisjoint := h.disjoint
  have hordered := h.ordered
  rw [List.map_append, List.map_cons] at hdisjoint hordered
  exact ⟨(List.pairwise_cons.mp (List.pairwise_append.mp hdisjoint).2.1).1 _ hmem,
    (List.pairwise_cons.mp (List.pairwise_append.mp hordered).2.1).1 _ hmem⟩

section

variable {first last cols : Nat} {cells : List Cell} {c : Cell}

theorem WellPlaced.spans_pos (h : WellPlaced first last cols (cells.map (·.box)))
    (hc : c ∈ cells) : 1 ≤ c.box.rowspan ∧ 1 ≤ c.box.colspan :=
  ⟨h.rowspan_pos _ (List.mem_map_of_mem hc), h.colspan_pos _ (List.mem_map_of_mem hc)⟩

/-- Of two cells that cover a position, neither comes after the other. -/
theorem WellPlaced.not_has_after {before after : List Cell} {d : Cell}
    (h : WellPlaced first last cols ((before ++ c :: after).map (·.box))) (hd : d ∈ after)
    {row col : Nat} (hc : c.box.Has row col) : ¬d.box.Has row col :=
  fun hdc => (h.after hd).1 row col ⟨hc, hdc⟩

/-- The upper edge of a cell shows its own code, in all of its columns. -/
theorem WellPlaced.lastGiven_top (h : WellPlaced first last cols (cells.map (·.box)))
    (hc : c ∈ cells) {col : Nat} (hcol : c.box.col ≤ col ∧ col < c.box.col + c.box.colspan)
    {b : Border} (hb : c.codes.edge 0 = some b) :
    lastGiven (cells.map fun d => (d.codes.strokes d.box).horizontal c.box.row col) = some b := by
  obtain ⟨hrowspan, -⟩ := h.spans_pos hc
  obtain ⟨before, after, rfl⟩ := List.append_of_mem hc
  refine lastGiven_of_split ((CellCodes.strokes_top hcol hrowspan).trans hb) fun d hd => ?_
  obtain ⟨hrowspan', -⟩ := h.spans_pos (List.mem_append_right _ (List.mem_cons_of_mem _ hd))
  refine CellCodes.strokes_horizontal_eq_none (fun hcol' hline => ?_) fun hcol' hline => ?_
  · -- Both cells would cover the place below the edge.
    exact absurd ⟨⟨by omega, by omega⟩, hcol'⟩
      (h.not_has_after hd ⟨⟨Nat.le_refl _, by omega⟩, hcol⟩)
  · -- The other cell would begin above the edge.
    have hbefore := (h.after hd).2
    rw [Box.Before] at hbefore
    omega

/-- The left edge of a cell shows its own code, in the first of its rows. -/
theorem WellPlaced.lastGiven_left (h : WellPlaced first last cols (cells.map (·.box)))
    (hc : c ∈ cells) {b : Border} (hb : c.codes.edge 3 = some b) :
    lastGiven (cells.map fun d => (d.codes.strokes d.box).vertical c.box.row c.box.col) =
      some b := by
  obtain ⟨hrowspan, hcolspan⟩ := h.spans_pos hc
  obtain ⟨before, after, rfl⟩ := List.append_of_mem hc
  have hrow : c.box.row ≤ c.box.row ∧ c.box.row < c.box.row + c.box.rowspan := by omega
  refine lastGiven_of_split ((CellCodes.strokes_left hrow hcolspan).trans hb) fun d hd => ?_
  obtain ⟨-, hcolspan'⟩ := h.spans_pos (List.mem_append_right _ (List.mem_cons_of_mem _ hd))
  refine CellCodes.strokes_vertical_eq_none (fun hrow' hline => ?_) fun hrow' hline => ?_
  · have hfirst : c.box.Has c.box.row c.box.col := ⟨hrow, by omega, by omega⟩
    exact absurd ⟨hrow', by omega, by omega⟩ (h.not_has_after hd hfirst)
  · -- The other cell would begin to the left of the edge, in this row or above it.
    have hbefore := (h.after hd).2
    rw [Box.Before] at hbefore
    omega

/-- The inside of a cell shows its own code. -/
theorem WellPlaced.lastGiven_text (h : WellPlaced first last cols (cells.map (·.box)))
    (hc : c ∈ cells) {row col : Nat} (hin : c.box.Has row col) {a : Align}
    (ha : c.codes.text = some a) :
    lastGiven (cells.map fun d => (d.codes.strokes d.box).align row col) = some a := by
  obtain ⟨before, after, rfl⟩ := List.append_of_mem hc
  exact lastGiven_of_split ((CellCodes.strokes_inside hin).trans ha) fun d hd =>
    CellCodes.strokes_align_eq_none (h.not_has_after hd hin)

/-- The lower edge of a cell shows its own code in a column where the cell below gives none. -/
theorem WellPlaced.lastGiven_bottom (h : WellPlaced first last cols (cells.map (·.box)))
    (hc : c ∈ cells) {col : Nat} (hcol : c.box.col ≤ col ∧ col < c.box.col + c.box.colspan)
    {b : Border} (hb : c.codes.edge 2 = some b)
    (hbelow : ∀ d ∈ cells, d.box.Has (c.box.row + c.box.rowspan) col → d.codes.edge 0 = none) :
    lastGiven (cells.map fun d =>
      (d.codes.strokes d.box).horizontal (c.box.row + c.box.rowspan) col) = some b := by
  obtain ⟨hrowspan, -⟩ := h.spans_pos hc
  obtain ⟨before, after, rfl⟩ := List.append_of_mem hc
  refine lastGiven_of_split ((CellCodes.strokes_bottom hcol hrowspan).trans hb) fun d hd => ?_
  have hmem : d ∈ before ++ c :: after := List.mem_append_right _ (List.mem_cons_of_mem _ hd)
  obtain ⟨hrowspan', -⟩ := h.spans_pos hmem
  refine CellCodes.strokes_horizontal_eq_none (fun hcol' hline => ?_) fun hcol' hline => ?_
  · exact hbelow d hmem ⟨⟨by omega, by omega⟩, hcol'⟩
  · -- Both cells would cover the place above the edge.
    have habove : c.box.Has (c.box.row + c.box.rowspan - 1) col := ⟨⟨by omega, by omega⟩, hcol⟩
    exact absurd ⟨⟨by omega, by omega⟩, hcol'⟩ (h.not_has_after hd habove)

/-- The right edge of a cell shows its own code, in the first of its rows, unless a cell that
begins there in the same row gives one. -/
theorem WellPlaced.lastGiven_right (h : WellPlaced first last cols (cells.map (·.box)))
    (hc : c ∈ cells) {b : Border} (hb : c.codes.edge 1 = some b)
    (hnext : ∀ d ∈ cells, d.box.row = c.box.row → d.box.col = c.box.col + c.box.colspan →
      d.codes.edge 3 = none) :
    lastGiven (cells.map fun d =>
      (d.codes.strokes d.box).vertical c.box.row (c.box.col + c.box.colspan)) = some b := by
  obtain ⟨hrowspan, hcolspan⟩ := h.spans_pos hc
  obtain ⟨before, after, rfl⟩ := List.append_of_mem hc
  have hrow : c.box.row ≤ c.box.row ∧ c.box.row < c.box.row + c.box.rowspan := by omega
  refine lastGiven_of_split ((CellCodes.strokes_right hrow hcolspan).trans hb) fun d hd => ?_
  have hmem : d ∈ before ++ c :: after := List.mem_append_right _ (List.mem_cons_of_mem _ hd)
  obtain ⟨-, hcolspan'⟩ := h.spans_pos hmem
  refine CellCodes.strokes_vertical_eq_none (fun hrow' hline => ?_) fun hrow' hline => ?_
  · -- A cell that comes later and reaches into this row begins in it.
    have hbefore := (h.after hd).2
    rw [Box.Before] at hbefore
    exact hnext d hmem (by omega) hline.symm
  · have hlast : c.box.Has c.box.row (c.box.col + c.box.colspan - 1) :=
      ⟨hrow, by omega, by omega⟩
    exact absurd ⟨hrow', by omega, by omega⟩ (h.not_has_after hd hlast)

/-- The cell that covers the position below a cell begins there. -/
theorem WellPlaced.row_eq_of_below (h : WellPlaced first last cols (cells.map (·.box)))
    {d : Cell} (hc : c ∈ cells) (hd : d ∈ cells) {col : Nat}
    (hcol : c.box.col ≤ col ∧ col < c.box.col + c.box.colspan)
    (hbelow : d.box.Has (c.box.row + c.box.rowspan) col) :
    d.box.row = c.box.row + c.box.rowspan := by
  obtain ⟨hrowspan, -⟩ := h.spans_pos hc
  by_contra hne
  obtain ⟨⟨hfirst, hlast⟩, hcol'⟩ := hbelow
  -- Otherwise it would cover the position above it too, which the cell covers.
  have habove : c.box.Has (c.box.row + c.box.rowspan - 1) col := ⟨⟨by omega, by omega⟩, hcol⟩
  have hsame := eq_of_has h.disjoint (List.mem_map_of_mem hc) (List.mem_map_of_mem hd) habove
    ⟨⟨by omega, by omega⟩, hcol'⟩
  rw [← hsame] at hlast
  omega

end

/-! ## Cells of a table -/

/-- What a cell of a table shows of its own codes, where `row` are the cells of its row and `cells`
are those of the table: those above, to the left and inside; and those below and to the right
unless a neighbour there gives one, which is shown then. -/
structure Cell.KeepsCodes (c : Cell) (row cells : List Cell) (shown : CellFormat) : Prop where
  top (b : Border) : c.codes.edge 0 = some b → shown.top = some b
  left (b : Border) : c.codes.edge 3 = some b → shown.left = some b
  align (a : Align) : c.codes.text = some a → shown.align = some a
  bottom (b : Border) : c.codes.edge 2 = some b →
    (∀ d ∈ cells, d.box.Has (c.box.row + c.box.rowspan) c.box.col → d.codes.edge 0 = none) →
    shown.bottom = some b
  right (b : Border) : c.codes.edge 1 = some b →
    (∀ d ∈ row, d.box.col = c.box.col + c.box.colspan → d.codes.edge 3 = none) →
    shown.right = some b
  below (d : Cell) (b : Border) : d ∈ cells →
    d.box.Has (c.box.row + c.box.rowspan) c.box.col → d.codes.edge 0 = some b →
    shown.bottom = some b
  next (d : Cell) (b : Border) : d ∈ row → d.box.col = c.box.col + c.box.colspan →
    d.codes.edge 3 = some b → shown.right = some b

section

variable {g : Grid} {rows cols line row col : Nat} {format : FormatSpec} {groups : List Block}

/-- Cells speak last. -/
theorem Grid.ShowsLast.horizontal_eq (h : g.ShowsLast rows cols format groups)
    (hline : line ≤ rows) (hcol : col < cols) {b : Border}
    (hb : lastGiven ((Block.allCells groups).map fun d =>
      (d.codes.strokes d.box).horizontal line col) = some b) : g.horizontal? line col = some b := by
  rw [h.horizontal, if_pos ⟨hline, hcol⟩, Block.lastGiven_horizontalCodes, hb]
  rfl

theorem Grid.ShowsLast.vertical_eq (h : g.ShowsLast rows cols format groups)
    (hrow : row < rows) (hline : line ≤ cols) {b : Border}
    (hb : lastGiven ((Block.allCells groups).map fun d =>
      (d.codes.strokes d.box).vertical row line) = some b) : g.vertical? row line = some b := by
  rw [h.vertical, if_pos ⟨hrow, hline⟩, Block.lastGiven_verticalCodes, hb]
  rfl

theorem Grid.ShowsLast.align_eq (h : g.ShowsLast rows cols format groups)
    (hrow : row < rows) (hcol : col < cols) {a : Align}
    (ha : lastGiven ((Block.allCells groups).map fun d =>
      (d.codes.strokes d.box).align row col) = some a) : g.align? row col = some a := by
  rw [h.align, if_pos ⟨hrow, hcol⟩, Block.lastGiven_alignCodes, ha]
  rfl

theorem keepsCodes_of_wellPlaced {first : Nat} {c : Cell} {inRow cells : List Cell}
    (h : g.ShowsLast rows cols format groups)
    (hp : WellPlaced first rows cols ((Block.allCells groups).map (·.box)))
    (hcells : ∀ d, d ∈ cells ↔ d ∈ Block.allCells groups)
    (hrow : ∀ d, d ∈ inRow ↔ d ∈ Block.allCells groups ∧ d.box.row = c.box.row)
    (hc : c ∈ Block.allCells groups) : c.KeepsCodes inRow cells (g.cellFormat c.box) := by
  obtain ⟨hrowspan, hcolspan⟩ := hp.spans_pos hc
  have hrows := hp.le_last _ (List.mem_map_of_mem hc)
  have hcols := hp.le_cols _ (List.mem_map_of_mem hc)
  have hfirst : c.box.col ≤ c.box.col ∧ c.box.col < c.box.col + c.box.colspan := by omega
  refine ⟨fun b hb => ?_, fun b hb => ?_, fun a ha => ?_, fun b hb hbelow => ?_,
    fun b hb hnext => ?_, fun d b hd hbelow hb => ?_, fun d b hd hnext hb => ?_⟩
  · exact h.horizontal_eq (by omega) (by omega) (hp.lastGiven_top hc hfirst hb)
  · exact h.vertical_eq (by omega) (by omega) (hp.lastGiven_left hc hb)
  · exact h.align_eq (by omega) (by omega)
      (hp.lastGiven_text hc ⟨⟨by omega, by omega⟩, by omega, by omega⟩ ha)
  · exact h.horizontal_eq hrows (by omega) (hp.lastGiven_bottom hc hfirst hb
      fun d hd => hbelow d ((hcells d).mpr hd))
  · exact h.vertical_eq (by omega) hcols (hp.lastGiven_right hc hb
      fun d hd hsame => hnext d ((hrow d).mpr ⟨hd, hsame⟩))
  · have hbegins := hp.row_eq_of_below hc ((hcells d).mp hd) hfirst hbelow
    have htop := hp.lastGiven_top ((hcells d).mp hd) hbelow.2 hb
    rw [hbegins] at htop
    exact h.horizontal_eq hrows (by omega) htop
  · obtain ⟨hd', hsame⟩ := (hrow d).mp hd
    have hleft := hp.lastGiven_left hd' hb
    rw [hsame, hnext] at hleft
    exact h.vertical_eq (by omega) hcols hleft

end

namespace Block

/-- The cells of a row are the cells of the table that have its number. -/
theorem mem_cells_iff {items : List Node} {row : Node} (hrow : row ∈ allRows (placed items))
    {c : Cell} (hc : c ∈ row.cells) (d : Cell) :
    d ∈ row.cells ↔ d ∈ allCells (placed items) ∧ d.box.row = c.box.row := by
  obtain ⟨i, hi⟩ := List.mem_iff_getElem?.mp hrow
  have hnumber := numbered_placeAll _ 0 i row hi
  constructor
  · intro hd
    exact ⟨List.mem_flatMap.mpr ⟨row, hrow, hd⟩, (hnumber d hd).trans (hnumber c hc).symm⟩
  · rintro ⟨hd, hsame⟩
    obtain ⟨row', hrow', hd'⟩ := List.mem_flatMap.mp hd
    obtain ⟨j, hj⟩ := List.mem_iff_getElem?.mp hrow'
    have hnumber' := numbered_placeAll _ 0 j row' hj d hd'
    have hindex : i = j := by
      have := hnumber c hc
      omega
    rw [hindex] at hi
    rw [Option.some_inj.mp (hi.symm.trans hj)]
    exact hd'

end Block

namespace Table

variable {t : Table} {span : Span} {items : List Node} {n : Node}

/-- **A cell's own codes win**, whatever the table, its groups and all other cells specify: above,
to the left and inside in any case, and below and to the right unless the neighbour there has a
code for the edge that it shares. -/
theorem layout?_keepsCodes (hn : t.layout? span items = some n) :
    ∃ laid : Table, n.kind = .table laid ∧ ∀ row ∈ n.tableRows, ∀ c ∈ row.cells,
      c.KeepsCodes row.cells (n.tableRows.flatMap Node.cells) (laid.grid.cellFormat c.box) := by
  have hperm := tableRows_perm_placed hn
  refine ⟨t.laidOut items, kind_layout? hn, fun row hrow c hc => ?_⟩
  have hrow' : row ∈ Block.allRows (Block.placed items) := hperm.mem_iff.mp hrow
  exact keepsCodes_of_wellPlaced
    (Block.showsLast_writeFormats t.format (Block.placed items) _ _)
    (wellPlaced_laidOut t items)
    (fun d => (hperm.flatMap_right Node.cells).mem_iff)
    (Block.mem_cells_iff hrow' hc)
    (List.mem_flatMap.mpr ⟨row, hrow', hc⟩)

theorem layout?_keepsCodes_ruled :
    ∃ n, ruledTable.layout? ⟨0, 2⟩ ruledItems = some n ∧
      ∃ laid : Table, n.kind = .table laid ∧ ∀ row ∈ n.tableRows, ∀ c ∈ row.cells,
        c.KeepsCodes row.cells (n.tableRows.flatMap Node.cells) (laid.grid.cellFormat c.box) := by
  have hsome : (ruledTable.layout? ⟨0, 2⟩ ruledItems).isSome = true := by decide
  obtain ⟨n, hn⟩ := Option.isSome_iff_exists.mp hsome
  exact ⟨n, hn, layout?_keepsCodes hn⟩

-- The right edge of the cell that reaches down is its own: its neighbour in the second row has
-- another code for it, but begins below the row where the edge is read.
example :
    (ruledTable.laidOut ruledItems).grid.cellFormat ⟨0, 0, 2, 1⟩ =
      ⟨some .none, some .bold, some .double, none, some .center⟩ := by
  decide

end Table

end Bracemark
