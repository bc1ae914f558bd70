/-
Placing the cells of a group of rows.

A cell is placed in the first free column of its row and its width is cut to the
free columns that follow in that one row, although its box reaches into the rows
below. That boxes never overlap all the same rests on the occupancy being closed
upwards: every box that has been placed begins in the row at hand or above it, so
a position that is covered in a lower row is covered in this row too
(`Placed.covered_above`).

`Placed` ties the occupancy to the list of boxes and carries what has been reached
so far through a row (`Placed.placeRow`) and through the rows
(`Placed.placeRows`). `place_consistent` reads the whole grid off it.
-/
import Mathlib
import Bracemark.Table.Placement

set_option autoImplicit false

namespace Bracemark

/-! ## Boxes -/

namespace Box

/-- The box covers a position. -/
def Has (b : Box) (row col : Nat) : Prop :=
  (b.row ≤ row ∧ row < b.row + b.rowspan) ∧ b.col ≤ col ∧ col < b.col + b.colspan

/-- The boxes cover no position in common. -/
def Disjoint (a b : Box) : Prop :=
  ∀ row col, ¬(a.Has row col ∧ b.Has row col)

theorem Disjoint.symm {a b : Box} (h : a.Disjoint b) : b.Disjoint a :=
  fun row col hab => h row col hab.symm

end Box

/-! ## Occupancy -/

namespace Occupancy

variable {o : Occupancy}

theorem isTaken_free (rows row col : Nat) : (free rows).isTaken row col = false := by
  simp only [free, isTaken, line, List.getD_eq_getElem?_getD, List.getElem?_replicate]
  split <;> simp

@[simp] theorem length_cover (o : Occupancy) (row col rowspan colspan : Nat) :
    (o.cover row col rowspan colspan).lines.length = o.lines.length := by
  simp [cover]

theorem getD_append_replicate (line : List Bool) (n c : Nat) :
    (line ++ List.replicate n false).getD c false = line.getD c false := by
  simp only [List.getD_eq_getElem?_getD, List.getElem?_append, List.getElem?_replicate]
  by_cases h : c < line.length
  · rw [if_pos h]
  · rw [if_neg h, List.getElem?_eq_none (by omega)]
    split <;> rfl

theorem getD_coverLine (col colspan c : Nat) (line : List Bool) :
    (coverLine col colspan line).getD c false =
      (line.getD c false || (decide (col ≤ c) && decide (c < col + colspan))) := by
  obtain ⟨padded, hpadded⟩ : ∃ padded,
      padded = line ++ List.replicate (col + colspan - line.length) false := ⟨_, rfl⟩
  have hlength : col + colspan ≤ padded.length := by
    rw [hpadded, List.length_append, List.length_replicate]
    omega
  rw [coverLine, ← getD_append_replicate line (col + colspan - line.length), ← hpadded]
  simp only [List.getD_eq_getElem?_getD, List.append_assoc]
  by_cases hleft : c < col
  · rw [List.getElem?_append_left (by rw [List.length_take]; omega), List.getElem?_take_of_lt hleft]
    simp [Nat.not_le.mpr hleft]
  · rw [List.getElem?_append_right (by rw [List.length_take]; omega), List.length_take,
      Nat.min_eq_left (by omega)]
    by_cases hright : c < col + colspan
    · rw [List.getElem?_append_left (by rw [List.length_replicate]; omega),
        List.getElem?_replicate, if_pos (by omega)]
      simp [Nat.not_lt.mp hleft, hright]
    · rw [List.getElem?_append_right (by rw [List.length_replicate]; omega),
        List.length_replicate, List.getElem?_drop]
      have hc : col + colspan + (c - col - colspan) = c := by omega
      simp [hc, hright]

/-- After a rectangle has been covered, a position is covered that was covered before
or that lies in it. -/
theorem isTaken_cover {row : Nat} (h : row < o.lines.length) (top col rowspan colspan c : Nat) :
    (o.cover top col rowspan colspan).isTaken row c = true ↔
      o.isTaken row c = true ∨
        ((top ≤ row ∧ row < top + rowspan) ∧ col ≤ c ∧ c < col + colspan) := by
  have hline : (o.cover top col rowspan colspan).line row =
      if top ≤ row ∧ row < top + rowspan then coverLine col colspan (o.line row)
      else o.line row := by
    simp only [cover, line, List.getD_eq_getElem?_getD, List.getElem?_mapIdx,
      List.getElem?_eq_getElem h, Option.map_some, Option.getD_some]
  rw [isTaken, hline, isTaken]
  split
  · next hrow =>
    rw [getD_coverLine]
    simp only [Bool.or_eq_true, Bool.and_eq_true, decide_eq_true_eq]
    tauto
  · next hrow => tauto

theorem le_firstFree (o : Occupancy) (row col : Nat) : col ≤ o.firstFree row col :=
  Nat.le_add_right _ _

theorem getD_drop_eq (o : Occupancy) (row col n : Nat) :
    ((o.line row).drop col).getD n false = o.isTaken row (col + n) := by
  simp only [isTaken, List.getD_eq_getElem?_getD, List.getElem?_drop]

/-- Behind the longest run of marks at the beginning of a list there is none. -/
theorem getD_length_takeWhile (l : List Bool) : l.getD (l.takeWhile id).length false = false := by
  induction l with
  | nil => rfl
  | cons b l ih =>
    cases b with
    | false => simp
    | true => simpa using ih

theorem getD_of_lt_length_takeWhile {l : List Bool} {n : Nat}
    (h : n < (l.takeWhile id).length) : l.getD n false = true := by
  induction l generalizing n with
  | nil => simp at h
  | cons b l ih =>
    cases b with
    | false => simp at h
    | true =>
      cases n with
      | zero => rfl
      | succ n => exact ih (by simpa using h)

/-- The first free column is free, and those before it are not. -/
theorem isTaken_firstFree (o : Occupancy) (row col : Nat) :
    o.isTaken row (o.firstFree row col) = false := by
  rw [firstFree, ← getD_drop_eq]
  exact getD_length_takeWhile _

theorem isTaken_of_lt_firstFree {row col c : Nat} (hc : col ≤ c) (h : c < o.firstFree row col) :
    o.isTaken row c = true := by
  obtain ⟨n, rfl⟩ := Nat.exists_eq_add_of_le hc
  rw [← getD_drop_eq]
  rw [firstFree] at h
  exact getD_of_lt_length_takeWhile (by omega)

/-- The columns of the free run are free. -/
theorem isTaken_of_freeRun {row col c : Nat} (hc : col ≤ c)
    (h : ∀ run, o.freeRun? row col = some run → c < col + run) : o.isTaken row c = false := by
  obtain ⟨n, rfl⟩ := Nat.exists_eq_add_of_le hc
  rw [← getD_drop_eq]
  rw [freeRun?] at h
  by_contra htaken
  rw [Bool.not_eq_false, List.getD_eq_getElem?_getD] at htaken
  obtain ⟨b, hb, hbt⟩ : ∃ b, ((o.line row).drop col)[n]? = some b ∧ b = true := by
    cases hb : ((o.line row).drop col)[n]? with
    | none => rw [hb] at htaken; cases htaken
    | some b => rw [hb] at htaken; exact ⟨b, rfl, htaken⟩
  obtain ⟨hn, hbn⟩ := List.getElem?_eq_some_iff.mp hb
  -- There is a mark in the line, so the run ends, and it ends there at the latest.
  cases hrun : ((o.line row).drop col).findIdx? id with
  | none =>
    have := List.findIdx?_eq_none_iff.mp hrun b (hbn ▸ List.getElem_mem hn)
    simp [hbt] at this
  | some run =>
    have hlt := h run hrun
    obtain ⟨_, _, hbefore⟩ := List.findIdx?_eq_some_iff_getElem.mp hrun
    exact hbefore n (by omega) (by rw [hbn, hbt]; rfl)

end Occupancy

/-! ## What has been placed -/

/-- What is known while the cells of row `row` of a group are placed: the occupancy
marks the boxes placed so far, none of them begins below this row, they do not
overlap, and the row is covered up to column `col`. -/
structure Placed (first count row col : Nat) (o : Occupancy) (boxes : List Box) : Prop where
  length_lines : o.lines.length = count
  isTaken_iff : ∀ r < count, ∀ c, o.isTaken r c = true ↔ ∃ b ∈ boxes, b.Has (first + r) c
  row_le : ∀ b ∈ boxes, b.row ≤ first + row
  disjoint : boxes.Pairwise Box.Disjoint
  filled : ∀ c < col, o.isTaken row c = true

/-- Nothing has been placed before the first row. -/
theorem Placed.free (first count : Nat) : Placed first count 0 0 (.free count) [] where
  length_lines := by simp [Occupancy.free]
  isTaken_iff r _ c := by simp [Occupancy.isTaken_free]
  row_le b hb := by simp at hb
  disjoint := .nil
  filled c hc := by omega

/-- The next row begins at its first column. -/
theorem Placed.nextRow {first count row col : Nat} {o : Occupancy} {boxes : List Box}
    (h : Placed first count row col o boxes) : Placed first count (row + 1) 0 o boxes where
  length_lines := h.length_lines
  isTaken_iff := h.isTaken_iff
  row_le b hb := (h.row_le b hb).trans (by omega)
  disjoint := h.disjoint
  filled c hc := by omega

/-- **Coverage is closed upwards.** What is covered in a lower row of the group is
covered in the row at hand: no box begins between the two. -/
theorem Placed.covered_above {first count row col : Nat} {o : Occupancy} {boxes : List Box}
    (h : Placed first count row col o boxes) {b : Box} (hb : b ∈ boxes) {r c : Nat}
    (hr : row ≤ r) (hrow : row < count) (hc : b.Has (first + r) c) : o.isTaken row c = true := by
  rw [h.isTaken_iff row hrow]
  obtain ⟨⟨-, hlast⟩, hcol⟩ := hc
  -- The box begins no lower than this row and reaches the lower one.
  exact ⟨b, hb, ⟨h.row_le b hb, by omega⟩, hcol⟩

/-! ## One cell -/

/-- What a cell of row `row` gets: it begins in that row, is as high as it asks for if
the group has so many rows left, is no wider than it asks for, and if it is wider than
one column it ends within the probe width. -/
structure Box.Serves (first count probe row : Nat) (cell : Extent) (b : Box) : Prop where
  row_eq : b.row = first + row
  rowspan_eq : b.rowspan = min cell.rows (count - row)
  rowspan_pos : 1 ≤ b.rowspan
  rowspan_le : b.rowspan ≤ cell.rows
  in_group : b.row + b.rowspan ≤ first + count
  colspan_pos : 1 ≤ b.colspan
  colspan_le : b.colspan ≤ cell.cols
  in_probe : 1 < b.colspan → b.col + b.colspan ≤ probe

/-- Above the lower bound, to clamp is to take the smaller of the number and the upper
bound. -/
theorem clamp_eq_min {low n : Nat} (h : low ≤ n) (high : Nat) :
    clamp low high n = min n high := by
  unfold clamp
  split
  · omega
  · split <;> omega

/-- The cell asks for a row and a column at least. -/
def Extent.Positive (e : Extent) : Prop :=
  1 ≤ e.rows ∧ 1 ≤ e.cols

section

variable {first count probe row col : Nat} {o : Occupancy} {cell : Extent}

/-- There is room for one column at least, because the column is free. -/
theorem Occupancy.room_pos (o : Occupancy) (probe row col : Nat) :
    1 ≤ o.room probe row (o.firstFree row col) := by
  rw [room]
  cases hrun : o.freeRun? row (o.firstFree row col) with
  | none => exact Nat.le_max_right _ _
  | some run =>
    have hpos : run ≠ 0 := by
      rintro rfl
      obtain ⟨hn, htaken, -⟩ := List.findIdx?_eq_some_iff_getElem.mp hrun
      have hfree := o.isTaken_firstFree row col
      rw [← Nat.add_zero (o.firstFree row col), ← getD_drop_eq,
        List.getD_eq_getElem _ _ hn] at hfree
      rw [hfree] at htaken
      cases htaken
    dsimp only
    omega

theorem Occupancy.room_le (o : Occupancy) (probe row col : Nat) :
    o.room probe row col ≤ max (probe - col) 1 := by
  rw [room]
  split
  · exact Nat.le_refl _
  · exact Nat.min_le_left _ _

theorem Occupancy.room_le_run {run : Nat} (h : o.freeRun? row col = some run) :
    o.room probe row col ≤ run := by
  rw [room, h]
  exact Nat.min_le_right _ _

theorem nextBox_row : (nextBox first count probe row col o cell).row = first + row := rfl

theorem nextBox_col :
    (nextBox first count probe row col o cell).col = o.firstFree row col := rfl

theorem nextBox_rowspan :
    (nextBox first count probe row col o cell).rowspan = clamp 1 (count - row) cell.rows := rfl

theorem nextBox_colspan :
    (nextBox first count probe row col o cell).colspan =
      clamp 1 (o.room probe row (o.firstFree row col)) cell.cols := rfl

theorem nextBox_serves (hrow : row < count) (hcell : cell.Positive) :
    (nextBox first count probe row col o cell).Serves first count probe row cell := by
  have hroom := o.room_pos probe row col
  have hcut := o.room_le probe row (o.firstFree row col)
  have hrows := clamp_eq_min hcell.1 (count - row)
  have hcols := clamp_eq_min hcell.2 (o.room probe row (o.firstFree row col))
  have hone := hcell.1
  have hone' := hcell.2
  refine ⟨rfl, hrows, ?_, ?_, ?_, ?_, ?_, ?_⟩
  · rw [nextBox_rowspan]
    omega
  · rw [nextBox_rowspan]
    omega
  · rw [nextBox_row, nextBox_rowspan]
    omega
  · rw [nextBox_colspan]
    omega
  · rw [nextBox_colspan]
    omega
  · rw [nextBox_col, nextBox_colspan]
    omega

/-- The box of the next cell covers nothing that is covered already. In the row at hand
its columns are free; in the rows below they are because coverage is closed upwards. -/
theorem Placed.nextBox_disjoint {boxes : List Box} (h : Placed first count row col o boxes)
    (hrow : row < count) {b : Box} (hb : b ∈ boxes) :
    b.Disjoint (nextBox first count probe row col o cell) := by
  rintro r c ⟨hbc, ⟨hr, -⟩, hc, hc'⟩
  rw [nextBox_row] at hr
  rw [nextBox_col] at hc
  rw [nextBox_col, nextBox_colspan] at hc'
  obtain ⟨n, rfl⟩ := Nat.exists_eq_add_of_le (show first ≤ r by omega)
  have hfree : o.isTaken row c = false := by
    refine Occupancy.isTaken_of_freeRun hc fun run hrun => ?_
    have hle := clamp_le (o.room_pos probe row col) cell.cols
    have hroom : o.room probe row (o.firstFree row col) ≤ run := Occupancy.room_le_run hrun
    omega
  have htaken := h.covered_above hb (show row ≤ n by omega) hrow hbc
  rw [hfree] at htaken
  cases htaken

/-- Placing one cell. -/
theorem Placed.placeNext {boxes : List Box} (h : Placed first count row col o boxes)
    (hrow : row < count) {box : Box} (hbox : nextBox first count probe row col o cell = box) :
    Placed first count row (box.col + box.colspan)
      (o.cover row box.col box.rowspan box.colspan) (boxes ++ [box]) := by
  have hnew : ∀ b ∈ boxes, b.Disjoint box :=
    fun b hb => hbox ▸ h.nextBox_disjoint hrow hb
  have hboxrow : box.row = first + row := by rw [← hbox, nextBox_row]
  have hboxcol : box.col = o.firstFree row col := by rw [← hbox, nextBox_col]
  have hspan : 1 ≤ box.rowspan := by
    rw [← hbox]
    exact le_clamp (by omega) _
  refine ⟨?_, ?_, ?_, ?_, ?_⟩
  · rw [Occupancy.length_cover, h.length_lines]
  · intro r hr c
    rw [Occupancy.isTaken_cover (by rw [h.length_lines]; exact hr), h.isTaken_iff r hr]
    simp only [List.mem_append, List.mem_singleton, or_and_right, exists_or, exists_eq_left]
    refine or_congr Iff.rfl ?_
    rw [Box.Has, hboxrow]
    constructor
    · rintro ⟨hrows, hcols⟩
      exact ⟨by omega, hcols⟩
    · rintro ⟨hrows, hcols⟩
      exact ⟨by omega, hcols⟩
  · intro b hb
    rcases List.mem_append.mp hb with hb | hb
    · exact h.row_le b hb
    · rw [List.mem_singleton.mp hb, hboxrow]
  · refine List.pairwise_append.mpr ⟨h.disjoint, List.pairwise_singleton _ _, ?_⟩
    intro b hb b' hb'
    rw [List.mem_singleton.mp hb']
    exact hnew b hb
  · -- Left of the new column everything was covered before, or lies in a run of covered
    -- columns, or in the new box.
    intro c hc
    rw [Occupancy.isTaken_cover (by rw [h.length_lines]; exact hrow)]
    by_cases hleft : c < col
    · exact .inl (h.filled c hleft)
    · by_cases hfree : c < box.col
      · exact .inl (Occupancy.isTaken_of_lt_firstFree (by omega) (hboxcol ▸ hfree))
      · exact .inr ⟨by omega, by omega⟩

/-! ## One row -/

/-- What the cells of row `row` get, where `all` are the boxes of the group and `width`
is its width: their columns grow, they end within the width, and each column to the
left of one is covered. -/
structure RowServed (first count probe width : Nat) (all : List Box) (row : Nat)
    (cells : List Extent) (boxes : List Box) : Prop where
  serves : List.Forall₂ (Box.Serves first count probe row) cells boxes
  increasing : boxes.Pairwise fun a b => a.col < b.col
  in_width : ∀ b ∈ boxes, b.col + b.colspan ≤ width
  filled : ∀ b ∈ boxes, ∀ c < b.col, ∃ a ∈ all, a.Has b.row c

theorem RowServed.mono {width width' : Nat} {all all' boxes : List Box} {cells : List Extent}
    (h : RowServed first count probe width all row cells boxes) (hwidth : width ≤ width')
    (hall : all ⊆ all') : RowServed first count probe width' all' row cells boxes where
  serves := h.serves
  increasing := h.increasing
  in_width b hb := (h.in_width b hb).trans hwidth
  filled b hb c hc :=
    let ⟨a, ha, hac⟩ := h.filled b hb c hc
    ⟨a, hall ha, hac⟩

/-- Placing the cells of a row. The new boxes lie between the column that the row
begins at and the one it stops at. -/
theorem Placed.placeRow (hrow : row < count) (cells : List Extent) :
    ∀ (col : Nat) (o : Occupancy) (before : List Box), Placed first count row col o before →
      (∀ e ∈ cells, e.Positive) → ∀ {boxes stop o'},
      Bracemark.placeRow first count probe row col o cells = (boxes, stop, o') →
        Placed first count row stop o' (before ++ boxes) ∧
        List.Forall₂ (Box.Serves first count probe row) cells boxes ∧
        boxes.Pairwise (fun a b => a.col < b.col) ∧
        (∀ b ∈ boxes, b.row = first + row ∧ col ≤ b.col ∧ b.col + b.colspan ≤ stop) ∧
        col ≤ stop := by
  induction cells with
  | nil =>
    intro col o before h _ boxes stop o' hplace
    obtain ⟨rfl, rfl, rfl⟩ : [] = boxes ∧ col = stop ∧ o = o' := by
      simpa [Bracemark.placeRow] using hplace
    exact ⟨by rwa [List.append_nil], .nil, .nil, by simp, Nat.le_refl _⟩
  | cons cell cells ih =>
    intro col o before h hpos boxes stop o' hplace
    have hserves : (nextBox first count probe row col o cell).Serves first count probe row cell :=
      nextBox_serves hrow (hpos cell List.mem_cons_self)
    have hcol : col ≤ (nextBox first count probe row col o cell).col := o.le_firstFree row col
    rw [Bracemark.placeRow] at hplace
    generalize hbox : nextBox first count probe row col o cell = box at *
    have hnext := h.placeNext hrow hbox
    obtain ⟨⟨rest, last, o''⟩, hrest⟩ : ∃ x, Bracemark.placeRow first count probe row
      (box.col + box.colspan) (o.cover row box.col box.rowspan box.colspan) cells = x := ⟨_, rfl⟩
    rw [hrest] at hplace
    obtain ⟨rfl, rfl, rfl⟩ : box :: rest = boxes ∧ last = stop ∧ o'' = o' := by
      simpa using hplace
    obtain ⟨h1, h2, h3, h4, h5⟩ :=
      ih _ _ _ hnext (fun e he => hpos e (List.mem_cons_of_mem _ he)) hrest
    have hspan := hserves.colspan_pos
    refine ⟨by rwa [List.append_cons], .cons hserves h2, ?_, ?_, by omega⟩
    · refine List.pairwise_cons.mpr ⟨fun b hb => ?_, h3⟩
      have := (h4 b hb).2.1
      omega
    · intro b hb
      rcases List.mem_cons.mp hb with rfl | hb
      · exact ⟨hserves.row_eq, hcol, h5⟩
      · obtain ⟨hbrow, hbcol, hbstop⟩ := h4 b hb
        exact ⟨hbrow, by omega, hbstop⟩

/-- The cells of a row that has just been placed are served. -/
theorem Placed.rowServed (hrow : row < count) {cells : List Extent} {before boxes : List Box}
    {stop : Nat} {o' : Occupancy} (h : Placed first count row 0 o before)
    (hpos : ∀ e ∈ cells, e.Positive)
    (hplace : Bracemark.placeRow first count probe row 0 o cells = (boxes, stop, o')) :
    RowServed first count probe stop (before ++ boxes) row cells boxes := by
  obtain ⟨h1, h2, h3, h4, -⟩ := h.placeRow hrow cells 0 o before hpos hplace
  refine ⟨h2, h3, fun b hb => (h4 b hb).2.2, fun b hb c hc => ?_⟩
  obtain ⟨hbrow, -, hbstop⟩ := h4 b hb
  rw [hbrow]
  exact (h1.isTaken_iff row hrow c).mp (h1.filled c (by omega))

/-! ## All rows -/

/-- Placing the rows from `row` on, after the boxes of the rows above. -/
theorem Placed.placeRows (rows : List (List Extent)) :
    ∀ (row : Nat) (o : Occupancy) (before : List Box), Placed first count row 0 o before →
      row + rows.length ≤ count → (∀ cells ∈ rows, ∀ e ∈ cells, e.Positive) → ∀ {boxes width},
      Bracemark.placeRows first count probe row o rows = (boxes, width) →
        boxes.length = rows.length ∧
        (before ++ boxes.flatten).Pairwise Box.Disjoint ∧
        ∀ i cells bs, rows[i]? = some cells → boxes[i]? = some bs →
          RowServed first count probe width (before ++ boxes.flatten) (row + i) cells bs := by
  induction rows with
  | nil =>
    intro row o before h _ _ boxes width hplace
    obtain ⟨rfl, rfl⟩ : [] = boxes ∧ 0 = width := by
      simpa [Bracemark.placeRows] using hplace
    exact ⟨rfl, by simpa using h.disjoint, by simp⟩
  | cons cells rows ih =>
    intro row o before h hcount hpos boxes width hplace
    rw [List.length_cons] at hcount
    obtain ⟨⟨bs, stop, o'⟩, hrow⟩ : ∃ x, Bracemark.placeRow first count probe row 0 o cells = x :=
      ⟨_, rfl⟩
    obtain ⟨⟨more, most⟩, hmore⟩ :
      ∃ x, Bracemark.placeRows first count probe (row + 1) o' rows = x := ⟨_, rfl⟩
    rw [Bracemark.placeRows, hrow] at hplace
    simp only [hmore] at hplace
    obtain ⟨rfl, rfl⟩ : bs :: more = boxes ∧ max stop most = width := by
      simpa using hplace
    have hcells := hpos cells List.mem_cons_self
    have hserved := h.rowServed (by omega) hcells hrow
    have hplaced := (h.placeRow (by omega) cells 0 o before hcells hrow).1
    obtain ⟨hlength, hdisjoint, hrest⟩ := ih (row + 1) o' (before ++ bs) hplaced.nextRow
      (by omega) (fun cells hc => hpos cells (List.mem_cons_of_mem _ hc)) hmore
    rw [List.flatten_cons, ← List.append_assoc]
    refine ⟨by rw [List.length_cons, hlength, List.length_cons], hdisjoint, ?_⟩
    intro i cells' bs' hi hi'
    cases i with
    | zero =>
      obtain rfl : cells = cells' := by simpa using hi
      obtain rfl : bs = bs' := by simpa using hi'
      exact hserved.mono (Nat.le_max_left _ _) (List.subset_append_left _ _)
    | succ i =>
      have hi2 := hrest i cells' bs' (by simpa using hi) (by simpa using hi')
      rw [show row + (i + 1) = row + 1 + i by omega]
      exact hi2.mono (Nat.le_max_right _ _) (List.Subset.refl _)

end

/-! ## The grid of a group -/

/-- The boxes make up a consistent grid of some width for the rows: every row is
served, no two boxes overlap, and no column to the left of a box is covered twice or
not at all. -/
structure ConsistentGrid (first : Nat) (rows : List (List Extent)) (boxes : List (List Box))
    (width : Nat) : Prop where
  length_eq : boxes.length = rows.length
  row (r : Nat) (cells : List Extent) (bs : List Box) : rows[r]? = some cells →
    boxes[r]? = some bs →
    RowServed first rows.length (probeWidth rows) width boxes.flatten r cells bs
  disjoint : boxes.flatten.Pairwise Box.Disjoint
  covered_once (b : Box) : b ∈ boxes.flatten → ∀ c < b.col,
    ∃! a, a ∈ boxes.flatten ∧ a.Has b.row c

/-- Of boxes that do not overlap only one covers a position. -/
theorem eq_of_has {boxes : List Box} (h : boxes.Pairwise Box.Disjoint) {a b : Box}
    (ha : a ∈ boxes) (hb : b ∈ boxes) {row col : Nat} (hac : a.Has row col)
    (hbc : b.Has row col) : a = b := by
  have : Std.Symm Box.Disjoint := ⟨fun _ _ => Box.Disjoint.symm⟩
  by_contra hne
  exact h.forall ha hb hne row col ⟨hac, hbc⟩

/-- Placing gives a consistent grid, whatever rows and columns the cells of a group
ask for. -/
theorem place_consistent (first : Nat) (rows : List (List Extent))
    (hpos : ∀ cells ∈ rows, ∀ e ∈ cells, e.Positive) :
    ConsistentGrid first rows (place first rows).1 (place first rows).2 := by
  have hplace : placeRows first rows.length (probeWidth rows) 0 (.free rows.length) rows =
      ((place first rows).1, (place first rows).2) := rfl
  obtain ⟨hlength, hdisjoint, hrows⟩ :=
    (Placed.free first rows.length).placeRows rows 0 _ _ (by omega) hpos hplace
  simp only [List.nil_append, Nat.zero_add] at hdisjoint hrows
  refine ⟨hlength, hrows, hdisjoint, ?_⟩
  intro b hb c hc
  obtain ⟨bs, hbs, hb⟩ := List.mem_flatten.mp hb
  obtain ⟨r, hr, hbr⟩ := List.mem_iff_getElem.mp hbs
  have hserved := hrows r rows[r] bs (List.getElem?_eq_getElem (hlength ▸ hr))
    (hbr ▸ List.getElem?_eq_getElem hr)
  obtain ⟨a, ha, hac⟩ := hserved.filled b hb c hc
  exact ⟨a, ⟨ha, hac⟩, fun a' ha' => eq_of_has hdisjoint ha'.1 ha ha'.2 hac⟩

end Bracemark
