/-
Placing cells under guards.

A program looks up lines and columns by their numbers, adds numbers that a word has to hold, and
clamps between bounds that have to be in order. Here placing is written once more with a guard at
each of these steps (`Guarded.place`), and none of the guards is ever met: the guarded run gives
what `place` gives (`Guarded.place_eq`).

The lookups are safe because a cell keeps to the rows of its group, and the bounds are in order
because there is room for one column at least in a column that is free. Sums stay small because a
cell makes a line longer by a single column, unless it ends within the probe width
(`Occupancy.Fits`); so no column lies beyond twice the number of cells, whatever they ask for.
-/
import Bracemark.Proofs.TableBoxes

set_option autoImplicit false

namespace Bracemark

/-! ## Guards -/

/-- What a guard stops. -/
inductive Breach where
  /-- A place that does not exist. -/
  | index
  /-- A lower bound above the upper one. -/
  | bounds
  /-- A number that no word holds. -/
  | overflow
deriving DecidableEq, Repr

/-- The outcome of a run under guards. -/
abbrev Guarded := Except Breach

namespace Guarded

section

variable {α β : Type}

/-- The sum. Words hold the numbers below `limit`. -/
def add (limit m n : Nat) : Guarded Nat :=
  if m + n < limit then .ok (m + n) else .error .overflow

/-- The difference. -/
def sub (m n : Nat) : Guarded Nat :=
  if n ≤ m then .ok (m - n) else .error .overflow

/-- The number, or the bound that it lies beyond. -/
def clamp (low high n : Nat) : Guarded Nat :=
  if low ≤ high then .ok (Bracemark.clamp low high n) else .error .bounds

/-- The entry with an index. -/
def entry (xs : List α) (index : Nat) : Guarded α :=
  match xs[index]? with
  | some x => .ok x
  | none => .error .index

/-- A range of indices has to stop within the list. -/
def within (stop length : Nat) : Guarded Unit :=
  if stop ≤ length then .ok () else .error .index

theorem ok_bind (a : α) (f : α → Guarded β) : ((.ok a : Guarded α) >>= f) = f a := rfl

theorem add_eq {limit m n : Nat} (h : m + n < limit) : add limit m n = .ok (m + n) := if_pos h

theorem sub_eq {m n : Nat} (h : n ≤ m) : sub m n = .ok (m - n) := if_pos h

theorem clamp_eq {low high : Nat} (h : low ≤ high) (n : Nat) :
    clamp low high n = .ok (Bracemark.clamp low high n) := if_pos h

theorem entry_eq {xs : List α} {index : Nat} {x : α} (h : xs[index]? = some x) :
    entry xs index = .ok x := by
  rw [entry, h]

theorem within_eq {stop length : Nat} (h : stop ≤ length) : within stop length = .ok () := if_pos h

theorem mapM_eq {f : α → Guarded β} {g : α → β} {xs : List α}
    (h : ∀ x ∈ xs, f x = .ok (g x)) : xs.mapM f = .ok (xs.map g) := by
  induction xs with
  | nil => rfl
  | cons x xs ih =>
    obtain ⟨hx, hxs⟩ := List.forall_mem_cons.mp h
    rw [List.mapM_cons, hx, ok_bind, ih hxs]
    rfl

end

end Guarded

/-! ## How long lines get -/

namespace Occupancy

variable {o : Occupancy} {count width : Nat}

/-- There are so many lines, and none of them is longer than `width`. -/
structure Fits (o : Occupancy) (count width : Nat) : Prop where
  length_lines : o.lines.length = count
  length_le : ∀ line ∈ o.lines, line.length ≤ width

theorem Fits.free (count width : Nat) : (free count).Fits count width where
  length_lines := List.length_replicate
  length_le line hline := by
    rw [List.eq_of_mem_replicate hline]
    exact Nat.zero_le _

theorem Fits.getElem? (h : o.Fits count width) {row : Nat} (hrow : row < count) :
    o.lines[row]? = some (o.line row) ∧ (o.line row).length ≤ width := by
  have hlt : row < o.lines.length := h.length_lines ▸ hrow
  have hline : o.line row = o.lines[row] := List.getD_eq_getElem _ _ hlt
  rw [hline]
  exact ⟨List.getElem?_eq_getElem hlt, h.length_le _ (List.getElem_mem hlt)⟩

theorem Fits.firstFree_le (h : o.Fits count width) {row col : Nat} (hrow : row < count)
    (hcol : col ≤ width) : o.firstFree row col ≤ width := by
  have hline := (h.getElem? hrow).2
  have hrun := (List.takeWhile_sublist id (l := (o.line row).drop col)).length_le
  rw [List.length_drop] at hrun
  rw [firstFree]
  omega

theorem length_coverLine (col colspan : Nat) (line : List Bool) :
    (coverLine col colspan line).length = max line.length (col + colspan) := by
  simp only [coverLine, List.length_append, List.length_take, List.length_drop,
    List.length_replicate]
  omega

theorem Fits.cover (h : o.Fits count width) {width' : Nat} (hwidth : width ≤ width')
    (row col rowspan colspan : Nat) (hcol : col + colspan ≤ width') :
    (o.cover row col rowspan colspan).Fits count width' where
  length_lines := by rw [length_cover, h.length_lines]
  length_le line hline := by
    obtain ⟨r, hr, rfl⟩ := List.mem_mapIdx.mp hline
    have hle := h.length_le _ (List.getElem_mem hr)
    split
    · rw [length_coverLine]
      omega
    · omega

end Occupancy

/-! ## Covered positions -/

namespace Guarded

/-- Goes past the columns that are covered, one after the other. -/
def pastTaken (limit : Nat) : Nat → List Bool → Guarded Nat
  | col, true :: line => do
    let next ← add limit col 1
    pastTaken limit next line
  | col, _ => .ok col

/-- The first column of a row that is not covered, from `col` on. -/
def firstFree (limit : Nat) (o : Occupancy) (row col : Nat) : Guarded Nat := do
  let line ← entry o.lines row
  pastTaken limit col (line.drop col)

/-- The number of free columns from `col` up to the next covered one, and the largest number that
there is when no column to the right is covered. -/
def freeRun (limit : Nat) (o : Occupancy) (row col : Nat) : Guarded Nat := do
  let line ← entry o.lines row
  .ok (((line.drop col).findIdx? id).getD (limit - 1))

/-- Covers some columns of one line, which is made long enough for them. -/
def coverLine (limit col colspan : Nat) (line : List Bool) : Guarded (List Bool) := do
  let stop ← add limit col colspan
  let padded := line ++ List.replicate (stop - line.length) false
  within stop padded.length
  .ok (padded.take col ++ List.replicate colspan true ++ padded.drop stop)

/-- Covers some columns of a line if its number lies in a range. -/
def coverIn (limit row stop col colspan : Nat) (numbered : List Bool × Nat) :
    Guarded (List Bool) :=
  if row ≤ numbered.2 ∧ numbered.2 < stop then coverLine limit col colspan numbered.1
  else .ok numbered.1

/-- Covers a rectangle. -/
def cover (limit : Nat) (o : Occupancy) (row col rowspan colspan : Nat) : Guarded Occupancy := do
  let stop ← add limit row rowspan
  within stop o.lines.length
  let lines ← o.lines.zipIdx.mapM (coverIn limit row stop col colspan)
  .ok ⟨lines⟩

section

variable {limit count width row col : Nat} {o : Occupancy}

theorem pastTaken_eq (line : List Bool) :
    ∀ {col : Nat}, col + line.length < limit →
      pastTaken limit col line = .ok (col + (line.takeWhile id).length) := by
  induction line with
  | nil => exact fun _ => rfl
  | cons taken line ih =>
    intro col h
    rw [List.length_cons] at h
    cases taken with
    | false => rfl
    | true =>
      rw [pastTaken, add_eq (by omega), ok_bind, ih (by omega), List.takeWhile_cons_of_pos rfl,
        List.length_cons, Nat.add_assoc, Nat.add_comm 1]

theorem firstFree_eq (h : o.Fits count width) (hrow : row < count) (hcol : col ≤ width)
    (hlimit : width < limit) : firstFree limit o row col = .ok (o.firstFree row col) := by
  obtain ⟨hline, hlength⟩ := h.getElem? hrow
  rw [firstFree, entry_eq hline, ok_bind, pastTaken_eq, Occupancy.firstFree]
  rw [List.length_drop]
  omega

theorem freeRun_eq (h : o.Fits count width) (hrow : row < count) :
    freeRun limit o row col = .ok ((o.freeRun? row col).getD (limit - 1)) := by
  rw [freeRun, entry_eq (h.getElem? hrow).1, ok_bind, Occupancy.freeRun?]

theorem coverLine_eq {colspan : Nat} (h : col + colspan < limit) (line : List Bool) :
    coverLine limit col colspan line = .ok (Occupancy.coverLine col colspan line) := by
  have hpadded : col + colspan ≤
      (line ++ List.replicate (col + colspan - line.length) false).length := by
    rw [List.length_append, List.length_replicate]
    omega
  simp only [coverLine, add_eq h, ok_bind, within_eq hpadded, Occupancy.coverLine]

theorem cover_eq (h : o.Fits count width) {rowspan colspan : Nat} (hcount : count < limit)
    (hrow : row + rowspan ≤ count) (hcol : col + colspan < limit) :
    cover limit o row col rowspan colspan = .ok (o.cover row col rowspan colspan) := by
  have hlength := h.length_lines
  have hlines : o.lines.zipIdx.mapM (coverIn limit row (row + rowspan) col colspan) =
      .ok (o.cover row col rowspan colspan).lines := by
    rw [Occupancy.cover, List.mapIdx_eq_zipIdx_map]
    refine mapM_eq fun numbered _ => ?_
    rw [coverIn, coverLine_eq hcol]
    exact (apply_ite Except.ok _ _ _).symm
  rw [cover, add_eq (by omega), ok_bind, within_eq (by omega), ok_bind, hlines, ok_bind]

end

/-! ## The probe -/

/-- Places the cells of one row one column wide. -/
def probeRow (limit count row : Nat) : Nat → Occupancy → List Extent → Guarded (Nat × Occupancy)
  | col, o, [] => .ok (col, o)
  | col, o, cell :: cells => do
    let free ← firstFree limit o row col
    let left ← sub count row
    let rows ← clamp 1 left cell.rows
    let covered ← cover limit o row free rows 1
    let next ← add limit free 1
    probeRow limit count row next covered cells

/-- Probes the rows from `row` on. -/
def probeRows (limit count : Nat) : Nat → Occupancy → List (List Extent) → Guarded Nat
  | _, _, [] => .ok 0
  | row, o, cells :: rows => do
    let (width, o) ← probeRow limit count row 0 o cells
    let most ← probeRows limit count (row + 1) o rows
    .ok (max width most)

/-- The width of a group whose cells are all one column wide. -/
def probeWidth (limit : Nat) (rows : List (List Extent)) : Guarded Nat :=
  probeRows limit rows.length 0 (.free rows.length) rows

section

variable {limit count : Nat}

/-- A cell that is clamped to the rows that are left stays in its group. -/
theorem add_clamp_le {row : Nat} (hrow : row < count) (n : Nat) :
    row + Bracemark.clamp 1 (count - row) n ≤ count := by
  have := clamp_le (show 1 ≤ count - row by omega) n
  omega

theorem probeRow_eq {row : Nat} (hrow : row < count) (hcount : count < limit)
    (cells : List Extent) :
    ∀ (col width : Nat) (o : Occupancy), o.Fits count width → col ≤ width →
      width + cells.length < limit →
        probeRow limit count row col o cells = .ok (Bracemark.probeRow count row col o cells) ∧
        (Bracemark.probeRow count row col o cells).1 ≤ width + cells.length ∧
        (Bracemark.probeRow count row col o cells).2.Fits count (width + cells.length) := by
  induction cells with
  | nil => exact fun _ _ _ h hcol _ => ⟨rfl, hcol, h⟩
  | cons cell cells ih =>
    intro col width o h hcol hlimit
    rw [List.length_cons, ← Nat.add_assoc, Nat.add_right_comm] at hlimit ⊢
    have hfree := h.firstFree_le hrow hcol
    obtain ⟨hrun, hstop, hfits⟩ := ih (o.firstFree row col + 1) (width + 1) _
      (h.cover (Nat.le_succ width) row (o.firstFree row col)
        (Bracemark.clamp 1 (count - row) cell.rows) 1 (by omega)) (by omega) (by omega)
    rw [Bracemark.probeRow]
    refine ⟨?_, hstop, hfits⟩
    rw [probeRow, firstFree_eq h hrow hcol (by omega), ok_bind, sub_eq (by omega), ok_bind,
      clamp_eq (by omega), ok_bind, cover_eq h hcount (add_clamp_le hrow _) (by omega), ok_bind,
      add_eq (by omega), ok_bind, hrun]

theorem probeRows_eq (hcount : count < limit) (rows : List (List Extent)) :
    ∀ (row width : Nat) (o : Occupancy), o.Fits count width → row + rows.length ≤ count →
      width + rows.flatten.length < limit →
        probeRows limit count row o rows = .ok (Bracemark.probeRows count row o rows) ∧
        Bracemark.probeRows count row o rows ≤ width + rows.flatten.length := by
  induction rows with
  | nil => exact fun _ _ _ _ _ _ => ⟨rfl, Nat.zero_le _⟩
  | cons cells rows ih =>
    intro row width o h hrows hlimit
    rw [List.flatten_cons, List.length_append, ← Nat.add_assoc] at hlimit ⊢
    rw [List.length_cons] at hrows
    have hrow : row < count := by omega
    obtain ⟨hrun, hstop, hfits⟩ := probeRow_eq hrow hcount cells 0 width o h (Nat.zero_le width)
      (by omega)
    obtain ⟨hmore, hmost⟩ := ih (row + 1) _ _ hfits (by omega) (by omega)
    rw [probeRows, hrun, ok_bind, Bracemark.probeRows]
    dsimp only
    rw [hmore, ok_bind]
    exact ⟨rfl, by omega⟩

theorem probeWidth_eq {rows : List (List Extent)} (hrows : rows.length < limit)
    (hcells : rows.flatten.length < limit) :
    probeWidth limit rows = .ok (Bracemark.probeWidth rows) ∧
      Bracemark.probeWidth rows ≤ rows.flatten.length := by
  have h := probeRows_eq hrows rows 0 0 _ (Occupancy.Fits.free rows.length 0) (by omega) (by omega)
  rwa [Nat.zero_add] at h

end

/-! ## Placing -/

/-- Places the cells of one row from column `col` on. `first` is the number of the group's first
row in the table. -/
def placeRow (limit first count probe row : Nat) :
    Nat → Occupancy → List Extent → Guarded (List Box × Nat × Occupancy)
  | col, o, [] => .ok ([], col, o)
  | col, o, cell :: cells => do
    let free ← firstFree limit o row col
    let left ← sub count row
    let rowspan ← clamp 1 left cell.rows
    let run ← freeRun limit o row free
    let colspan ← clamp 1 (min (max (probe - free) 1) run) cell.cols
    let covered ← cover limit o row free rowspan colspan
    let number ← add limit first row
    let next ← add limit free colspan
    let (boxes, stop, o) ← placeRow limit first count probe row next covered cells
    .ok (⟨number, free, rowspan, colspan⟩ :: boxes, stop, o)

/-- Places the rows from `row` on and gives the largest width of a row. -/
def placeRows (limit first count probe : Nat) :
    Nat → Occupancy → List (List Extent) → Guarded (List (List Box) × Nat)
  | _, _, [] => .ok ([], 0)
  | row, o, cells :: rows => do
    let (boxes, width, o) ← placeRow limit first count probe row 0 o cells
    let (more, most) ← placeRows limit first count probe (row + 1) o rows
    .ok (boxes :: more, max width most)

/-- The boxes of the cells of a group of rows, and the group's width. -/
def place (limit first : Nat) (rows : List (List Extent)) : Guarded (List (List Box) × Nat) := do
  let probe ← probeWidth limit rows
  placeRows limit first rows.length probe 0 (.free rows.length) rows

section

variable {limit first count probe : Nat}

/-- The room in a column is cut to the free columns that follow. The largest number, which stands
for a run without end, cuts nothing. -/
theorem min_freeRun {o : Occupancy} {row col : Nat} (hwide : max (probe - col) 1 < limit) :
    min (max (probe - col) 1) ((o.freeRun? row col).getD (limit - 1)) = o.room probe row col := by
  rw [Occupancy.room]
  cases o.freeRun? row col with
  | none => exact Nat.min_eq_left (by rw [Option.getD_none]; omega)
  | some run => rfl

/-- A cell that is wider than one column ends within the probe width. -/
theorem add_clamp_room_le {o : Occupancy} {row col width : Nat}
    (hfree : o.firstFree row col ≤ width) (hprobe : probe ≤ width) (n : Nat) :
    o.firstFree row col + Bracemark.clamp 1 (o.room probe row (o.firstFree row col)) n ≤
      width + 1 := by
  have hle := clamp_le (o.room_pos probe row col) n
  have hroom := o.room_le probe row (o.firstFree row col)
  omega

theorem placeRow_eq {row : Nat} (hrow : row < count) (hcount : first + count < limit)
    (cells : List Extent) :
    ∀ (col width : Nat) (o : Occupancy), o.Fits count width → col ≤ width → probe ≤ width →
      width + cells.length < limit →
        placeRow limit first count probe row col o cells =
          .ok (Bracemark.placeRow first count probe row col o cells) ∧
        (Bracemark.placeRow first count probe row col o cells).2.1 ≤ width + cells.length ∧
        (Bracemark.placeRow first count probe row col o cells).2.2.Fits count
          (width + cells.length) := by
  induction cells with
  | nil => exact fun _ _ _ h hcol _ _ => ⟨rfl, hcol, h⟩
  | cons cell cells ih =>
    intro col width o h hcol hprobe hlimit
    rw [List.length_cons, ← Nat.add_assoc, Nat.add_right_comm] at hlimit ⊢
    have hfree := h.firstFree_le hrow hcol
    -- The lines get longer by one column at most, so the width may grow with the cells.
    have hstop := add_clamp_room_le hfree hprobe cell.cols
    have hnext : width + 1 < limit := by omega
    obtain ⟨hrun, hlast, hfits⟩ := ih _ (width + 1) _
      (h.cover (Nat.le_succ width) row (o.firstFree row col)
        (Bracemark.clamp 1 (count - row) cell.rows) _ hstop) hstop (by omega) (by omega)
    rw [Bracemark.placeRow]
    refine ⟨?_, hlast, hfits⟩
    rw [placeRow, firstFree_eq h hrow hcol (by omega), ok_bind, sub_eq (by omega), ok_bind,
      clamp_eq (by omega), ok_bind, freeRun_eq h hrow, ok_bind, min_freeRun (by omega),
      clamp_eq (o.room_pos probe row col), ok_bind,
      cover_eq h (by omega) (add_clamp_le hrow _) (hstop.trans_lt hnext), ok_bind,
      add_eq (by omega), ok_bind, add_eq (hstop.trans_lt hnext), ok_bind, hrun, ok_bind]
    rfl

theorem placeRows_eq (hcount : first + count < limit) (rows : List (List Extent)) :
    ∀ (row width : Nat) (o : Occupancy), o.Fits count width → row + rows.length ≤ count →
      probe ≤ width → width + rows.flatten.length < limit →
        placeRows limit first count probe row o rows =
          .ok (Bracemark.placeRows first count probe row o rows) ∧
        (Bracemark.placeRows first count probe row o rows).2 ≤ width + rows.flatten.length := by
  induction rows with
  | nil => exact fun _ _ _ _ _ _ _ => ⟨rfl, Nat.zero_le _⟩
  | cons cells rows ih =>
    intro row width o h hrows hprobe hlimit
    rw [List.flatten_cons, List.length_append, ← Nat.add_assoc] at hlimit ⊢
    rw [List.length_cons] at hrows
    have hrow : row < count := by omega
    obtain ⟨hrun, hstop, hfits⟩ := placeRow_eq hrow hcount cells 0 width o h (Nat.zero_le width)
      hprobe (by omega)
    obtain ⟨hmore, hmost⟩ := ih (row + 1) _ _ hfits (by omega) (by omega) (by omega)
    rw [placeRows, hrun, ok_bind, Bracemark.placeRows]
    dsimp only
    rw [hmore, ok_bind]
    exact ⟨rfl, Nat.max_le.mpr ⟨hstop.trans (Nat.le_add_right _ _), hmost⟩⟩

/-- **Placing meets no guard**, and a group is at most twice as wide as it has cells. -/
theorem place_eq {rows : List (List Extent)} (hrows : first + rows.length < limit)
    (hcells : 2 * rows.flatten.length < limit) :
    place limit first rows = .ok (Bracemark.place first rows) ∧
      (Bracemark.place first rows).2 ≤ 2 * rows.flatten.length := by
  have hlength : rows.length < limit := by omega
  obtain ⟨hprobe, hwidth⟩ := probeWidth_eq hlength (show rows.flatten.length < limit by omega)
  obtain ⟨hplace, hstop⟩ := placeRows_eq hrows rows 0 _ _
    (Occupancy.Fits.free rows.length rows.flatten.length) (by omega) hwidth (by omega)
  rw [place, hprobe, ok_bind, hplace, Bracemark.place]
  exact ⟨rfl, by omega⟩

-- Two cells can take up three columns: the wide one fills the width of the probe.
example : place 3 0 [[⟨1, 2⟩, ⟨1, 1⟩]] = .error .overflow := rfl

end

end Guarded

end Bracemark
