/-
Laying out a table under guards.

Laying out meets none of the guards either, be it with whatever spans, format strings and counts
of head and foot, and so does reading the format of a cell once the table is laid out
(`Table.layout?_unbreached`). The grid has one line more than it has rows and columns, and that is
where the last line of a format, the lower edge of a cell in the last row and the right edge of one
in the last column go. All else keeps to the rows and columns of the table because the boxes of
the cells do (`Table.wellPlaced_laidOut`).

A step under guards is compared with the plain step on grids of one size, which both keep
(`Guarded.Agrees`). A loop agrees as soon as its body does.
-/
import Bracemark.Proofs.GridWriting
import Bracemark.Proofs.GuardedPlacement

set_option autoImplicit false

namespace Bracemark

namespace Guarded

/-! ## Steps that agree -/

section

variable {σ β : Type} {P : σ → Prop}

/-- From states in which `P` holds, the step under guards does what the plain step does, and `P`
holds again. -/
structure Agrees (P : σ → Prop) (step : σ → Guarded σ) (plain : σ → σ) : Prop where
  eq_ok : ∀ s, P s → step s = .ok (plain s)
  keeps : ∀ s, P s → P (plain s)

theorem Agrees.refl : Agrees P (fun s => .ok s) fun s => s where
  eq_ok _ _ := rfl
  keeps _ hs := hs

theorem Agrees.congr {step : σ → Guarded σ} {plain plain' : σ → σ} (h : Agrees P step plain)
    (heq : ∀ s, P s → plain s = plain' s) : Agrees P step plain' where
  eq_ok s hs := by rw [h.eq_ok s hs, heq s hs]
  keeps s hs := heq s hs ▸ h.keeps s hs

theorem Agrees.comp {first second : σ → Guarded σ} {plain plain' : σ → σ}
    (h : Agrees P first plain) (h' : Agrees P second plain') :
    Agrees P (fun s => first s >>= second) fun s => plain' (plain s) where
  eq_ok s hs := by rw [h.eq_ok s hs, ok_bind, h'.eq_ok _ (h.keeps s hs)]
  keeps s hs := h'.keeps _ (h.keeps s hs)

theorem Agrees.foldlM {step : σ → β → Guarded σ} {plain : σ → β → σ} {xs : List β}
    (h : ∀ x ∈ xs, Agrees P (step · x) (plain · x)) :
    Agrees P (fun s => xs.foldlM step s) fun s => xs.foldl plain s := by
  induction xs with
  | nil => exact .refl
  | cons x xs ih =>
    obtain ⟨hx, hxs⟩ := List.forall_mem_cons.mp h
    exact (hx.comp (ih hxs)).congr fun _ _ => rfl

end

/-! ## Writing into matrices -/

section

variable {α : Type}

/-- The code at a position. -/
def read (m : Matrix α) (row col : Nat) : Guarded (Option α) := do
  let entries ← entry m row
  entry entries col

/-- Writes a code at a position; `none` writes nothing. -/
def write (m : Matrix α) (row col : Nat) (code : Option α) : Guarded (Matrix α) := do
  let _ ← read m row col
  .ok (m.write row col code)

/-- Writes a code at a position unless there is none. -/
def writeGiven (m : Matrix α) (row col : Nat) (code : Option α) : Guarded (Matrix α) :=
  if code.isSome then write m row col code else .ok m

/-- Writes one code over a whole row. -/
def writeRow (m : Matrix α) (row : Nat) (code : Option α) : Guarded (Matrix α) := do
  let _ ← entry m row
  .ok (m.writeRow row code)

/-- Writes what a string says if it is there. -/
def optional (codes? : Option (Codes α)) (step : Codes α → Matrix α → Guarded (Matrix α))
    (m : Matrix α) : Guarded (Matrix α) :=
  match codes? with
  | none => .ok m
  | some codes => step codes m

/-- Writes a string with one code for each line from `first` on: those above `count` rows, and the
one below them. -/
def writeDown (limit first count : Nat) (codes : Codes α) (m : Matrix α) : Guarded (Matrix α) := do
  let lines ← add limit count 1
  (List.range lines).foldlM (fun m i =>
    if (codes.codeAt i).isSome then do
      let line ← add limit first i
      writeRow m line (codes.codeAt i)
    else .ok m) m

/-- Writes a string with one code for each of `width` columns along some rows. -/
def writeAcross (first count width : Nat) (codes : Codes α) (m : Matrix α) : Guarded (Matrix α) :=
  (Grid.indices first count).foldlM (fun m row =>
    (Grid.indices 0 width).foldlM (fun m col => writeGiven m row col (codes.codeAt col)) m) m

/-- Writes a code for each of two lines along `count` columns from `first` on. -/
def writeEdgesAcross (top bottom first count : Nat) (code code' : Option α) (m : Matrix α) :
    Guarded (Matrix α) :=
  (Grid.indices first count).foldlM (fun m col => do
    let m ← write m top col code
    write m bottom col code') m

/-- Writes a code for each of two columns along `count` rows from `first` on. -/
def writeEdgesDown (left right first count : Nat) (code code' : Option α) (m : Matrix α) :
    Guarded (Matrix α) :=
  (Grid.indices first count).foldlM (fun m row => do
    let m ← write m row left code
    write m row right code') m

/-- Writes a code over the positions of a box. -/
def writeInside (box : Box) (code : Option α) (m : Matrix α) : Guarded (Matrix α) :=
  (Grid.indices box.row box.rowspan).foldlM (fun m row =>
    (Grid.indices box.col box.colspan).foldlM (fun m col => write m row col code) m) m

variable {rows cols row col : Nat} {m : Matrix α}

theorem read_eq (h : m.HasSize rows cols) (hrow : row < rows) (hcol : col < cols) :
    read m row col = .ok (m.get? row col) := by
  obtain ⟨entries, code, hentries, -, hcode⟩ := h.exists_place hrow hcol
  rw [read, entry_eq hentries, ok_bind, entry_eq hcode, Matrix.get?, hentries, Option.bind_some,
    hcode, Option.join_some]

theorem agrees_write (hrow : row < rows) (hcol : col < cols) (code : Option α) :
    Agrees (·.HasSize rows cols) (write · row col code) (·.write row col code) where
  eq_ok m hm := by rw [write, read_eq hm hrow hcol, ok_bind]
  keeps m hm := (Matrix.writes_write row col code).hasSize m hm

theorem agrees_writeGiven (hrow : row < rows) (hcol : col < cols) (code : Option α) :
    Agrees (·.HasSize rows cols) (writeGiven · row col code) (·.write row col code) := by
  cases code with
  | none => exact Agrees.refl.congr fun m _ => (Matrix.write_none m row col).symm
  | some code => exact agrees_write hrow hcol (some code)

theorem agrees_writeRow (hrow : row < rows) (code : Option α) :
    Agrees (·.HasSize rows cols) (writeRow · row code) (·.writeRow row code) where
  eq_ok m hm := by
    have hlt : row < m.length := hm.length_eq ▸ hrow
    rw [writeRow, entry_eq (List.getElem?_eq_getElem hlt), ok_bind]
  keeps m hm := (Matrix.writes_writeRow row code).hasSize m hm

theorem agrees_optional {step : Codes α → Matrix α → Guarded (Matrix α)}
    {plain : Codes α → Matrix α → Matrix α}
    (h : ∀ codes, Agrees (·.HasSize rows cols) (step codes) (plain codes))
    (codes? : Option (Codes α)) :
    Agrees (·.HasSize rows cols) (optional codes? step) fun m =>
      match codes? with
      | none => m
      | some codes => plain codes m := by
  cases codes? with
  | none => exact .refl
  | some codes => exact h codes

theorem agrees_writeDown {limit first count : Nat} (hlimit : rows < limit)
    (hin : first + count + 1 ≤ rows) (codes : Codes α) :
    Agrees (·.HasSize rows cols) (writeDown limit first count codes) fun m =>
      (List.range (count + 1)).foldl (fun m i => m.writeRow (first + i) (codes.codeAt i)) m := by
  have hround : ∀ i ∈ List.range (count + 1), Agrees (·.HasSize rows cols)
      (fun m => if (codes.codeAt i).isSome then do
          let line ← add limit first i
          writeRow m line (codes.codeAt i)
        else .ok m)
      (·.writeRow (first + i) (codes.codeAt i)) := by
    intro i hi
    have hi := List.mem_range.mp hi
    cases codes.codeAt i with
    | none =>
      -- No line is looked up for a dot, and the plain step leaves it as it is.
      exact Agrees.refl.congr fun m _ => (Matrix.writeRow_none m _).symm
    | some code =>
      simp only [Option.isSome_some, if_true, add_eq (show first + i < limit by omega), ok_bind]
      exact agrees_writeRow (by omega) (some code)
  have hloop := Agrees.foldlM hround
  refine ⟨fun m hm => ?_, hloop.keeps⟩
  rw [writeDown, add_eq (by omega), ok_bind]
  exact hloop.eq_ok m hm

/-- To write along a row entry by entry is to write along it at once. -/
theorem agrees_writeAcross {first count : Nat} (hin : first + count ≤ rows) (codes : Codes α) :
    Agrees (·.HasSize rows cols) (writeAcross first count cols codes) fun m =>
      (Grid.indices first count).foldl (fun m row => m.writeAlong row (codes.expand cols)) m := by
  refine Agrees.foldlM fun row hrow => ?_
  have hrow := Grid.mem_indices.mp hrow
  have hentries : ∀ col ∈ Grid.indices 0 cols, Agrees (·.HasSize rows cols)
      (writeGiven · row col (codes.codeAt col)) (·.write row col (codes.codeAt col)) :=
    fun col hcol => agrees_writeGiven (by omega) (by have := Grid.mem_indices.mp hcol; omega) _
  exact (Agrees.foldlM hentries).congr fun m hm =>
    (Matrix.writes_entries row codes).unique (Matrix.writes_writeAlong row codes) hm

theorem agrees_writeEdgesAcross {top bottom first count : Nat} (htop : top < rows)
    (hbottom : bottom < rows) (hin : first + count ≤ cols) (code code' : Option α) :
    Agrees (·.HasSize rows cols) (writeEdgesAcross top bottom first count code code') fun m =>
      (Grid.indices first count).foldl
        (fun m col => (m.write top col code).write bottom col code') m := by
  refine Agrees.foldlM fun col hcol => ?_
  have hcol := Grid.mem_indices.mp hcol
  exact (agrees_write htop (by omega) code).comp (agrees_write hbottom (by omega) code')

theorem agrees_writeEdgesDown {left right first count : Nat} (hleft : left < cols)
    (hright : right < cols) (hin : first + count ≤ rows) (code code' : Option α) :
    Agrees (·.HasSize rows cols) (writeEdgesDown left right first count code code') fun m =>
      (Grid.indices first count).foldl
        (fun m row => (m.write row left code).write row right code') m := by
  refine Agrees.foldlM fun row hrow => ?_
  have hrow := Grid.mem_indices.mp hrow
  exact (agrees_write (by omega) hleft code).comp (agrees_write (by omega) hright code')

theorem agrees_writeInside {box : Box} (hrows : box.row + box.rowspan ≤ rows)
    (hcols : box.col + box.colspan ≤ cols) (code : Option α) :
    Agrees (·.HasSize rows cols) (writeInside box code) fun m =>
      (Grid.indices box.row box.rowspan).foldl (fun m row =>
        (Grid.indices box.col box.colspan).foldl (fun m col => m.write row col code) m) m := by
  refine Agrees.foldlM fun row hrow => Agrees.foldlM fun col hcol => ?_
  have hrow := Grid.mem_indices.mp hrow
  have hcol := Grid.mem_indices.mp hcol
  exact agrees_write (by omega) (by omega) code

end

/-! ## Formats -/

/-- A grid without codes. -/
def blank (limit rows cols : Nat) : Guarded Grid := do
  let lines ← add limit rows 1
  let edges ← add limit cols 1
  .ok ⟨rows, cols, .blank lines cols, .blank rows edges, .blank rows cols⟩

/-- Writes the format of a table or a group of rows over `count` rows from row `first` on. -/
def applySpec (limit : Nat) (g : Grid) (spec : FormatSpec) (first count : Nat) : Guarded Grid :=
  if g.rows < first then .ok g
  else do
    let stop ← add limit first count
    let rows := min stop g.rows - first
    let horizontal ← optional spec.horizontal (writeDown limit first rows) g.horizontal
    let vertical ← optional spec.vertical (fun codes m => do
      let edges ← add limit g.cols 1
      writeAcross first rows edges codes m) g.vertical
    let align ← optional spec.align (writeAcross first rows g.cols) g.align
    .ok { g with horizontal, vertical, align }

/-- Writes a cell's own codes along the four sides of its box and over the positions inside. -/
def applyCell (limit : Nat) (g : Grid) (codes : CellCodes) (box : Box) : Guarded Grid := do
  let below ← add limit box.row box.rowspan
  let beyond ← add limit box.col box.colspan
  let horizontal ← optional codes.border (fun border =>
    writeEdgesAcross box.row below box.col box.colspan (border.codeAt 0) (border.codeAt 2))
    g.horizontal
  let vertical ← optional codes.border (fun border =>
    writeEdgesDown box.col beyond box.row box.rowspan (border.codeAt 3) (border.codeAt 1))
    g.vertical
  let align ← optional codes.align (fun text => writeInside box (text.codeAt 0)) g.align
  .ok { g with horizontal, vertical, align }

/-- What a cell shows. -/
def cellFormat (limit : Nat) (g : Grid) (box : Box) : Guarded CellFormat := do
  let below ← add limit box.row box.rowspan
  let beyond ← add limit box.col box.colspan
  let top ← read g.horizontal box.row box.col
  let bottom ← read g.horizontal below box.col
  let left ← read g.vertical box.row box.col
  let right ← read g.vertical box.row beyond
  let align ← read g.align box.row box.col
  .ok { top, right, bottom, left, align }

end Guarded

/-- The box is not empty and lies in the grid. -/
structure Box.Inside (b : Box) (rows cols : Nat) : Prop where
  rowspan_pos : 1 ≤ b.rowspan
  colspan_pos : 1 ≤ b.colspan
  le_rows : b.row + b.rowspan ≤ rows
  le_cols : b.col + b.colspan ≤ cols

theorem WellPlaced.inside {first rows cols : Nat} {boxes : List Box}
    (h : WellPlaced first rows cols boxes) {b : Box} (hb : b ∈ boxes) : b.Inside rows cols :=
  ⟨h.rowspan_pos b hb, h.colspan_pos b hb, h.le_last b hb, h.le_cols b hb⟩

namespace Guarded

variable {limit rows cols : Nat}

theorem blank_eq (hrows : rows + 1 < limit) (hcols : cols + 1 < limit) :
    blank limit rows cols = .ok (.blank rows cols) := by
  rw [blank, add_eq hrows, ok_bind, add_eq hcols, ok_bind, Grid.blank]

theorem agrees_applySpec (hrows : rows + 1 < limit) (hcols : cols + 1 < limit) (spec : FormatSpec)
    {first count : Nat} (hcount : first + count < limit) :
    Agrees (·.HasSize rows cols) (applySpec limit · spec first count)
      (·.applySpec spec first count) := by
  refine ⟨fun g hg => ?_, (Grid.writes_applySpec spec first count).hasSize⟩
  obtain ⟨rfl, rfl, hgh, hgv, hga⟩ := hg
  rw [applySpec, Grid.applySpec]
  by_cases hfirst : g.rows < first
  · rw [if_pos hfirst, if_pos hfirst]
  · rw [if_neg hfirst, if_neg hfirst, add_eq hcount, ok_bind]
    -- The rows of the format are cut to the grid, so its last line is at most the last of the grid.
    have hin : first + (min (first + count) g.rows - first) ≤ g.rows := by omega
    have hh : Agrees (Matrix.HasSize · (g.rows + 1) g.cols) _ _ := agrees_optional
      (agrees_writeDown hrows (Nat.succ_le_succ hin)) spec.horizontal
    have hv : Agrees (Matrix.HasSize · g.rows (g.cols + 1)) _ _ := agrees_optional
      (agrees_writeAcross hin) spec.vertical
    have ha : Agrees (Matrix.HasSize · g.rows g.cols) _ _ := agrees_optional
      (agrees_writeAcross hin) spec.align
    simp only [add_eq hcols, ok_bind]
    rw [hh.eq_ok _ hgh, ok_bind, hv.eq_ok _ hgv, ok_bind, ha.eq_ok _ hga, ok_bind]
    cases spec.horizontal <;> cases spec.vertical <;> cases spec.align <;> rfl

theorem agrees_applyCell (hrows : rows < limit) (hcols : cols < limit) (codes : CellCodes)
    {box : Box} (hbox : box.Inside rows cols) :
    Agrees (·.HasSize rows cols) (applyCell limit · codes box) (·.applyCell codes box) := by
  refine ⟨fun g hg => ?_, (Grid.writes_applyCell codes box).hasSize⟩
  obtain ⟨hrowspan, hcolspan, hrow, hcol⟩ := hbox
  have hh : Agrees (Matrix.HasSize · (rows + 1) cols) _ _ := agrees_optional (fun border =>
    agrees_writeEdgesAcross (show box.row < rows + 1 by omega) (Nat.lt_succ_of_le hrow) hcol
      (border.codeAt 0) (border.codeAt 2)) codes.border
  have hv : Agrees (Matrix.HasSize · rows (cols + 1)) _ _ := agrees_optional (fun border =>
    agrees_writeEdgesDown (show box.col < cols + 1 by omega) (Nat.lt_succ_of_le hcol) hrow
      (border.codeAt 3) (border.codeAt 1)) codes.border
  have ha : Agrees (Matrix.HasSize · rows cols) _ _ := agrees_optional (fun text =>
    agrees_writeInside hrow hcol (text.codeAt 0)) codes.align
  rw [applyCell, add_eq (by omega), ok_bind, add_eq (by omega), ok_bind, hh.eq_ok _ hg.horizontal,
    ok_bind, hv.eq_ok _ hg.vertical, ok_bind, ha.eq_ok _ hg.align, ok_bind, Grid.applyCell]
  -- Without codes there is nothing to write, which is what writing none comes to.
  cases hborder : codes.border <;> cases halign : codes.align <;>
    simp [CellCodes.edge, CellCodes.text, hborder, halign, Matrix.write_none]

/-- The places where the format of a cell is read are in the grid. -/
theorem cellFormat_eq (hrows : rows < limit) (hcols : cols < limit) {g : Grid}
    (hg : g.HasSize rows cols) {box : Box} (hbox : box.Inside rows cols) :
    cellFormat limit g box = .ok (g.cellFormat box) := by
  obtain ⟨hrowspan, hcolspan, hrow, hcol⟩ := hbox
  rw [cellFormat, add_eq (by omega), ok_bind, add_eq (by omega), ok_bind,
    read_eq hg.horizontal (by omega) (by omega), ok_bind,
    read_eq hg.horizontal (by omega) (by omega), ok_bind,
    read_eq hg.vertical (by omega) (by omega), ok_bind,
    read_eq hg.vertical (by omega) (by omega), ok_bind,
    read_eq hg.align (by omega) (by omega), ok_bind]
  rfl

-- A box that reaches beyond the grid meets the guard.
example : cellFormat 100 (.blank 1 1) ⟨0, 0, 1, 2⟩ = .error .index := rfl

/-! ## Groups -/

/-- Places the cells of a group of rows. -/
def placeGroup (limit first : Nat) (rows : List Node) : Guarded (List Node × Nat) := do
  let (boxes, width) ← place limit first (rows.map fun row => row.cells.map (·.asked))
  .ok (rows.zipWith (fun row boxes => row.withChildren (Node.withBoxes row.children boxes)) boxes,
    width)

/-- Numbers the rows of all groups from `first` on and places their cells. -/
def placeAll (limit first : Nat) : List Block → Guarded (List Block × Nat × Nat)
  | [] => .ok ([], first, 0)
  | b :: bs => do
    let (rows, width) ← placeGroup limit first b.rows
    let next ← add limit first b.rows.length
    let (more, count, most) ← placeAll limit next bs
    let group := { b.group with firstRow := first, rowCount := b.rows.length }
    .ok (⟨group, rows⟩ :: more, count, max width most)

/-- Writes the formats of a table, its groups and its cells into a grid. -/
def writeFormats (limit : Nat) (format : FormatSpec) (blocks : List Block) (g : Grid) :
    Guarded Grid := do
  let g ← applySpec limit g format 0 g.rows
  let g ← blocks.foldlM
    (fun g b => applySpec limit g b.group.format b.group.firstRow b.group.rowCount) g
  let cells := blocks.flatMap fun b => b.rows.flatMap Node.cells
  cells.foldlM (fun g c => applyCell limit g c.codes c.box) g

theorem placeGroup_eq {first : Nat} {rows : List Node} (hrows : first + rows.length < limit)
    (hcells : 2 * (rows.flatMap Node.cells).length < limit) :
    placeGroup limit first rows = .ok (Node.placeRows first rows) ∧
      (Node.placeRows first rows).2 ≤ 2 * (rows.flatMap Node.cells).length := by
  have hlength : (rows.map fun row => row.cells.map (·.asked)).flatten.length =
      (rows.flatMap Node.cells).length := by
    rw [← List.flatMap_def, ← List.map_flatMap, List.length_map]
  rw [← hlength] at hcells ⊢
  have hcount : first + (rows.map fun row => row.cells.map (·.asked)).length < limit := by
    rwa [List.length_map]
  obtain ⟨hplace, hwidth⟩ := place_eq hcount hcells
  rw [placeGroup, hplace, ok_bind]
  exact ⟨rfl, hwidth⟩

/-- Numbering and placing meet no guard, and a table is at most twice as wide as it has cells. -/
theorem placeAll_eq (bs : List Block) :
    ∀ first : Nat, first + (Block.allRows bs).length < limit →
      2 * (Block.allCells bs).length < limit →
        placeAll limit first bs = .ok (Block.placeAll first bs) ∧
          (Block.placeAll first bs).2.2 ≤ 2 * (Block.allCells bs).length := by
  induction bs with
  | nil => exact fun _ _ _ => ⟨rfl, Nat.zero_le _⟩
  | cons b bs ih =>
    intro first hrows hcells
    rw [Block.allRows_cons, List.length_append] at hrows
    rw [Block.length_allCells_cons] at hcells ⊢
    have hnext : first + b.rows.length < limit := by omega
    have hfew : 2 * (b.rows.flatMap Node.cells).length < limit := by omega
    obtain ⟨hgroup, hwidth⟩ := placeGroup_eq hnext hfew
    obtain ⟨hmore, hmost⟩ := ih (first + b.rows.length) (by omega) (by omega)
    rw [placeAll, hgroup, ok_bind, Block.placeAll]
    dsimp only
    rw [add_eq hnext, ok_bind, hmore, ok_bind]
    exact ⟨rfl, Nat.max_le.mpr
      ⟨hwidth.trans (Nat.mul_le_mul_left 2 (Nat.le_add_right _ _)),
        hmost.trans (Nat.mul_le_mul_left 2 (Nat.le_add_left _ _))⟩⟩

/-- Writing all formats meets no guard, when the groups and the boxes of the cells keep to the rows
and columns of the grid. -/
theorem agrees_writeFormats (hrows : rows + 1 < limit) (hcols : cols + 1 < limit)
    (format : FormatSpec) {blocks : List Block}
    (hgroups : ∀ b ∈ blocks, b.group.firstRow + b.group.rowCount ≤ rows)
    (hcells : ∀ c ∈ Block.allCells blocks, c.box.Inside rows cols) :
    Agrees (·.HasSize rows cols) (writeFormats limit format blocks)
      (Block.writeFormats format blocks) := by
  have htable := agrees_applySpec hrows hcols format (show 0 + rows < limit by omega)
  have hspecs : ∀ b ∈ blocks, Agrees (·.HasSize rows cols)
      (applySpec limit · b.group.format b.group.firstRow b.group.rowCount)
      (·.applySpec b.group.format b.group.firstRow b.group.rowCount) := fun b hb =>
    agrees_applySpec hrows hcols b.group.format (by have := hgroups b hb; omega)
  have hcodes : ∀ c ∈ Block.allCells blocks, Agrees (·.HasSize rows cols)
      (applyCell limit · c.codes c.box) (·.applyCell c.codes c.box) := fun c hc =>
    agrees_applyCell (by omega) (by omega) c.codes (hcells c hc)
  rw [Block.allCells_eq_flatMap] at hcodes
  -- The table's own format is written over as many rows as the grid has.
  have hall := htable.comp ((Agrees.foldlM hspecs).comp (Agrees.foldlM hcodes))
  refine ⟨fun g hg => ?_, fun g hg => ?_⟩
  · rw [writeFormats, Block.writeFormats, hg.rows_eq]
    exact hall.eq_ok g hg
  · rw [Block.writeFormats, hg.rows_eq]
    exact hall.keeps g hg

/-! ## The table -/

/-- Lays out the items of a table's body. -/
def layout? (limit : Nat) (t : Table) (span : Span) (items : List Node) : Guarded (Option Node) :=
  let (captions, blocks) := Block.ofItems items
  if blocks.isEmpty then .ok none
  else do
    let (blocks, rows, cols) ← placeAll limit 0 blocks
    let empty ← blank limit rows cols
    let grid ← writeFormats limit t.format blocks empty
    -- Sorting by role looks nothing up, and its one sum stops at the largest number.
    let withRoles := Block.withRoles t blocks
    let sections := [Role.head, .body, .foot].flatMap fun role => Block.sectionOf role withRoles
    .ok (some (.branch span (.table { t with rows, cols, grid }) (captionOf captions ++ sections)))

end Guarded

/-- Groups whose rows are counted up to `last` do not reach beyond it. -/
theorem Consecutive.le_last {first last : Nat} {blocks : List Block}
    (h : Consecutive first last blocks) :
    first ≤ last ∧ ∀ b ∈ blocks, b.group.firstRow + b.group.rowCount ≤ last := by
  induction blocks generalizing first with
  | nil => exact ⟨Nat.le_of_eq h, by simp⟩
  | cons b bs ih =>
    obtain ⟨hfirst, -, -, hrest⟩ := h
    obtain ⟨hle, hbs⟩ := ih hrest
    exact ⟨by omega, List.forall_mem_cons.mpr ⟨by omega, hbs⟩⟩

namespace Table

/-- The number of rows among the items of a table, and of cells in these rows. -/
def load (items : List Node) : Nat :=
  (items.filter Node.isRow).length + ((items.filter Node.isRow).flatMap Node.cells).length

variable {limit : Nat} {items : List Node}

theorem rows_laidOut (t : Table) (items : List Node) :
    (t.laidOut items).rows = (items.filter Node.isRow).length := by
  have hcount : (t.laidOut items).rows = 0 + (Block.allRows (Block.ofItems items).2).length :=
    Block.count_placeAll _ 0
  rw [hcount, Nat.zero_add, Block.ofItems_rows]

/-- What is known of a table with rows that fits: placing meets no guard, and a word holds the
number of its rows and columns, and one more. -/
theorem placeAll_of_load (hfits : 2 * load items < limit) (hrow : items.filter Node.isRow ≠ [])
    (t : Table) :
    Guarded.placeAll limit 0 (Block.ofItems items).2 =
        .ok (Block.placeAll 0 (Block.ofItems items).2) ∧
      (t.laidOut items).rows + 1 < limit ∧ (t.laidOut items).cols + 1 < limit := by
  have hpos := List.length_pos_iff.mpr hrow
  have hrows := Block.ofItems_rows items
  have hcells : Block.allCells (Block.ofItems items).2 =
      (items.filter Node.isRow).flatMap Node.cells := by rw [Block.allCells, hrows]
  rw [load] at hfits
  have hfew : 0 + (Block.allRows (Block.ofItems items).2).length < limit := by
    rw [hrows]
    omega
  have hnarrow : 2 * (Block.allCells (Block.ofItems items).2).length < limit := by
    rw [hcells]
    omega
  obtain ⟨hplace, hwidth⟩ := Guarded.placeAll_eq (Block.ofItems items).2 0 hfew hnarrow
  have hcols : (t.laidOut items).cols ≤ 2 * (Block.allCells (Block.ofItems items).2).length :=
    hwidth
  rw [hcells] at hcols
  exact ⟨hplace, by rw [rows_laidOut]; omega, by omega⟩

/-- The formats of the table, its groups and its cells are written inside of its grid. -/
theorem agrees_laidOut (t : Table) (hrows : (t.laidOut items).rows + 1 < limit)
    (hcols : (t.laidOut items).cols + 1 < limit) :
    Guarded.Agrees (·.HasSize (t.laidOut items).rows (t.laidOut items).cols)
      (Guarded.writeFormats limit t.format (Block.placed items))
      (Block.writeFormats t.format (Block.placed items)) := by
  refine Guarded.agrees_writeFormats hrows hcols t.format ?_ fun c hc =>
    (wellPlaced_laidOut t items).inside (List.mem_map_of_mem hc)
  have hconsecutive := Block.consecutive_placeAll (Block.ofItems items).2
    (fun b hb => by simpa using (List.mem_filter.mp hb).2) 0
  exact hconsecutive.le_last.2

/-- A table that has groups has rows. -/
theorem rows_ne_nil (h : (Block.ofItems items).2.isEmpty = false) :
    items.filter Node.isRow ≠ [] := by
  intro hnil
  rw [← Block.ofItems_rows, Block.allRows, List.flatMap_eq_nil_iff] at hnil
  obtain ⟨b, hb⟩ := List.exists_mem_of_ne_nil _ (List.isEmpty_eq_false_iff.mp h)
  have hrows : (!b.rows.isEmpty) = true := (List.mem_filter.mp hb).2
  rw [hnil b hb] at hrows
  cases hrows

theorem guarded_layout? (hfits : 2 * load items < limit) (t : Table) (span : Span) :
    Guarded.layout? limit t span items = .ok (t.layout? span items) := by
  rw [Guarded.layout?, layout?]
  dsimp only
  cases hgroups : (Block.ofItems items).2.isEmpty with
  | true => rfl
  | false =>
    obtain ⟨hplace, hrows, hcols⟩ := placeAll_of_load hfits (rows_ne_nil hgroups) t
    have hwrite := (agrees_laidOut t hrows hcols).eq_ok _ (Grid.hasSize_blank _ _)
    simp only [Bool.false_eq_true, if_false]
    rw [hplace, Guarded.ok_bind]
    -- What placing gives are the groups, the rows and the columns of the table that is laid out.
    change (Guarded.blank limit (t.laidOut items).rows (t.laidOut items).cols >>= _) = _
    rw [Guarded.blank_eq hrows hcols, Guarded.ok_bind]
    change (Guarded.writeFormats limit t.format (Block.placed items) _ >>= _) = _
    rw [hwrite, Guarded.ok_bind]
    rfl

/-- Reading the format of a cell of the table meets no guard. -/
theorem guarded_cellFormat (hfits : 2 * load items < limit) (t : Table) {c : Cell}
    (hc : c ∈ Block.allCells (Block.placed items)) :
    Guarded.cellFormat limit (t.laidOut items).grid c.box =
      .ok ((t.laidOut items).grid.cellFormat c.box) := by
  have hinside := (wellPlaced_laidOut t items).inside (List.mem_map_of_mem hc)
  -- A table with a cell has a row for it.
  have hrow : items.filter Node.isRow ≠ [] := by
    have hrowspan := hinside.rowspan_pos
    have hle := hinside.le_rows
    rw [rows_laidOut] at hle
    exact List.ne_nil_of_length_pos (by omega)
  obtain ⟨-, hrows, hcols⟩ := placeAll_of_load hfits hrow t
  have hsize := (agrees_laidOut t hrows hcols).keeps _ (Grid.hasSize_blank _ _)
  exact Guarded.cellFormat_eq (by omega) (by omega) hsize hinside

/-- **Laying out a table never reaches beyond it**, whatever its cells ask for and whatever the
formats say: the run under guards gives what the plain run gives. Neither does reading the format
of any cell of the table that comes of it. Nothing is asked but that a word can hold twice the
number of rows and cells. Each of them takes up more than two bytes, so there is no memory with
addresses below `limit` that holds so many that a word cannot. -/
theorem layout?_unbreached (hfits : 2 * load items < limit) (t : Table) (span : Span) :
    Guarded.layout? limit t span items = .ok (t.layout? span items) ∧
    ∀ n : Node, t.layout? span items = some n → ∃ laid : Table, n.kind = .table laid ∧
      ∀ row ∈ n.tableRows, ∀ c ∈ row.cells,
        Guarded.cellFormat limit laid.grid c.box = .ok (laid.grid.cellFormat c.box) := by
  refine ⟨guarded_layout? hfits t span, fun n hn => ⟨t.laidOut items, kind_layout? hn, ?_⟩⟩
  intro row hrow c hc
  exact guarded_cellFormat hfits t
    (List.mem_flatMap.mpr ⟨row, (tableRows_perm_placed hn).mem_iff.mp hrow, hc⟩)

/-- Rows in two groups, the cells of which ask for as many rows and columns as can be written, and
carry codes for all of their edges. -/
def greedyItems : List Node :=
  let most := 2 ^ 63 - 1
  let codes : CellCodes := ⟨some ⟨[some .bold], true⟩, some ⟨[some .left], true⟩⟩
  let cell : Node := .branch ⟨0, 1⟩ (.cell (.ofExtent most most codes)) [.text ⟨0, 1⟩ "x"]
  let row (width : Nat) : Node := .branch ⟨0, 1⟩ .row (List.replicate width cell)
  let line : Node := .leaf ⟨1, 2⟩
    (.rowGroup { RowGroup.plain with format := ⟨some ⟨[some .double], true⟩, none, none⟩ })
  [row 2, row 3, line, row 1]

theorem layout?_unbreached_greedy :
    2 * load greedyItems < 2 ^ 64 ∧
    Guarded.layout? (2 ^ 64) topAndBottom ⟨0, 2⟩ greedyItems =
      .ok (topAndBottom.layout? ⟨0, 2⟩ greedyItems) ∧
    ∀ n : Node, topAndBottom.layout? ⟨0, 2⟩ greedyItems = some n →
      ∃ laid : Table, n.kind = .table laid ∧ ∀ row ∈ n.tableRows, ∀ c ∈ row.cells,
        Guarded.cellFormat (2 ^ 64) laid.grid c.box = .ok (laid.grid.cellFormat c.box) := by
  have hfits : 2 * load greedyItems < 2 ^ 64 := by decide
  exact ⟨hfits, layout?_unbreached hfits topAndBottom ⟨0, 2⟩⟩

end Table

end Bracemark
