/-
Tables of single cells.

Where every cell asks for one row and one column, placing has nothing to decide. The cells of a
row stand side by side from the first column on, whatever the other rows have
(`place_single`), so a row that is shorter than the others has its cells where they would be
in a table of its own, and no box is cut down.

A table without break lines and without settings has one group of rows, which is its body, so
its cells are those of its rows, each in the place that it was written at
(`Table.layout?_single`).
-/
import Bracemark.Proofs.CellText
import Bracemark.Proofs.Placement
import Bracemark.Proofs.TableLayout

set_option autoImplicit false

namespace Bracemark

/-! ## Placing single cells -/

section

variable {count row col : Nat} {o : Occupancy}

/-- Boxes of one position each, side by side from a column on. -/
def singleBoxes (row col n : Nat) : List Box :=
  (List.range' col n).map fun c => ⟨row, c, 1, 1⟩

theorem singleBoxes_succ (row col n : Nat) :
    singleBoxes row col (n + 1) = ⟨row, col, 1, 1⟩ :: singleBoxes row (col + 1) n := rfl

theorem firstFree_eq_self (h : o.isTaken row col = false) : o.firstFree row col = col := by
  by_contra hne
  have hlt : col < o.firstFree row col := by
    have := o.le_firstFree row col
    omega
  rw [Occupancy.isTaken_of_lt_firstFree (Nat.le_refl col) hlt] at h
  cases h

/-- A single cell gets the column that it comes to, if that is free. -/
theorem nextBox_single (first probe : Nat) (hrow : row < count)
    (hfree : o.isTaken row col = false) :
    nextBox first count probe row col o .single = ⟨first + row, col, 1, 1⟩ := by
  have hroom := o.room_pos probe row col
  rw [firstFree_eq_self hfree] at hroom
  have hrows : clamp 1 (count - row) 1 = 1 := by
    rw [clamp_eq_min (Nat.le_refl 1)]
    omega
  have hcols : clamp 1 (o.room probe row col) 1 = 1 := by
    rw [clamp_eq_min (Nat.le_refl 1)]
    omega
  simp only [nextBox, Extent.single, firstFree_eq_self hfree, hrows, hcols]

/-- The cells of a row stand side by side, and the rows after it are as free as before. -/
theorem placeRow_single (first probe : Nat) (hrow : row < count) (n : Nat) :
    ∀ (col : Nat) (o : Occupancy), o.lines.length = count →
      (∀ c, col ≤ c → o.isTaken row c = false) →
      ∃ stop o', placeRow first count probe row col o (List.replicate n .single) =
          (singleBoxes (first + row) col n, stop, o') ∧
        o'.lines.length = count ∧
        ∀ r < count, row < r → ∀ c, o'.isTaken r c = o.isTaken r c := by
  induction n with
  | zero => exact fun col o hlength _ => ⟨col, o, rfl, hlength, fun _ _ _ _ => rfl⟩
  | succ n ih =>
    intro col o hlength hfree
    have hbox := nextBox_single first probe hrow (hfree col (Nat.le_refl col))
    -- The cell covers its own position and no other one.
    have hcover : ∀ r < count, ∀ c, (o.cover row col 1 1).isTaken r c =
        (o.isTaken r c || decide (row = r ∧ col = c)) := by
      intro r hr c
      rw [Bool.eq_iff_iff, Occupancy.isTaken_cover (by rwa [hlength]), Bool.or_eq_true,
        decide_eq_true_eq]
      refine or_congr_right ⟨fun h => ⟨by omega, by omega⟩, ?_⟩
      rintro ⟨rfl, rfl⟩
      exact ⟨⟨Nat.le_refl _, Nat.lt_succ_self _⟩, Nat.le_refl _, Nat.lt_succ_self _⟩
    obtain ⟨stop, o', hplace, hlength', hrest⟩ := ih (col + 1) (o.cover row col 1 1)
      (by rw [Occupancy.length_cover, hlength]) fun c hc => by
        rw [hcover row hrow, hfree c (by omega)]
        simp
        omega
    refine ⟨stop, o', ?_, hlength', fun r hr hlt c => ?_⟩
    · rw [List.replicate_succ, placeRow]
      simp only [hbox, hplace, singleBoxes_succ]
    · rw [hrest r hr hlt, hcover r hr]
      have : row ≠ r := by omega
      simp [this]

/-- The rows of single cells do not keep each other from any column. -/
theorem placeRows_single (first probe : Nat) (widths : List Nat) : ∀ (row : Nat) (o : Occupancy),
    row + widths.length ≤ count → o.lines.length = count →
    (∀ r < count, row ≤ r → ∀ c, o.isTaken r c = false) →
    (placeRows first count probe row o (widths.map fun n => List.replicate n .single)).1 =
      (widths.zipIdx row).map fun (n, r) => singleBoxes (first + r) 0 n := by
  induction widths with
  | nil => exact fun _ _ _ _ _ => rfl
  | cons n widths ih =>
    intro row o hcount hlength hfree
    have hrow : row < count := by
      rw [List.length_cons] at hcount
      omega
    obtain ⟨stop, o', hplace, hlength', hrest⟩ := placeRow_single first probe
      hrow n 0 o hlength fun c _ => hfree row hrow (Nat.le_refl row) c
    rw [List.map_cons, placeRows, hplace, List.zipIdx_cons, List.map_cons]
    refine congrArg (_ :: ·) (ih (row + 1) o' ?_ hlength' fun r hr hle c => ?_)
    · rw [List.length_cons] at hcount
      omega
    · rw [hrest r hr hle, hfree r hr (by omega)]

/-- **Single cells stand side by side**, each row from the first column on. -/
theorem place_single (first : Nat) (widths : List Nat) :
    (place first (widths.map fun n => List.replicate n .single)).1 =
      widths.zipIdx.map fun (n, r) => singleBoxes (first + r) 0 n := by
  rw [place, List.length_map]
  refine placeRows_single first _ widths 0 _ (by omega) (by simp [Occupancy.free]) fun r _ _ c => ?_
  exact Occupancy.isTaken_free _ r c

end

/-! ## Rows of single cells -/

namespace Node

/-- Where a cell has been placed, and its text. -/
def shown (n : Node) : Option Box × String :=
  (n.cell?.map (·.box), n.plainText)

/-- The node is a row of cells without settings, with these texts. -/
structure IsPlainRow (row : Node) (texts : List String) : Prop where
  kind : row.kind = .row
  cells : ∀ n ∈ row.children, n.kind = .cell .plain
  texts : row.children.map plainText = texts

variable {n row : Node} {ns rows : List Node} {texts : List String} {matrix : List (List String)}

theorem isRow_of_plainRows (h : List.Forall₂ IsPlainRow rows matrix) :
    ∀ n ∈ rows, n.isRow = true := by
  induction h with
  | nil => exact fun _ h => absurd h List.not_mem_nil
  | cons hrow _ ih => exact List.forall_mem_cons.mpr ⟨isRow_iff.mpr hrow.kind, ih⟩

/-- Cells that are placed side by side show where they are, and keep their texts. -/
theorem map_shown_withBoxes (r : Nat) (hcells : ∀ n ∈ ns, n.kind = .cell .plain)
    (htexts : ns.map plainText = texts) (col : Nat) :
    (withBoxes ns (singleBoxes r col ns.length)).map shown =
      (texts.zipIdx col).map fun (s, c) => (some ⟨r, c, 1, 1⟩, s) := by
  induction ns generalizing texts col with
  | nil =>
    subst htexts
    rfl
  | cons n ns ih =>
    obtain ⟨hn, hns⟩ := List.forall_mem_cons.mp hcells
    subst htexts
    have hplain : (n.withKind (.cell { Cell.plain with box := ⟨r, col, 1, 1⟩ })).plainText =
        n.plainText := by
      refine plainText_withKind ?_ rfl
      rw [text?, hn]
    rw [List.length_cons, singleBoxes_succ, withBoxes, hn]
    dsimp only
    rw [List.map_cons, ih hns rfl, List.map_cons, List.zipIdx_cons, List.map_cons, shown, hplain]
    rfl

/-- The cells of a row without settings ask for one position each. -/
theorem asked_of_isPlainRow (h : row.IsPlainRow texts) :
    row.cells.map (·.asked) = List.replicate texts.length .single := by
  rw [← h.texts, cells, List.length_map]
  have hcells := h.cells
  generalize row.children = ns at hcells
  induction ns with
  | nil => rfl
  | cons n ns ih =>
    obtain ⟨hn, hns⟩ := List.forall_mem_cons.mp hcells
    rw [List.filterMap_cons_some (cell?_eq_some.mpr hn), List.map_cons, ih hns, List.length_cons,
      List.replicate_succ]
    rfl

/-- Rows that are given single boxes show these and the texts of their cells. -/
theorem map_shown_zipWith (h : List.Forall₂ IsPlainRow rows matrix) (first : Nat) :
    (rows.zipWith (fun row boxes => row.withChildren (withBoxes row.children boxes))
        (((matrix.map List.length).zipIdx first).map fun (n, r) => singleBoxes r 0 n)).map
        (fun row => row.children.map shown) =
      (matrix.zipIdx first).map fun (texts, r) =>
        texts.zipIdx.map fun (s, c) => (some ⟨r, c, 1, 1⟩, s) := by
  induction h generalizing first with
  | nil => rfl
  | @cons row texts rows matrix hrow _ ih =>
    have hlength : texts.length = row.children.length := by rw [← hrow.texts, List.length_map]
    rw [List.map_cons, List.zipIdx_cons, List.map_cons, List.zipWith_cons_cons, List.map_cons,
      ih (first + 1), List.zipIdx_cons, List.map_cons]
    dsimp only [withChildren, children_mk]
    rw [hlength, map_shown_withBoxes first hrow.cells hrow.texts]

/-- **Rows of cells without settings are placed as they are written.** -/
theorem shown_placeRows (h : List.Forall₂ IsPlainRow rows matrix) :
    (placeRows 0 rows).1.map (fun row => row.children.map shown) =
      matrix.zipIdx.map fun (texts, r) =>
        texts.zipIdx.map fun (s, c) => (some ⟨r, c, 1, 1⟩, s) := by
  have hasked : rows.map (fun row => row.cells.map (·.asked)) =
      (matrix.map List.length).map fun n => List.replicate n .single := by
    induction h with
    | nil => rfl
    | cons hrow _ ih =>
      rw [List.map_cons, asked_of_isPlainRow hrow, ih, List.map_cons, List.map_cons]
  have hplace := place_single 0 (matrix.map List.length)
  simp only [Nat.zero_add] at hplace
  rw [← map_shown_zipWith h 0, ← hplace, ← hasked]
  rfl

end Node

/-! ## The table -/

namespace Block

/-- Without captions and break lines there is one group, with all rows. -/
theorem collect_rows_only (group : RowGroup) {items : List Node}
    (hitems : ∀ n ∈ items, n.kind = .row ∨ n.kind = .null) (rows : List Node) :
    collect group rows items = ([], [⟨group, rows.reverse ++ items.filter Node.isRow⟩]) := by
  induction items generalizing rows with
  | nil => rw [collect, List.filter_nil, List.append_nil]
  | cons n items ih =>
    obtain ⟨hn, hrest⟩ := List.forall_mem_cons.mp hitems
    rw [collect]
    rcases hn with hrow | hnull
    · rw [hrow]
      dsimp only
      rw [ih hrest, List.filter_cons_of_pos (Node.isRow_iff.mpr hrow), List.reverse_cons,
        List.append_assoc, List.singleton_append]
    · rw [hnull]
      dsimp only
      rw [ih hrest, List.filter_cons_of_neg (by simp [Node.isRow, hnull])]

/-- A group that names no role is the body of a table that asks for no head and no foot. -/
theorem sections_single {t : Table} (hhead : t.head = 0) (hfoot : t.foot = 0) {b : Block}
    (hrole : b.group.role = none) :
    ([Role.head, .body, .foot].flatMap fun role => sectionOf role (withRoles t [b])) =
      [.branch (Node.outerSpan [b.node]) (.tableSection .body) [b.node]] := by
  have hbody : t.roleAt 0 1 = .body := by simp [Table.roleAt, hhead, hfoot]
  simp [withRoles, sectionOf, hrole, hbody]

end Block

/-- The node is a table with a row for each row of a matrix, and with each string of the matrix in
a cell that covers one position, in its row and its column. -/
def Node.ShowsMatrix (n : Node) (matrix : List (List String)) : Prop :=
  ∃ t, n.kind = .table t ∧ t.rows = matrix.length ∧
    n.tableRows.map (fun row => row.children.map shown) =
      matrix.zipIdx.map fun (texts, r) => texts.zipIdx.map fun (s, c) => (some ⟨r, c, 1, 1⟩, s)

/-- **A table of rows without settings** has all of them in its body. -/
theorem Table.layout?_single {t : Table} (hhead : t.head = 0) (hfoot : t.foot = 0)
    {items : List Node} {matrix : List (List String)} (hne : matrix ≠ [])
    (hitems : ∀ n ∈ items, n.kind = .row ∨ n.kind = .null)
    (hrows : List.Forall₂ Node.IsPlainRow (items.filter Node.isRow) matrix) (span : Span) :
    ∃ n, t.layout? span items = some n ∧ n.ShowsMatrix matrix := by
  have hsome : (items.filter Node.isRow).isEmpty = false := by
    rw [List.isEmpty_eq_false_iff, ne_eq, ← List.length_eq_zero_iff, hrows.length_eq,
      List.length_eq_zero_iff]
    exact hne
  have hblocks : Block.ofItems items = ([], [⟨.plain, items.filter Node.isRow⟩]) := by
    simp [Block.ofItems, Block.collect_rows_only _ hitems, hsome]
  have hshown := Node.shown_placeRows hrows
  rw [Table.layout?, hblocks]
  simp only [Block.placeAll, List.isEmpty_cons, Bool.false_eq_true, if_false]
  refine ⟨_, rfl, _, rfl, ?_, ?_⟩
  · rw [Nat.zero_add, hrows.length_eq]
  · rw [← hshown, Block.sections_single hhead hfoot rfl]
    exact congrArg _ (List.append_nil _)

end Bracemark
