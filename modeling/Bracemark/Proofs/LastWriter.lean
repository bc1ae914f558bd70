/-
What the grid of a table shows.

A place of the grid shows the last code that is given for it by the table, then by its groups of
rows, then by its cells, each of them in the order of the source (`Table.layout?_showsLast`). The
three kinds of writers meet on the lines: a line between two groups belongs to both, and so does an
edge between two cells. Which of them comes later is all that decides, so the lists of what is said
about a place (`Block.horizontalCodes` and its sisters) are the whole account of it.
-/
import Bracemark.Proofs.GridWriting

set_option autoImplicit false

namespace Bracemark

/-! ## Codes in a string -/

namespace Codes

variable {α : Type}

/-- The code that the text of a format string gives a position: that of the letter there; past the
letters, that of the last one if an asterisk follows it; else none. A dot gives none. -/
def codeInText (decode : Char → Option α) (text : List Char) (index : Nat) : Option α :=
  let letters := text.takeWhile (· ≠ '*')
  let letter := letters[index]?.or (if '*' ∈ text then letters.getLast? else none)
  letter.bind fun c => if c = '.' then none else decode c

/-- Reading a string keeps one code for each letter up to an asterisk. -/
theorem ofChars?_eq_some {decode : Char → Option α} {text : List Char} {codes : Codes α}
    (h : ofChars? decode text = some codes) :
    codes.codes = (text.takeWhile (· ≠ '*')).map (fun c => if c = '.' then none else decode c) ∧
      (codes.repeats = true ↔ '*' ∈ text) := by
  induction text generalizing codes with
  | nil =>
    cases h
    simp
  | cons c cs ih =>
    rw [ofChars?] at h
    by_cases hstar : c = '*'
    · rw [if_pos hstar] at h
      cases h
      simp [hstar]
    · rw [if_neg hstar] at h
      rw [List.takeWhile_cons_of_pos (by simpa using hstar), List.map_cons, List.mem_cons,
        or_iff_right (Ne.symm hstar)]
      by_cases hdot : c = '.'
      · rw [if_pos hdot] at h
        obtain ⟨more, hmore, rfl⟩ := Option.map_eq_some_iff.mp h
        obtain ⟨hcodes, hrepeats⟩ := ih hmore
        exact ⟨by rw [if_pos hdot, ← hcodes], hrepeats⟩
      · rw [if_neg hdot] at h
        obtain ⟨code, hcode, hrest⟩ := Option.bind_eq_some_iff.mp h
        obtain ⟨more, hmore, rfl⟩ := Option.map_eq_some_iff.mp hrest
        obtain ⟨hcodes, hrepeats⟩ := ih hmore
        exact ⟨by rw [if_neg hdot, hcode, ← hcodes], hrepeats⟩

theorem codeAt_of_ofText? {decode : Char → Option α} {raw : String} {codes : Codes α}
    (h : ofText? decode raw = some codes) (index : Nat) :
    codes.codeAt index = codeInText decode (Text.trimBlanks raw.toList) index := by
  obtain ⟨hcodes, hrepeats⟩ := ofChars?_eq_some h
  rw [codeAt, codeInText, hcodes, List.getElem?_map, List.getLast?_map]
  cases hletter : ((Text.trimBlanks raw.toList).takeWhile (· ≠ '*'))[index]? with
  | some c => rfl
  | none =>
    by_cases hstar : '*' ∈ Text.trimBlanks raw.toList
    · simp only [if_pos (hrepeats.mpr hstar), if_pos hstar, Option.map_none, Option.none_or]
      cases ((Text.trimBlanks raw.toList).takeWhile (· ≠ '*')).getLast? <;> rfl
    · simp only [if_neg (mt hrepeats.mp hstar), if_neg hstar, Option.map_none, Option.none_or,
        Option.bind_none]

end Codes

/-! ## What is said about a place -/

namespace Block

/-- What is said about the line above row `line`, in column `col`, from first to last: by the
table, by each group that has the line above, between or below its rows, and by each cell in the
column that begins or ends at the line. -/
def horizontalCodes (format : FormatSpec) (groups : List Block) (line col : Nat) :
    List (Option Border) :=
  [format.horizontalAt line] ++
  (groups.filter fun b =>
      b.group.firstRow ≤ line ∧ line ≤ b.group.firstRow + b.group.rowCount).map
    (fun b => b.group.format.horizontalAt (line - b.group.firstRow)) ++
  ((allCells groups).filter fun c => c.box.col ≤ col ∧ col < c.box.col + c.box.colspan).flatMap
    fun c =>
      (if line = c.box.row then [c.codes.edge 0] else []) ++
        (if line = c.box.row + c.box.rowspan then [c.codes.edge 2] else [])

/-- What is said about the line left of column `line`, in row `row`: by the table, by the group of
the row, and by each cell in the row that begins or ends at the line. -/
def verticalCodes (format : FormatSpec) (groups : List Block) (row line : Nat) :
    List (Option Border) :=
  [format.verticalAt line] ++
  (groups.filter fun b =>
      b.group.firstRow ≤ row ∧ row < b.group.firstRow + b.group.rowCount).map
    (fun b => b.group.format.verticalAt line) ++
  ((allCells groups).filter fun c => c.box.row ≤ row ∧ row < c.box.row + c.box.rowspan).flatMap
    fun c =>
      (if line = c.box.col then [c.codes.edge 3] else []) ++
        (if line = c.box.col + c.box.colspan then [c.codes.edge 1] else [])

/-- What is said about the alignment at a position: by the table, by the group of the row, and by
each cell that covers the position. -/
def alignCodes (format : FormatSpec) (groups : List Block) (row col : Nat) :
    List (Option Align) :=
  [format.alignAt col] ++
  (groups.filter fun b =>
      b.group.firstRow ≤ row ∧ row < b.group.firstRow + b.group.rowCount).map
    (fun b => b.group.format.alignAt col) ++
  ((allCells groups).filter fun c =>
      (c.box.row ≤ row ∧ row < c.box.row + c.box.rowspan) ∧
        c.box.col ≤ col ∧ col < c.box.col + c.box.colspan).map fun c => c.codes.text

end Block

/-- The grid shows at each of its places the last code that is given there, and nothing outside
of it. -/
structure Grid.ShowsLast (g : Grid) (rows cols : Nat) (format : FormatSpec) (groups : List Block) :
    Prop where
  horizontal (line col : Nat) : g.horizontal? line col =
    if line ≤ rows ∧ col < cols then lastGiven (Block.horizontalCodes format groups line col)
    else none
  vertical (row line : Nat) : g.vertical? row line =
    if row < rows ∧ line ≤ cols then lastGiven (Block.verticalCodes format groups row line)
    else none
  align (row col : Nat) : g.align? row col =
    if row < rows ∧ col < cols then lastGiven (Block.alignCodes format groups row col)
    else none

/-! ## Writing all formats -/

/-- The codes of what is picked from a list are those that the rest leaves. -/
theorem lastGiven_filter_flatMap {α β : Type} (p : β → Prop) [DecidablePred p]
    (codes : β → List (Option α)) (xs : List β) :
    lastGiven ((xs.filter p).flatMap codes) =
      lastGiven (xs.map fun x => if p x then lastGiven (codes x) else none) := by
  rw [lastGiven_flatMap, lastGiven_filter_map]
  simp only [decide_eq_true_eq]

/-- Two codes that are said under two conditions. -/
theorem lastGiven_either {α : Type} (p q : Prop) [Decidable p] [Decidable q]
    (code code' : Option α) :
    lastGiven ((if p then [code] else []) ++ if q then [code'] else []) =
      lastGiven [if p then code else none, if q then code' else none] := by
  rw [lastGiven_append, lastGiven_cons, lastGiven_singleton]
  split_ifs <;> simp

namespace Block

variable {rows cols : Nat}

theorem lastGiven_horizontalCodes (format : FormatSpec) (groups : List Block) (line col : Nat) :
    lastGiven (horizontalCodes format groups line col) =
      (lastGiven ((allCells groups).map fun c => (c.codes.strokes c.box).horizontal line col)).or
        ((lastGiven (groups.map fun b =>
          (b.group.format.strokes b.group.firstRow b.group.rowCount).horizontal line col)).or
          (format.horizontalAt line)) := by
  rw [horizontalCodes, lastGiven_append, lastGiven_append, lastGiven_singleton,
    lastGiven_filter_flatMap, lastGiven_filter_map]
  simp only [lastGiven_either, decide_eq_true_eq, CellCodes.strokes, FormatSpec.strokes]

theorem lastGiven_verticalCodes (format : FormatSpec) (groups : List Block) (row line : Nat) :
    lastGiven (verticalCodes format groups row line) =
      (lastGiven ((allCells groups).map fun c => (c.codes.strokes c.box).vertical row line)).or
        ((lastGiven (groups.map fun b =>
          (b.group.format.strokes b.group.firstRow b.group.rowCount).vertical row line)).or
          (format.verticalAt line)) := by
  rw [verticalCodes, lastGiven_append, lastGiven_append, lastGiven_singleton,
    lastGiven_filter_flatMap, lastGiven_filter_map]
  simp only [lastGiven_either, decide_eq_true_eq, CellCodes.strokes, FormatSpec.strokes]

theorem lastGiven_alignCodes (format : FormatSpec) (groups : List Block) (row col : Nat) :
    lastGiven (alignCodes format groups row col) =
      (lastGiven ((allCells groups).map fun c => (c.codes.strokes c.box).align row col)).or
        ((lastGiven (groups.map fun b =>
          (b.group.format.strokes b.group.firstRow b.group.rowCount).align row col)).or
          (format.alignAt col)) := by
  rw [alignCodes, lastGiven_append, lastGiven_append, lastGiven_singleton,
    lastGiven_filter_map, lastGiven_filter_map]
  simp only [decide_eq_true_eq, CellCodes.strokes, FormatSpec.strokes, ← ite_and]

/-- All formats together write the last codes that are given. -/
theorem writes_writeFormats (format : FormatSpec) (groups : List Block) :
    Grid.Writes rows cols (writeFormats format groups)
      { horizontal := fun line col => lastGiven (horizontalCodes format groups line col)
        vertical := fun row line => lastGiven (verticalCodes format groups row line)
        align := fun row col => lastGiven (alignCodes format groups row col) } := by
  have htable : Grid.Writes rows cols _ _ := Grid.writes_applySpec format 0 rows
  have hgroups : Grid.Writes rows cols _ _ := Grid.Writes.foldl (fun b : Block =>
    Grid.writes_applySpec b.group.format b.group.firstRow b.group.rowCount) groups
  have hcells : Grid.Writes rows cols _ _ := Grid.Writes.foldl (fun c : Cell =>
    Grid.writes_applyCell c.codes c.box) (allCells groups)
  -- The table's own format lies over all rows, so it speaks about every place.
  refine ((htable.comp hgroups).comp hcells).congr (fun g hg => ?_)
    (fun line hline col => ?_) (fun row hrow line => ?_) (fun row hrow col => ?_)
  · rw [writeFormats, hg.rows_eq, allCells_eq_flatMap]
  · have hall : (format.strokes 0 rows).horizontal line col = format.horizontalAt line :=
      if_pos (by omega)
    refine Eq.trans ?_ (lastGiven_horizontalCodes format groups line col).symm
    rw [← hall, Strokes.followedBy, Strokes.followedBy, Strokes.ofRounds, Strokes.ofRounds]
  · have hall : (format.strokes 0 rows).vertical row line = format.verticalAt line :=
      if_pos (by omega)
    refine Eq.trans ?_ (lastGiven_verticalCodes format groups row line).symm
    rw [← hall, Strokes.followedBy, Strokes.followedBy, Strokes.ofRounds, Strokes.ofRounds]
  · have hall : (format.strokes 0 rows).align row col = format.alignAt col :=
      if_pos (by omega)
    refine Eq.trans ?_ (lastGiven_alignCodes format groups row col).symm
    rw [← hall, Strokes.followedBy, Strokes.followedBy, Strokes.ofRounds, Strokes.ofRounds]

theorem showsLast_writeFormats (format : FormatSpec) (groups : List Block) (rows cols : Nat) :
    (writeFormats format groups (.blank rows cols)).ShowsLast rows cols format groups := by
  have hblank := Grid.hasSize_blank rows cols
  have hwrites : Grid.Writes rows cols _ _ := writes_writeFormats format groups
  have hsize := hwrites.hasSize _ hblank
  refine ⟨fun line col => ?_, fun row line => ?_, fun row col => ?_⟩
  · by_cases hin : line ≤ rows ∧ col < cols
    · have hempty : (Grid.blank rows cols).horizontal? line col = none := Matrix.get?_blank _ _ _ _
      rw [if_pos hin, hwrites.horizontal _ hblank line hin.1 col hin.2, hempty, Option.or_none]
    · rw [if_neg hin]
      exact hsize.horizontal.get?_outside (by omega)
  · by_cases hin : row < rows ∧ line ≤ cols
    · have hempty : (Grid.blank rows cols).vertical? row line = none := Matrix.get?_blank _ _ _ _
      rw [if_pos hin, hwrites.vertical _ hblank row hin.1 line hin.2, hempty, Option.or_none]
    · rw [if_neg hin]
      exact hsize.vertical.get?_outside (by omega)
  · by_cases hin : row < rows ∧ col < cols
    · have hempty : (Grid.blank rows cols).align? row col = none := Matrix.get?_blank _ _ _ _
      rw [if_pos hin, hwrites.align _ hblank row hin.1 col hin.2, hempty, Option.or_none]
    · rw [if_neg hin]
      exact hsize.align.get?_outside hin

end Block

/-! ## The table -/

namespace Table

variable {t : Table} {span : Span} {items : List Node} {n : Node}

/-- **The grid of a table shows the last code that is given for each of its places**: the table
speaks first, then its groups of rows, then its cells, groups and cells in the order of the
source. Those groups are the ones in the sections of the table. What a format string says at a
position is read off its text. -/
theorem layout?_showsLast (hn : t.layout? span items = some n) :
    (∃ laid : Table, n.kind = .table laid ∧
      n.tableGroups.Perm ((Block.placed items).map Block.node) ∧
      Consecutive 0 laid.rows (Block.placed items) ∧
      laid.grid.ShowsLast laid.rows laid.cols t.format (Block.placed items)) ∧
    ∀ {α : Type} (decode : Char → Option α) (raw : String) (codes : Codes α),
      Codes.ofText? decode raw = some codes → ∀ index : Nat,
        codes.codeAt index = Codes.codeInText decode (Text.trimBlanks raw.toList) index := by
  refine ⟨⟨t.laidOut items, kind_layout? hn, tableGroups_perm hn, ?_, ?_⟩, ?_⟩
  · refine Block.consecutive_placeAll _ (fun b hb => ?_) 0
    simpa using (List.mem_filter.mp hb).2
  · exact Block.showsLast_writeFormats t.format (Block.placed items) _ _
  · exact fun decode raw codes h => Codes.codeAt_of_ofText? h

/-- A table with codes for all of its lines and columns. -/
def ruledTable : Table :=
  ⟨⟨some ⟨[some .single], true⟩, some ⟨[none, some .double], false⟩, some ⟨[some .center], true⟩⟩,
    0, 0, true, 0, 0, .blank 0 0, ""⟩

/-- Rows in two groups, the second of which has a code for the line above it. A cell reaches down
beside cells that have codes for the edges that they share with it. -/
def ruledItems : List Node :=
  let cell (rows cols : Nat) (border : List (Option Border)) : Node :=
    .branch ⟨0, 1⟩ (.cell (.ofExtent rows cols ⟨some ⟨border, false⟩, none⟩))
      [.text ⟨0, 1⟩ "x"]
  let row (cells : List Node) : Node := .branch ⟨0, 1⟩ .row cells
  let ruled : RowGroup := { RowGroup.plain with format := ⟨some ⟨[some .bold], false⟩, none, none⟩ }
  [row [cell 2 1 [some .none, some .bold, some .double], cell 1 2 [none, none, some .single]],
    row [cell 1 1 [some .double, none, none, some .none], cell 1 1 []],
    .leaf ⟨1, 2⟩ (.rowGroup ruled),
    row [cell 1 1 []]]

theorem layout?_showsLast_ruled :
    ∃ n, ruledTable.layout? ⟨0, 2⟩ ruledItems = some n ∧
    (∃ laid : Table, n.kind = .table laid ∧
      n.tableGroups.Perm ((Block.placed ruledItems).map Block.node) ∧
      Consecutive 0 laid.rows (Block.placed ruledItems) ∧
      laid.grid.ShowsLast laid.rows laid.cols ruledTable.format (Block.placed ruledItems)) ∧
    ∀ {α : Type} (decode : Char → Option α) (raw : String) (codes : Codes α),
      Codes.ofText? decode raw = some codes → ∀ index : Nat,
        codes.codeAt index = Codes.codeInText decode (Text.trimBlanks raw.toList) index := by
  have hsome : (ruledTable.layout? ⟨0, 2⟩ ruledItems).isSome = true := by decide
  obtain ⟨n, hn⟩ := Option.isSome_iff_exists.mp hsome
  exact ⟨n, hn, layout?_showsLast hn⟩

-- Down the first column: the cell that reaches down covers the second line, and its lower edge
-- wins over the code that the second group has for the line between the groups.
example :
    (List.range 4).map ((ruledTable.laidOut ruledItems).grid.horizontal? · 0) =
      [some .none, some .single, some .double, some .single] := by
  decide

end Table

end Bracemark
