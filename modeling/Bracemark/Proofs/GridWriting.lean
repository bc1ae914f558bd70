/-
What a step writes into a grid.

The grid of a table is filled by steps that run over one another. A step is described by the codes
that it writes, place by place, with none where it leaves what was there (`Matrix.Writes`,
`Grid.Writes`). Of steps that follow one another, the last one that gives a place a code has its way
there (`Matrix.Writes.foldl`), so a loop is described as soon as its body is, and the three kinds
of format strings are each opened once.
-/
import Bracemark.Proofs.TableBoxes

set_option autoImplicit false

namespace Bracemark

/-! ## The last code that is given -/

section

variable {α β : Type}

/-- The last code of a sequence that is given at all. -/
def lastGiven (codes : List (Option α)) : Option α :=
  codes.reduceOption.getLast?

@[simp] theorem lastGiven_nil : lastGiven ([] : List (Option α)) = none := rfl

@[simp] theorem lastGiven_singleton (code : Option α) : lastGiven [code] = code := by
  cases code <;> rfl

theorem lastGiven_append (xs ys : List (Option α)) :
    lastGiven (xs ++ ys) = (lastGiven ys).or (lastGiven xs) := by
  rw [lastGiven, List.reduceOption_append, List.getLast?_append, lastGiven, lastGiven]

theorem lastGiven_cons (code : Option α) (codes : List (Option α)) :
    lastGiven (code :: codes) = (lastGiven codes).or code := by
  rw [← List.singleton_append, lastGiven_append, lastGiven_singleton]

theorem lastGiven_eq_none {codes : List (Option α)} (h : ∀ code ∈ codes, code = none) :
    lastGiven codes = none := by
  induction codes with
  | nil => rfl
  | cons code codes ih =>
    obtain ⟨hcode, hcodes⟩ := List.forall_mem_cons.mp h
    rw [lastGiven_cons, ih hcodes, hcode, Option.or_none]

/-- What gives nothing may be left out. -/
theorem lastGiven_filter_map (p : β → Bool) (code : β → Option α) (xs : List β) :
    lastGiven ((xs.filter p).map code) =
      lastGiven (xs.map fun x => if p x then code x else none) := by
  induction xs with
  | nil => rfl
  | cons x xs ih =>
    by_cases hx : p x = true
    · rw [List.filter_cons_of_pos hx, List.map_cons, List.map_cons, lastGiven_cons, lastGiven_cons,
        ih, if_pos hx]
    · rw [List.filter_cons_of_neg hx, List.map_cons, lastGiven_cons, ih, if_neg hx, Option.or_none]

theorem lastGiven_flatMap (codes : β → List (Option α)) (xs : List β) :
    lastGiven (xs.flatMap codes) = lastGiven (xs.map fun x => lastGiven (codes x)) := by
  induction xs with
  | nil => rfl
  | cons x xs ih => rw [List.flatMap_cons, lastGiven_append, ih, List.map_cons, lastGiven_cons]

theorem Grid.mem_indices {first count index : Nat} :
    index ∈ Grid.indices first count ↔ first ≤ index ∧ index < first + count := by
  simp only [Grid.indices, List.mem_map, List.mem_range]
  constructor
  · rintro ⟨i, hi, rfl⟩
    omega
  · rintro ⟨hfirst, hlast⟩
    exact ⟨index - first, by omega, by omega⟩

/-- One index among some of them gives a code where it is met. -/
theorem lastGiven_indices (first count : Nat) (code : Nat → Option α) (index : Nat) :
    lastGiven ((Grid.indices first count).map fun i => if index = i then code i else none) =
      if first ≤ index ∧ index < first + count then code index else none := by
  induction count with
  | zero =>
    rw [if_neg (by omega)]
    rfl
  | succ count ih =>
    have hsplit : Grid.indices first (count + 1) = Grid.indices first count ++ [first + count] := by
      rw [Grid.indices, List.range_succ, List.map_append, Grid.indices, List.map_singleton]
    rw [hsplit, List.map_append, lastGiven_append, ih, List.map_singleton, lastGiven_singleton]
    by_cases hlast : index = first + count
    · rw [if_pos hlast, if_neg (by omega), if_pos (by omega), hlast, Option.or_none]
    · rw [if_neg hlast, Option.none_or]
      exact if_congr (by omega) rfl rfl

end

/-! ## Steps on matrices -/

namespace Matrix

variable {α β : Type} {rows cols : Nat}

/-- The matrix has so many rows and columns. -/
structure HasSize (m : Matrix α) (rows cols : Nat) : Prop where
  length_eq : m.length = rows
  length_line : ∀ line ∈ m, line.length = cols

theorem hasSize_blank (rows cols : Nat) : (blank rows cols : Matrix α).HasSize rows cols where
  length_eq := List.length_replicate
  length_line line hline := by
    rw [List.eq_of_mem_replicate hline]
    exact List.length_replicate

theorem get?_blank (rows cols row col : Nat) :
    (blank rows cols : Matrix α).get? row col = none := by
  simp only [get?, blank, List.getElem?_replicate]
  by_cases hrow : row < rows
  · rw [if_pos hrow, Option.bind_some, List.getElem?_replicate]
    split <;> rfl
  · rw [if_neg hrow]
    rfl

variable {m : Matrix α}

/-- There is a line for every row, and a place in it for every column. -/
theorem HasSize.exists_place (h : m.HasSize rows cols) {row col : Nat} (hrow : row < rows)
    (hcol : col < cols) :
    ∃ entries code, m[row]? = some entries ∧ entries.length = cols ∧ entries[col]? = some code := by
  have hlt : row < m.length := h.length_eq ▸ hrow
  have hlength := h.length_line m[row] (List.getElem_mem hlt)
  exact ⟨m[row], _, List.getElem?_eq_getElem hlt, hlength,
    List.getElem?_eq_getElem (hlength ▸ hcol)⟩

/-- Matrices of one size are equal if they have the same codes. -/
theorem HasSize.ext {m' : Matrix α} (h : m.HasSize rows cols) (h' : m'.HasSize rows cols)
    (heq : ∀ row < rows, ∀ col < cols, m.get? row col = m'.get? row col) : m = m' := by
  refine List.ext_getElem (h.length_eq.trans h'.length_eq.symm) fun row hrow hrow' => ?_
  have hlength := h.length_line m[row] (List.getElem_mem hrow)
  have hlength' := h'.length_line m'[row] (List.getElem_mem hrow')
  refine List.ext_getElem (hlength.trans hlength'.symm) fun col hcol hcol' => ?_
  have hget := heq row (h.length_eq ▸ hrow) col (hlength ▸ hcol)
  rwa [get?, get?, List.getElem?_eq_getElem hrow, List.getElem?_eq_getElem hrow',
    Option.bind_some, Option.bind_some, List.getElem?_eq_getElem hcol,
    List.getElem?_eq_getElem hcol', Option.join_some, Option.join_some] at hget

/-- There is nothing outside of a matrix. -/
theorem HasSize.get?_outside (h : m.HasSize rows cols) {row col : Nat}
    (hout : ¬(row < rows ∧ col < cols)) : m.get? row col = none := by
  rw [get?]
  cases hline : m[row]? with
  | none => rfl
  | some line =>
    obtain ⟨hrow, rfl⟩ := List.getElem?_eq_some_iff.mp hline
    have hlength := h.length_line m[row] (List.getElem_mem hrow)
    rw [Option.bind_some, List.getElem?_eq_none (by have := h.length_eq; omega)]
    rfl

/-- The step keeps the size of a matrix and writes the given codes into it. Where none is given,
what was there stays. -/
structure Writes (rows cols : Nat) (step : Matrix α → Matrix α) (codes : Nat → Nat → Option α) :
    Prop where
  hasSize : ∀ m, m.HasSize rows cols → (step m).HasSize rows cols
  get?_eq : ∀ m, m.HasSize rows cols → ∀ row < rows, ∀ col < cols,
    (step m).get? row col = (codes row col).or (m.get? row col)

theorem Writes.congr {step : Matrix α → Matrix α} {codes codes' : Nat → Nat → Option α}
    (h : Writes rows cols step codes)
    (heq : ∀ row < rows, ∀ col < cols, codes row col = codes' row col) :
    Writes rows cols step codes' where
  hasSize := h.hasSize
  get?_eq m hm row hrow col hcol := by rw [h.get?_eq m hm row hrow col hcol, heq row hrow col hcol]

theorem Writes.id : Writes rows cols (fun m : Matrix α => m) fun _ _ => none where
  hasSize _ hm := hm
  get?_eq _ _ _ _ _ _ := (Option.none_or).symm

theorem Writes.comp {first second : Matrix α → Matrix α} {codes codes' : Nat → Nat → Option α}
    (h : Writes rows cols first codes) (h' : Writes rows cols second codes') :
    Writes rows cols (fun m => second (first m))
      fun row col => (codes' row col).or (codes row col) where
  hasSize m hm := h'.hasSize _ (h.hasSize m hm)
  get?_eq m hm row hrow col hcol := by
    rw [h'.get?_eq _ (h.hasSize m hm) row hrow col hcol, h.get?_eq m hm row hrow col hcol,
      Option.or_assoc]

/-- A loop writes the last code that one of its rounds gives. -/
theorem Writes.foldl {step : Matrix α → β → Matrix α} {codes : β → Nat → Nat → Option α}
    (h : ∀ x, Writes rows cols (step · x) (codes x)) (xs : List β) :
    Writes rows cols (fun m => xs.foldl step m)
      fun row col => lastGiven (xs.map fun x => codes x row col) := by
  induction xs with
  | nil => exact .id
  | cons x xs ih =>
    refine ((h x).comp ih).congr fun row _ col _ => ?_
    rw [List.map_cons, lastGiven_cons]

/-- Steps that write the same codes are the same. -/
theorem Writes.unique {step step' : Matrix α → Matrix α} {codes : Nat → Nat → Option α}
    (h : Writes rows cols step codes) (h' : Writes rows cols step' codes)
    (hm : m.HasSize rows cols) : step m = step' m :=
  (h.hasSize m hm).ext (h'.hasSize m hm) fun row hrow col hcol => by
    rw [h.get?_eq m hm row hrow col hcol, h'.get?_eq m hm row hrow col hcol]

/-- A change to one line that writes a code for each of its columns. -/
theorem writes_modify (row : Nat) {change : List (Option α) → List (Option α)}
    {along : Nat → Option α}
    (hlength : ∀ entries, entries.length = cols → (change entries).length = cols)
    (hget : ∀ entries, entries.length = cols → ∀ col < cols,
      (change entries)[col]? = entries[col]?.map fun old => (along col).or old) :
    Writes rows cols (·.modify row change) fun r c => if r = row then along c else none where
  hasSize m hm := by
    refine ⟨by rw [List.length_modify, hm.length_eq], fun line hline => ?_⟩
    obtain ⟨r, hr, rfl⟩ := List.mem_iff_getElem.mp hline
    rw [List.length_modify] at hr
    have hline := hm.length_line m[r] (List.getElem_mem hr)
    rw [List.getElem_modify]
    split
    · exact hlength _ hline
    · exact hline
  get?_eq m hm r hr c hc := by
    obtain ⟨entries, old, hentries, hlength, hold⟩ := hm.exists_place hr hc
    have hbefore : m.get? r c = old := by
      rw [get?, hentries, Option.bind_some, hold]
      rfl
    rw [hbefore, get?, List.getElem?_modify, hentries]
    by_cases hrow : row = r
    · simp [hrow, hget entries hlength c hc, hold]
    · simp [hrow, Ne.symm hrow, hold]

theorem writes_write (row col : Nat) (code : Option α) :
    Writes rows cols (·.write row col code) fun r c =>
      if r = row then (if c = col then code else none) else none := by
  refine writes_modify row (fun entries h => by rw [List.length_modify, h])
    fun entries h c hc => ?_
  rw [List.getElem?_modify]
  cases entries[c]? with
  | none => rfl
  | some old =>
    by_cases hcol : col = c
    · simp [hcol]
    · simp [hcol, Ne.symm hcol]

theorem write_none (m : Matrix α) (row col : Nat) : m.write row col none = m := by
  simp only [write, Option.none_or]
  exact (congrArg (m.modify row ·) (funext (List.modify_id col))).trans (List.modify_id row m)

theorem writeRow_none (m : Matrix α) (row : Nat) : m.writeRow row none = m := by
  simp only [writeRow, Option.none_or]
  exact (congrArg (m.modify row ·) (funext List.map_id)).trans (List.modify_id row m)

theorem writes_writeRow (row : Nat) (code : Option α) :
    Writes rows cols (·.writeRow row code) fun r _ => if r = row then code else none :=
  writes_modify row (fun entries h => by rw [List.length_map, h])
    fun entries _ c _ => List.getElem?_map

theorem writes_writeAlong (row : Nat) (codes : Codes α) :
    Writes rows cols (·.writeAlong row (codes.expand cols)) fun r c =>
      if r = row then codes.codeAt c else none := by
  refine writes_modify row (fun entries h => ?_) fun entries h c hc => ?_
  · rw [List.length_zipWith, Codes.length_expand, h, Nat.min_self]
  · rw [List.getElem?_zipWith, Codes.getElem?_expand, if_pos hc]
    cases entries[c]? <;> rfl

/-- A row may be written entry by entry. -/
theorem writes_entries (row : Nat) (codes : Codes α) :
    Writes rows cols
      (fun m => (Grid.indices 0 cols).foldl (fun m col => m.write row col (codes.codeAt col)) m)
      fun r c => if r = row then codes.codeAt c else none := by
  refine (Writes.foldl (fun col => writes_write row col (codes.codeAt col)) _).congr
    fun r _ c hc => ?_
  by_cases hr : r = row
  · simp only [if_pos hr, lastGiven_indices]
    exact if_pos (by omega)
  · simp only [if_neg hr]
    exact lastGiven_eq_none (by simp)

end Matrix

/-! ## Steps on grids -/

/-- The codes that a step writes into a grid: on the line above each row, on the line left of each
column, and at each position. -/
structure Strokes where
  horizontal : Nat → Nat → Option Border
  vertical : Nat → Nat → Option Border
  align : Nat → Nat → Option Align

namespace Strokes

/-- The codes of two steps: where the second one gives none, those of the first. -/
def followedBy (codes codes' : Strokes) : Strokes where
  horizontal line col := (codes'.horizontal line col).or (codes.horizontal line col)
  vertical row line := (codes'.vertical row line).or (codes.vertical row line)
  align row col := (codes'.align row col).or (codes.align row col)

/-- The codes of a loop: the last ones that one of its rounds gives. -/
def ofRounds {β : Type} (codes : β → Strokes) (xs : List β) : Strokes where
  horizontal line col := lastGiven (xs.map fun x => (codes x).horizontal line col)
  vertical row line := lastGiven (xs.map fun x => (codes x).vertical row line)
  align row col := lastGiven (xs.map fun x => (codes x).align row col)

theorem ofRounds_cons {β : Type} (codes : β → Strokes) (x : β) (xs : List β) :
    ofRounds codes (x :: xs) = (codes x).followedBy (ofRounds codes xs) := by
  simp only [ofRounds, followedBy, List.map_cons, lastGiven_cons]

end Strokes

namespace Grid

variable {rows cols : Nat} {β : Type}

/-- The grid has so many rows and columns. -/
structure HasSize (g : Grid) (rows cols : Nat) : Prop where
  rows_eq : g.rows = rows
  cols_eq : g.cols = cols
  horizontal : g.horizontal.HasSize (rows + 1) cols
  vertical : g.vertical.HasSize rows (cols + 1)
  align : g.align.HasSize rows cols

theorem hasSize_blank (rows cols : Nat) : (blank rows cols).HasSize rows cols :=
  ⟨rfl, rfl, Matrix.hasSize_blank _ _, Matrix.hasSize_blank _ _, Matrix.hasSize_blank _ _⟩

/-- The step keeps the size of a grid and writes the given codes into it. -/
structure Writes (rows cols : Nat) (step : Grid → Grid) (codes : Strokes) : Prop where
  hasSize : ∀ g, g.HasSize rows cols → (step g).HasSize rows cols
  horizontal : ∀ g, g.HasSize rows cols → ∀ line ≤ rows, ∀ col < cols,
    (step g).horizontal? line col = (codes.horizontal line col).or (g.horizontal? line col)
  vertical : ∀ g, g.HasSize rows cols → ∀ row < rows, ∀ line ≤ cols,
    (step g).vertical? row line = (codes.vertical row line).or (g.vertical? row line)
  align : ∀ g, g.HasSize rows cols → ∀ row < rows, ∀ col < cols,
    (step g).align? row col = (codes.align row col).or (g.align? row col)

/-- A step on a grid whose three matrices are written one by one. -/
theorem writes_of_matrices {step : Grid → Grid} {codes : Strokes}
    (h : ∀ g, g.HasSize rows cols → ∃ horizontal vertical align,
      step g = { g with
        horizontal := horizontal g.horizontal
        vertical := vertical g.vertical
        align := align g.align } ∧
      Matrix.Writes (rows + 1) cols horizontal codes.horizontal ∧
      Matrix.Writes rows (cols + 1) vertical codes.vertical ∧
      Matrix.Writes rows cols align codes.align) : Writes rows cols step codes where
  hasSize g hg := by
    obtain ⟨_, _, _, hstep, hh, hv, ha⟩ := h g hg
    rw [hstep]
    exact ⟨hg.rows_eq, hg.cols_eq, hh.hasSize _ hg.horizontal, hv.hasSize _ hg.vertical,
      ha.hasSize _ hg.align⟩
  horizontal g hg line hline col hcol := by
    obtain ⟨_, _, _, hstep, hh, -, -⟩ := h g hg
    rw [hstep]
    exact hh.get?_eq _ hg.horizontal line (by omega) col hcol
  vertical g hg row hrow line hline := by
    obtain ⟨_, _, _, hstep, -, hv, -⟩ := h g hg
    rw [hstep]
    exact hv.get?_eq _ hg.vertical row hrow line (by omega)
  align g hg row hrow col hcol := by
    obtain ⟨_, _, _, hstep, -, -, ha⟩ := h g hg
    rw [hstep]
    exact ha.get?_eq _ hg.align row hrow col hcol

theorem Writes.congr {step step' : Grid → Grid} {codes codes' : Strokes}
    (h : Writes rows cols step codes)
    (hstep : ∀ g : Grid, g.HasSize rows cols → step' g = step g)
    (hh : ∀ line ≤ rows, ∀ col, codes.horizontal line col = codes'.horizontal line col)
    (hv : ∀ row < rows, ∀ line, codes.vertical row line = codes'.vertical row line)
    (ha : ∀ row < rows, ∀ col, codes.align row col = codes'.align row col) :
    Writes rows cols step' codes' where
  hasSize g hg := hstep g hg ▸ h.hasSize g hg
  horizontal g hg line hline col hcol := by
    rw [hstep g hg, h.horizontal g hg line hline col hcol, hh line hline]
  vertical g hg row hrow line hline := by
    rw [hstep g hg, h.vertical g hg row hrow line hline, hv row hrow]
  align g hg row hrow col hcol := by
    rw [hstep g hg, h.align g hg row hrow col hcol, ha row hrow]

theorem Writes.comp {first second : Grid → Grid} {codes codes' : Strokes}
    (h : Writes rows cols first codes) (h' : Writes rows cols second codes') :
    Writes rows cols (fun g => second (first g)) (codes.followedBy codes') where
  hasSize g hg := h'.hasSize _ (h.hasSize g hg)
  horizontal g hg line hline col hcol := by
    rw [h'.horizontal _ (h.hasSize g hg) line hline col hcol, h.horizontal g hg line hline col hcol,
      ← Option.or_assoc]
    rfl
  vertical g hg row hrow line hline := by
    rw [h'.vertical _ (h.hasSize g hg) row hrow line hline, h.vertical g hg row hrow line hline,
      ← Option.or_assoc]
    rfl
  align g hg row hrow col hcol := by
    rw [h'.align _ (h.hasSize g hg) row hrow col hcol, h.align g hg row hrow col hcol,
      ← Option.or_assoc]
    rfl

/-- A loop writes the last codes that one of its rounds gives. -/
theorem Writes.foldl {step : Grid → β → Grid} {codes : β → Strokes}
    (h : ∀ x, Writes rows cols (step · x) (codes x)) (xs : List β) :
    Writes rows cols (fun g => xs.foldl step g) (.ofRounds codes xs) := by
  induction xs with
  | nil =>
    exact ⟨fun _ hg => hg, fun _ _ _ _ _ _ => Option.none_or.symm,
      fun _ _ _ _ _ _ => Option.none_or.symm, fun _ _ _ _ _ _ => Option.none_or.symm⟩
  | cons x xs ih =>
    rw [Strokes.ofRounds_cons]
    exact (h x).comp ih

end Grid

/-! ## The format of a table or a group -/

namespace FormatSpec

/-- The code for a line between rows. -/
def horizontalAt (spec : FormatSpec) (index : Nat) : Option Border :=
  spec.horizontal.bind fun codes => codes.codeAt index

/-- The code for a line between columns. -/
def verticalAt (spec : FormatSpec) (index : Nat) : Option Border :=
  spec.vertical.bind fun codes => codes.codeAt index

/-- The code for a column. -/
def alignAt (spec : FormatSpec) (index : Nat) : Option Align :=
  spec.align.bind fun codes => codes.codeAt index

/-- What a format writes for the rows from `first` on, `count` of them. The lines between rows are
counted from the first of these rows on, and the last of them lies below the rows. -/
def strokes (spec : FormatSpec) (first count : Nat) : Strokes where
  horizontal line _ :=
    if first ≤ line ∧ line ≤ first + count then spec.horizontalAt (line - first) else none
  vertical row line := if first ≤ row ∧ row < first + count then spec.verticalAt line else none
  align row col := if first ≤ row ∧ row < first + count then spec.alignAt col else none

end FormatSpec

namespace Matrix

variable {α : Type} {rows cols : Nat}

/-- A string that may be absent writes what it writes if it is there. -/
theorem Writes.optional {step : Codes α → Matrix α → Matrix α} {reached : Nat → Nat → Prop}
    [∀ row col, Decidable (reached row col)] {index : Nat → Nat → Nat}
    (h : ∀ codes, Writes rows cols (step codes) fun row col =>
      if reached row col then codes.codeAt (index row col) else none) (codes? : Option (Codes α)) :
    Writes rows cols
      (fun m => match codes? with
        | none => m
        | some codes => step codes m)
      fun row col =>
        if reached row col then codes?.bind fun codes => codes.codeAt (index row col)
        else none := by
  cases codes? with
  | none => exact Writes.id.congr fun row _ col _ => by simp
  | some codes => exact h codes

/-- A string with one code for each line from `first` on. -/
theorem writes_down (codes : Codes α) (first count : Nat) :
    Writes rows cols
      (fun m => (List.range count).foldl (fun m i => m.writeRow (first + i) (codes.codeAt i)) m)
      fun row _ =>
        if first ≤ row ∧ row < first + count then codes.codeAt (row - first) else none := by
  have hfold : (fun m : Matrix α =>
      (List.range count).foldl (fun m i => m.writeRow (first + i) (codes.codeAt i)) m) =
      fun m => (Grid.indices first count).foldl
        (fun m row => m.writeRow row (codes.codeAt (row - first))) m := by
    funext m
    rw [Grid.indices, List.foldl_map]
    simp only [Nat.add_sub_cancel_left]
  rw [hfold]
  refine (Writes.foldl (fun row => writes_writeRow row (codes.codeAt (row - first))) _).congr
    fun row _ col _ => ?_
  exact lastGiven_indices first count (fun row => codes.codeAt (row - first)) row

/-- A string with one code for each column, along each of some lines. -/
theorem writes_across (codes : Codes α) (first count : Nat) :
    Writes rows cols
      (fun m => (Grid.indices first count).foldl
        (fun m row => m.writeAlong row (codes.expand cols)) m)
      fun row col => if first ≤ row ∧ row < first + count then codes.codeAt col else none := by
  refine (Writes.foldl (fun row => writes_writeAlong row codes) _).congr fun row _ col _ => ?_
  exact lastGiven_indices first count (fun _ => codes.codeAt col) row

end Matrix

namespace Grid

variable {rows cols : Nat}

theorem writes_applySpec (spec : FormatSpec) (first count : Nat) :
    Writes rows cols (·.applySpec spec first count) (spec.strokes first count) := by
  refine writes_of_matrices fun g hg => ?_
  obtain ⟨rfl, rfl, -, -, -⟩ := hg
  by_cases hfirst : g.rows < first
  · -- The format lies below the grid.
    refine ⟨_, _, _, by rw [applySpec, if_pos hfirst],
      Matrix.Writes.id.congr fun row hrow _ _ => ?_, Matrix.Writes.id.congr fun row hrow _ _ => ?_,
      Matrix.Writes.id.congr fun row hrow _ _ => ?_⟩
    · exact (if_neg (by omega)).symm
    · exact (if_neg (by omega)).symm
    · exact (if_neg (by omega)).symm
  · have hh : Matrix.Writes (g.rows + 1) g.cols _ (spec.strokes first count).horizontal :=
      (Matrix.Writes.optional (fun codes => Matrix.writes_down codes first
        (min (first + count) g.rows - first + 1)) spec.horizontal).congr
        fun line hline _ _ => if_congr (by omega) rfl rfl
    have hv : Matrix.Writes g.rows (g.cols + 1) _ (spec.strokes first count).vertical :=
      (Matrix.Writes.optional (fun codes => Matrix.writes_across codes first
        (min (first + count) g.rows - first)) spec.vertical).congr
        fun row hrow _ _ => if_congr (by omega) rfl rfl
    have ha : Matrix.Writes g.rows g.cols _ (spec.strokes first count).align :=
      (Matrix.Writes.optional (fun codes => Matrix.writes_across codes first
        (min (first + count) g.rows - first)) spec.align).congr
        fun row hrow _ _ => if_congr (by omega) rfl rfl
    refine ⟨_, _, _, ?_, hh, hv, ha⟩
    rw [applySpec, if_neg hfirst]
    cases spec.horizontal <;> cases spec.vertical <;> cases spec.align <;> rfl

end Grid

/-! ## The codes of a cell -/

/-- What a cell writes: its upper and lower edge along its columns, its left and right edge along
its rows, and its alignment inside. -/
def CellCodes.strokes (codes : CellCodes) (box : Box) : Strokes where
  horizontal line col :=
    if box.col ≤ col ∧ col < box.col + box.colspan then
      lastGiven [if line = box.row then codes.edge 0 else none,
        if line = box.row + box.rowspan then codes.edge 2 else none]
    else none
  vertical row line :=
    if box.row ≤ row ∧ row < box.row + box.rowspan then
      lastGiven [if line = box.col then codes.edge 3 else none,
        if line = box.col + box.colspan then codes.edge 1 else none]
    else none
  align row col :=
    if box.row ≤ row ∧ row < box.row + box.rowspan then
      if box.col ≤ col ∧ col < box.col + box.colspan then codes.text else none
    else none

namespace Matrix

variable {α : Type} {rows cols : Nat}

/-- Two lines are written along some columns, column by column. -/
theorem writes_edgesAcross (top bottom first count : Nat) (code code' : Option α) :
    Writes rows cols
      (fun m => (Grid.indices first count).foldl
        (fun m col => (m.write top col code).write bottom col code') m)
      fun row col =>
        if first ≤ col ∧ col < first + count then
          lastGiven [if row = top then code else none, if row = bottom then code' else none]
        else none := by
  refine (Writes.foldl (fun col => (writes_write top col code).comp
    (writes_write bottom col code')) _).congr fun row _ col _ => ?_
  refine Eq.trans (congrArg lastGiven (List.map_congr_left fun i _ => ?_))
    (lastGiven_indices first count (fun _ =>
      lastGiven [if row = top then code else none, if row = bottom then code' else none]) col)
  by_cases hcol : col = i
  · simp only [if_pos hcol, lastGiven_cons, lastGiven_nil, Option.none_or]
  · simp only [if_neg hcol, ite_self, Option.none_or]

/-- Two columns are written down some lines, line by line. -/
theorem writes_edgesDown (left right first count : Nat) (code code' : Option α) :
    Writes rows cols
      (fun m => (Grid.indices first count).foldl
        (fun m row => (m.write row left code).write row right code') m)
      fun row col =>
        if first ≤ row ∧ row < first + count then
          lastGiven [if col = left then code else none, if col = right then code' else none]
        else none := by
  refine (Writes.foldl (fun row => (writes_write row left code).comp
    (writes_write row right code')) _).congr fun row _ col _ => ?_
  refine Eq.trans (congrArg lastGiven (List.map_congr_left fun i _ => ?_))
    (lastGiven_indices first count (fun _ =>
      lastGiven [if col = left then code else none, if col = right then code' else none]) row)
  by_cases hrow : row = i
  · simp only [if_pos hrow, lastGiven_cons, lastGiven_nil, Option.none_or]
  · simp only [if_neg hrow, Option.none_or]

/-- The positions inside a box are written, line by line. -/
theorem writes_inside (box : Box) (code : Option α) :
    Writes rows cols
      (fun m => (Grid.indices box.row box.rowspan).foldl
        (fun m row => (Grid.indices box.col box.colspan).foldl
          (fun m col => m.write row col code) m) m)
      fun row col =>
        if box.row ≤ row ∧ row < box.row + box.rowspan then
          if box.col ≤ col ∧ col < box.col + box.colspan then code else none
        else none := by
  refine (Writes.foldl (fun row => Writes.foldl (fun col => writes_write row col code) _) _).congr
    fun row _ col _ => ?_
  refine Eq.trans (congrArg lastGiven (List.map_congr_left fun i _ => ?_))
    (lastGiven_indices box.row box.rowspan (fun _ =>
      if box.col ≤ col ∧ col < box.col + box.colspan then code else none) row)
  by_cases hrow : row = i
  · simp only [if_pos hrow]
    exact lastGiven_indices box.col box.colspan (fun _ => code) col
  · simp only [if_neg hrow]
    exact lastGiven_eq_none (by simp)

end Matrix

theorem Grid.writes_applyCell {rows cols : Nat} (codes : CellCodes) (box : Box) :
    Grid.Writes rows cols (·.applyCell codes box) (codes.strokes box) :=
  Grid.writes_of_matrices fun _ _ => ⟨_, _, _, rfl,
    Matrix.writes_edgesAcross box.row (box.row + box.rowspan) box.col box.colspan _ _,
    Matrix.writes_edgesDown box.col (box.col + box.colspan) box.row box.rowspan _ _,
    Matrix.writes_inside box codes.text⟩

end Bracemark
