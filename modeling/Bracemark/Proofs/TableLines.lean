/-
The lines of a table.

Between the bar and the closing brace of a table anything can be read as an item. What is no
caption, no break line and no white space is a row, whatever it is: a cell can be read at any place
and ends only where a cell may end (`attains_cell`), and after the last cell of a row stands the end
of the line or of the table (`attains_row`). So a break line or a caption that is malformed, a cell
element with text after it, and markup that means nothing are content of a cell.

The items are tried in order. Which of them is read is a matter of the text alone, except for
captions and rows, whose elements may come from memory. An opening brace begins these two and none
of the others, so nothing has been kept in memory when a break line or white space is read
(`tableItem_cases`).
-/
import Bracemark.Proofs.PlainTables
import Bracemark.Proofs.Surroundings

set_option autoImplicit false

namespace Bracemark

open Reading Text

namespace Parser

variable {source : List Char} {s : Scope} {place : Place} {inner : Grammar → Parser Node}

/-! ## Cells -/

theorem endsCell_iff : endsCell place = true ↔ place.rest = [] ∨ place.startsWith '|' = true ∨
    place.startsWith '\n' = true ∨ place.startsWith '}' = true := by
  unfold endsCell Place.startsWith
  cases place.rest with
  | nil => simp
  | cons c cs => simp [or_assoc]

/-- Where the text of a cell stops, the cell may end. -/
theorem endsCell_of_stopsAt (h : s.StopsAt place) : endsCell place = true := by
  rw [endsCell_iff]
  rcases h with hend | ⟨hclose, -⟩ | ⟨-, hbar | hline⟩
  · exact .inl hend
  · exact .inr (.inr (.inr hclose))
  · exact .inr (.inl hbar)
  · exact .inr (.inr (.inl hline))

/-- **A cell is read at any place**, and it ends where a cell may end. -/
theorem attains_cell : Attains source (Recollection.Exact source) s place
    (cell (Grammar.inside (maxNesting - s.nesting))) fun _ q => endsCell q = true := by
  have hkeeps : ∀ g, Keeps source (Grammar.inside (maxNesting - s.nesting) g) := keeps_inside _
  have hexplicit : Yields source (Recollection.Exact source) s place
      (explicitCell (Grammar.inside (maxNesting - s.nesting))) fun _ q => endsCell q = true := by
    unfold Parser.explicitCell
    refine .bind .pattern fun _ _ _ _ => .bind (yieldsTile_ofForm hkeeps .cell) fun _ _ _ _ => ?_
    refine .bind .pattern fun _ q _ _ => .here (.bind .require ?_)
    rintro _ _ - ⟨hends, rfl⟩
    exact .pure hends
  -- The frame of a cell leaves the nesting as it is, so elements fit in it as before.
  have hpart : ∀ q, ¬ (s.push cellFrame).StopsAt q →
      Matches (s.push cellFrame) q (part (Grammar.inside (maxNesting - s.nesting))) := by
    intro q hstop
    rw [← Scope.nesting_push_cell s]
    exact matches_part hstop fun hfits r => matches_inside hfits _
  have hparts : Attains source (Recollection.Exact source) (s.push cellFrame) place
      (Reading.many (part (Grammar.inside (maxNesting - s.nesting))) 0 none) fun _ q =>
        True ∧ ¬ Attains source (Recollection.Exact source) (s.push cellFrame) q
          (part (Grammar.inside (maxNesting - s.nesting))) fun _ _ => True :=
    .many (J := fun _ _ _ => True) (fun _ => trivial) (fun _ _ _ _ _ _ _ => trivial)
      (fun q n r h => (Tiles.singleton_iff.mp h).2) fun q => yieldsTile_part hkeeps
  refine .orElse_right hexplicit (.here (.bind (.inFrame hparts) ?_))
  rintro nodes q - ⟨-, hends⟩
  have hstop : (s.push cellFrame).StopsAt q := by
    by_contra hstop
    exact hends (.of_matches (hpart q hstop)
      ((yieldsTile_part hkeeps).imp fun _ _ _ _ => trivial))
  exact .here (.pure (endsCell_of_stopsAt hstop))

/-- After a bar there is another cell. -/
theorem attains_nextCell (hbar : place.startsWith '|' = true) :
    Attains source (Recollection.Exact source) s place
      (nextCell (Grammar.inside (maxNesting - s.nesting))) fun _ q => endsCell q = true := by
  obtain ⟨rest, hrest⟩ : ∃ rest, place.rest = ['|'] ++ rest :=
    List.head?_eq_some_iff.mp (beq_iff_eq.mp hbar)
  exact .exactly_bind hrest attains_cell

theorem yields_nextCell : Yields source (Recollection.Exact source) s place
    (nextCell (Grammar.inside (maxNesting - s.nesting))) fun _ q =>
      endsCell q = true ∧ place.offset < q.offset := by
  unfold Parser.nextCell
  refine .bind .exactly fun _ q _ hbar => attains_cell.yields.imp fun _ r hr hends => ⟨hends, ?_⟩
  have hmoved : q.offset = place.offset + 1 := hbar
  have hle := hr.offset_le
  omega

/-! ## Rows -/

/-- **A row is read wherever a line does not end at once**: its cells go on up to the end of the
line, or of the table. -/
theorem attains_row (hne : place.rest ≠ []) (hline : place.startsWith '\n' = false)
    (hclose : place.startsWith '}' = false) :
    Attains source (Recollection.Exact source) s place
      (Parser.row (Grammar.inside (maxNesting - s.nesting))) fun n _ => n.kind = .row := by
  have hcells : ∀ q, Attains source (Recollection.Exact source) s q
      (Reading.many (nextCell (Grammar.inside (maxNesting - s.nesting))) 0 none) fun _ t =>
        (endsCell q = true → endsCell t = true) ∧
          ¬ Attains source (Recollection.Exact source) s t
            (nextCell (Grammar.inside (maxNesting - s.nesting))) fun _ _ => True :=
    fun q => .many (J := fun q _ t => endsCell q = true → endsCell t = true) (fun _ h => h)
      (fun _ _ _ _ _ hR hJ _ => hJ hR.1) (fun _ _ _ hR => hR.2) fun q => yields_nextCell
  refine .here (attains_cell.bind fun head p1 h1 hhead => (hcells p1).bind ?_)
  rintro tail stop h2 ⟨hends, hlast⟩
  have hstop : stop.rest = [] ∨ stop.startsWith '\n' = true ∨ stop.startsWith '}' = true := by
    rcases endsCell_iff.mp (hends hhead) with hend | hbar | hstop
    · exact .inl hend
    · -- Another cell would follow the bar.
      exact absurd ((attains_nextCell hbar).imp fun _ _ _ _ => trivial) hlast
    · exact .inr hstop
  -- The cells take something, because they do not end where they begin.
  have hmoved : stop.offset ≠ place.offset := by
    intro hstay
    obtain rfl := (h1.trans h2).eq_of_offset hstay
    rcases hstop with hend | hline' | hclose'
    · exact hne hend
    · rw [hline] at hline'
      cases hline'
    · rw [hclose] at hclose'
      cases hclose'
  refine .here (.require_bind (decide_eq_true hmoved) (Attains.bind
    (P := fun o q => (o.isSome || q.startsWith '}') = true) ?_ ?_))
  · rcases hstop with hend | hline | hclose
    · have hrow : Pattern.rowEnd.capture? stop.rest = some (.plain [] []) := by rw [hend]; rfl
      exact .orElse_left ((Attains.pattern hrow).bind fun c q _ _ => .pure rfl)
    · obtain ⟨rest, hrest⟩ : ∃ rest, stop.rest = ['\n'] ++ rest :=
        List.head?_eq_some_iff.mp (beq_iff_eq.mp hline)
      have hrow : Pattern.rowEnd.capture? stop.rest = some (.plain ['\n'] rest) := by
        rw [hrest]
        rfl
      exact .orElse_left ((Attains.pattern hrow).bind fun c q _ _ => .pure rfl)
    · -- Before the closing brace of the table the line need not end.
      exact .orElse_right (Yields.pattern.bind fun c q _ _ => .pure rfl) (.pure (by simp [hclose]))
  · intro ended last _ hended
    exact .here (.require_bind hended (.pure rfl))

/-! ## Items of a table -/

theorem yields_row : Yields source (Recollection.Exact source) s place
    (Parser.row (Grammar.inside (maxNesting - s.nesting))) fun n q =>
      n.kind = .row ∧ place.offset < q.offset := by
  have hcells : ∀ q, Yields source (Recollection.Exact source) s q
      (Reading.many (nextCell (Grammar.inside (maxNesting - s.nesting))) 0 none) fun _ _ => True :=
    fun q => .many (J := fun _ _ _ => True) (fun _ => trivial)
      (fun _ _ _ _ _ _ _ _ => trivial) (fun q => yields_nextCell) 0 none
  unfold Parser.row
  refine .here (attains_cell.yields.bind fun head p1 h1 _ =>
    (hcells p1).bind fun tail p2 h2 _ => ?_)
  refine .here (.bind .require ?_)
  rintro _ stop - ⟨hmoved, rfl⟩
  refine .bind (.optional .pattern) fun ended last h3 _ => .here (.bind .require ?_)
  rintro _ _ h4 -
  refine .pure ⟨rfl, ?_⟩
  have hne : stop.offset ≠ place.offset := of_decide_eq_true hmoved
  have hle := (h1.trans h2).offset_le
  have hle' := (h3.trans h4).offset_le
  omega

theorem yields_breakLine {K : Recollection → Prop} : Yields source K s place breakLine fun n q =>
    n.kind ≠ .row ∧ place.offset < q.offset := by
  unfold Parser.breakLine
  refine .here (.bind (.patternTakes rfl) fun line q _ hq => .bind .ofOption ?_)
  rintro as _ - ⟨-, rfl⟩
  refine .bind .ofOption ?_
  rintro group _ - ⟨-, rfl⟩
  refine .here (.pure ⟨?_, hq⟩)
  rintro ⟨⟩

theorem yields_blankRows {K : Recollection → Prop} : Yields source K s place blankRows fun n q =>
    n.kind ≠ .row ∧ place.offset < q.offset := by
  unfold Parser.blankRows
  refine .here (.bind (.patternTakes rfl) fun line q _ hq => .pure ⟨?_, hq⟩)
  rintro ⟨⟩

theorem yields_caption (hinner : ∀ g, Keeps source (inner g)) :
    Yields source (Recollection.Exact source) s place (ofForm inner .caption) fun n q =>
      n.kind ≠ .row ∧ place.offset < q.offset := by
  have hcontent := (relatesElements_keeps hinner).content .caption
  unfold Parser.ofForm
  refine .here (.bind .exactly fun _ p1 h1 hbrace => .bind .pattern fun named p2 h2 _ => ?_)
  refine .bind .require fun _ p3 h3 _ => .bind .arguments fun as p4 h4 _ => ?_
  refine .bind .ofOption fun shape p5 h5 hshape => .bind (hcontent s p5) fun nodes p6 h6 _ => ?_
  refine .bind .pattern fun _ p7 h7 _ => .here (Yields.imp .ofOption ?_)
  rintro n stop - ⟨hn, rfl⟩
  obtain ⟨hshape, -⟩ := hshape
  cases hshape
  cases hn
  have hopen : p1.offset = place.offset + 1 := hbrace
  have hle : p1.offset ≤ stop.offset :=
    (h2.trans (h3.trans (h4.trans (h5.trans (h6.trans h7))))).offset_le
  exact ⟨by rw [Node.kind_assemble]; simp [Node.branch], by omega⟩

/-- **An item of a table moves on.** -/
theorem yields_tableItem : Yields source (Recollection.Exact source) s place
    (tableItem (Grammar.inside (maxNesting - s.nesting))) fun _ q => place.offset < q.offset :=
  .orElse ((yields_caption (keeps_inside _)).imp fun _ _ _ h => h.2)
    (.orElse (yields_breakLine.imp fun _ _ _ h => h.2) (.orElse
      (yields_blankRows.imp fun _ _ _ h => h.2)
      (.orElse (yields_row.imp fun _ _ _ h => h.2) .fail)))

/-- **An item of a table is read anywhere but at the end and before a closing brace.** -/
theorem attains_tableItem (hne : place.rest ≠ []) (hclose : place.startsWith '}' = false) :
    Attains source (Recollection.Exact source) s place
      (tableItem (Grammar.inside (maxNesting - s.nesting))) fun _ _ => True := by
  refine .orElse_right ((yields_caption (keeps_inside _)).imp fun _ _ _ _ => trivial)
    (.orElse_right (yields_breakLine.imp fun _ _ _ _ => trivial) ?_)
  cases hline : place.startsWith '\n' with
  | true =>
    obtain ⟨rest, hrest⟩ := List.head?_eq_some_iff.mp (beq_iff_eq.mp hline)
    have hsome : (Pattern.blank.capture? place.rest).isSome = true := by
      rw [hrest]
      show (runOf? isBlank ('\n' :: rest)).isSome = true
      exact isSome_runOf? (by decide)
    obtain ⟨blanks, hblanks⟩ := Option.isSome_iff_exists.mp hsome
    exact .orElse_left (.here ((Attains.pattern hblanks).bind fun _ _ _ _ => .pure trivial))
  | false =>
    refine .orElse_right (yields_blankRows.imp fun _ _ _ _ => trivial) (.orElse_left ?_)
    exact (attains_row hne hline hclose).imp fun _ _ _ _ => trivial

/-! ## Steps that look at the place alone -/

theorem ofForm_of_not_brace (h : place.rest.head? ≠ some '{') (form : Form) (m : Memory) :
    ofForm inner form s place m = (none, m) := by
  have hopen : ¬ ['{'].isPrefixOf place.rest = true := by
    rw [List.isPrefixOf_iff_prefix]
    rintro ⟨rest, hrest⟩
    exact h (by rw [← hrest]; rfl)
  rw [ofForm, bind_apply, here_apply]
  dsimp only
  rw [bind_apply, Reading.exactly, ofPlace_apply, if_neg hopen]

/-- What a break line comes to. -/
def breakLine? (place : Place) : Option (Node × Place) :=
  (Pattern.groupBreak.capture? place.rest).bind fun line =>
    (Arguments.ofText? line.word).bind fun as => (RowGroup.ofArguments? as).map fun group =>
      let stop := place.skip line.text line.rest
      (.leaf (place.spanTo stop) (.rowGroup group), stop)

theorem breakLine_apply (s : Scope) (place : Place) (m : Memory) :
    (breakLine : Parser Node) s place m = (breakLine? place, m) := by
  rw [breakLine, breakLine?, bind_apply, here_apply]
  dsimp only
  rw [bind_apply, pattern_apply]
  cases Pattern.groupBreak.capture? place.rest with
  | none => rfl
  | some line =>
    dsimp only [Option.map_some, Option.bind_some]
    rw [bind_apply, ofOption_apply]
    cases Arguments.ofText? line.word with
    | none => rfl
    | some as =>
      dsimp only [Option.map_some, Option.bind_some]
      rw [bind_apply, ofOption_apply]
      cases RowGroup.ofArguments? as <;> rfl

theorem blankRows_apply (s : Scope) (place : Place) (m : Memory) :
    (blankRows : Parser Node) s place m =
      ((Pattern.blank.capture? place.rest).map fun c =>
        (.null place.offset, place.skip c.text c.rest), m) := by
  rw [blankRows, bind_apply, here_apply]
  dsimp only
  rw [bind_apply, Reading.pattern, ofPlace_apply]
  cases Pattern.blank.capture? place.rest <;> rfl

end Parser

/-! ## The margin of a break line -/

/-- Spaces and tabs before a break line are taken with it. -/
theorem capture?_groupBreak_append {margin line : List Char}
    (hmargin : ∀ c ∈ margin, isLineSpace c = true)
    (hline : ∀ c ∈ line.head?, isLineSpace c = false) :
    Pattern.groupBreak.capture? (margin ++ line) =
      (Pattern.groupBreak.capture? line).map fun c => { c with lead := margin ++ c.lead } := by
  obtain ⟨htake, hdrop⟩ := takeWhile_run hmargin hline
  have hself : line.takeWhile isLineSpace = [] ∧ line.dropWhile isLineSpace = line :=
    takeWhile_run (List.forall_mem_nil _) hline
  simp only [Pattern.capture?, htake, hdrop, hself.1, hself.2, List.nil_append]
  split
  · rfl
  · split <;> rfl

/-- A break line has dashes after its margin. -/
theorem head?_of_groupBreak {cs : List Char} (h : (Pattern.groupBreak.capture? cs).isSome = true) :
    (cs.dropWhile isLineSpace).head? = some '-' := by
  simp only [Pattern.capture?] at h
  split at h
  · cases h
  · next hlong =>
    cases hline : cs.dropWhile isLineSpace with
    | nil => simp [hline] at hlong
    | cons c rest =>
      by_contra hc
      have hdash : ¬ c = '-' := fun heq => hc (by rw [heq]; rfl)
      simp [hline, hdash] at hlong

namespace Parser

/-- A break line ends at the same place when its margin has been taken before. -/
theorem breakLine?_skip {place : Place} {margin line : List Char}
    (hrest : place.rest = margin ++ line) (hmargin : ∀ c ∈ margin, isLineSpace c = true)
    (hline : ∀ c ∈ line.head?, isLineSpace c = false) :
    (breakLine? (place.skip margin line)).map (·.2) = (breakLine? place).map (·.2) := by
  rw [breakLine?, breakLine?, Place.skip_rest, hrest, capture?_groupBreak_append hmargin hline]
  cases Pattern.groupBreak.capture? line with
  | none => rfl
  | some c =>
    have hword : ({ c with lead := margin ++ c.lead } : Capture).word = c.word := rfl
    have htext : ({ c with lead := margin ++ c.lead } : Capture).text = margin ++ c.text := by
      simp only [Capture.text, List.append_assoc]
    simp only [Option.map_some, Option.bind_some, hword, htext, Place.skip_skip]
    cases Arguments.ofText? c.word with
    | none => rfl
    | some as =>
      rw [Option.bind_some, Option.bind_some]
      cases RowGroup.ofArguments? as <;> rfl

/-- **White space before a break line is its margin**: when it has been taken, what is left is a
break line that ends at the same place. -/
theorem breakLine?_of_blank {place : Place} {blanks : Capture} {n : Node} {q : Place}
    (h : breakLine? place = some (n, q))
    (hblanks : Pattern.blank.capture? place.rest = some blanks) :
    ∃ n', breakLine? (place.skip blanks.text blanks.rest) = some (n', q) := by
  have hdash : (place.rest.dropWhile isLineSpace).head? = some '-' := by
    obtain ⟨line, hline, -⟩ := Option.bind_eq_some_iff.mp h
    exact head?_of_groupBreak (Option.isSome_of_eq_some hline)
  have hmargin : ∀ c ∈ place.rest.takeWhile isLineSpace, isLineSpace c = true :=
    fun c hc => List.mem_takeWhile_imp hc
  have hstop : ∀ c ∈ (place.rest.dropWhile isLineSpace).head?, c = '-' :=
    fun c hc => (Option.some.inj (hdash.symm.trans hc)).symm
  -- The dash ends both the margin and the white space.
  obtain ⟨htake, hdrop⟩ := takeWhile_run
    (fun c hc => isBlank_of_isLineSpace (hmargin c hc)) fun c hc => by rw [hstop c hc]; decide
  rw [List.takeWhile_append_dropWhile] at htake hdrop
  simp only [Pattern.capture?, runOf?, htake, hdrop] at hblanks
  split at hblanks
  · cases hblanks
  · cases hblanks
    have hsplit : place.rest =
        place.rest.takeWhile isLineSpace ++ place.rest.dropWhile isLineSpace :=
      List.takeWhile_append_dropWhile.symm
    have hskip := breakLine?_skip hsplit hmargin fun c hc => by rw [hstop c hc]; decide
    rw [h, Option.map_some] at hskip
    obtain ⟨⟨n', r⟩, hbreak, rfl⟩ := Option.map_eq_some_iff.mp hskip
    exact ⟨n', by rw [Capture.text_plain, Capture.rest_plain, hbreak]⟩

theorem kind_breakLine? {place : Place} {n : Node} {q : Place}
    (h : breakLine? place = some (n, q)) : n.kind ≠ .row := by
  obtain ⟨line, -, h⟩ := Option.bind_eq_some_iff.mp h
  obtain ⟨as, -, h⟩ := Option.bind_eq_some_iff.mp h
  obtain ⟨group, -, h⟩ := Option.map_eq_some_iff.mp h
  cases h
  rintro ⟨⟩

theorem head?_ne_of_breakLine? {place : Place} {n : Node} {q : Place}
    (h : breakLine? place = some (n, q)) : place.rest.head? ≠ some '{' := by
  intro hbrace
  obtain ⟨cs, hrest⟩ := List.head?_eq_some_iff.mp hbrace
  rw [breakLine?, hrest] at h
  cases h

theorem head?_ne_of_blank {cs : List Char} {blanks : Capture}
    (h : Pattern.blank.capture? cs = some blanks) : cs.head? ≠ some '{' := by
  intro hbrace
  obtain ⟨cs, rfl⟩ := List.head?_eq_some_iff.mp hbrace
  cases h

/-! ## Which item is read -/

section

variable {source : List Char} {s : Scope} {place q : Place} {m m' : Memory} {n : Node}
  {inner : Grammar → Parser Node}

/-- Before any other character than an opening brace no caption is looked for. -/
theorem tableItem_of_not_brace (h : place.rest.head? ≠ some '{') (m : Memory) :
    tableItem inner s place m = Reading.orElse breakLine (Reading.orElse blankRows
      (Reading.orElse (Parser.row inner) Reading.fail)) s place m := by
  rw [tableItem, orElse_apply, ofForm_of_not_brace h]

/-- An opening brace begins a caption or a row. -/
theorem tableItem_of_brace (h : place.rest.head? = some '{') (m : Memory) :
    tableItem inner s place m = Reading.orElse (ofForm inner .caption)
      (Reading.orElse (Parser.row inner) Reading.fail) s place m := by
  have hbreak : breakLine? place = none :=
    Option.eq_none_iff_forall_ne_some.mpr fun _ hsome => head?_ne_of_breakLine? hsome h
  have hblank : Pattern.blank.capture? place.rest = none :=
    Option.eq_none_iff_forall_ne_some.mpr fun _ hsome => head?_ne_of_blank hsome h
  rw [tableItem, orElse_apply, orElse_apply]
  obtain ⟨_ | found, m1⟩ := ofForm inner .caption s place m
  · dsimp only
    rw [orElse_apply, breakLine_apply, hbreak]
    dsimp only
    rw [orElse_apply, blankRows_apply, hblank]
    rfl
  · rfl

theorem tableItem_of_caption (h : ofForm inner .caption s place m = (some (n, q), m')) :
    tableItem inner s place m = (some (n, q), m') := by
  rw [tableItem, orElse_apply, h]

theorem tableItem_of_breakLine (h : breakLine? place = some (n, q)) :
    tableItem inner s place m = (some (n, q), m) := by
  rw [tableItem_of_not_brace (head?_ne_of_breakLine? h), orElse_apply, breakLine_apply, h]

theorem tableItem_of_blank {blanks : Capture} (hbreak : breakLine? place = none)
    (h : Pattern.blank.capture? place.rest = some blanks) :
    tableItem inner s place m =
      (some (.null place.offset, place.skip blanks.text blanks.rest), m) := by
  rw [tableItem_of_not_brace (head?_ne_of_blank h), orElse_apply, breakLine_apply, hbreak]
  dsimp only
  rw [orElse_apply, blankRows_apply, h]
  rfl

/-- What stands in a table besides its rows: captions, break lines and white space. -/
def besidesRows : List Grammar :=
  [.form .caption, .rule .breakLine, .rule .blankRows]

/-- An item that is no row is a caption, a break line or white space, and it is read with the
memory as it was before. -/
theorem tableItem_cases (hplace : place.In source) (hm : m.Holds (Recollection.Exact source))
    (h : tableItem (Grammar.inside (maxNesting - s.nesting)) s place m = (some (n, q), m'))
    (hn : n.kind ≠ .row) : ∃ g ∈ besidesRows, (g.read : Parser Node) s place m =
      (some (n, q), m') := by
  -- What is tried last is a row, whatever is in memory by then.
  have hrow : ∀ m1 : Memory, m1.Holds (Recollection.Exact source) →
      (Reading.orElse (Parser.row (Grammar.inside (maxNesting - s.nesting))) Reading.fail :
        Parser Node) s place m1 ≠ (some (n, q), m') := by
    intro m1 hm1 hx
    have hyields : Yields source (Recollection.Exact source) s place
        (Reading.orElse (Parser.row (Grammar.inside (maxNesting - s.nesting))) Reading.fail)
        fun n _ => n.kind = .row := .orElse (yields_row.imp fun _ _ _ h => h.1) .fail
    exact hn ((hyields hplace m1 hm1).2 n q (congrArg Prod.fst hx)).2
  by_cases hbrace : place.rest.head? = some '{'
  · rw [tableItem_of_brace hbrace, orElse_apply] at h
    have hkept := (yields_caption (s := s) (keeps_inside (maxNesting - s.nesting)) hplace m hm).1
    generalize hx : (ofForm (Grammar.inside (maxNesting - s.nesting)) .caption : Parser Node) s
      place m = x at *
    obtain ⟨_ | found, m1⟩ := x
    · exact absurd h (hrow m1 hkept)
    · exact ⟨.form .caption, by simp [besidesRows], (Grammar.read_apply ..).trans (hx.trans h)⟩
  · rw [tableItem_of_not_brace hbrace, orElse_apply, breakLine_apply] at h
    cases hbreak : breakLine? place with
    | some found =>
      rw [hbreak] at h
      refine ⟨.rule .breakLine, by simp [besidesRows], (Grammar.read_apply ..).trans ?_⟩
      exact (breakLine_apply s place m).trans (by rw [hbreak]; exact h)
    | none =>
      rw [hbreak] at h
      dsimp only at h
      rw [orElse_apply, blankRows_apply] at h
      cases hblank : Pattern.blank.capture? place.rest with
      | some blanks =>
        rw [hblank] at h
        refine ⟨.rule .blankRows, by simp [besidesRows], (Grammar.read_apply ..).trans ?_⟩
        exact (blankRows_apply s place m).trans (by rw [hblank]; exact h)
      | none =>
        rw [hblank] at h
        exact absurd h (hrow m hm)

end

end Parser

end Bracemark
