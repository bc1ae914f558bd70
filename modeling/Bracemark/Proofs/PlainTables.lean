/-
Tables written as plain text.

A matrix of strings is written as a table with one line for each row and bars between the
cells, each string escaped. It is read back as it was (`Document.read_tableSource`): the bars and
newlines of the lines are the only ones that mean something, the blanks around the bars come off
the cells, and every string stands in the row and the column that it had in the matrix.

A line must not be taken for something else. It would be white space between rows without a
first cell, and a break line if it began with three dashes; so the first string of a row is
neither empty nor begins like that.
-/
import Bracemark.Proofs.EscapedText
import Bracemark.Proofs.Making
import Bracemark.Proofs.SingleCells

set_option autoImplicit false

namespace Bracemark

namespace Text

/-! ## Writing tables -/

/-- A row in the text of a table: the strings, escaped, with bars between them. -/
def rowSource (row : List String) : String :=
  " | ".intercalate (row.map escaped) ++ "\n"

/-- The text of a table with these rows and no settings. -/
def tableSource (matrix : List (List String)) : String :=
  "\x7btable|\n" ++ (String.join (matrix.map rowSource) ++ "\x7d")

/-- The lines of a table, one after another. -/
def rowLines (matrix : List (List String)) : List Char :=
  matrix.flatMap fun row => (rowSource row).toList

/-- A row that can be written on a line and read back. -/
structure IsLine (row : List String) : Prop where
  nonempty : row ≠ []
  oneLine : ∀ s ∈ row, '\n' ∉ s.toList
  trimmed : ∀ s ∈ row, trim s = s
  /-- The line is neither white space nor a break line. -/
  begins : ∀ s ∈ row.head?, s ≠ "" ∧ ¬ ['-', '-', '-'] <+: s.toList

instance (row : List String) : Decidable (IsLine row) :=
  decidable_of_iff (row ≠ [] ∧ (∀ s ∈ row, '\n' ∉ s.toList) ∧ (∀ s ∈ row, trim s = s) ∧
      ∀ s ∈ row.head?, s ≠ "" ∧ ¬ ['-', '-', '-'] <+: s.toList)
    ⟨fun h => ⟨h.1, h.2.1, h.2.2.1, h.2.2.2⟩, fun h => ⟨h.1, h.2, h.3, h.4⟩⟩

/-! ## Lines cell by cell -/

/-- The blank after a cell, if there is another cell. -/
def padding (more : List String) : List Char :=
  if more.isEmpty then [] else [' ']

/-- The cells of a line after the first one, each with its bar. -/
def cellsAfter : List String → List Char
  | [] => []
  | s :: more => '|' :: (escapeChars (' ' :: (s.toList ++ padding more)) ++ cellsAfter more)

theorem escapeChars_padding (more : List String) : escapeChars (padding more) = padding more := by
  unfold padding
  split <;> rfl

theorem toList_escaped (s : String) : (escaped s).toList = escapeChars s.toList :=
  String.toList_ofList

/-- A line is its first cell, the other cells, and a newline. -/
theorem toList_rowSource (s : String) (more : List String) :
    (rowSource (s :: more)).toList =
      escapeChars (s.toList ++ padding more) ++ (cellsAfter more ++ ['\n']) := by
  suffices hcells : ∀ s : String, (" | ".intercalate ((s :: more).map escaped)).toList =
      escapeChars (s.toList ++ padding more) ++ cellsAfter more by
    rw [rowSource, String.toList_append, hcells s, List.append_assoc]
    rfl
  induction more with
  | nil =>
    intro s
    simp [padding, cellsAfter, toList_escaped]
  | cons t more ih =>
    intro s
    have hbar : " | ".toList = [' ', '|', ' '] := rfl
    have hblank : ∀ cs, escapeChars (' ' :: cs) = ' ' :: escapeChars cs := fun cs => rfl
    have ht := ih t
    rw [List.map_cons] at ht
    rw [List.map_cons, List.map_cons, String.intercalate_cons_cons, String.toList_append, ht,
      String.toList_append, toList_escaped, hbar, cellsAfter, hblank,
      escapeChars_append s.toList, escapeChars_padding]
    simp [padding]

end Text

namespace Node

variable {ns : List Node} {cs : List Char}

theorem runTexts_ne_nil (c : Context) (ns : List Node) : runTexts c ns ≠ [] := by
  rw [runTexts, ne_eq, List.map_eq_nil_iff]
  exact List.splitOnP_ne_nil isGap ns

/-- Without a newline nothing has been read but pieces of text. -/
theorem Spell.arePieces (h : Spell ns cs) (hcs : '\n' ∉ cs) :
    ∃ css, ArePieces ns css ∧ (∀ ds ∈ css, ds ≠ []) ∧ css.flatten = cs := by
  have htexts := h.texts (Context.start .plain .standard)
  have hblocks : Text.blocksAfter 0 cs = [cs] := by
    have := Text.blocksAfter_append hcs []
    simpa [Text.blocksAfter] using this
  rw [hblocks, List.map_singleton] at htexts
  clear hblocks hcs
  -- Any gap would begin another text.
  have hpieces := h.pieces
  clear h
  induction ns generalizing cs with
  | nil =>
    rw [runTexts_nil] at htexts
    have hnil : cs = [] := by simpa using htexts.symm
    exact ⟨[], .nil, fun _ h => absurd h List.not_mem_nil, hnil.symm⟩
  | cons n ns ih =>
    obtain ⟨hn, hns⟩ := List.forall_mem_cons.mp hpieces
    rcases hn with ⟨span, rfl⟩ | ⟨span, t, rfl, ht⟩
    · rw [runTexts_cons_gap rfl] at htexts
      exact absurd (List.cons.inj htexts).2 (runTexts_ne_nil _ _)
    · rw [runTexts_cons rfl] at htexts
      obtain ⟨u, us, hus⟩ := List.exists_cons_of_ne_nil
        (runTexts_ne_nil (Context.start .plain .standard) ns)
      rw [hus, prepend, List.modifyHead_cons] at htexts
      obtain ⟨htu, rfl⟩ := List.cons.inj htexts
      have hrest : runTexts (Context.start .plain .standard) ns = [String.ofList u.toList] := by
        rw [hus, String.ofList_toList]
      obtain ⟨css, hcss, hne, hflat⟩ := ih hrest hns
      refine ⟨t.toList :: css, .cons ⟨span, by rw [String.ofList_toList]⟩ hcss,
        List.forall_mem_cons.mpr ⟨by simpa using ht, hne⟩, ?_⟩
      rw [List.flatten_cons, hflat, ← String.toList_append]
      have := congrArg String.toList htu
      rwa [String.toList_ofList] at this

end Node

namespace Parser

open Text

variable {s : Scope} {place : Place} {cs tail : List Char} {inner : Grammar → Parser Node}

/-! ## Reading cells -/

/-- Where a cell without an element of its own ends. -/
def EndsCell (tail : List Char) : Prop :=
  ∃ d ds, tail = d :: ds ∧ (d = '|' ∨ d = '\n' ∨ d = '}')

/-- Behind the spaces before an escaped text there is no element. -/
theorem head?_dropWhile_escapeChars (htail : EndsCell tail) :
    ((escapeChars cs ++ tail).dropWhile isLineSpace).head? ≠ some '{' := by
  induction cs with
  | nil =>
    obtain ⟨d, ds, rfl, hd⟩ := htail
    rcases hd with rfl | rfl | rfl <;> exact fun h => by cases h
  | cons c cs ih =>
    cases hc : isEscapable c with
    | true =>
      rw [escapeChars_of_escapable hc]
      exact fun h => by cases h
    | false =>
      rw [escapeChars_of_not_escapable hc, List.cons_append, List.dropWhile_cons]
      split
      · exact ih
      · intro hbrace
        obtain rfl : c = '{' := Option.some.inj hbrace
        cases hc

theorem refuses_explicitCell (h : (place.rest.dropWhile isLineSpace).head? ≠ some '{') :
    Refuses s place (explicitCell inner) := by
  refine .pattern_bind (c := .plain (place.rest.takeWhile isLineSpace)
    (place.rest.dropWhile isLineSpace)) rfl (.bind_left (refuses_ofForm .cell h))

/-- **An escaped text without a newline is read as a cell** up to where that ends. -/
theorem reads_cell (hplace : place.Fits) (hrest : place.rest = escapeChars cs ++ tail)
    (hcs : '\n' ∉ cs) (htail : EndsCell tail) :
    Reads s place (cell inner) fun n q => q = place.skip (escapeChars cs) tail ∧
      ∃ span ns, Node.Spell ns cs ∧ n = cellNode span .plain ns := by
  have hcell : (s.push cellFrame).localFlag Key.cellText = true := Scope.localFlag_push s _ _
  have htop : (s.push cellFrame).localFlag Key.topLevel = false := Scope.localFlag_push s _ _
  have hstop : ∀ q : Place, q.rest = tail → (s.push cellFrame).StopsAt q := by
    intro q hq
    obtain ⟨d, ds, rfl, hd⟩ := htail
    rcases hd with rfl | rfl | rfl
    · exact .inr (.inr ⟨hcell, .inl (by simp [Place.startsWith, hq])⟩)
    · exact .inr (.inr ⟨hcell, .inr (by simp [Place.startsWith, hq])⟩)
    · exact .inr (.inl ⟨by simp [Place.startsWith, hq], htop⟩)
  refine .orElse_right (refuses_explicitCell ?_) (.here_bind ?_)
  · rw [hrest]
    exact head?_dropWhile_escapeChars htail
  · refine (Reads.inFrame (.many (collects_escaped hplace hrest hstop (fun _ => hcs)
      (by simp [hcell])))).bind ?_
    rintro ns _ ⟨rfl, hns⟩
    exact .here_bind (.pure ⟨rfl, _, ns, hns, rfl⟩)

/-- The node is a cell without settings, with this text. -/
def IsTextCell (n : Node) (s : String) : Prop :=
  n.kind = .cell .plain ∧ n.plainText = s

/-- A string on a line is read as a cell of its own, with a blank before it or after it. -/
theorem reads_textCell {t : String} {lead trail : List Char} (hplace : place.Fits)
    (hrest : place.rest = escapeChars (lead ++ (t.toList ++ trail)) ++ tail)
    (hline : '\n' ∉ t.toList) (htrim : trim t = t) (hlead : lead = [] ∨ lead = [' '])
    (htrail : trail = [] ∨ trail = [' ']) (htail : EndsCell tail) :
    Reads s place (cell inner) fun n q =>
      q = place.skip (escapeChars (lead ++ (t.toList ++ trail))) tail ∧ IsTextCell n t := by
  have hblank : ∀ {ds : List Char}, ds = [] ∨ ds = [' '] →
      allBlank ds = true ∧ ds.length ≤ 1 ∧ '\n' ∉ ds := by
    rintro ds (rfl | rfl) <;> decide
  obtain ⟨hlead, hlead', hleadLine⟩ := hblank hlead
  obtain ⟨htrail, htrail', htrailLine⟩ := hblank htrail
  have hcs : '\n' ∉ lead ++ (t.toList ++ trail) := by
    simp only [List.mem_append, not_or]
    exact ⟨hleadLine, hline, htrailLine⟩
  refine (reads_cell hplace hrest hcs htail).imp ?_
  rintro n q ⟨rfl, span, ns, hns, rfl⟩
  obtain ⟨css, hpieces, hne, hchars⟩ := hns.arePieces hcs
  have htrim' : trimBlanks t.toList = t.toList := by
    rw [← toList_trim, htrim]
  refine ⟨rfl, Node.kind_assemble _, ?_⟩
  rw [Node.plainText_cellNode hpieces hne hlead hlead' htrail htrail' htrim' hchars,
    String.ofList_toList]

/-! ## Reading lines -/

theorem padding_cases (more : List String) : padding more = [] ∨ padding more = [' '] := by
  unfold padding
  split
  · exact .inl rfl
  · exact .inr rfl

theorem endsCell_cellsAfter (more : List String) : EndsCell (cellsAfter more ++ '\n' :: tail) := by
  cases more with
  | nil => exact ⟨_, _, rfl, .inr (.inl rfl)⟩
  | cons t more => exact ⟨_, _, rfl, .inl rfl⟩

/-- The cells of a line are read up to its end. -/
theorem collects_cells {more : List String} (hline : ∀ t ∈ more, '\n' ∉ t.toList)
    (htrim : ∀ t ∈ more, trim t = t) (hplace : place.Fits)
    (hrest : place.rest = cellsAfter more ++ '\n' :: tail) :
    Collects s place (nextCell inner) fun ns q =>
      q = place.skip (cellsAfter more) ('\n' :: tail) ∧ List.Forall₂ IsTextCell ns more := by
  induction more generalizing place with
  | nil =>
    refine .stop (.bind_left (.exactly ?_)) ⟨?_, .nil⟩
    · rintro ⟨rest, hbar⟩
      rw [hrest] at hbar
      cases hbar
    · have hend : place.rest = '\n' :: tail := hrest
      rw [cellsAfter, ← hend, Place.skip_nil]
  | cons t more ih =>
    obtain ⟨hline, hlines⟩ := List.forall_mem_cons.mp hline
    obtain ⟨htrim, htrims⟩ := List.forall_mem_cons.mp htrim
    rw [cellsAfter, List.cons_append, List.append_assoc] at hrest
    have hbar : place.Before (place.skip ['|'] _) := Place.before_skip hrest.symm
    have hread : Reads s _ (cell inner) _ := reads_textCell (hplace.of_before hbar) rfl hline htrim
      (.inr rfl) (padding_cases more) (endsCell_cellsAfter more)
    refine .cons hplace ((Reads.exactly_bind hrest hread).imp ?_)
    rintro n _ ⟨rfl, hn⟩
    rw [Place.skip_skip]
    have hbefore : place.Before (place.skip (['|'] ++ _) _) := Place.before_skip hrest.symm
    refine ⟨hbefore, offset_lt_skip (List.cons_ne_nil _ _),
      (ih hlines htrims (hplace.of_before hbefore) rfl).imp ?_⟩
    rintro ns _ ⟨rfl, hns⟩
    refine ⟨?_, .cons hn hns⟩
    rw [Place.skip_skip, cellsAfter]
    rfl

theorem isPlainRow_branch {cells : List Node} {row : List String}
    (h : List.Forall₂ IsTextCell cells row) (span : Span) :
    (Node.branch span .row cells).IsPlainRow row := by
  suffices hcells : (∀ n ∈ cells, n.kind = .cell .plain) ∧ cells.map Node.plainText = row from
    ⟨rfl, hcells.1, hcells.2⟩
  induction h with
  | nil => exact ⟨fun _ h => absurd h List.not_mem_nil, rfl⟩
  | cons hn _ ih =>
    refine ⟨List.forall_mem_cons.mpr ⟨hn.1, ih.1⟩, ?_⟩
    rw [List.map_cons, hn.2, ih.2]

/-- **A line is read as a row** with its strings in the cells. -/
theorem reads_row {row : List String} (h : IsLine row) (hplace : place.Fits)
    (hrest : place.rest = (rowSource row).toList ++ tail) :
    Reads s place (Parser.row inner) fun n q =>
      q = place.skip (rowSource row).toList tail ∧ n.IsPlainRow row := by
  obtain ⟨t, more, rfl⟩ := List.exists_cons_of_ne_nil h.nonempty
  obtain ⟨hline, hlines⟩ := List.forall_mem_cons.mp h.oneLine
  obtain ⟨htrim, htrims⟩ := List.forall_mem_cons.mp h.trimmed
  have htne : t.toList ≠ [] := by
    have := (h.begins t rfl).1
    simpa using this
  rw [toList_rowSource, List.append_assoc, List.append_assoc] at hrest
  have hhead : Reads s place (cell inner) _ := reads_textCell hplace hrest hline htrim (.inl rfl)
    (padding_cases more) (endsCell_cellsAfter more)
  refine .here_bind (hhead.bind ?_)
  rintro head q ⟨rfl, hcell⟩
  have hbefore := Place.before_skip hrest.symm
  refine (Reads.many (collects_cells hlines htrims (hplace.of_before hbefore) rfl)).bind ?_
  rintro cells q ⟨rfl, hcells⟩
  rw [Place.skip_skip]
  have hchars : escapeChars ([] ++ (t.toList ++ padding more)) ++ cellsAfter more ≠ [] :=
    List.append_ne_nil_of_left_ne_nil
      (escapeChars_ne_nil (List.append_ne_nil_of_left_ne_nil htne _)) _
  -- A row must have moved on, so its first cell is not empty.
  have hmoved : place.offset < (place.skip _ ('\n' :: tail)).offset := offset_lt_skip hchars
  have hend : Pattern.rowEnd.capture? ('\n' :: tail) = some (.plain ['\n'] tail) := rfl
  refine .here_bind (.require_bind (decide_eq_true hmoved.ne') ?_)
  refine (Reads.optional_some (.pattern hend)).bind ?_
  rintro _ _ ⟨c, rfl, rfl, rfl⟩
  refine .here_bind (.require_bind rfl (.pure ⟨?_, isPlainRow_branch (.cons hcell hcells) _⟩))
  rw [Capture.text_plain, Place.skip_skip, toList_rowSource, List.append_assoc]
  rfl

/-! ## Reading the body of a table -/

/-- An item of the body of a table. -/
def tableItem (inner : Grammar → Parser Node) : Parser Node :=
  Reading.orElse (ofForm inner .caption) (Reading.orElse breakLine
    (Reading.orElse blankRows (Reading.orElse (Parser.row inner) Reading.fail)))

theorem readAbove_content (inner : Grammar → Parser Node) :
    (Grammar.readAbove inner Form.table.content : Parser Node) =
      Grammar.readSequence (Reading.many (tableItem inner) 0 none) := rfl

/-- A text that is no white space and no break line is left to rows. -/
structure BeginsLine (cs : List Char) : Prop where
  brace : cs.head? ≠ some '{'
  blank : ∀ c ∈ cs.head?, isBlank c = false
  dashes : ((cs.dropWhile isLineSpace).takeWhile (· == '-')).length < 3

theorem refuses_breakLine (h : BeginsLine place.rest) : Refuses s place breakLine := by
  refine .here_bind (.bind_left (.pattern ?_))
  simp only [Pattern.capture?]
  rw [if_pos h.dashes]

theorem refuses_blankRows (h : BeginsLine place.rest) : Refuses s place blankRows :=
  .here_bind (.bind_left (.pattern (runOf?_eq_none h.blank)))

/-- Where a line begins only a row can be read. -/
theorem reads_tableItem {Q : Node → Place → Prop} (h : BeginsLine place.rest)
    (hrow : Reads s place (Parser.row inner) Q) : Reads s place (tableItem inner) Q :=
  .orElse_right (refuses_ofForm .caption h.brace) (.orElse_right (refuses_breakLine h)
    (.orElse_right (refuses_blankRows h) (.orElse_left hrow)))

/-- The dashes before an escaped text are its own. -/
theorem takeWhile_dashes (htail : tail.head? ≠ some '-') :
    (escapeChars cs ++ tail).takeWhile (· == '-') = cs.takeWhile (· == '-') := by
  induction cs with
  | nil =>
    cases tail with
    | nil => rfl
    | cons d ds =>
      have hd : d ≠ '-' := fun heq => htail (by rw [heq]; rfl)
      simp [hd]
  | cons c cs ih =>
    by_cases hc : c = '-'
    · subst hc
      have hchars : escapeChars ('-' :: cs) = '-' :: escapeChars cs := rfl
      rw [hchars, List.cons_append, List.takeWhile_cons_of_pos (by decide), ih,
        List.takeWhile_cons_of_pos (by decide)]
    · rw [List.takeWhile_cons_of_neg (by simpa using hc)]
      cases hescape : isEscapable c with
      | true =>
        rw [escapeChars_of_escapable hescape]
        rfl
      | false =>
        rw [escapeChars_of_not_escapable hescape, List.cons_append,
          List.takeWhile_cons_of_neg (by simpa using hc)]

theorem length_dashes (h : ¬ ['-', '-', '-'] <+: cs) : (cs.takeWhile (· == '-')).length < 3 := by
  by_contra hlong
  obtain ⟨n, hn⟩ : ∃ n, (cs.takeWhile (· == '-')).length = n + 3 :=
    ⟨_, (Nat.sub_add_cancel (Nat.le_of_not_lt hlong)).symm⟩
  have hall : cs.takeWhile (· == '-') = List.replicate (n + 3) '-' :=
    List.eq_replicate_iff.mpr ⟨hn, fun c hc => by simpa using List.mem_takeWhile_imp hc⟩
  have hdashes : ['-', '-', '-'] <+: cs.takeWhile (· == '-') :=
    ⟨List.replicate n '-', by rw [hall]; rfl⟩
  exact h (hdashes.trans (List.takeWhile_prefix _))

/-- An escaped text that begins with no white space begins with neither that nor a brace. -/
theorem exists_head_escapeChars {c : Char} (hc : isBlank c = false) (cs : List Char) :
    ∃ d ds, escapeChars (c :: cs) = d :: ds ∧ d ≠ '{' ∧ isBlank d = false := by
  cases hescape : isEscapable c with
  | true => exact ⟨_, _, escapeChars_of_escapable hescape cs, by decide, by decide⟩
  | false =>
    refine ⟨c, _, escapeChars_of_not_escapable hescape cs, ?_, hc⟩
    rintro rfl
    cases hescape

/-- A line of a table begins with a character that is read in a cell. -/
theorem beginsLine_rowSource {row : List String} (h : IsLine row) (tail : List Char) :
    BeginsLine ((rowSource row).toList ++ tail) := by
  obtain ⟨t, more, rfl⟩ := List.exists_cons_of_ne_nil h.nonempty
  obtain ⟨hne, hdashes⟩ := h.begins t rfl
  have htrim : trimBlanks t.toList = t.toList := by
    rw [← toList_trim, h.trimmed t (List.mem_cons_self ..)]
  obtain ⟨c, cs, hc⟩ := List.exists_cons_of_ne_nil (show t.toList ≠ [] by simpa using hne)
  rw [hc] at hdashes htrim
  -- Dashes after the first cell are not counted with those that it begins with.
  obtain ⟨after, hafter, hafter'⟩ : ∃ after, (rowSource (t :: more)).toList ++ tail =
      escapeChars (c :: cs) ++ after ∧ after.head? ≠ some '-' := by
    refine ⟨padding more ++ (cellsAfter more ++ '\n' :: tail), ?_, ?_⟩
    · rw [toList_rowSource, hc, escapeChars_append, escapeChars_padding]
      simp
    · cases more <;> simp [padding, cellsAfter]
  obtain ⟨d, ds, hd, hbrace, hblank⟩ := exists_head_escapeChars (isBlank_of_trimmed htrim) cs
  have hspace : isLineSpace d = false := by
    by_contra hspace
    rw [isBlank_of_isLineSpace (by simpa using hspace)] at hblank
    cases hblank
  rw [hafter]
  refine ⟨?_, ?_, ?_⟩
  · rw [hd]
    simpa using hbrace
  · rw [hd]
    simpa using hblank
  · have hdrop : (escapeChars (c :: cs) ++ after).dropWhile isLineSpace =
        escapeChars (c :: cs) ++ after := by
      rw [hd]
      exact List.dropWhile_cons_of_neg (by simp [hspace])
    rw [hdrop, takeWhile_dashes hafter']
    exact length_dashes hdashes

/-- The closing brace of a table is not read as a row, since it would take nothing. -/
theorem refuses_tableItem (hplace : place.Fits) (hrest : place.rest = '}' :: tail) :
    Refuses s place (tableItem inner) := by
  have hbegins : BeginsLine place.rest := by
    rw [hrest]
    refine ⟨by simp, fun c hc => ?_, by simp [isLineSpace]⟩
    obtain rfl : '}' = c := Option.some.inj hc
    decide
  refine .orElse (refuses_ofForm .caption hbegins.brace) (.orElse (refuses_breakLine hbegins)
    (.orElse (refuses_blankRows hbegins) (.orElse (.here_bind ?_) .fail)))
  have hcell : Reads s place (cell inner) _ :=
    reads_cell hplace (show place.rest = escapeChars [] ++ '}' :: tail from hrest)
      List.not_mem_nil ⟨_, _, rfl, .inr (.inr rfl)⟩
  have hbar : Refuses s place (nextCell inner) := by
    refine .bind_left (.exactly ?_)
    rw [hrest]
    rintro ⟨rest, hbar⟩
    cases hbar
  have hcells : Reads s place (Reading.many (nextCell inner) 0 none) fun _ q => q = place :=
    .many (.stop hbar rfl)
  -- A cell is read, but it is empty, and no other follows: the row has not moved on.
  refine .bind_right hcell ?_
  rintro head q ⟨rfl, -⟩
  rw [escapeChars_nil, ← hrest, Place.skip_nil]
  refine .bind_right hcells ?_
  rintro cells _ rfl
  exact .here_bind (.bind_left (.require (by simp)))

/-- The lines of a table are read as rows up to the closing brace. -/
theorem collects_rows {matrix : List (List String)} (h : ∀ row ∈ matrix, IsLine row)
    (hplace : place.Fits)
    (hrest : place.rest = rowLines matrix ++ '}' :: tail) :
    Collects s place (tableItem inner) fun ns q =>
      q = place.skip (rowLines matrix) ('}' :: tail) ∧ List.Forall₂ Node.IsPlainRow ns matrix := by
  induction matrix generalizing place with
  | nil =>
    have hend : place.rest = '}' :: tail := hrest
    refine .stop (refuses_tableItem hplace hend) ⟨?_, .nil⟩
    exact (hend ▸ Place.skip_nil place).symm
  | cons row matrix ih =>
    obtain ⟨hrow, hrows⟩ := List.forall_mem_cons.mp h
    rw [rowLines, List.flatMap_cons, List.append_assoc] at hrest
    have hbegins := beginsLine_rowSource hrow (rowLines matrix ++ '}' :: tail)
    rw [rowLines, ← hrest] at hbegins
    refine .cons hplace ((reads_tableItem hbegins (reads_row hrow hplace hrest)).imp ?_)
    rintro n _ ⟨rfl, hn⟩
    have hbefore := Place.before_skip hrest.symm
    have hne : (rowSource row).toList ≠ [] := by
      simp [rowSource]
    refine ⟨hbefore, offset_lt_skip hne, (ih hrows (hplace.of_before hbefore) rfl).imp ?_⟩
    rintro ns _ ⟨rfl, hns⟩
    exact ⟨by rw [Place.skip_skip]; rfl, .cons hn hns⟩

/-- The newline before the first line is white space between rows. -/
theorem reads_newlineItem (hrest : place.rest = '\n' :: cs)
    (hcs : ∀ c ∈ cs.head?, isBlank c = false) :
    Reads s place (tableItem inner) fun n q => n.kind = .null ∧ q = place.skip ['\n'] cs := by
  have hbrace : place.rest.head? ≠ some '{' := by simp [hrest]
  have hdashes : Pattern.groupBreak.capture? place.rest = none := by
    rw [hrest]
    rfl
  have hblank : Pattern.blank.capture? place.rest = some (.plain ['\n'] cs) := by
    rw [hrest]
    have hline : ∀ c ∈ ['\n'], isBlank c = true := List.forall_mem_singleton.mpr rfl
    exact runOf?_append (List.cons_ne_nil _ _) hline hcs
  refine .orElse_right (refuses_ofForm .caption hbrace)
    (.orElse_right (.here_bind (.bind_left (.pattern hdashes))) (.orElse_left ?_))
  refine .here_bind (.pattern_bind hblank (.pure ⟨rfl, ?_⟩))
  rw [Capture.text_plain]
  rfl

/-- **The body of a table is a newline and its lines**, and all of them are read as rows. -/
theorem reads_body {matrix : List (List String)} (h : ∀ row ∈ matrix, IsLine row)
    (hne : matrix ≠ []) (hplace : place.Fits)
    (hrest : place.rest = '\n' :: (rowLines matrix ++ '}' :: tail)) :
    Reads s place (Grammar.readAbove inner Form.table.content) fun n q =>
      q = place.skip ('\n' :: rowLines matrix) ('}' :: tail) ∧
        (∀ m ∈ n.children, m.kind = .row ∨ m.kind = .null) ∧
        List.Forall₂ Node.IsPlainRow (n.children.filter Node.isRow) matrix := by
  obtain ⟨row, rows, rfl⟩ := List.exists_cons_of_ne_nil hne
  have hfirst : BeginsLine (rowLines (row :: rows) ++ '}' :: tail) := by
    rw [rowLines, List.flatMap_cons, List.append_assoc]
    exact beginsLine_rowSource (h row (List.mem_cons_self ..)) _
  have hbefore : place.Before (place.skip ['\n'] _) := Place.before_skip hrest.symm
  rw [readAbove_content]
  have hitem : Reads s place (tableItem inner) _ := reads_newlineItem hrest hfirst.blank
  refine .here_bind ((Reads.many (.cons hplace (hitem.imp ?_))).bind
    fun ns q hns => .here_bind (.pure hns))
  rintro n _ ⟨hn, rfl⟩
  refine ⟨hbefore, offset_lt_skip (List.cons_ne_nil _ _),
    (collects_rows h (hplace.of_before hbefore) rfl).imp ?_⟩
  rintro ns _ ⟨rfl, hns⟩
  have hall := Node.isRow_of_plainRows hns
  refine ⟨Place.skip_skip .., List.forall_mem_cons.mpr ⟨.inr hn, fun m hm => ?_⟩, ?_⟩
  · exact .inl (Node.isRow_iff.mp (hall m hm))
  · show List.Forall₂ _ ((n :: ns).filter Node.isRow) _
    rw [List.filter_cons_of_neg (by simp [Node.isRow, hn]), List.filter_eq_self.mpr hall]
    exact hns

/-! ## Reading tables -/

/-- Before a bar there are no arguments. -/
theorem arguments_of_bar (hrest : place.rest = '|' :: cs) : place.arguments = (.empty, place) := by
  have hnone : place.argument? = none := by
    have hname : Pattern.argumentName.capture? place.rest = none := by
      rw [hrest]
      rfl
    have hvalue : value? place.rest = none := by
      rw [hrest]
      rfl
    simp [Place.argument?, hname, hvalue]
  unfold Place.arguments
  cases place.left with
  | zero => rfl
  | succ fuel => rw [Place.argumentsLoop, hnone]

/-- **The text of a table is read as one element**, up to the end of the source. -/
theorem reads_tableSource {matrix : List (List String)} (h : ∀ row ∈ matrix, IsLine row)
    (hne : matrix ≠ []) (hplace : place.Fits) (hrest : place.rest = (tableSource matrix).toList)
    (hforms : s.catalog = .standard) (hfits : s.exhausted = false) (levels : Nat) :
    Reads s place (part (Grammar.inside (levels + 1))) fun n q =>
      place.Before q ∧ place.offset < q.offset ∧ q.rest = [] ∧ n.ShowsMatrix matrix := by
  let name : Capture :=
    ⟨[], some ['t', 'a', 'b', 'l', 'e'], [], '|' :: '\n' :: (rowLines matrix ++ ['}'])⟩
  have hchars : place.rest = '{' :: (name.text ++ name.rest) := by
    rw [hrest, tableSource, String.toList_append, String.toList_append, String.toList_join,
      List.flatMap_map]
    rfl
  have hname : Pattern.name.capture? (name.text ++ name.rest) = some name := rfl
  -- No form before that of tables goes by this name.
  have hothers : ∀ f ∈ Catalog.standard.dropLast, f.accepts "table" = false := by decide
  have hstandard : Catalog.standard = Catalog.standard.dropLast ++ [.table] := rfl
  refine reads_element hchars hfits ?_
  rw [hforms, hstandard]
  refine reads_ofCatalog [] (fun f hf => refuses_ofForm_of_name hchars hname (hothers f hf)) ?_
  let start := (place.skip ['{'] (name.text ++ name.rest)).skip name.text name.rest
  have hbar : start.rest = '|' :: '\n' :: (rowLines matrix ++ ['}']) := rfl
  have hbefore : place.Before (start.skip ['|'] ('\n' :: (rowLines matrix ++ ['}']))) := by
    refine ⟨'{' :: (name.text ++ ['|']), ?_, ?_⟩
    · rw [hchars]
      rfl
    · rw [Place.skip_skip, Place.skip_skip]
      rfl
  have hbody : Reads (s.push (s.deeper [])) _ (Grammar.inside (levels + 1) Form.table.content) _ :=
    Grammar.readAt_eq (m := Parser) levels _ ▸ reads_body h hne (hplace.of_before hbefore) rfl
  -- Without arguments a table has no settings.
  let settings : Table := ⟨.empty, 0, 0, true, 0, 0, .blank 0 0, ""⟩
  have hshape : Form.table.shape? "table" .empty = some (.table settings) := rfl
  have haccepts : Form.table.accepts "table" = true := by decide
  refine reads_ofForm hchars hname haccepts (arguments_of_bar hbar) hshape
    (reads_content hbar rfl hfits (hbody.imp ?_))
  rintro n _ ⟨rfl, hkinds, hrows⟩
  obtain ⟨made, hmade, hshows⟩ :=
    Table.layout?_single (t := settings) rfl rfl hne hkinds hrows ⟨place.offset, _⟩
  refine ⟨.plain ['}'] [], made, rfl, hmade, ?_⟩
  have hend : ((start.skip ['|'] ('\n' :: (rowLines matrix ++ ['}']))).skip
      ('\n' :: rowLines matrix) ['}']).skip (Capture.plain ['}'] []).text [] =
        place.skip ('{' :: (name.text ++ name.rest)) [] := by
    simp only [start, Place.skip_skip]
    simp [Capture.text, Capture.plain, name]
  refine ⟨?_, ?_, rfl, hshows⟩
  · exact hend ▸ Place.before_skip (by rw [hchars, List.append_nil])
  · exact hend ▸ offset_lt_skip (List.cons_ne_nil _ _)

end Parser

namespace Document

/-- **A matrix that is written as a table is read back**: the document is a single table, with a
row for each row of the matrix and each string in a cell of its own, in its row and its column. -/
theorem read_tableSource (matrix : List (List String)) (hne : matrix ≠ [])
    (h : ∀ row ∈ matrix, Text.IsLine row) :
    ∃ n, (read .standard (Text.tableSource matrix)).root.children = [n] ∧
      n.ShowsMatrix matrix := by
  have hplace := Place.fits_first (Text.tableSource matrix).toList
  have hfits : (scope .standard).exhausted = false := by
    rw [Scope.exhausted, nesting_scope]
    decide
  have hcollect : Parser.Collects (scope .standard) (.first (Text.tableSource matrix).toList)
      (Parser.part (Grammar.inside maxNesting)) fun ns q =>
        q.rest = [] ∧ ∃ n, ns = [n] ∧ n.ShowsMatrix matrix := by
    refine .cons hplace ((Parser.reads_tableSource h hne hplace rfl (catalog_scope .standard)
      hfits 63).imp ?_)
    rintro n q ⟨hbefore, hlt, hend, hn⟩
    have hstop := (Cursor.stopsAt_scope_iff .standard q).mpr hend
    exact ⟨hbefore, hlt, .stop (Parser.refuses_part hstop) ⟨hend, n, rfl, hn⟩⟩
  obtain ⟨_, ⟨n, rfl, t, hkind, hshown⟩, hroot⟩ := root_of_reads hcollect
  refine ⟨n, ?_, t, hkind, hshown⟩
  -- A table is a block, so no paragraph is made around it.
  have hblock : n.isInline = false ∧ n.isGap = false := by
    rw [Node.isInline, Node.isGap, hkind]
    exact ⟨rfl, rfl⟩
  rw [hroot, Node.children_assemble_document]
  simp [Node.paragraphs, Node.paragraphsAfter, hblock]

/-- Rows of different lengths, with an empty cell, a bar in a cell and a line that begins with two
dashes. -/
theorem read_tableSource_ragged :
    Text.tableSource [["a|b", "", "c"], ["--"]] = "\x7btable|\na\\|b |  | c\n--\n\x7d" ∧
      ∃ n t, (read .standard "\x7btable|\na\\|b |  | c\n--\n\x7d").root.children = [n] ∧
        n.kind = .table t ∧ t.rows = 2 ∧
          n.tableRows.map (fun row => row.children.map Node.shown) =
            [[(some ⟨0, 0, 1, 1⟩, "a|b"), (some ⟨0, 1, 1, 1⟩, ""), (some ⟨0, 2, 1, 1⟩, "c")],
              [(some ⟨1, 0, 1, 1⟩, "--")]] := by
  have hsource : Text.tableSource [["a|b", "", "c"], ["--"]] =
      "\x7btable|\na\\|b |  | c\n--\n\x7d" := by decide
  obtain ⟨n, hroot, t, hkind, hcount, hshown⟩ :=
    read_tableSource [["a|b", "", "c"], ["--"]] (by decide) (by decide)
  rw [hsource] at hroot
  exact ⟨hsource, n, t, hroot, hkind, hcount, hshown⟩

end Document

end Bracemark
