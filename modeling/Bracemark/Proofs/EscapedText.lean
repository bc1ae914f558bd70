/-
Escaping makes any text literal.

A backslash before each character that could be markup leaves nothing to any form, so what is
read from an escaped text is the text itself, in pieces, and blank lines between its blocks
(`Parser.collects_escaped`). No piece is lost or changed, wherever the escapes cut the text, so
the plain rendering has one paragraph for each block that is not white space
(`Document.render_escaped`).

The blocks are defined here on their own (`Text.blocks`), by what a break between blocks looks
like; that reading finds the same breaks is shown (`blockBreak?_eq`).
-/
import Bracemark.Proofs.Paragraphs
import Bracemark.Proofs.TextReading

set_option autoImplicit false

namespace Bracemark

namespace Text

/-! ## Blocks -/

/-- The length of the blank lines at the beginning of a text: whole lines of nothing but spaces
and tabs, each with its newline. -/
def blankLines : List Char → Nat
  | [] => 0
  | c :: cs =>
    if c = '\n' then blankLines cs + 1
    else if isLineSpace c && decide (0 < blankLines cs) then blankLines cs + 1
    else 0

/-- The length of the break between blocks at the beginning of a text, which is none or else a
newline and all blank lines after it. -/
def breakLength : List Char → Nat
  | '\n' :: cs => if 0 < blankLines cs then blankLines cs + 1 else 0
  | _ => 0

/-- The blocks of a text between the breaks. A number of characters at the beginning still
belongs to a break and is left out. -/
def blocksAfter : Nat → List Char → List (List Char)
  | _, [] => [[]]
  | left + 1, _ :: cs => blocksAfter left cs
  | 0, c :: cs =>
    match breakLength (c :: cs) with
    | 0 => (blocksAfter 0 cs).modifyHead (c :: ·)
    | length + 1 => [] :: blocksAfter length cs

/-- The blocks of a text: what is left between the breaks when each of them begins as early as
possible and is as long as possible. -/
def blocks (s : String) : List String :=
  (blocksAfter 0 s.toList).map String.ofList

/-! ## Escaping -/

/-- Some characters with a backslash before each one that has a meaning. -/
def escapeChars (cs : List Char) : List Char :=
  cs.flatMap fun c => if isEscapable c then ['\\', c] else [c]

/-- A text with a backslash before each character that has a meaning. -/
def escaped (s : String) : String :=
  String.ofList (escapeChars s.toList)

variable {c : Char} {cs ds : List Char}

@[simp] theorem escapeChars_nil : escapeChars [] = [] := rfl

theorem escapeChars_cons (c : Char) (cs : List Char) :
    escapeChars (c :: cs) = (if isEscapable c then ['\\', c] else [c]) ++ escapeChars cs := rfl

theorem escapeChars_of_escapable (h : isEscapable c = true) (cs : List Char) :
    escapeChars (c :: cs) = '\\' :: c :: escapeChars cs := by
  rw [escapeChars_cons, if_pos h]
  rfl

theorem escapeChars_of_not_escapable (h : isEscapable c = false) (cs : List Char) :
    escapeChars (c :: cs) = c :: escapeChars cs := by
  rw [escapeChars_cons, if_neg (by simp [h])]
  rfl

theorem escapeChars_ne_nil (h : cs ≠ []) : escapeChars cs ≠ [] := by
  obtain ⟨c, cs, rfl⟩ := List.exists_cons_of_ne_nil h
  cases hc : isEscapable c with
  | true => simp [escapeChars_of_escapable hc]
  | false => simp [escapeChars_of_not_escapable hc]

theorem escapeChars_append (cs ds : List Char) :
    escapeChars (cs ++ ds) = escapeChars cs ++ escapeChars ds :=
  List.flatMap_append

theorem escapeChars_eq_self (h : ∀ c ∈ cs, isEscapable c = false) : escapeChars cs = cs := by
  induction cs with
  | nil => rfl
  | cons c cs ih =>
    obtain ⟨hc, hcs⟩ := List.forall_mem_cons.mp h
    rw [escapeChars_of_not_escapable hc, ih hcs]

/-! ## Blank lines -/

theorem blankLines_le (cs : List Char) : blankLines cs ≤ cs.length := by
  fun_induction blankLines cs <;> simp_all

theorem blankLines_cons_newline (cs : List Char) :
    blankLines ('\n' :: cs) = blankLines cs + 1 := rfl

theorem blankLines_cons_other (hline : c ≠ '\n') (hspace : isLineSpace c = false)
    (cs : List Char) : blankLines (c :: cs) = 0 := by
  rw [blankLines, if_neg hline, hspace]
  rfl

theorem blankLines_cons_escapable (h : isEscapable c = true) (cs : List Char) :
    blankLines (c :: cs) = 0 := by
  simp only [isEscapable, Bool.or_eq_true, beq_iff_eq] at h
  rcases h with (((rfl | rfl) | rfl) | rfl) | rfl <;>
    exact blankLines_cons_other (by decide) (by decide) cs

/-- Blank lines are nothing that would be escaped, and what is escaped is no blank line. -/
theorem blankLines_escapeChars (cs : List Char) : blankLines (escapeChars cs) = blankLines cs := by
  induction cs with
  | nil => rfl
  | cons c cs ih =>
    cases hc : isEscapable c with
    | false => rw [escapeChars_of_not_escapable hc, blankLines, blankLines, ih]
    | true =>
      rw [escapeChars_of_escapable hc, blankLines_cons_escapable rfl,
        blankLines_cons_escapable hc]

theorem blankLines_cons (c : Char) (cs : List Char) :
    blankLines (c :: cs) = 0 ∨ blankLines (c :: cs) = blankLines cs + 1 := by
  rw [blankLines]
  split
  · exact .inr rfl
  · split
    · exact .inr rfl
    · exact .inl rfl

theorem take_blankLines_escapeChars (cs : List Char) :
    (escapeChars cs).take (blankLines cs) = cs.take (blankLines cs) ∧
      (escapeChars cs).drop (blankLines cs) = escapeChars (cs.drop (blankLines cs)) := by
  induction cs with
  | nil => exact ⟨rfl, rfl⟩
  | cons c cs ih =>
    cases hc : isEscapable c with
    | true =>
      rw [blankLines_cons_escapable hc]
      exact ⟨rfl, rfl⟩
    | false =>
      rcases blankLines_cons c cs with hnone | hmore
      · rw [hnone]
        exact ⟨rfl, rfl⟩
      · rw [hmore, escapeChars_of_not_escapable hc]
        exact ⟨by rw [List.take_succ_cons, List.take_succ_cons, ih.1], ih.2⟩

/-- The characters of blank lines, with those at the end taken off that are no whole line. -/
theorem takeWhile_blankLines (cs : List Char) :
    ((cs.takeWhile fun c => isLineSpace c || c == '\n').reverse.dropWhile isLineSpace).reverse =
      cs.take (blankLines cs) := by
  induction cs with
  | nil => rfl
  | cons c cs ih =>
    by_cases hline : c = '\n'
    · subst hline
      have hstop : isLineSpace '\n' = false := by decide
      rw [List.takeWhile_cons_of_pos (by simp), List.reverse_cons, List.dropWhile_append,
        blankLines_cons_newline, List.take_succ_cons, ← ih]
      split
      · next hempty =>
        rw [List.isEmpty_iff] at hempty
        simp [hempty, hstop]
      · simp
    · by_cases hspace : isLineSpace c = true
      -- A space belongs to a blank line only if one is left after it.
      · have hnone : (cs.take (blankLines cs) = []) ↔ blankLines cs = 0 := by
          have := blankLines_le cs
          rw [List.take_eq_nil_iff]
          refine ⟨fun h => h.elim id ?_, .inl⟩
          rintro rfl
          rfl
        rw [List.takeWhile_cons_of_pos (by simp [hspace]), List.reverse_cons,
          List.dropWhile_append, blankLines, if_neg hline, hspace, Bool.true_and]
        split
        · next hempty =>
          rw [List.isEmpty_iff] at hempty
          rw [hempty, List.reverse_nil, eq_comm, hnone] at ih
          simp [hspace, ih]
        · next hsome =>
          have hpos : 0 < blankLines cs := by
            refine Nat.pos_of_ne_zero fun hzero => hsome ?_
            rw [hnone.mpr hzero, List.reverse_eq_nil_iff] at ih
            rw [ih]
            rfl
          rw [if_pos (by simpa using hpos), List.take_succ_cons, ← ih]
          simp
      · rw [List.takeWhile_cons_of_neg (by simp [hspace, hline]),
          blankLines_cons_other hline (by simpa using hspace)]
        rfl

/-- Reading finds the break that there is. -/
theorem blockBreak?_newline (cs : List Char) :
    blockBreak? ('\n' :: cs) =
      if 0 < blankLines cs then
        some (.plain ('\n' :: cs.take (blankLines cs)) (cs.drop (blankLines cs)))
      else none := by
  have hlength : (cs.take (blankLines cs)).length = blankLines cs := by
    rw [List.length_take, Nat.min_eq_left (blankLines_le cs)]
  simp only [blockBreak?, takeWhile_blankLines, hlength, List.isEmpty_iff_length_eq_zero]
  by_cases h : blankLines cs = 0 <;> simp [h, Nat.pos_iff_ne_zero]

/-! ## Cutting a text into blocks -/

theorem blocksAfter_eq_drop (left : Nat) (cs : List Char) :
    blocksAfter left cs = blocksAfter 0 (cs.drop left) := by
  induction cs generalizing left with
  | nil => rw [List.drop_nil]; cases left <;> rfl
  | cons c cs ih =>
    cases left with
    | zero => rfl
    | succ left => exact ih left

/-- Before the next newline there is no break. -/
theorem blocksAfter_append (hcs : '\n' ∉ cs) (ds : List Char) :
    blocksAfter 0 (cs ++ ds) = (blocksAfter 0 ds).modifyHead (cs ++ ·) := by
  induction cs with
  | nil =>
    rw [List.nil_append]
    cases blocksAfter 0 ds <;> rfl
  | cons c cs ih =>
    obtain ⟨hc, hrest⟩ := List.ne_and_not_mem_of_not_mem_cons hcs
    have hnone : breakLength (c :: (cs ++ ds)) = 0 := by
      unfold breakLength
      split
      · next rest heq => exact absurd (List.cons.inj heq).1.symm hc
      · rfl
    rw [List.cons_append, blocksAfter, hnone]
    dsimp only
    rw [ih hrest]
    cases blocksAfter 0 ds <;> rfl

theorem blocksAfter_newline (hcs : blankLines cs = 0) :
    blocksAfter 0 ('\n' :: cs) = (blocksAfter 0 cs).modifyHead ('\n' :: ·) := by
  have hnone : breakLength ('\n' :: cs) = 0 := by simp [breakLength, hcs]
  rw [blocksAfter, hnone]

theorem blocksAfter_break (hcs : 0 < blankLines cs) :
    blocksAfter 0 ('\n' :: cs) = [] :: blocksAfter 0 (cs.drop (blankLines cs)) := by
  have hsome : breakLength ('\n' :: cs) = blankLines cs + 1 := by simp [breakLength, hcs]
  rw [blocksAfter, hsome]
  dsimp only
  rw [blocksAfter_eq_drop]

theorem map_ofList_modifyHead (cs : List Char) (css : List (List Char)) :
    (css.modifyHead (cs ++ ·)).map String.ofList =
      Node.prepend (String.ofList cs) (css.map String.ofList) := by
  cases css <;> simp [Node.prepend]

end Text

namespace Node

/-! ## Pieces -/

/-- The nodes are pieces that some characters have been read in: text, and blank lines between
their blocks. -/
structure Spell (ns : List Node) (cs : List Char) : Prop where
  pieces : ∀ n ∈ ns, (∃ span, n = leaf span .gap) ∨ ∃ span t, n = text span t ∧ t ≠ ""
  texts : ∀ c, runTexts c ns = (Text.blocksAfter 0 cs).map String.ofList

variable {ns : List Node} {cs ds : List Char}

theorem spell_nil : Spell [] [] where
  pieces _ h := absurd h List.not_mem_nil
  texts _ := runTexts_nil

/-- A piece of text comes before what follows it in the same block. -/
theorem Spell.text_cons (h : Spell ns ds) (span : Span) (hne : cs ≠ [])
    (hcs : Text.blocksAfter 0 (cs ++ ds) = (Text.blocksAfter 0 ds).modifyHead (cs ++ ·)) :
    Spell (text span (String.ofList cs) :: ns) (cs ++ ds) where
  pieces := List.forall_mem_cons.mpr ⟨.inr ⟨span, _, rfl, by simpa using hne⟩, h.pieces⟩
  texts c := by
    rw [runTexts_cons rfl, h.texts c, hcs, Text.map_ofList_modifyHead]
    rfl

/-- A gap stands for a newline with blank lines after it. -/
theorem Spell.gap_cons (hcs : 0 < Text.blankLines cs)
    (h : Spell ns (cs.drop (Text.blankLines cs))) (span : Span) :
    Spell (leaf span .gap :: ns) ('\n' :: cs) where
  pieces := List.forall_mem_cons.mpr ⟨.inl ⟨span, rfl⟩, h.pieces⟩
  texts c := by
    rw [runTexts_cons_gap rfl, h.texts c, Text.blocksAfter_break hcs]
    rfl

theorem Spell.words (h : Spell ns cs) : ∀ n ∈ ns, n.isGap = true ∨ n.IsWording := by
  intro n hn
  rcases h.pieces n hn with ⟨span, rfl⟩ | ⟨span, t, rfl, -⟩
  · exact .inl rfl
  · exact .inr (isWording_text span t)

theorem Spell.prose (h : Spell ns cs) : AllKinds (fun k => k.isProse = true) ns := by
  intro n hn
  rcases h.pieces n hn with ⟨span, rfl⟩ | ⟨span, t, rfl, -⟩
  · exact everyKind_mk.mpr ⟨rfl, allKinds_nil⟩
  · exact everyKind_mk.mpr ⟨rfl, allKinds_nil⟩

end Node

namespace Parser

open Text

/-! ## Reading what is escaped -/

variable {s : Scope} {place : Place} {cs tail : List Char}

/-- Whether a character is neither escaped nor a newline. -/
def isOrdinary (c : Char) : Bool :=
  !isEscapable c && c != '\n'

theorem isPlain_of_isOrdinary {c : Char} (h : isOrdinary c = true) (inCell : Bool) :
    isPlain inCell c = true := by
  simp only [isOrdinary, isEscapable, isPlain, isMarkup, Bool.and_eq_true, Bool.not_eq_true',
    Bool.or_eq_false_iff, bne_iff_ne, beq_eq_false_iff_ne, Bool.and_eq_false_iff] at h ⊢
  tauto

/-- What is not ordinary is escaped, or is a newline: no run of plain text goes on to it. -/
theorem head_escapeChars (inCell : Bool) (h : ∀ c ∈ cs.head?, isOrdinary c = false)
    (htail : ∀ c ∈ tail.head?, isPlain inCell c = false) :
    ∀ c ∈ (escapeChars cs ++ tail).head?, isPlain inCell c = false := by
  cases cs with
  | nil => exact htail
  | cons d cs =>
    intro c hc
    cases hd : isEscapable d with
    | true =>
      rw [escapeChars_of_escapable hd] at hc
      obtain rfl : '\\' = c := Option.some.inj hc
      rfl
    | false =>
      rw [escapeChars_of_not_escapable hd] at hc
      obtain rfl : d = c := Option.some.inj hc
      have hline := h d rfl
      rw [isOrdinary, hd] at hline
      obtain rfl : d = '\n' := by simpa using hline
      rfl

/-- At a place where some escaped characters stand a piece of them is read, and the others stand
after it. -/
def ReadsPiece (inner : Grammar → Parser Node) (s : Scope) (place : Place)
    (cs tail : List Char) : Prop :=
  ∃ taken next, taken ≠ [] ∧ escapeChars cs = taken ++ escapeChars next ∧ next <:+ cs.tail ∧
    Reads s place (part inner) fun n q => q = place.skip taken (escapeChars next ++ tail) ∧
      ∀ ns, Node.Spell ns next → Node.Spell (n :: ns) cs

variable {c : Char} {inner : Grammar → Parser Node}

/-- A newline is a piece of text, and with blank lines after it a gap. -/
theorem readsPiece_newline (hrest : place.rest = escapeChars ('\n' :: cs))
    (hcell : s.localFlag Key.cellText = false) : ReadsPiece inner s place ('\n' :: cs) [] := by
  have hchars : escapeChars ('\n' :: cs) = '\n' :: escapeChars cs := rfl
  rw [hchars] at hrest
  have hgap := hrest ▸ blockBreak?_newline (escapeChars cs)
  rw [blankLines_escapeChars] at hgap
  by_cases hbreak : 0 < blankLines cs
  · have htake := take_blankLines_escapeChars cs
    rw [if_pos hbreak, htake.1, htake.2] at hgap
    refine ⟨'\n' :: cs.take (blankLines cs), cs.drop (blankLines cs), List.cons_ne_nil _ _, ?_,
      List.drop_suffix _ _, (reads_gap hcell hgap).imp ?_⟩
    · rw [hchars, List.cons_append, ← htake.1, ← htake.2, List.take_append_drop]
    · rintro n q ⟨rfl, rfl⟩
      rw [Capture.text_plain, List.append_nil]
      exact ⟨rfl, fun ns hns => hns.gap_cons hbreak _⟩
  · rw [if_neg hbreak] at hgap
    refine ⟨['\n'], cs, List.cons_ne_nil _ _, rfl, List.suffix_rfl,
      (reads_newline hrest hcell hgap).imp ?_⟩
    rintro n q ⟨rfl, rfl⟩
    rw [List.append_nil]
    have hnone : blankLines cs = 0 := Nat.eq_zero_of_not_pos hbreak
    exact ⟨rfl, fun ns hns => hns.text_cons _ (List.cons_ne_nil _ _) (blocksAfter_newline hnone)⟩

/-- A character that has a meaning is a piece of text of its own. -/
theorem readsPiece_escapable (hrest : place.rest = escapeChars (c :: cs) ++ tail)
    (hc : isEscapable c = true) : ReadsPiece inner s place (c :: cs) tail := by
  have hchars := escapeChars_of_escapable hc cs
  rw [hchars] at hrest
  refine ⟨['\\', c], cs, List.cons_ne_nil _ _, hchars, List.suffix_rfl,
    (reads_escape hrest hc).imp ?_⟩
  rintro n q ⟨rfl, rfl⟩
  have hline : '\n' ∉ [c] := by
    intro hmem
    rw [← List.mem_singleton.mp hmem] at hc
    exact absurd hc (by decide)
  exact ⟨rfl, fun ns hns => hns.text_cons _ (List.cons_ne_nil _ _) (blocksAfter_append hline cs)⟩

/-- An ordinary character is read with all that follow it. -/
theorem readsPiece_ordinary (hrest : place.rest = escapeChars (c :: cs) ++ tail)
    (hc : isOrdinary c = true)
    (htail : ∀ d ∈ tail.head?, isPlain (s.localFlag Key.cellText) d = false) :
    ReadsPiece inner s place (c :: cs) tail := by
  obtain ⟨run, next, rfl, hrun, hnext⟩ := exists_run hc cs
  have hself : escapeChars (c :: run) = c :: run := by
    refine escapeChars_eq_self fun d hd => ?_
    have := hrun d hd
    simp only [isOrdinary, Bool.and_eq_true, Bool.not_eq_true'] at this
    exact this.1
  have hchars : escapeChars (c :: (run ++ next)) = c :: run ++ escapeChars next := by
    rw [← List.cons_append, escapeChars_append, hself]
  rw [hchars, List.append_assoc] at hrest
  refine ⟨c :: run, next, List.cons_ne_nil _ _, hchars, List.suffix_append _ _,
    (reads_run hrest (List.cons_ne_nil _ _) (fun d hd => isPlain_of_isOrdinary (hrun d hd) _)
      (head_escapeChars _ hnext htail)).imp ?_⟩
  rintro n q ⟨rfl, rfl⟩
  have hline : '\n' ∉ c :: run := fun hmem => absurd (hrun _ hmem) (by decide)
  exact ⟨rfl, fun ns hns => hns.text_cons _ (List.cons_ne_nil _ _) (blocksAfter_append hline next)⟩

/-- **An escaped text is read as itself**, up to where content stops. In a cell it must have no
newline; elsewhere it must go on to the end of the source. -/
theorem collects_escaped (hplace : place.Fits) (hrest : place.rest = escapeChars cs ++ tail)
    (htail : ∀ q : Place, q.rest = tail → s.StopsAt q)
    (hcell : s.localFlag Key.cellText = true → '\n' ∉ cs)
    (hend : s.localFlag Key.cellText = false → tail = []) :
    Collects s place (part inner) fun ns q =>
      q = place.skip (escapeChars cs) tail ∧ Node.Spell ns cs := by
  -- A piece may be longer than its first character, so the induction is on the length.
  induction hlength : cs.length using Nat.strong_induction_on generalizing cs place with
  | _ length ih =>
  cases cs with
  | nil =>
    have hplain : place.rest = tail := hrest
    refine .stop (refuses_part (htail place hplain)) ⟨?_, Node.spell_nil⟩
    rw [escapeChars_nil, ← hplain, Place.skip_nil]
  | cons c cs =>
    have hpiece : ReadsPiece inner s place (c :: cs) tail := by
      by_cases hline : c = '\n'
      · subst hline
        have houter : s.localFlag Key.cellText = false :=
          Bool.eq_false_iff.mpr fun h => hcell h (List.mem_cons_self ..)
        obtain rfl := hend houter
        exact readsPiece_newline (hrest.trans (List.append_nil _)) houter
      · cases hc : isEscapable c with
        | true => exact readsPiece_escapable hrest hc
        | false =>
          refine readsPiece_ordinary hrest (by simp [isOrdinary, hc, hline]) fun d hd => ?_
          exact isPlain_of_stopsAt (htail (place.skip [] tail) rfl) hd
    obtain ⟨taken, next, hne, hchars, hsuffix, hread⟩ := hpiece
    rw [hchars, List.append_assoc] at hrest
    refine .cons hplace (hread.imp ?_)
    rintro n _ ⟨rfl, hn⟩
    have hbefore := Place.before_skip hrest.symm
    have hshort : next.length < length := by
      have := hsuffix.length_le
      rw [← hlength, List.length_cons]
      exact Nat.lt_succ_of_le this
    have hcell' : s.localFlag Key.cellText = true → '\n' ∉ next := fun h hmem =>
      hcell h (List.mem_cons_of_mem c (hsuffix.subset hmem))
    refine ⟨hbefore, offset_lt_skip hne,
      (ih _ hshort (hplace.of_before hbefore) rfl hcell' rfl).imp ?_⟩
    rintro ns _ ⟨rfl, hns⟩
    exact ⟨by rw [hchars, Place.skip_skip], hn ns hns⟩

end Parser

namespace Document

/-- **Escaping makes any text literal**: an escaped text is rendered as its blocks, each that is
not white space as a paragraph without white space around it. -/
theorem render_escaped (forms : Catalog) (s : Settings) (text : String) :
    ((read forms (Text.escaped text)).render .plain s).map Prod.fst =
      .ok (String.join ((Text.blocks text).map Text.paragraphText)) := by
  have hplace := Place.fits_first (Text.escaped text).toList
  have hrest : (Place.first (Text.escaped text).toList).rest =
      Text.escapeChars text.toList ++ [] := by
    simp [Place.first, Text.escaped]
  have hcell : (scope forms).localFlag Key.cellText = false := rfl
  obtain ⟨ns, hns, hroot⟩ := root_of_reads <| (Parser.collects_escaped hplace hrest
    (fun q hq => (Cursor.stopsAt_scope_iff forms q).mpr hq) (by simp [hcell]) (fun _ => rfl)).imp
      fun ns q h => ⟨by rw [h.1, Place.skip_rest], h.2⟩
  exact render_words hroot hns.words hns.prose hns.texts s

end Document

end Bracemark
