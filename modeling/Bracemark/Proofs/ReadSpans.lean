/-
Reading gives trees whose spans are in order.

Every parser for a node yields one that stands between the place where reading began
and the place it has come to; every parser for several yields a series there. A row
stops before the end of its line and an explicit cell leaves the spaces around it out,
so a node need not fill what was read. Content comes from one level deeper, where the
only grammars are repetitions; for those the children of the node are the series.
-/
import Bracemark.Proofs.Outcomes
import Bracemark.Proofs.TableSpans

set_option autoImplicit false

namespace Bracemark

open Reading

/-- The element stands between the offset at which it began and the place after it. -/
def Recollection.Spanned (source : List Char) (r : Recollection) : Prop :=
  Series source r.start r.after.offset [r.node] ∧ r.after.In source

namespace Parser

section

variable (source : List Char) (s : Scope) (place : Place)

/-- A parser for a node that stands between the place before and the place after. -/
def YieldsNode (p : Parser Node) : Prop :=
  Yields source (Recollection.Spanned source) s place p
    fun n q => Series source place.offset q.offset [n]

/-- A parser for a series of nodes between the place before and the place after. -/
def YieldsSeries (p : Parser (List Node)) : Prop :=
  Yields source (Recollection.Spanned source) s place p
    fun ns q => Series source place.offset q.offset ns

end

variable {source : List Char} {s : Scope} {place q : Place}

/-- A node without children from one place to a later one. -/
theorem series_leaf {kind : Kind} (hkind : kind.Plain) (hplace : place.In source)
    (hq : place.Before q) :
    Series source place.offset q.offset [Node.leaf (place.spanTo q) kind] :=
  Series.singleton_iff.mpr ⟨Nat.le_refl _, Node.wellSpanned_leaf hkind hplace.boundary
    (hplace.of_before hq).boundary hq.offset_le, Nat.le_refl _⟩

/-- A node around a series from one place to a later one. -/
theorem wellSpanned_between {kind : Kind} (hkind : kind.Plain) (hplace : place.In source)
    (hq : place.Before q) {ns : List Node} (h : Series source place.offset q.offset ns) :
    (Node.branch (place.spanTo q) kind ns).WellSpanned source :=
  Node.wellSpanned_of_series hkind hplace.boundary (hplace.of_before hq).boundary h

/-! ## Pieces of text -/

theorem yieldsNode_text : YieldsNode source s place text := by
  refine .of_in fun hplace => ?_
  unfold Parser.text
  refine .here (.localFlag (.bind .pattern fun run q hq _ => .here (.pure ?_)))
  exact series_leaf trivial hplace hq

theorem yieldsNode_escape : YieldsNode source s place escape := by
  refine .of_in fun hplace => ?_
  unfold Parser.escape
  refine .here (.bind .pattern fun c q hq _ => .here (.pure ?_))
  exact series_leaf trivial hplace hq

theorem yieldsNode_verbatim : YieldsNode source s place verbatim := by
  refine .of_in fun hplace => ?_
  unfold Parser.verbatim
  refine .here (.bind .pattern fun opening q hq _ => ?_)
  refine .bind (.ofPlace (advances_upToFence _)) fun content r hr _ => .here (.pure ?_)
  exact series_leaf trivial hplace (hq.trans hr)

theorem yieldsNode_gap : YieldsNode source s place gap := by
  refine .of_in fun hplace => ?_
  unfold Parser.gap
  refine .localFlag (.bind .require fun _ q _ hstay => ?_)
  obtain rfl := hstay.2
  refine .here (.bind .pattern fun _ r hr _ => .here (.pure ?_))
  exact series_leaf trivial hplace hr

theorem yieldsNode_stray : YieldsNode source s place stray := by
  refine .of_in fun hplace => ?_
  unfold Parser.stray
  refine .here (.localFlag (.exhausted (.bind (.ofPlace advances_nextChar) fun c q hq _ => ?_)))
  refine .bind .require fun _ r _ hstay => ?_
  obtain rfl := hstay.2
  exact .here (.pure (series_leaf trivial hplace hq))

/-! ## Elements -/

section

variable {inner : Grammar → Parser Node}

/-- What is read one level deeper, for the grammars that content has: the children of
the node make a series. -/
def InnerYields (source : List Char) (inner : Grammar → Parser Node) : Prop :=
  ∀ (s : Scope) (place : Place) (g : Grammar),
    Yields source (Recollection.Spanned source) s place (inner (.repeated g))
      fun n q => Series source place.offset q.offset n.children

theorem exists_content_eq (form : Form) : ∃ g, form.content = .repeated g := by
  cases form <;> exact ⟨_, rfl⟩

theorem yieldsSeries_content (hinner : InnerYields source inner) (form : Form) :
    YieldsSeries source s place (content inner form) := by
  unfold Parser.content
  refine .bind (.optional .pattern) fun bar q hq hbar => ?_
  cases bar with
  | none =>
    obtain rfl : q = place := hbar
    exact .pure (.nil (Nat.le_refl _))
  | some c =>
    obtain ⟨g, hg⟩ := exists_content_eq form
    refine .here (.bind .require fun _ r _ hstay => ?_)
    obtain rfl := hstay.2
    rw [hg]
    refine .bind (.nested fun _ => hinner _ _ g) fun read t ht hread => ?_
    refine .bind .require fun _ u _ hstay => ?_
    obtain rfl := hstay.2
    exact .pure (hread.mono hq.offset_le (Nat.le_refl _))

theorem yieldsNode_ofForm (hinner : InnerYields source inner) (form : Form) :
    YieldsNode source s place (ofForm inner form) := by
  refine .of_in fun hplace => ?_
  unfold Parser.ofForm
  refine .here (.bind .exactly fun _ p1 h1 _ => .bind .pattern fun named p2 h2 _ => ?_)
  refine .bind .require fun _ p3 h3 _ => .bind .arguments fun as p4 h4 _ => ?_
  refine .bind .ofOption fun shape p5 h5 _ => ?_
  refine .bind (yieldsSeries_content hinner form) fun nodes p6 h6 hnodes => ?_
  refine .bind .pattern fun _ p7 h7 _ => .here (Yields.imp .ofOption ?_)
  rintro n stop - ⟨hn, rfl⟩
  -- Content stands between the arguments, which end at `p5`, and the closing brace.
  have hbefore : place.Before p5 := h1.trans (h2.trans (h3.trans (h4.trans h5)))
  have hstop : place.Before stop := hbefore.trans (h6.trans h7)
  have hseries : Series source place.offset stop.offset (form.keptContent nodes) :=
    form.series_keptContent (hnodes.mono hbefore.offset_le h7.offset_le)
  obtain ⟨hwell, hspan⟩ := Shape.wellSpanned_node? hplace.boundary
    (hplace.of_before hstop).boundary hseries hn
  refine Series.singleton_iff.mpr ⟨?_, hwell, ?_⟩
  · rw [hspan]; exact Nat.le_refl _
  · rw [hspan]; exact Nat.le_refl _

/-- The children of text in braces stand between the braces. -/
theorem yieldsNode_unknown (hinner : InnerYields source inner) :
    YieldsNode source s place (unknown inner) := by
  refine .of_in fun hplace => ?_
  unfold Parser.unknown
  refine .here (.bind .exactly fun _ p1 h1 hopen => ?_)
  refine .bind (.nested fun _ => hinner _ _ _) fun read p2 h2 hread => ?_
  refine .bind (.optional .exactly) fun closing stop h3 hclosing => .here (.pure ?_)
  have hstop : place.Before stop := h1.trans (h2.trans h3)
  -- A brace takes one byte, so the places inside the braces are those that the node says.
  have hopenWidth : p1.offset = place.offset + 1 := hopen
  have hcloseWidth : stop.offset - closing.isSome.toNat = p2.offset := by
    cases closing with
    | none =>
      obtain rfl : stop = p2 := hclosing
      rfl
    | some u =>
      have hclose : stop.offset = p2.offset + 1 := hclosing
      rw [hclose]
      rfl
  have hp1 := (hplace.of_before h1).boundary
  have hp2 := (hplace.of_before (h1.trans h2)).boundary
  rw [hopenWidth] at hread hp1
  rw [← hcloseWidth] at hread hp2
  obtain ⟨horder, heach⟩ := Series.iff_inOrder.mp hread
  have hwell : (Node.branch (place.spanTo stop) (.unknown closing.isSome)
      read.children).WellSpanned source :=
    Node.every_iff.mpr ⟨⟨hplace.boundary, (hplace.of_before hstop).boundary, hp1, hp2, horder⟩,
      heach⟩
  refine Series.singleton_iff.mpr ⟨?_, hwell.assemble rfl, ?_⟩
  · rw [Node.span_assemble]; exact Nat.le_refl _
  · rw [Node.span_assemble]; exact Nat.le_refl _

theorem yieldsNode_ofCatalog (hinner : InnerYields source inner) (forms : Catalog) :
    YieldsNode source s place (ofCatalog inner forms) := by
  induction forms with
  | nil => exact yieldsNode_unknown hinner
  | cons form forms ih => exact .orElse (yieldsNode_ofForm hinner form) ih

theorem yieldsNode_element (hinner : InnerYields source inner) :
    YieldsNode source s place (element inner) := by
  refine .of_in fun hplace => ?_
  unfold Parser.element
  refine .here (.exhausted (.bind .require fun _ q _ hstay => ?_))
  obtain rfl := hstay.2
  refine .catalog (.recalling ?_ (yieldsNode_ofCatalog hinner _) ?_)
  · -- That the end of a recollection can be reached from here follows from offsets alone.
    rintro r ⟨hseries, hafter⟩ hstart -
    rw [hstart] at hseries
    exact ⟨hplace.before_of_le hafter hseries.le, hseries⟩
  · exact fun node r hr hseries => ⟨hseries, hplace.of_before hr⟩

theorem yieldsNode_part (hinner : InnerYields source inner) :
    YieldsNode source s place (part inner) :=
  .orElse yieldsNode_gap (.orElse (yieldsNode_element hinner) (.orElse yieldsNode_verbatim
    (.orElse yieldsNode_escape (.orElse yieldsNode_text yieldsNode_stray))))

/-- Repetition strings together what its rounds yield. -/
theorem yieldsSeries_many {p : Parser Node} (hp : ∀ q, YieldsNode source s q p) (least : Nat)
    (most : Option Nat) : YieldsSeries source s place (many p least most) :=
  Yields.many (J := fun q ns r => Series source q.offset r.offset ns)
    (fun _ => .nil (Nat.le_refl _)) (fun _ _ _ _ _ hn _ hns => Series.append hn hns) hp least most

theorem yieldsSeries_parts (hinner : InnerYields source inner) :
    YieldsSeries source s place (parts inner) :=
  yieldsSeries_many (fun _ => yieldsNode_part hinner) 0 none

/-! ## Rows -/

theorem yieldsNode_breakLine : YieldsNode source s place breakLine := by
  refine .of_in fun hplace => ?_
  unfold Parser.breakLine
  refine .here (.bind .pattern fun line p1 h1 _ => .bind .ofOption fun as p2 h2 _ => ?_)
  refine .bind .ofOption fun group stop h3 _ => .here (.pure ?_)
  exact series_leaf trivial hplace (h1.trans (h2.trans h3))

/-- A node for what is not there stands at the place where reading began. -/
theorem series_null (hplace : place.In source) (hq : place.Before q) :
    Series source place.offset q.offset [Node.null place.offset] :=
  (series_leaf (by trivial) hplace (.refl place)).mono (Nat.le_refl _) hq.offset_le

theorem yieldsNode_blankRows : YieldsNode source s place blankRows := by
  refine .of_in fun hplace => ?_
  unfold Parser.blankRows
  exact .here (.bind .pattern fun _ q hq _ => .pure (series_null hplace hq))

theorem yieldsNode_explicitCell (hinner : InnerYields source inner) :
    YieldsNode source s place (explicitCell inner) := by
  unfold Parser.explicitCell
  refine .bind .pattern fun _ p1 h1 _ => ?_
  refine .bind (yieldsNode_ofForm hinner _) fun node p2 h2 hnode => ?_
  refine .bind .pattern fun _ p3 h3 _ => .here (.bind .require fun _ p4 h4 _ => .pure ?_)
  exact hnode.mono h1.offset_le (h3.trans h4).offset_le

theorem yieldsNode_contentCell (hinner : InnerYields source inner) :
    YieldsNode source s place (contentCell inner) := by
  refine .of_in fun hplace => ?_
  unfold Parser.contentCell
  refine .here (.bind (.inFrame (yieldsSeries_parts hinner)) fun nodes stop hstop hnodes => ?_)
  refine .here (.pure (Series.singleton_iff.mpr ⟨?_, ?_, ?_⟩))
  · rw [cellNode, Node.span_assemble]; exact Nat.le_refl _
  · exact Node.wellSpanned_cellNode _ hplace.boundary (hplace.of_before hstop).boundary hnodes
  · rw [cellNode, Node.span_assemble]; exact Nat.le_refl _

theorem yieldsNode_cell (hinner : InnerYields source inner) :
    YieldsNode source s place (cell inner) :=
  .orElse (yieldsNode_explicitCell hinner) (yieldsNode_contentCell hinner)

theorem yieldsNode_nextCell (hinner : InnerYields source inner) :
    YieldsNode source s place (nextCell inner) := by
  unfold Parser.nextCell
  refine .bind .exactly fun _ q hq _ => (yieldsNode_cell hinner).imp fun node r _ hnode => ?_
  exact Series.mono hnode hq.offset_le (Nat.le_refl _)

/-- A row stands before the end of its line, which is read with it. -/
theorem yieldsNode_row (hinner : InnerYields source inner) :
    YieldsNode source s place (row inner) := by
  refine .of_in fun hplace => ?_
  unfold Parser.row
  refine .here (.bind (yieldsNode_cell hinner) fun head p1 h1 hhead => ?_)
  refine .bind (yieldsSeries_many (fun _ => yieldsNode_nextCell hinner) 0 none)
    fun tail stop h2 htail => ?_
  refine .here (.bind .require fun _ p3 h3 hstay => ?_)
  obtain rfl := hstay.2
  refine .bind (.optional .pattern) fun ended p4 h4 _ => ?_
  refine .here (.bind .require fun _ last h5 _ => .pure ?_)
  have hcells : Series source place.offset p3.offset (head :: tail) := Series.append hhead htail
  exact Series.singleton_iff.mpr ⟨Nat.le_refl _,
    wellSpanned_between (by trivial) hplace (h1.trans h2) hcells, (h4.trans h5).offset_le⟩

/-! ## Grammars -/

theorem yieldsNode_rule (hinner : InnerYields source inner) (r : Rule) :
    YieldsNode source s place (r.readAbove inner) := by
  cases r with
  | text => exact yieldsNode_text
  | escape => exact yieldsNode_escape
  | verbatim => exact yieldsNode_verbatim
  | gap => exact yieldsNode_gap
  | stray => exact yieldsNode_stray
  | element => exact yieldsNode_element hinner
  | unknown => exact yieldsNode_unknown hinner
  | part => exact yieldsNode_part hinner
  | item => exact yieldsNode_ofForm hinner .item
  | breakLine => exact yieldsNode_breakLine
  | blankRows => exact yieldsNode_blankRows
  | row => exact yieldsNode_row hinner

/-- The node of a sequence has the nodes in it for children. -/
theorem yields_readSequence {p : Parser (List Node)} (hp : YieldsSeries source s place p) :
    Yields source (Recollection.Spanned source) s place (Grammar.readSequence p) fun n q =>
      Series source place.offset q.offset [n] ∧ Series source place.offset q.offset n.children := by
  refine .of_in fun hplace => ?_
  unfold Grammar.readSequence
  refine .here (.bind hp fun nodes stop hstop hnodes => .here (.pure ⟨?_, hnodes⟩))
  exact Series.singleton_iff.mpr ⟨Nat.le_refl _,
    wellSpanned_between (by trivial) hplace hstop hnodes, Nat.le_refl _⟩

theorem yieldsNode_readLiteral (text : String) :
    YieldsNode source s place (Grammar.readLiteral text) := by
  refine .of_in fun hplace => ?_
  unfold Grammar.readLiteral
  refine .here (.bind .exactly fun _ q hq _ => .here (.pure ?_))
  exact series_leaf trivial hplace hq

theorem yieldsNode_readPattern (p : Pattern) :
    YieldsNode source s place (Grammar.readPattern p) := by
  refine .of_in fun hplace => ?_
  unfold Grammar.readPattern
  refine .here (.bind .pattern fun c q hq _ => .here (.pure ?_))
  exact series_leaf trivial hplace hq

theorem yieldsNode_readOptional {p : Parser Node} (hp : YieldsNode source s place p) :
    YieldsNode source s place (Grammar.readOptional p) := by
  refine .of_in fun hplace => ?_
  unfold Grammar.readOptional
  refine .here (.bind (.optional hp) fun o q hq ho => .pure ?_)
  cases o with
  | none => exact series_null hplace hq
  | some node => exact ho

mutual

/-- **What any grammar reads has its spans in order.** -/
theorem yieldsNode_readAbove (hinner : InnerYields source inner) :
    ∀ (g : Grammar) (place : Place), YieldsNode source s place (g.readAbove inner)
  | .literal text, _ => yieldsNode_readLiteral text
  | .pattern p, _ => yieldsNode_readPattern p
  | .sequence gs, place =>
      (yields_readSequence (yieldsSeries_readAll hinner gs place)).imp fun _ _ _ h => h.1
  | .choice gs, place => yieldsNode_readFirst hinner gs place
  | .many g least most, _ =>
      (yields_readSequence (yieldsSeries_many (fun q => yieldsNode_readAbove hinner g q) least
        most)).imp fun _ _ _ h => h.1
  | .optional g, place => yieldsNode_readOptional (yieldsNode_readAbove hinner g place)
  | .form f, _ => yieldsNode_ofForm hinner f
  | .rule r, _ => yieldsNode_rule hinner r

theorem yieldsSeries_readAll (hinner : InnerYields source inner) :
    ∀ (gs : List Grammar) (place : Place),
      YieldsSeries source s place (Grammar.readAll inner gs)
  | [], _ => .pure (.nil (Nat.le_refl _))
  | g :: gs, place =>
      .bind (yieldsNode_readAbove hinner g place) fun _ q _ hnode =>
        .bind (yieldsSeries_readAll hinner gs q) fun _ _ _ hnodes =>
          .pure (Series.append hnode hnodes)

theorem yieldsNode_readFirst (hinner : InnerYields source inner) :
    ∀ (gs : List Grammar) (place : Place),
      YieldsNode source s place (Grammar.readFirst inner gs)
  | [], _ => .fail
  | g :: gs, place =>
      .orElse (yieldsNode_readAbove hinner g place) (yieldsNode_readFirst hinner gs place)

end

end

/-- By induction over the levels, from the one at which no element may begin. -/
theorem innerYields_inside (levels : Nat) : InnerYields source (Grammar.inside levels) := by
  induction levels with
  | zero => exact fun _ _ _ => .fail
  | succ levels ih =>
    intro s place g
    show Yields source _ s place (Grammar.readAt levels (.repeated g)) _
    rw [Grammar.readAt_eq]
    exact (yields_readSequence (yieldsSeries_many (fun q => yieldsNode_readAbove ih g q) 0
      none)).imp fun _ _ _ h => h.2

/-- The parts read from a place make a series. -/
theorem yields_parts : Yields source (Recollection.Spanned source) s place Grammar.parts.read
    fun n q => Series source place.offset q.offset n.children :=
  .nesting (innerYields_inside (maxNesting - s.nesting + 1) s place (.rule .part))

end Parser

/-! ## Documents -/

namespace Document

variable {source : List Char}

theorem series_readParts (s : Scope) (fuel : Nat) :
    ∀ (place : Place) (m : Memory), place.In source → m.Holds (Recollection.Spanned source) →
      Series source place.offset (width source) (readParts s fuel place m) := by
  induction fuel with
  | zero => exact fun place m hplace _ => .nil hplace.offset_le
  | succ fuel ih =>
    intro place m hplace hm
    obtain ⟨hkept, hmatched⟩ := Parser.yields_parts (s := s) hplace m hm
    rw [readParts]
    generalize (Grammar.parts.read : Parser Node) s place m = x at *
    obtain ⟨result, m'⟩ := x
    cases result with
    | none => exact .nil hplace.offset_le
    | some nq =>
      obtain ⟨read, q⟩ := nq
      obtain ⟨hq, hread⟩ := hmatched read q rfl
      have hqin := hplace.of_before hq
      dsimp only
      cases hstep : q.step? with
      | none => exact hread.mono (Nat.le_refl _) hqin.offset_le
      | some step =>
        obtain ⟨c, span, next⟩ := step
        have hnext : q.Before next := Parser.advances_nextChar q c next (by
          rw [Parser.nextChar, hstep]
          rfl)
        obtain rfl : q.spanTo next = span := by
          simp only [Place.step?] at hstep
          split at hstep <;> cases hstep
          rfl
        have hchar : Series source q.offset next.offset
            [.text (q.spanTo next) (String.ofList [c])] := Parser.series_leaf trivial hqin hnext
        exact hread.append (hchar.append (ih next m' (hqin.of_before hnext) hkept))

theorem wellSpanned_read (forms : Catalog) (source : String) :
    (read forms source).root.WellSpanned source.toList := by
  have hparts := series_readParts (scope forms) ((Place.first source.toList).left + 1)
    (.first source.toList) .empty (.first source.toList) .empty
  exact (Node.wellSpanned_of_series (by trivial) (.zero _) (.width _) hparts).assemble rfl

/-- **The spans of a document are in order.** Whatever the source and the catalogue, the
tree passes the check of its spans, every span in it begins and ends between two
characters of the source, and the root has the span of the whole source. -/
theorem read_spansInOrder (forms : Catalog) (source : String) :
    (read forms source).root.spansInOrder = true ∧
      (∀ n ∈ (read forms source).root.nodes,
        IsBoundary source.toList n.span.start ∧ IsBoundary source.toList n.span.stop) ∧
      (read forms source).root.span = ⟨0, source.utf8ByteSize⟩ := by
  have hwell := wellSpanned_read forms source
  refine ⟨hwell.spansInOrder, fun n hn => ⟨(hwell n hn).start, (hwell n hn).stop⟩, ?_⟩
  rw [← width_toList, read, readWith]
  exact Node.span_assemble _

end Document

end Bracemark
