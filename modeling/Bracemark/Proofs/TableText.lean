/-
The lines of tables in plain text.

A table is written as the line of its caption, if it has one, a line for each row, and an empty
line. Only the ends of what is in a cell are trimmed, and nothing else keeps line ends out of these
lines. So there are as many lines as captions and rows exactly if no cell and no caption shows a
newline (`Node.count_plain_table`); a newline in a cell breaks the row that it stands in.

The caption comes first and there is one at most, which is how tables are laid out. Laying out is
the only way in which a table is made, so what it says of tables holds of all tables of a document
(`Document.everyTable_read`).
-/
import Bracemark.Proofs.Contents
import Bracemark.Proofs.History
import Bracemark.Proofs.Making
import Bracemark.Proofs.TableLayout
import Bracemark.Proofs.WrittenContent

set_option autoImplicit false

namespace Bracemark

open Text

/-! ## What holds of tables -/

namespace Node

/-- The property asks something of tables only. -/
def AsksOfTables (P : Node → Prop) : Prop :=
  ∀ n : Node, (∀ t, n.kind ≠ .table t) → P n

variable {P : Node → Prop} {n c : Node} {ns : List Node}

section

variable (hP : AsksOfTables P)
include hP

theorem AsksOfTables.allows : AllowsAssembled P := by
  intro n hn
  refine hP n fun t ht => ?_
  rw [ht] at hn
  cases hn

theorem AsksOfTables.every (hn : ∀ t, n.kind ≠ .table t) (h : ∀ c ∈ n.children, c.Every P) :
    n.Every P :=
  every_iff.mpr ⟨hP n hn, h⟩

theorem AsksOfTables.gathered (h : ∀ n ∈ ns, n.Every P) (hc : Gathered ns c ∨ Bundle ns c) :
    c.Every P :=
  hP.allows.kept.gathered h c hc

/-- A row has what its items have, for placing changes only the kinds of cells. -/
theorem AsksOfTables.placed (h : ∀ n ∈ ns, n.Every P) (hrow : n.PlacedFrom ns) : n.Every P := by
  obtain ⟨hkind, row, hmem, -, hcells⟩ := hrow
  refine hP.every (by simp [hkind]) fun d hd => ?_
  obtain ⟨cell, hcell, rfl | ⟨a, b, -, rfl⟩⟩ := hcells d hd
  · exact (h row hmem).children _ hcell
  · exact hP.every (by simp [withKind]) ((h row hmem).children cell hcell).children

theorem AsksOfTables.layout? {t : Table} {span : Span} (h : ∀ n ∈ ns, n.Every P)
    (hn : t.layout? span ns = some n) (hmade : P n) : n.Every P := by
  refine every_iff.mpr ⟨hmade, fun c hc => ?_⟩
  cases (Table.parts_layout? hn).2 c hc with
  | caption hkind hchildren =>
    refine hP.every (by simp [hkind]) fun d hd => hP.gathered (fun m hm => ?_) (hchildren d hd)
    obtain ⟨caption, hcaption, hm⟩ := List.mem_flatMap.mp hm
    exact (h caption (List.mem_of_mem_filter hcaption)).children m hm
  | «section» role hkind hgroups =>
    refine hP.every (by simp [hkind]) fun g hg => ?_
    obtain ⟨⟨group, hgroup⟩, hrows⟩ := hgroups g hg
    exact hP.every (by simp [hgroup]) fun r hr => hP.placed h (hrows r hr)

end

end Node

open Node

section

variable {P : Node → Prop} (hP : AsksOfTables P)
  (hmade : ∀ (t : Table) (span : Span) (items : List Node) (n : Node),
    t.layout? span items = some n → P n)
include hP hmade

theorem Shape.everyTable_node? {shape : Shape} {header : Header} {ns : List Node} {n : Node}
    (h : ∀ n ∈ ns, n.Every P) (hn : shape.node? header ns = some n) : n.Every P := by
  cases shape with
  | table t => exact hP.layout? h hn (hmade t header.span ns n hn)
  | element | cell | caption =>
    refine hP.every ?_ fun c hc => hP.gathered h (Shape.gathered_node? (by simp) hn c hc)
    cases hn
    simp [cellNode, kind_assemble, branch]

theorem Made.everyTable {forms : Catalog} {slot : Slot} {level : Nat} {n : Node}
    (h : Made forms slot level n) : n.Every P := by
  induction h with
  | text | assigned | code => exact hP.allows.kept.text _ _
  | gap | blank | breakLine | blankRows =>
    exact hP.every (fun t ht => by cases ht) (List.forall_mem_nil _)
  | unknown span closed _ _ ih =>
    exact hP.every (by simp [kind_assemble, branch]) (hP.allows.kept.assemble ih)
  | @element _ form _ _ ns _ _ _ _ _ hn ih =>
    refine Shape.everyTable_node? hP hmade (fun c hc => ?_) hn
    exact hP.gathered ih (.inl (form.gathered_keptContent ns c hc))
  | row span _ ih => exact hP.every (by simp [branch]) ih
  | contentCell span _ ih =>
    exact hP.every (by simp [cellNode, kind_assemble, branch]) fun c hc =>
      hP.gathered ih (gathered_cellNode span .plain _ c hc)
  | known _ _ _ ih | ofParts _ _ ih => exact ih
  | item _ ih | get _ ih | caption _ ih | explicitCell _ ih => exact ih

/-- **What laying out says of tables holds of every table of a document.** -/
theorem Document.everyTable_read (forms : Catalog) (source : String) :
    (read forms source).root.Every P := by
  obtain ⟨ns, hns, hroot⟩ := exists_made forms source
  rw [hroot]
  exact hP.every (by simp [kind_assemble, branch])
    (hP.allows.kept.assemble fun n hn => (hns n hn).everyTable hP hmade)

end

/-! ## The caption comes first -/

namespace Node

/-- The first part of a table is its caption or a section, and the other parts are sections. -/
structure CaptionFirst (n : Node) : Prop where
  first : ∀ c ∈ n.children.head?, c.isCaption = true ∨ c.isTableSection = true
  rest : ∀ c ∈ n.children.tail, c.isTableSection = true

theorem captionFirst_of_sections {n : Node} {sections : List Node}
    (hsections : ∀ m ∈ sections, m.isTableSection = true)
    (h : n.children = sections ∨ ∃ c, c.isCaption = true ∧ n.children = c :: sections) :
    n.CaptionFirst := by
  rcases h with h | ⟨c, hc, h⟩
  · constructor
    · exact fun m hm => .inr (hsections m (h ▸ List.mem_of_mem_head? hm))
    · exact fun m hm => hsections m (h ▸ List.mem_of_mem_tail hm)
  · constructor
    · rw [h]
      rintro m ⟨⟩
      exact .inl hc
    · rwa [h]

theorem captionFirst_layout? {t : Table} {span : Span} {items : List Node} {n : Node}
    (hn : t.layout? span items = some n) : n.CaptionFirst := by
  obtain ⟨laid, -, -, -, hchildren⟩ := Table.layout?_eq_some hn
  have hsections : ∀ m ∈ [Role.head, .body, .foot].flatMap fun role =>
      Block.sectionOf role (Block.withRoles t (Block.placed items)), m.isTableSection = true := by
    intro m hm
    obtain ⟨role, -, hm⟩ := List.mem_flatMap.mp hm
    obtain ⟨groups, -, rfl⟩ := Block.exists_of_mem_sectionOf hm
    rfl
  refine captionFirst_of_sections hsections ?_
  rw [hchildren, captionOf]
  split
  · exact .inl rfl
  · exact .inr ⟨_, isCaption_iff.mpr (kind_assemble _), rfl⟩

theorem isCaption_bare (n : Node) : n.bare.isCaption = n.isCaption := by
  obtain ⟨span, kind, children, l⟩ := n
  cases kind <;> rfl

theorem isTableSection_bare (n : Node) : n.bare.isTableSection = n.isTableSection := by
  obtain ⟨span, kind, children, l⟩ := n
  cases kind <;> rfl

theorem captionFirst_bare {n : Node} : n.bare.CaptionFirst ↔ n.CaptionFirst := by
  have hfirst : (∀ c ∈ n.bare.children.head?, c.isCaption = true ∨ c.isTableSection = true) ↔
      ∀ c ∈ n.children.head?, c.isCaption = true ∨ c.isTableSection = true := by
    simp [children_bare, isCaption_bare, isTableSection_bare]
  have hrest : (∀ c ∈ n.bare.children.tail, c.isTableSection = true) ↔
      ∀ c ∈ n.children.tail, c.isTableSection = true := by
    simp [children_bare, ← List.map_tail, isTableSection_bare]
  exact ⟨fun h => ⟨hfirst.mp h.first, hrest.mp h.rest⟩,
    fun h => ⟨hfirst.mpr h.first, hrest.mpr h.rest⟩⟩

end Node

/-! ## The lines -/

namespace Text

/-- A character that is not in the bar is in one of the texts. -/
theorem mem_intercalate {a : Char} {bar : List Char} (ha : a ∉ bar) (texts : List (List Char)) :
    a ∈ bar.intercalate texts ↔ ∃ text ∈ texts, a ∈ text := by
  induction texts with
  | nil => simp
  | cons text texts ih =>
    cases texts with
    | nil => simp
    | cons next texts =>
      rw [List.intercalate_cons_of_ne_nil (List.cons_ne_nil _ _), List.mem_append, List.mem_append,
        ih, or_assoc, or_iff_right ha]
      simp

end Text

namespace Node

/-- The text of a cell. -/
def cellText (c : Context) (cell : Node) : String :=
  trim (plainAll c cell.children)

/-- The line of a row: the texts of its cells with bars between them. -/
def rowLine (c : Context) (row : Node) : String :=
  " | ".intercalate (row.children.map (cellText c))

/-- The line of the caption of a table. -/
def captionLine (c : Context) (t : Table) (caption : Node) : String :=
  t.label c.settings ++ trim (plainAll c caption.children)

/-- The lines of a table: its caption, and its rows from the first section to the last. -/
def tableLines (c : Context) (t : Table) (n : Node) : List String :=
  (n.children.filter isCaption).map (captionLine c t) ++ n.tableRows.map (rowLine c)

variable {c : Context} {t : Table} {n : Node} {ns : List Node}

theorem plainCells_eq_map (c : Context) (cells : List Node) :
    plainCells c cells = cells.map (cellText c) := by
  induction cells with
  | nil => rfl
  | cons cell cells ih =>
    obtain ⟨span, kind, children, l⟩ := cell
    rw [plainCells, ih]
    rfl

theorem plainRows_eq (c : Context) (rows : List Node) :
    plainRows c rows = String.join ((rows.map (rowLine c)).map (· ++ "\n")) := by
  induction rows with
  | nil => rfl
  | cons row rows ih =>
    obtain ⟨span, kind, cells, l⟩ := row
    rw [plainRows, ih, plainCells_eq_map, List.map_cons, List.map_cons, String.join_cons]
    rfl

theorem plainRows_append (c : Context) (rows more : List Node) :
    plainRows c (rows ++ more) = plainRows c rows ++ plainRows c more := by
  simp only [plainRows_eq, List.map_append, String.join_append]

theorem plainGroups_eq (c : Context) (groups : List Node) :
    plainGroups c groups = plainRows c (groups.flatMap children) := by
  induction groups with
  | nil => rfl
  | cons g groups ih =>
    obtain ⟨span, kind, rows, l⟩ := g
    rw [plainGroups, ih, List.flatMap_cons, plainRows_append]
    rfl

/-- Sections are written as the lines of their rows. -/
theorem plainTable_sections (h : ∀ m ∈ ns, m.isTableSection = true) :
    plainTable c t ns = plainRows c ((ns.flatMap children).flatMap children) := by
  induction ns with
  | nil => rfl
  | cons m ns ih =>
    obtain ⟨hm, hns⟩ := List.forall_mem_cons.mp h
    obtain ⟨span, kind, groups, l⟩ := m
    cases kind with
    | tableSection role =>
      rw [plainTable, ih hns, plainGroups_eq, List.flatMap_cons, List.flatMap_append,
        plainRows_append]
      rfl
    | _ => cases hm

theorem isCaption_of_isTableSection {m : Node} (h : m.isTableSection = true) :
    m.isCaption = false := by
  obtain ⟨span, kind, children, l⟩ := m
  cases kind <;> first | rfl | cases h

theorem filter_sections (h : ∀ m ∈ ns, m.isTableSection = true) :
    ns.filter isCaption = [] ∧ ns.filter isTableSection = ns := by
  refine ⟨List.filter_eq_nil_iff.mpr fun m hm => ?_, List.filter_eq_self.mpr h⟩
  simp [isCaption_of_isTableSection (h m hm)]

/-- **A table is written as its lines** and an empty one. -/
theorem plain_table (hkind : n.kind = .table t) (h : n.CaptionFirst) :
    n.plain c = String.join ((n.tableLines c t).map (· ++ "\n")) ++ "\n" := by
  obtain ⟨span, kind, parts, l⟩ := n
  obtain rfl : kind = .table t := hkind
  rw [plain, tableLines, tableRows, children_mk]
  congr 1
  cases parts with
  | nil => rfl
  | cons m sections =>
    have hsections : ∀ m ∈ sections, m.isTableSection = true := h.rest
    obtain ⟨hcaptions, hrows⟩ := filter_sections hsections
    rcases h.first m rfl with hm | hm
    · obtain ⟨span, kind, children, l⟩ := m
      obtain rfl : kind = .caption := isCaption_iff.mp hm
      rw [plainTable, plainTable_sections hsections, plainRows_eq,
        List.filter_cons_of_pos hm, hcaptions, List.filter_cons_of_neg (by simp [isTableSection]),
        hrows, List.map_singleton, List.singleton_append, List.map_cons, String.join_cons]
      rfl
    · have hall : ∀ m' ∈ m :: sections, m'.isTableSection = true :=
        List.forall_mem_cons.mpr ⟨hm, hsections⟩
      obtain ⟨hcaptions, hrows⟩ := filter_sections hall
      rw [plainTable_sections hall, plainRows_eq, hcaptions, hrows]
      rfl

theorem length_captions_le (h : n.CaptionFirst) : (n.children.filter isCaption).length ≤ 1 := by
  cases hparts : n.children with
  | nil => exact Nat.zero_le 1
  | cons m sections =>
    have hsections : ∀ m ∈ sections, m.isTableSection = true := by
      intro m hm
      exact h.rest m (by rwa [hparts])
    rw [List.filter_cons, (filter_sections hsections).1]
    split <;> simp

/-! ## Counting lines -/

theorem count_lines (lines : List String) :
    (String.join (lines.map (· ++ "\n"))).toList.count '\n' =
      lines.length + (lines.map fun l => l.toList.count '\n').sum := by
  induction lines with
  | nil => rfl
  | cons l lines ih =>
    rw [List.map_cons, String.join_cons, String.toList_append, List.count_append, ih,
      String.toList_append, List.count_append, List.length_cons, List.map_cons, List.sum_cons]
    have hend : "\n".toList.count '\n' = 1 := by decide
    omega

theorem newline_rowLine (c : Context) (row : Node) : '\n' ∉ (rowLine c row).toList ↔
    ∀ cell ∈ row.children, '\n' ∉ (cellText c cell).toList := by
  rw [rowLine, String.toList_intercalate, mem_intercalate (by decide)]
  simp

/-- **There is a line for the caption and one for each row exactly if** neither the caption nor a
cell shows a newline. -/
theorem count_plain_table (hkind : n.kind = .table t) (h : n.CaptionFirst) :
    (n.plain c).toList.count '\n' = (n.tableLines c t).length + 1 ↔
      (∀ m ∈ n.children, m.kind = .caption → '\n' ∉ (captionLine c t m).toList) ∧
        ∀ row ∈ n.tableRows, ∀ cell ∈ row.children, '\n' ∉ (cellText c cell).toList := by
  have hcount : (n.plain c).toList.count '\n' = (n.tableLines c t).length +
      ((n.tableLines c t).map fun l => l.toList.count '\n').sum + 1 := by
    rw [plain_table hkind h, String.toList_append, List.count_append, count_lines]
    rfl
  have hnone : (n.plain c).toList.count '\n' = (n.tableLines c t).length + 1 ↔
      ∀ line ∈ n.tableLines c t, '\n' ∉ line.toList := by
    rw [hcount, Nat.add_right_cancel_iff, Nat.add_eq_left, List.sum_eq_zero_iff]
    simp [List.count_eq_zero]
  rw [hnone, tableLines, List.forall_mem_append, List.forall_mem_map, List.forall_mem_map]
  simp only [newline_rowLine, List.mem_filter, isCaption_iff, and_imp]

end Node

/-! ## Documents -/

namespace Document

/-- What a prepared document has in its tables is what was laid out. -/
theorem captionFirst_prepared {forms : Catalog} {source : String} {c d : Context} {root : Node}
    (hroot : (read forms source).root.prepare c = .ok (root, d)) {n : Node} (hn : n ∈ root.nodes)
    {t : Table} (hkind : n.kind = .table t) : n.CaptionFirst := by
  have hasks : AsksOfTables fun n => (∃ t, n.kind = .table t) → n.CaptionFirst :=
    fun n hn ⟨t, ht⟩ => absurd ht (hn t)
  have hlaid := everyTable_read hasks (fun _ _ _ _ hmade _ => captionFirst_layout? hmade)
    forms source
  have hbare : n.bare ∈ (read forms source).root.nodes.map bare := by
    rw [← nodes_bare, ← bare_of_prepare hroot, nodes_bare]
    exact List.mem_map_of_mem hn
  -- Both nodes have the same bare form, and that has the parts of a table in the same order.
  obtain ⟨m, hm, hmn⟩ := List.mem_map.mp hbare
  rw [← captionFirst_bare, ← hmn, captionFirst_bare]
  refine hlaid m hm ?_
  obtain ⟨span, kind, children, l⟩ := n
  obtain ⟨span', kind', children', l'⟩ := m
  obtain rfl : kind = .table t := hkind
  have hkinds : kind'.bare = (Kind.table t).bare := congrArg Node.kind hmn
  cases kind' with
  | table t' => exact ⟨t', rfl⟩
  | _ => cases hkinds

/-- **How tables are written in plain text.** Every document can be written in plain text with any
settings and any forms, and every table in it is then written as its lines and an empty one: the
line of the caption, if there is one, and a line for each row from the first section to the last.
But what is in a cell or in the caption may break its line. There are as many lines as captions and
rows, and the empty one, exactly if no cell and no caption of the table shows a newline, its ends
trimmed. -/
theorem render_tableLines (forms : Catalog) (source : String) (s : Settings) :
    ∃ text root c, (Context.start .plain s).run (read forms source).root = .ok (text, root, c) ∧
      text = root.plain c ∧ ∀ n ∈ root.nodes, ∀ t, n.kind = .table t →
        (n.children.filter isCaption).length ≤ 1 ∧
        n.plain c = String.join ((n.tableLines c t).map (· ++ "\n")) ++ "\n" ∧
        ((n.plain c).toList.count '\n' = (n.tableLines c t).length + 1 ↔
          (∀ m ∈ n.children, m.kind = .caption → '\n' ∉ (captionLine c t m).toList) ∧
            ∀ row ∈ n.tableRows, ∀ cell ∈ row.children, '\n' ∉ (cellText c cell).toList) := by
  obtain ⟨root, d, hroot, hrestored⟩ :=
    prepare_restores (Context.start .plain s).reset (read forms source).root
  refine ⟨d.reset.write root, root, d.reset, ?_, ?_, fun n hn t hkind => ?_⟩
  · simp only [Context.run, hroot, bind, Except.bind, pure, Except.pure]
  · have htarget : d.reset.target = .plain := hrestored.target
    rw [Context.write, htarget]
  · have hfirst := captionFirst_prepared hroot hn hkind
    exact ⟨length_captions_le hfirst, plain_table hkind hfirst, count_plain_table hkind hfirst⟩

/-- A newline in a cell makes two lines of a row. -/
theorem render_table_breaksRow :
    ((Context.start .plain .standard).run
        (read .standard "\x7btable|\x7bcell|a\nb\x7d | c\n\x7d").root).toOption.map (fun r =>
      (r.2.1.nodes.filter fun n => n.kind.label == "Table").map fun n =>
        ((n.children.filter isCaption).length, n.tableRows.length, n.plain r.2.2)) =
      some [(0, 1, "a\nb | c\n\n")] := by
  decide +kernel

end Document

end Bracemark
