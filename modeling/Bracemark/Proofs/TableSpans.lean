/-
Spans of tables and of what else an element becomes.

Laying out a table takes its items apart and puts them together in another order:
captions are taken out and made into one, rows are gathered into groups, and groups into
head, body and foot. What makes the spans right all the same is that each of these parts
is a sublist of the items (`Block.ofItems_captions`, `Block.ofItems_rows`), so each is a
series between the same offsets, and the outer span of a series does not reach beyond it.
Two of the parts may overlap, which is why a table only asks that its children lie inside.

Placing the cells and trimming their edges changes kinds and texts and no span, so rows
are compared node by node (`Respanned`).
-/
import Bracemark.Proofs.Spans
import Bracemark.Proofs.TableItems
import Bracemark.Shape

set_option autoImplicit false

namespace Bracemark

variable {source : List Char} {lo hi : Nat} {n : Node} {ns ms : List Node}

/-! ## Changes that keep spans -/

/-- The second node has the span of the first and is well spanned if that is. -/
def Node.Respanned (source : List Char) (n m : Node) : Prop :=
  m.span = n.span ∧ (n.WellSpanned source → m.WellSpanned source)

namespace Node

theorem Respanned.refl (n : Node) : n.Respanned source n :=
  ⟨rfl, fun h => h⟩

theorem respanned_same (ns : List Node) : List.Forall₂ (Respanned source) ns ns :=
  List.forall₂_same.mpr fun n _ => .refl n

theorem respanned_modify {f : Node → Node} (hf : ∀ n, Respanned source n (f n))
    (ns : List Node) : ∀ i : Nat, List.Forall₂ (Respanned source) ns (ns.modify i f) := by
  induction ns with
  | nil => exact fun i => by simp
  | cons n ns ih =>
    intro i
    cases i with
    | zero =>
      rw [List.modify_zero_cons]
      exact .cons (hf n) (respanned_same ns)
    | succ i =>
      rw [List.modify_succ_cons]
      exact .cons (.refl n) (ih i)

/-! ## Cells -/

theorem respanned_withText {s : String} (hkind : n.kind = .text s) (t : String) :
    n.Respanned source (n.withKind (.text t)) :=
  ⟨rfl, fun h => h.withKind (by rw [hkind]; trivial) trivial⟩

theorem respanned_trimTextStart (n : Node) : n.Respanned source (trimTextStart n) := by
  unfold trimTextStart
  split
  · next s hkind => exact respanned_withText hkind _
  · exact .refl n

theorem respanned_trimTextEnd (n : Node) : n.Respanned source (trimTextEnd n) := by
  unfold trimTextEnd
  split
  · next s hkind => exact respanned_withText hkind _
  · exact .refl n

theorem series_trimEdges (h : Series source lo hi ns) : Series source lo hi (trimEdges ns) := by
  have hstart : Series source lo hi (ns.modifyHead trimTextStart) := by
    rw [List.modifyHead_eq_modify_zero]
    exact h.forall₂ (respanned_modify respanned_trimTextStart ns 0)
  exact (hstart.forall₂ (respanned_modify respanned_trimTextEnd _ _)).sublist List.filter_sublist

theorem wellSpanned_cellNode {span : Span} (c : Cell) (hstart : IsBoundary source span.start)
    (hstop : IsBoundary source span.stop) (h : Series source span.start span.stop ns) :
    (cellNode span c ns).WellSpanned source :=
  (wellSpanned_of_series (by trivial) hstart hstop (series_trimEdges h)).assemble rfl

/-! ## Rows -/

theorem respanned_withBoxes (ns : List Node) (boxes : List Box) :
    List.Forall₂ (Respanned source) ns (withBoxes ns boxes) := by
  fun_induction withBoxes ns boxes with
  | case1 => exact .nil
  | case2 n ns => exact respanned_same _
  | case3 n ns box boxes c hkind ih =>
    exact .cons ⟨rfl, fun h => h.withKind (by rw [hkind]; trivial) trivial⟩ ih
  | case4 n ns box boxes _ ih => exact .cons (.refl n) ih

theorem respanned_zipWith (rows : List Node) (boxes : List (List Box))
    (hlength : boxes.length = rows.length) (hkind : ∀ r ∈ rows, r.kind = .row) :
    List.Forall₂ (Respanned source) rows
      (rows.zipWith (fun row bs => row.withChildren (withBoxes row.children bs)) boxes) := by
  induction rows generalizing boxes with
  | nil => exact .nil
  | cons r rows ih =>
    cases boxes with
    | nil => cases hlength
    | cons bs boxes =>
      have hr := hkind r List.mem_cons_self
      refine .cons ⟨rfl, fun h => ?_⟩ (ih boxes (by simpa using hlength)
        fun r' hr' => hkind r' (List.mem_cons_of_mem r hr'))
      refine h.withChildren (by rw [hr]; rfl) ?_
      exact (h.series (by rw [hr]; rfl)).forall₂ (respanned_withBoxes _ _)

/-- Placing the cells of some rows keeps the spans of the rows. -/
theorem respanned_placeRows (first : Nat) (rows : List Node) (hkind : ∀ r ∈ rows, r.kind = .row) :
    List.Forall₂ (Respanned source) rows (placeRows first rows).1 := by
  refine respanned_zipWith rows (place first (rows.map fun row => row.cells.map (·.asked))).1 ?_
    hkind
  rw [place, length_placeRows, List.length_map]

/-- The outer span depends on the spans of the nodes only. -/
theorem outerSpan_congr (h : ms.map (·.span) = ns.map (·.span)) :
    outerSpan ms = outerSpan ns := by
  have hhead := congrArg List.head? h
  have hlast := congrArg List.getLast? h
  rw [List.head?_map, List.head?_map] at hhead
  rw [List.getLast?_map, List.getLast?_map] at hlast
  unfold outerSpan
  cases hm : ms.head? <;> cases hn : ns.head? <;> cases hm' : ms.getLast? <;>
    cases hn' : ns.getLast? <;> simp_all

theorem map_span_of_respanned (h : List.Forall₂ (Respanned source) ns ms) :
    ms.map (·.span) = ns.map (·.span) := by
  induction h with
  | nil => rfl
  | cons h _ ih => rw [List.map_cons, List.map_cons, h.1, ih]

end Node

/-! ## Groups of rows -/

namespace Block

section

variable (source lo hi)

/-- Groups of rows whose rows follow each other between two offsets. No group is empty. -/
structure Filled (blocks : List Block) : Prop where
  series : Series source lo hi (allRows blocks)
  nonempty : ∀ b ∈ blocks, b.rows ≠ []
  kind : ∀ b ∈ blocks, ∀ r ∈ b.rows, r.kind = .row

end

variable {blocks : List Block}

/-- The groups of a table's body that have rows. -/
theorem filled_ofItems (h : Series source lo hi ns) : Filled source lo hi (ofItems ns).2 where
  series := by
    rw [ofItems_rows]
    exact h.sublist List.filter_sublist
  nonempty b hb := by simpa using (List.mem_filter.mp hb).2
  kind b hb := kind_of_ofItems_rows hb

/-- Groups follow each other as their rows do. -/
theorem Filled.series_nodes (h : Filled source lo hi blocks) :
    Series source lo hi (blocks.map node) := by
  induction blocks generalizing lo with
  | nil => exact h.series
  | cons b bs ih =>
    obtain ⟨mid, hb, hbs⟩ := h.series.of_append
    have hnode : Series source lo mid [b.node] :=
      Node.series_branch trivial hb (h.nonempty b List.mem_cons_self)
    exact hnode.append (ih ⟨hbs, fun b' hb' => h.nonempty b' (List.mem_cons_of_mem b hb'),
      fun b' hb' => h.kind b' (List.mem_cons_of_mem b hb')⟩)

theorem respanned_node {g g' : RowGroup} (h : List.Forall₂ (Node.Respanned source) ns ms) :
    (node ⟨g, ns⟩).Respanned source (node ⟨g', ms⟩) := by
  have hspan := Node.outerSpan_congr (Node.map_span_of_respanned h)
  refine ⟨hspan, fun hwell => ?_⟩
  have hns := hwell.series_of_plain trivial
  rw [node, hspan]
  exact Node.wellSpanned_of_series trivial hwell.fits.start hwell.fits.stop
    (hns.forall₂ h)

/-- Numbering rows and placing cells keeps the spans of the groups. -/
theorem respanned_placeAll (blocks : List Block)
    (hkind : ∀ b ∈ blocks, ∀ r ∈ b.rows, r.kind = .row) :
    ∀ first : Nat, List.Forall₂ (Node.Respanned source) (blocks.map node)
      ((placeAll first blocks).1.map node) := by
  induction blocks with
  | nil => exact fun _ => .nil
  | cons b bs ih =>
    intro first
    obtain ⟨hb, hbs⟩ := List.forall_mem_cons.mp hkind
    exact .cons (respanned_node (Node.respanned_placeRows first b.rows hb)) (ih hbs _)

/-! ## Sections and captions -/

theorem series_sectionOf (role : Role) {blocks : List (Role × Block)}
    (h : Series source lo hi ((blocks.map (·.2)).map node)) :
    Series source lo hi (sectionOf role blocks) := by
  rw [List.map_map] at h
  rw [sectionOf]
  split
  · exact .nil h.le
  · next hne =>
    exact Node.series_branch trivial (h.sublist (List.filter_sublist.map _))
      (by simpa using hne)

end Block

/-- The captions of a table made into one, with the content of all of them. -/
theorem series_captionOf (h : Series source lo hi ns) (hkind : ∀ c ∈ ns, c.kind = .caption) :
    Series source lo hi (captionOf ns) := by
  rw [captionOf]
  split
  · exact .nil h.le
  · next hne =>
    obtain ⟨hlo, hhi, hstart, hstop, hns⟩ := h.outerSpan (by simpa using hne)
    -- Content of captions further apart follows each other as the captions do.
    have hcontent := hns.flatMap fun c hc hwell =>
      hwell.series_of_plain (by rw [hkind c hc]; trivial)
    have hwell : (Node.branch _ .caption _).WellSpanned source :=
      Node.wellSpanned_of_series trivial hstart hstop hcontent
    refine Series.singleton_iff.mpr ⟨?_, hwell.assemble rfl, ?_⟩
    · rwa [Node.span_assemble]
    · rwa [Node.span_assemble]

/-! ## The table -/

/-- A table asks only that its children lie inside it. -/
theorem Node.wellSpanned_table {t : Table} (hkind : n.kind = .table t)
    (hstart : IsBoundary source n.span.start) (hstop : IsBoundary source n.span.stop)
    (hle : n.span.start ≤ n.span.stop)
    (h : ∀ c ∈ n.children, Series source n.span.start n.span.stop [c]) :
    n.WellSpanned source := by
  obtain ⟨span, kind, children, layout⟩ := n
  obtain rfl : kind = .table t := hkind
  refine every_iff.mpr ⟨⟨hstart, hstop, hstart, hstop, hle, fun c hc => ?_⟩,
    fun c hc => (h c hc).2.1⟩
  obtain ⟨hlo, hwell, hhi⟩ := h c hc
  exact ⟨hlo, hwell.start_le_stop, hhi⟩

/-- **Laying out a table keeps spans in order.** -/
theorem Table.wellSpanned_layout? {t : Table} {span : Span}
    (hstart : IsBoundary source span.start) (hstop : IsBoundary source span.stop)
    (h : Series source span.start span.stop ns) (hn : t.layout? span ns = some n) :
    n.WellSpanned source ∧ n.span = span := by
  obtain ⟨laid, hkind, -, rfl, hchildren⟩ := Table.layout?_eq_some hn
  have hfilled := Block.filled_ofItems h
  have hblocks := hfilled.series_nodes.forall₂ (Block.respanned_placeAll _ hfilled.kind 0)
  refine ⟨Node.wellSpanned_table hkind hstart hstop h.le fun c hc => ?_, rfl⟩
  -- The caption and the sections are series each, but not one after another.
  rw [hchildren] at hc
  rcases List.mem_append.mp hc with hc | hc
  · refine (series_captionOf (h.sublist List.filter_sublist) fun c hc => ?_).sublist
      (List.singleton_sublist.mpr hc)
    exact Node.isCaption_iff.mp (List.mem_filter.mp hc).2
  · obtain ⟨role, -, hc⟩ := List.mem_flatMap.mp hc
    refine (Block.series_sectionOf role ?_).sublist (List.singleton_sublist.mpr hc)
    rwa [Block.map_withRoles]

/-! ## Elements -/

theorem series_codeBody (h : Series source lo hi ns) : Series source lo hi (codeBody ns) := by
  rw [codeBody]
  split
  · exact .nil h.le
  · next hne =>
    obtain ⟨hlo, hhi, hstart, hstop, hns⟩ := h.outerSpan (by simpa using hne)
    dsimp only
    split
    · exact .nil h.le
    · exact Series.singleton_iff.mpr
        ⟨hlo, Node.wellSpanned_leaf trivial hstart hstop hns.le, hhi⟩

theorem Form.series_keptContent (form : Form) (h : Series source lo hi ns) :
    Series source lo hi (form.keptContent ns) := by
  unfold Form.keptContent
  split
  · exact h.sublist List.filter_sublist
  · exact series_codeBody h
  · exact h

/-- **The node that an element becomes has the span of the element**, and its spans are
in order. -/
theorem Shape.wellSpanned_node? {shape : Shape} {header : Header}
    (hstart : IsBoundary source header.span.start) (hstop : IsBoundary source header.span.stop)
    (h : Series source header.span.start header.span.stop ns)
    (hn : shape.node? header ns = some n) : n.WellSpanned source ∧ n.span = header.span := by
  cases shape with
  | element feature =>
    cases hn
    exact ⟨(Node.wellSpanned_of_series (by trivial) hstart hstop h).assemble rfl,
      Node.span_assemble _⟩
  | table t => exact Table.wellSpanned_layout? hstart hstop h hn
  | cell c =>
    cases hn
    exact ⟨Node.wellSpanned_cellNode c hstart hstop h, Node.span_assemble _⟩
  | caption =>
    cases hn
    exact ⟨(Node.wellSpanned_of_series (by trivial) hstart hstop h).assemble rfl,
      Node.span_assemble _⟩

end Bracemark
