/-
Documents are well shaped.

Every way of making a node makes a clean one, of a kind that belongs where it is read
(`Made.clean`). Most elements hold any content; lists, preformatted text and the elements
without content hold what their forms keep of it, and tables what laying out makes of their
items. Steps of reading are made clean as well: they have nothing in them, and no node that
holds nodes keeps them.
-/
import Bracemark.Proofs.Making
import Bracemark.Proofs.NormalForm

set_option autoImplicit false

namespace Bracemark

open Node

variable {n : Node} {ns : List Node}

/-! ## Kinds that hold content -/

namespace Kind

/-- Nothing more is asked of nodes that are no elements. -/
theorem HoldsNodes.content {k : Kind} (hnodes : k.HoldsNodes) (h : ∀ e, k ≠ .element e) :
    k.HoldsContent :=
  ⟨hnodes, fun e he => absurd he (h e), fun e _ he => absurd he (h e)⟩

theorem holdsContent_document : HoldsContent .document :=
  HoldsNodes.content ⟨by simp, by simp, rfl, rfl⟩ (by simp)

theorem holdsContent_unknown (closed : Bool) : HoldsContent (.unknown closed) :=
  HoldsNodes.content ⟨by simp, by simp, rfl, rfl⟩ (by simp)

theorem holdsContent_caption : HoldsContent .caption :=
  HoldsNodes.content ⟨by simp, by simp, rfl, rfl⟩ (by simp)

theorem holdsContent_cell (c : Cell) : HoldsContent (.cell c) :=
  HoldsNodes.content ⟨by simp, by simp, rfl, rfl⟩ (by simp)

end Kind

/-! ## Elements by their forms -/

/-- The form of elements with a feature. -/
def Feature.form : Feature → Form
  | .emphasis _ => .emphasis
  | .lineBreak => .line
  | .paragraph => .paragraph
  | .heading _ => .heading
  | .division _ => .division
  | .list _ => .list
  | .item _ => .item
  | .link _ => .link
  | .get _ _ => .get
  | .assign _ => .assign
  | .increment _ => .increment
  | .entity _ _ => .entity
  | .code => .code
  | .float _ _ => .float
  | .align _ => .align
  | .image _ => .image

/-- The form of elements with a shape. -/
def Shape.form : Shape → Form
  | .element feature => feature.form
  | .table _ => .table
  | .cell _ => .cell
  | .caption => .caption

theorem Feature.form_of_ofForm? {form : Form} {name : String} {as : Arguments} {feature : Feature}
    (h : ofForm? form name as = some feature) : feature.form = form := by
  cases form with
  | link | get | assign | increment | entity | float | align | image =>
    obtain ⟨_, -, rfl⟩ := Option.map_eq_some_iff.mp h
    rfl
  | table | cell | caption => cases h
  | _ =>
    cases h
    rfl

/-- What elements of a form become. -/
def Form.Gives (form : Form) : Kind → Prop
  | .element e => e.feature.form = form
  | .table _ => form = .table
  | .cell _ => form = .cell
  | .caption => form = .caption
  | _ => False

theorem Form.isPart_of_gives {form : Form} {k : Kind} (hcell : form ≠ .cell)
    (hcaption : form ≠ .caption) (h : form.Gives k) : k.isPart = true := by
  cases k with
  | element e => rfl
  | table t => rfl
  | cell c => exact absurd h hcell
  | caption => exact absurd h hcaption
  | _ => cases h

theorem exists_item_of_gives {k : Kind} (h : Form.item.Gives k) :
    ∃ e i, k = .element e ∧ e.feature = .item i := by
  cases k with
  | element e =>
    obtain ⟨name, as, feature⟩ := e
    cases feature with
    | item i => exact ⟨_, i, rfl, rfl⟩
    | _ => cases h
  | _ => cases h

theorem exists_cell_of_gives {k : Kind} (h : Form.cell.Gives k) : ∃ c, k = .cell c := by
  cases k with
  | element e =>
    obtain ⟨name, as, feature⟩ := e
    cases feature <;> cases h
  | cell c => exact ⟨c, rfl⟩
  | _ => cases h

theorem Kind.holdsNodes_element {e : Element} (hleaf : isLeaf (.element e) = false) :
    HoldsNodes (.element e) :=
  ⟨by simp, by simp, hleaf, rfl⟩

/-- Elements hold any content if their form takes content and keeps all of it. -/
theorem Kind.holdsContent_element {e : Element} (hallows : e.feature.form.allowsContent = true)
    (hcode : e.feature.form ≠ .code) (hlist : e.feature.form ≠ .list) :
    HoldsContent (.element e) := by
  obtain ⟨name, as, feature⟩ := e
  refine ⟨holdsNodes_element ?_, fun e he h => ?_, fun e l he h => ?_⟩
  · cases feature <;> first | rfl | cases hallows
  · cases he
    subst h
    exact hcode rfl
  · cases he
    subst h
    exact hlist rfl

/-! ## Elements that hold what their forms keep -/

theorem assemble_of_short (hforms : n.formsParagraphs = false) (hshort : n.children.length ≤ 1) :
    n.assemble = n :=
  assemble_eq_self (fun hlong => absurd hlong (Nat.not_lt.mpr hshort)) fun h => by
    rw [hforms] at h
    cases h

/-- A list of what does not flow is left as it is. -/
theorem assemble_list {span : Span} {e : Element} {l : ItemList} (he : e.feature = .list l)
    (h : ∀ c ∈ ns, c.isInline = false) :
    (branch span (.element e) ns).assemble = branch span (.element e) ns := by
  refine assemble_eq_self (fun _ => inGroups_of_blocks h) fun hforms => ?_
  rw [formsParagraphs, branch, kind_mk, Kind.formsParagraphs, he] at hforms
  cases hforms

/-- Nodes that are items do not flow. -/
theorem isInline_of_item {e : Element} {i : Item} (hkind : n.kind = .element e)
    (hi : e.feature = .item i) : n.isInline = false := by
  rw [isInline, hkind, Kind.isInline, hi]
  rfl

theorem clean_list {span : Span} {e : Element} {l : ItemList} (he : e.feature = .list l)
    (h : ∀ c ∈ ns, c.Clean ∧ ∃ e' i, c.kind = .element e' ∧ e'.feature = .item i) :
    (branch span (.element e) ns).assemble.Clean := by
  have hitem : ∀ c ∈ ns, c.kind.isPart = true ∧ c.isInline = false := by
    intro c hc
    obtain ⟨-, e', i, hkind, hi⟩ := h c hc
    rw [hkind]
    exact ⟨rfl, isInline_of_item hkind hi⟩
  have hforms : (branch span (.element e) ns).formsParagraphs = false := by
    rw [formsParagraphs, branch, kind_mk, Kind.formsParagraphs, he]
    rfl
  have hself : (branch span (.element e) ns).assemble = branch span (.element e) ns :=
    assemble_list he fun c hc => (hitem c hc).2
  have hinside : ∀ c ∈ ns, c.kind.standsInside = true ∧ c.kind.isTablePart = false := fun c hc =>
    ⟨Kind.standsInside_of_isPart (hitem c hc).1, Kind.isTablePart_of_isPart (hitem c hc).1⟩
  have hnodes := Kind.holdsNodes_element (e := e) (by rw [Kind.isLeaf, he])
  rw [hself]
  refine clean_iff.mpr ⟨?_, fun c hc => (h c hc).1⟩
  refine wellShaped_of_holdsNodes hnodes hinside
    (textsApart_of_noText fun c hc => isText_eq_false (.inr (.inr (hitem c hc).2)))
    (fun hp => ?_) (fun c hc hp => absurd hp (Kind.ne_of_isPart (hitem c hc).1 rfl))
    (fun e' he' hcode => ?_) fun _ _ _ _ c hc => (h c hc).2
  · rw [hforms] at hp
    cases hp
  · cases he'
    rw [he] at hcode
    cases hcode

theorem codeBody_cases (ns : List Node) :
    codeBody ns = [] ∨ ∃ s, codeBody ns = [.text (outerSpan ns) s] := by
  unfold codeBody
  split
  · exact .inl rfl
  · dsimp only
    split
    · exact .inl rfl
    · exact .inr ⟨_, rfl⟩

/-- Preformatted text that is one piece of text or nothing is left as it is. -/
theorem clean_code {span : Span} {e : Element} (he : e.feature = .code) :
    (branch span (.element e) (codeBody ns)).assemble.Clean := by
  have hforms : (branch span (.element e) (codeBody ns)).formsParagraphs = false := by
    rw [formsParagraphs, branch, kind_mk, Kind.formsParagraphs, he]
    rfl
  have hnodes := Kind.holdsNodes_element (e := e) (by rw [Kind.isLeaf, he])
  have hlist : ∀ e' l, (Kind.element e) = .element e' → e'.feature ≠ .list l := fun e' l h hl => by
    cases h
    rw [he] at hl
    cases hl
  rcases codeBody_cases ns with hbody | ⟨s, hbody⟩
  · rw [hbody] at hforms ⊢
    rw [assemble_of_short hforms (Nat.zero_le 1)]
    exact clean_nil rfl (by simp [branch])
  · rw [hbody] at hforms ⊢
    rw [assemble_of_short hforms (Nat.le_refl 1)]
    refine clean_iff.mpr ⟨?_, List.forall_mem_singleton.mpr (clean_text _ _)⟩
    refine wellShaped_of_holdsNodes hnodes (List.forall_mem_singleton.mpr ⟨rfl, rfl⟩)
      (textsApart_of_short (Nat.le_refl 1)) (fun hp => ?_)
      (List.forall_mem_singleton.mpr fun hp => ?_) (fun _ _ _ => .inr ⟨_, s, rfl, rfl⟩)
      fun e' l h hl => absurd hl (hlist e' l h)
    · rw [hforms] at hp
      cases hp
    · cases hp

/-- An element without content has nothing in it. -/
theorem clean_empty (span : Span) (e : Element) : (branch span (.element e) []).assemble.Clean := by
  have hchildren : (branch span (.element e) []).assemble.children = [] := by
    rw [assemble]
    simp only [branch, children_mk, List.length_nil, Nat.not_lt_zero, if_false]
    split <;> rfl
  exact clean_nil hchildren (by simp [branch])

/-! ## Cells -/

theorem content_trimEdges (h : AreContent ns) : AreContent (trimEdges ns) := by
  intro c hc
  obtain ⟨n, hn, hnc⟩ := exists_retexted_of_mem_trimEdges hc
  rcases hnc with rfl | ⟨s, t, hkind, rfl⟩
  · exact h _ hn
  · have hchildren := (h n hn).1.wellShaped.leaf (by rw [hkind]; rfl)
    exact ⟨clean_nil hchildren (by simp [withKind]), .inl rfl⟩

theorem clean_cellNode (span : Span) (c : Cell) (h : AreContent ns) :
    (cellNode span c ns).Clean :=
  clean_assemble (Kind.holdsContent_cell c) (content_trimEdges h)

/-- A cell stays clean when it is placed. -/
theorem Node.Clean.withCell {a : Cell} (h : n.Clean) (hkind : n.kind = .cell a) (b : Cell) :
    (n.withKind (.cell b)).Clean := by
  have hcontent := h.content hkind rfl rfl
  exact clean_of_content (Kind.holdsContent_cell b) rfl hcontent h.wellShaped.textsApart

/-! ## Tables -/

/-- Tables and their parts down to the rows are well shaped if they hold the parts that belong
to them. -/
theorem clean_of_tableParts (hkind : n.kind.hasTableParts = true)
    (h : ∀ c ∈ n.children, c.Clean ∧ n.kind.HoldsPart c.kind) : n.Clean := by
  have hpart : ∀ c ∈ n.children, c.kind.standsInside = true ∧ c.isText = false ∧
      c.kind ≠ .paragraph := by
    intro c hc
    have hholds := (h c hc).2
    rw [isText, text?]
    generalize n.kind = outer, c.kind = k at hholds ⊢
    cases hholds <;> exact ⟨rfl, rfl, by simp⟩
  have hplain : n.kind ≠ .inlineGroup ∧ n.kind ≠ .paragraph ∧ n.kind.isLeaf = false ∧
      n.formsParagraphs = false ∧ ∀ e, n.kind ≠ .element e := by
    rw [formsParagraphs]
    generalize n.kind = k at hkind ⊢
    cases k with
    | table | tableSection | rowGroup | row => exact ⟨by simp, by simp, rfl, rfl, by simp⟩
    | _ => cases hkind
  obtain ⟨hgroup, hparagraph, hleaf, hforms, helement⟩ := hplain
  refine clean_iff.mpr ⟨?_, fun c hc => (h c hc).1⟩
  exact {
    inside := fun c hc => (hpart c hc).1
    textsApart := textsApart_of_noText fun c hc => (hpart c hc).2.1
    group := fun hk => absurd hk hgroup
    blocks := fun hk => by rw [hforms] at hk; cases hk
    paragraph := fun hk => absurd hk hparagraph
    paragraphPlace := fun c hc hk => absurd hk (hpart c hc).2.2
    leaf := fun hk => by rw [hleaf] at hk; cases hk
    code := fun e he => absurd he (helement e)
    list := fun e l he => absurd he (helement e)
    tableParts := fun _ c hc => (h c hc).2
    tablePlace := fun c hc _ => (h c hc).2 }

theorem clean_captionOf (h : ∀ c ∈ ns, c.Clean ∧ c.kind = .caption) :
    ∀ c ∈ captionOf ns, c.Clean ∧ c.kind = .caption := by
  have hcontent : AreContent (ns.flatMap Node.children) := by
    intro c hc
    obtain ⟨n, hn, hc⟩ := List.mem_flatMap.mp hc
    obtain ⟨hclean, hkind⟩ := h n hn
    exact hclean.content hkind rfl rfl c hc
  unfold captionOf
  split
  · exact List.forall_mem_nil _
  · exact List.forall_mem_singleton.mpr
      ⟨clean_assemble Kind.holdsContent_caption hcontent, kind_assemble _⟩

/-- Placing keeps rows clean. -/
theorem Block.clean_placed (h : ∀ c ∈ ns, c.Clean) :
    ∀ b ∈ Block.placed ns, ∀ r ∈ b.rows, r.Clean ∧ r.kind = .row := by
  intro b hb r hr
  obtain ⟨r', hr', hkind, boxes, rfl⟩ := Block.exists_of_mem_placed hb hr
  have hwell := (h r' hr').wellShaped
  refine ⟨clean_of_tableParts (by rw [withChildren, kind_mk, hkind]; rfl) fun c hc => ?_, hkind⟩
  obtain ⟨n, hn, hnc⟩ := exists_of_mem_withBoxes hc
  have hcell := hwell.tableParts (by rw [hkind]; rfl) n hn
  rw [hkind] at hcell
  rw [withChildren, kind_mk, hkind]
  rcases hnc with rfl | ⟨a, box, hna, rfl⟩
  · exact ⟨(h r' hr').children _ hn, hcell⟩
  · exact ⟨((h r' hr').children n hn).withCell hna box, .cell box⟩

theorem Block.clean_sectionOf {t : Table} {blocks : List Block} (role : Role)
    (h : ∀ b ∈ blocks, ∀ r ∈ b.rows, r.Clean ∧ r.kind = .row) :
    ∀ c ∈ Block.sectionOf role (Block.withRoles t blocks),
      c.Clean ∧ c.kind = .tableSection role := by
  intro c hc
  obtain ⟨groups, hgroups, rfl⟩ := Block.exists_of_mem_sectionOf hc
  refine ⟨clean_of_tableParts rfl fun g hg => ?_, rfl⟩
  obtain ⟨b, hb, rfl⟩ := List.mem_map.mp hg
  refine ⟨clean_of_tableParts rfl fun r hr => ?_, .rowGroup role b.group⟩
  obtain ⟨hclean, hkind⟩ := h b (hgroups b hb) r hr
  refine ⟨hclean, ?_⟩
  rw [hkind]
  exact .row b.group

theorem Table.clean_layout? {t : Table} {span : Span} (h : ∀ c ∈ ns, c.Clean)
    (hn : t.layout? span ns = some n) : n.Clean ∧ ∃ laid, n.kind = .table laid := by
  obtain ⟨laid, hkind, -, -, hchildren⟩ := Table.layout?_eq_some hn
  refine ⟨clean_of_tableParts (by rw [hkind]; rfl) fun c hc => ?_, laid, hkind⟩
  rw [hkind]
  rw [hchildren] at hc
  rcases List.mem_append.mp hc with hc | hc
  · have hcaptions : ∀ c ∈ ns.filter Node.isCaption, c.Clean ∧ c.kind = .caption := fun c hc =>
      ⟨h c (List.mem_of_mem_filter hc), Node.isCaption_iff.mp (List.mem_filter.mp hc).2⟩
    obtain ⟨hclean, hcaption⟩ := clean_captionOf hcaptions c hc
    rw [hcaption]
    exact ⟨hclean, .caption laid⟩
  · obtain ⟨role, -, hc⟩ := List.mem_flatMap.mp hc
    obtain ⟨hclean, hsection⟩ := Block.clean_sectionOf role (Block.clean_placed h) c hc
    rw [hsection]
    exact ⟨hclean, .tableSection laid role⟩

/-! ## Elements -/

/-- What may be read as a slot of the grammar. -/
def Slot.Allows : Slot → Kind → Prop
  | .part, k => k.isPart = true
  | .element form, k => form.Gives k
  | .cell, k => ∃ c, k = .cell c
  | .content .list, k =>
    (∃ e i, k = .element e ∧ e.feature = .item i) ∨ ∃ groups, k = .capture groups
  -- Laying out a table looks for the items that it knows.
  | .content .table, _ => True
  | .content _, k => k.isPart = true

/-- An element of some form is clean if its content is. -/
theorem Form.clean_element {form : Form} {header : Header} {feature : Feature}
    (hfeature : feature.form = form)
    (h : ∀ c ∈ ns, (Slot.content form).Allows c.kind ∧ c.Clean)
    (hempty : ns = [] ∨ form.allowsContent = true) :
    (branch header.span (.element ⟨header.name, header.arguments, feature⟩)
      (form.keptContent ns)).assemble.Clean := by
  subst hfeature
  cases feature with
  | list l =>
    refine clean_list rfl fun c hc => ?_
    obtain ⟨hc, helement⟩ := List.mem_filter.mp hc
    obtain ⟨hitem | ⟨groups, hkind⟩, hclean⟩ := h c hc
    · exact ⟨hclean, hitem⟩
    · rw [element?, hkind] at helement
      cases helement
  | code => exact clean_code rfl
  | get | increment | entity =>
    obtain rfl := hempty.resolve_right Bool.false_ne_true
    exact clean_empty _ _
  | _ =>
    refine clean_assemble (Kind.holdsContent_element rfl ?_ ?_) fun c hc => ?_
    · simp [Feature.form]
    · simp [Feature.form]
    · exact ⟨(h c hc).2, .inl (h c hc).1⟩

theorem Form.form_of_shape? {form : Form} {name : String} {as : Arguments} {shape : Shape}
    (h : form.shape? name as = some shape) : shape.form = form := by
  cases form with
  | table | cell =>
    obtain ⟨_, -, rfl⟩ := Option.map_eq_some_iff.mp h
    rfl
  | caption =>
    cases h
    rfl
  | _ =>
    simp only [shape?] at h
    obtain ⟨feature, hfeature, rfl⟩ := Option.map_eq_some_iff.mp h
    exact Feature.form_of_ofForm? hfeature

/-- An element of a form becomes what the form gives. -/
theorem Form.gives_node? {form : Form} {header : Header} {shape : Shape}
    (hshape : form.shape? header.name header.arguments = some shape)
    (hn : shape.node? header ns = some n) : form.Gives n.kind := by
  obtain rfl := Form.form_of_shape? hshape
  cases shape with
  | table t =>
    obtain ⟨laid, hkind, -⟩ := Table.layout?_eq_some hn
    rw [hkind]
    rfl
  | element feature | caption =>
    cases hn
    rw [kind_assemble]
    rfl
  | cell c =>
    cases hn
    rw [cellNode, kind_assemble]
    rfl

theorem Form.clean_node? {form : Form} {header : Header} {shape : Shape}
    (hshape : form.shape? header.name header.arguments = some shape)
    (h : ∀ c ∈ ns, (Slot.content form).Allows c.kind ∧ c.Clean)
    (hempty : ns = [] ∨ form.allowsContent = true)
    (hn : shape.node? header (form.keptContent ns) = some n) : n.Clean := by
  obtain rfl := Form.form_of_shape? hshape
  cases shape with
  | element feature =>
    cases hn
    exact Form.clean_element rfl h hempty
  | table t => exact (Table.clean_layout? (fun c hc => (h c hc).2) hn).1
  | cell c =>
    cases hn
    exact clean_cellNode _ c fun c hc => ⟨(h c hc).2, .inl (h c hc).1⟩
  | caption =>
    cases hn
    refine clean_assemble Kind.holdsContent_caption fun c hc => ?_
    exact ⟨(h c hc).2, .inl (h c hc).1⟩

/-! ## Documents -/

theorem Catalog.standard_forms : ∀ form ∈ standard, form ≠ .cell ∧ form ≠ .caption := by
  decide

/-- **What reading makes is clean** and of a kind that belongs where it is read. -/
theorem Made.clean {slot : Slot} {level : Nat} (h : Made .standard slot level n) :
    slot.Allows n.kind ∧ n.Clean := by
  induction h with
  | text | assigned | code => exact ⟨rfl, clean_text _ _⟩
  | gap => exact ⟨rfl, clean_leaf (by simp)⟩
  | known hform _ _ ih =>
    obtain ⟨hcell, hcaption⟩ := Catalog.standard_forms _ hform
    exact ⟨Form.isPart_of_gives hcell hcaption ih.1, ih.2⟩
  | unknown span closed _ _ ih =>
    refine ⟨by rw [kind_assemble]; rfl, ?_⟩
    exact clean_assemble (Kind.holdsContent_unknown closed) fun c hc =>
      ⟨(ih c hc).2, .inl (ih c hc).1⟩
  | element header _ hshape _ hempty hn ih =>
    exact ⟨Form.gives_node? hshape hn, Form.clean_node? hshape ih (hempty.imp_right And.left) hn⟩
  | @ofParts _ form n hparts _ ih =>
    refine ⟨?_, ih.2⟩
    cases form with
    | list => cases hparts
    | table => trivial
    | _ => exact ih.1
  | item _ ih => exact ⟨.inl (exists_item_of_gives ih.1), ih.2⟩
  | blank _ groups => exact ⟨.inr ⟨groups, rfl⟩, clean_leaf (by simp)⟩
  | get _ ih =>
    have hget : Form.get ≠ .cell ∧ Form.get ≠ .caption := by decide
    exact ⟨Form.isPart_of_gives hget.1 hget.2 ih.1, ih.2⟩
  | caption _ ih => exact ⟨trivial, ih.2⟩
  | breakLine | blankRows => exact ⟨trivial, clean_leaf (by simp)⟩
  | row span _ ih =>
    refine ⟨trivial, clean_of_tableParts rfl fun c hc => ?_⟩
    obtain ⟨⟨cell, hkind⟩, hclean⟩ := ih c hc
    rw [hkind]
    exact ⟨hclean, .cell cell⟩
  | explicitCell _ ih => exact ⟨exists_cell_of_gives ih.1, ih.2⟩
  | contentCell span _ ih =>
    refine ⟨⟨.plain, by rw [cellNode, kind_assemble]; rfl⟩, ?_⟩
    exact clean_cellNode span .plain fun c hc => ⟨(ih c hc).2, .inl (ih c hc).1⟩

/-- **Documents are well shaped.** The root of what is read with the standard catalogue is a
document, and each node of it, with its children, is well shaped. -/
theorem Document.wellShaped_read (source : String) :
    (read .standard source).root.kind = .document ∧
      ∀ n ∈ (read .standard source).root.nodes, n.WellShaped := by
  obtain ⟨ns, hns, hroot⟩ := exists_made .standard source
  rw [hroot]
  refine ⟨kind_assemble _, clean_assemble Kind.holdsContent_document fun c hc => ?_⟩
  obtain ⟨hpart, hclean⟩ := (hns c hc).clean
  exact ⟨hclean, .inl hpart⟩

end Bracemark
