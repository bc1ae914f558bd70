/-
The shape of documents.

Nodes of a document stand in each other in a few ways only: what nodes a section holds, where
paragraphs and the parts of tables may stand, which nodes have nothing in them. `WellShaped`
says this of one node and its children, and `Clean` of a whole tree.

The nodes of a clean tree that content is made of are the parts (`Kind.isPart`) and groups of
them. Assembly takes such content to clean nodes, whatever groups it finds: grouping gives
groups and what does not flow, and forming paragraphs gives paragraphs and blocks.
-/
import Bracemark.Proofs.Spans

set_option autoImplicit false

namespace Bracemark

open Text

/-! ## Kinds by where they stand -/

namespace Kind

/-- Whether nodes of this kind stand inside documents. The others stand for steps of reading,
or for a document. -/
def standsInside : Kind → Bool
  | .null | .sequence | .capture _ | .document => false
  | _ => true

/-- Whether nodes of this kind have nothing in them: text, blank lines, and elements of the
forms that take no content. -/
def isLeaf : Kind → Bool
  | .text _ | .gap => true
  | .element e =>
    match e.feature with
    | .get _ _ | .increment _ | .entity _ _ => true
    | _ => false
  | _ => false

/-- Whether nodes of this kind consist of parts of a table. -/
def hasTableParts : Kind → Bool
  | .table _ | .tableSection _ | .rowGroup _ | .row => true
  | _ => false

/-- Whether nodes of this kind are parts of a table. -/
def isTablePart : Kind → Bool
  | .caption | .tableSection _ | .rowGroup _ | .row | .cell _ => true
  | _ => false

/-- How the parts of a table stand in each other. -/
inductive HoldsPart : Kind → Kind → Prop
  | caption (t : Table) : HoldsPart (.table t) .caption
  | tableSection (t : Table) (role : Role) : HoldsPart (.table t) (.tableSection role)
  | rowGroup (role : Role) (g : RowGroup) : HoldsPart (.tableSection role) (.rowGroup g)
  | row (g : RowGroup) : HoldsPart (.rowGroup g) .row
  | cell (c : Cell) : HoldsPart .row (.cell c)

/-- Whether a node of this kind may be read as part of content. -/
def isPart : Kind → Bool
  | .text _ | .gap | .unknown _ | .element _ | .table _ => true
  | _ => false

/-- Nodes of this kind may hold nodes that are read as content. -/
structure HoldsNodes (k : Kind) : Prop where
  ne_group : k ≠ .inlineGroup
  ne_paragraph : k ≠ .paragraph
  not_leaf : k.isLeaf = false
  not_table : k.hasTableParts = false

/-- Nodes of this kind may hold any content, in groups or in paragraphs. -/
structure HoldsContent (k : Kind) : Prop extends HoldsNodes k where
  not_code : ∀ e, k = .element e → e.feature ≠ .code
  not_list : ∀ e l, k = .element e → e.feature ≠ .list l

theorem HoldsPart.hasTableParts {k l : Kind} (h : k.HoldsPart l) : k.hasTableParts = true := by
  cases h <;> rfl

theorem ne_of_isPart {k l : Kind} (hk : k.isPart = true) (hl : l.isPart = false) : k ≠ l := by
  rintro rfl
  rw [hk] at hl
  cases hl

theorem isTablePart_of_isPart {k : Kind} (h : k.isPart = true) : k.isTablePart = false := by
  cases k <;> first | rfl | cases h

theorem standsInside_of_isPart {k : Kind} (h : k.isPart = true) : k.standsInside = true := by
  cases k <;> first | rfl | cases h

end Kind

/-! ## Well-shaped nodes -/

namespace Node

/-- Whether a node is a piece of text. -/
def isText (n : Node) : Bool :=
  n.text?.isSome

/-- No two pieces of text stand next to each other. -/
def TextsApart (ns : List Node) : Prop :=
  ns.IsChain fun a b => a.isText = true → b.isText = false

/-- A node and its children have the shape that documents have. -/
structure WellShaped (n : Node) : Prop where
  /-- Nothing that stands for a step of reading is left, and no document is inside another. -/
  inside : ∀ c ∈ n.children, c.kind.standsInside = true
  textsApart : TextsApart n.children
  /-- A group holds what flows, without groups in it. -/
  group : n.kind = .inlineGroup → ∀ c ∈ n.children, c.isInline = true ∧ c.kind ≠ .inlineGroup
  /-- Nothing that flows stands directly in a document, section, floating or aligned block,
  and no blank lines. -/
  blocks : n.formsParagraphs = true → ∀ c ∈ n.children, c.isInline = false ∧ c.kind ≠ .gap
  /-- A paragraph holds what flows, without groups in it, and not white space alone. -/
  paragraph : n.kind = .paragraph →
    (∀ c ∈ n.children, c.isInline = true ∧ c.kind ≠ .inlineGroup) ∧
      ∃ c ∈ n.children, c.isBlank = false
  paragraphPlace : ∀ c ∈ n.children, c.kind = .paragraph → n.formsParagraphs = true
  leaf : n.kind.isLeaf = true → n.children = []
  /-- Preformatted text holds a piece of text or nothing. -/
  code : ∀ e, n.kind = .element e → e.feature = .code →
    n.children = [] ∨ ∃ c s, n.children = [c] ∧ c.kind = .text s
  /-- A list holds items. -/
  list : ∀ e l, n.kind = .element e → e.feature = .list l →
    ∀ c ∈ n.children, ∃ e' i, c.kind = .element e' ∧ e'.feature = .item i
  /-- A table and its parts down to the rows hold the parts that belong to them. -/
  tableParts : n.kind.hasTableParts = true → ∀ c ∈ n.children, n.kind.HoldsPart c.kind
  /-- No part of a table stands elsewhere. -/
  tablePlace : ∀ c ∈ n.children, c.kind.isTablePart = true → n.kind.HoldsPart c.kind

/-- All nodes of a tree are well shaped. -/
def Clean (n : Node) : Prop :=
  n.Every WellShaped

/-- Some nodes are clean and can be parts of content. -/
def AreParts (ns : List Node) : Prop :=
  ∀ n ∈ ns, n.Clean ∧ n.kind.isPart = true

/-- Some nodes are clean and parts of content, or groups of such parts. -/
def AreContent (ns : List Node) : Prop :=
  ∀ n ∈ ns, n.Clean ∧ (n.kind.isPart = true ∨ n.kind = .inlineGroup)

/-- Some nodes are clean parts that flow. -/
def AreFlowing (ns : List Node) : Prop :=
  ∀ n ∈ ns, n.Clean ∧ n.kind.isPart = true ∧ n.isInline = true

variable {n : Node} {ns ms : List Node}

theorem clean_iff : n.Clean ↔ n.WellShaped ∧ ∀ c ∈ n.children, c.Clean :=
  every_iff

theorem Clean.wellShaped (h : n.Clean) : n.WellShaped :=
  (clean_iff.mp h).1

theorem Clean.children (h : n.Clean) : ∀ c ∈ n.children, c.Clean :=
  (clean_iff.mp h).2

/-! ## Texts apart -/

theorem isText_iff : n.isText = true ↔ ∃ s, n.kind = .text s := by
  unfold isText text?
  split
  · next s hkind => simp [hkind]
  · next hkind => simpa using hkind

/-- Groups, paragraphs and what does not flow are no pieces of text. -/
theorem isText_eq_false (h : n.kind = .inlineGroup ∨ n.kind = .paragraph ∨ n.isInline = false) :
    n.isText = false := by
  rw [Bool.eq_false_iff]
  intro htext
  obtain ⟨s, hkind⟩ := isText_iff.mp htext
  rw [isInline, hkind] at h
  rcases h with h | h | h <;> cases h

theorem textsApart_of_noText (h : ∀ n ∈ ns, n.isText = false) : TextsApart ns := by
  induction ns with
  | nil => exact .nil
  | cons n ns ih =>
    obtain ⟨hn, hns⟩ := List.forall_mem_cons.mp h
    refine List.isChain_cons.mpr ⟨fun m hm htext => ?_, ih hns⟩
    rw [hn] at htext
    cases htext

theorem textsApart_of_short (h : ns.length ≤ 1) : TextsApart ns := by
  match ns with
  | [] => exact .nil
  | [n] => exact .singleton n
  | _ :: _ :: _ => simp at h

/-- Growing a piece of text leaves it a piece of text, and any other node as it is. -/
theorem isText_appendText (n : Node) (s : String) (stop : Nat) :
    (n.appendText s stop).isText = n.isText := by
  unfold appendText
  split
  · next t hkind =>
    rw [isText_iff.mpr ⟨t, hkind⟩]
    rfl
  · rfl

/-- What joining texts begins with is a text if and only if the first node is one. -/
theorem joinTextAfter_head (last : Node) (ns : List Node) :
    ∃ first rest, joinTextAfter last ns = first :: rest ∧ first.isText = last.isText := by
  fun_induction joinTextAfter last ns with
  | case1 last => exact ⟨last, [], rfl, rfl⟩
  | case2 last n ns t s hn hlast ih =>
    obtain ⟨first, rest, heq, htext⟩ := ih
    exact ⟨first, rest, heq, htext.trans (isText_appendText last s _)⟩
  | case3 last n ns _ ih => exact ⟨last, _, rfl, rfl⟩

theorem textsApart_joinTextAfter (last : Node) (ns : List Node) :
    TextsApart (joinTextAfter last ns) := by
  fun_induction joinTextAfter last ns with
  | case1 last => exact .singleton last
  | case2 _ _ _ _ _ _ _ ih => exact ih
  | case3 last n ns hapart ih =>
    obtain ⟨first, rest, heq, htext⟩ := joinTextAfter_head n ns
    rw [heq] at ih ⊢
    refine List.isChain_cons_cons.mpr ⟨fun hlast => ?_, ih⟩
    -- Two texts in a row would have been joined.
    rw [htext, Bool.eq_false_iff]
    intro hn
    obtain ⟨t, hlast⟩ := isText_iff.mp hlast
    obtain ⟨s, hn⟩ := isText_iff.mp hn
    exact hapart t s hlast hn

/-- **Joining texts leaves no two of them next to each other.** -/
theorem textsApart_joinText (ns : List Node) : TextsApart (joinText ns) := by
  cases ns with
  | nil => exact .nil
  | cons n ns => exact textsApart_joinTextAfter n ns

/-! ## Well-shaped nodes by what they hold -/

theorem wellShaped_nil (hchildren : n.children = []) (hkind : n.kind ≠ .paragraph) :
    n.WellShaped where
  inside := by simp [hchildren]
  textsApart := by rw [hchildren]; exact .nil
  group := by simp [hchildren]
  blocks := by simp [hchildren]
  paragraph h := absurd h hkind
  paragraphPlace := by simp [hchildren]
  leaf _ := hchildren
  code _ _ _ := .inl hchildren
  list := by simp [hchildren]
  tableParts := by simp [hchildren]
  tablePlace := by simp [hchildren]

theorem clean_nil (hchildren : n.children = []) (hkind : n.kind ≠ .paragraph) : n.Clean :=
  clean_iff.mpr ⟨wellShaped_nil hchildren hkind, by simp [hchildren]⟩

theorem clean_leaf {span : Span} {kind : Kind} (hkind : kind ≠ .paragraph) :
    (leaf span kind).Clean :=
  clean_nil rfl hkind

theorem clean_text (span : Span) (s : String) : (text span s).Clean :=
  clean_leaf (by simp)

/-- A node whose kind lets it hold other nodes is well shaped if these are in order. -/
theorem wellShaped_of_holdsNodes (hkind : n.kind.HoldsNodes)
    (hinside : ∀ c ∈ n.children, c.kind.standsInside = true ∧ c.kind.isTablePart = false)
    (hapart : TextsApart n.children)
    (hblocks : n.formsParagraphs = true → ∀ c ∈ n.children, c.isInline = false ∧ c.kind ≠ .gap)
    (hparagraph : ∀ c ∈ n.children, c.kind = .paragraph → n.formsParagraphs = true)
    (hcode : ∀ e, n.kind = .element e → e.feature = .code →
      n.children = [] ∨ ∃ c s, n.children = [c] ∧ c.kind = .text s)
    (hlist : ∀ e l, n.kind = .element e → e.feature = .list l →
      ∀ c ∈ n.children, ∃ e' i, c.kind = .element e' ∧ e'.feature = .item i) :
    n.WellShaped where
  inside c hc := (hinside c hc).1
  textsApart := hapart
  group h := absurd h hkind.ne_group
  blocks := hblocks
  paragraph h := absurd h hkind.ne_paragraph
  paragraphPlace := hparagraph
  leaf h := by rw [hkind.not_leaf] at h; cases h
  code := hcode
  list := hlist
  tableParts h := by rw [hkind.not_table] at h; cases h
  tablePlace c hc h := by rw [(hinside c hc).2] at h; cases h

/-- Groups and paragraphs hold parts that flow. -/
theorem wellShaped_of_flowing {span : Span} {kind : Kind}
    (hkind : kind = .inlineGroup ∨ kind = .paragraph) (hns : AreFlowing ns)
    (hapart : TextsApart ns) (hblank : kind = .paragraph → ∃ c ∈ ns, c.isBlank = false) :
    (branch span kind ns).WellShaped := by
  have hmembers : ∀ c ∈ ns, c.isInline = true ∧ c.kind ≠ .inlineGroup := fun c hc =>
    ⟨(hns c hc).2.2, Kind.ne_of_isPart (hns c hc).2.1 rfl⟩
  have hparagraph : ∀ c ∈ ns, c.kind ≠ .paragraph := fun c hc =>
    Kind.ne_of_isPart (hns c hc).2.1 rfl
  have htable : ∀ c ∈ ns, c.kind.isTablePart ≠ true := fun c hc => by
    rw [Kind.isTablePart_of_isPart (hns c hc).2.1]
    exact Bool.false_ne_true
  exact {
    inside := fun c hc => Kind.standsInside_of_isPart (hns c hc).2.1
    textsApart := hapart
    group := fun _ => hmembers
    blocks := fun h => by rcases hkind with rfl | rfl <;> cases h
    paragraph := fun h => ⟨hmembers, hblank h⟩
    paragraphPlace := fun c hc h => absurd h (hparagraph c hc)
    leaf := fun h => by rcases hkind with rfl | rfl <;> cases h
    code := fun e he => by rcases hkind with rfl | rfl <;> cases he
    list := fun e l he => by rcases hkind with rfl | rfl <;> cases he
    tableParts := fun h => by rcases hkind with rfl | rfl <;> cases h
    tablePlace := fun c hc h => absurd h (htable c hc) }

/-- What stands in a well-shaped node that neither forms paragraphs nor consists of parts of a
table is content. -/
theorem WellShaped.isPart_or_group (h : n.WellShaped) (hforms : n.formsParagraphs = false)
    (htable : n.kind.hasTableParts = false) {c : Node} (hc : c ∈ n.children) :
    c.kind.isPart = true ∨ c.kind = .inlineGroup := by
  have hinside := h.inside c hc
  have hparagraph : c.kind ≠ .paragraph := fun hkind => by
    rw [h.paragraphPlace c hc hkind] at hforms
    cases hforms
  have hplace : c.kind.isTablePart ≠ true := fun hkind => by
    rw [(h.tablePlace c hc hkind).hasTableParts] at htable
    cases htable
  cases hkind : c.kind with
  | null | sequence | capture | document => rw [hkind] at hinside; cases hinside
  | text | gap | unknown | element | table => exact .inl rfl
  | inlineGroup => exact .inr rfl
  | paragraph => exact absurd hkind hparagraph
  | caption | tableSection | rowGroup | row | cell => exact absurd (by rw [hkind]; rfl) hplace

/-! ## Spreading -/

theorem Clean.content {k : Kind} (h : n.Clean) (hkind : n.kind = k)
    (hforms : k.formsParagraphs = false) (htable : k.hasTableParts = false) :
    AreContent n.children := by
  subst hkind
  exact fun c hc => ⟨h.children c hc, h.wellShaped.isPart_or_group hforms htable hc⟩

/-- Text in braces is content with a brace before it and perhaps one after it. -/
theorem content_spreadUnknown (h : n.Clean) (hn : n.kind.isPart = true ∨ n.kind = .inlineGroup) :
    AreContent n.spreadUnknown := by
  unfold spreadUnknown
  split
  · next closed hkind =>
    have hchildren : AreContent n.children := h.content hkind rfl rfl
    refine List.forall_mem_append.mpr
      ⟨List.forall_mem_cons.mpr ⟨⟨clean_text _ _, .inl rfl⟩, hchildren⟩, ?_⟩
    cases closed
    · exact List.forall_mem_nil _
    · exact List.forall_mem_singleton.mpr ⟨clean_text _ _, .inl rfl⟩
  · exact List.forall_mem_singleton.mpr ⟨h, hn⟩

/-- What is in a group flows and is in no group of its own. -/
theorem flowing_children_of_group (h : n.Clean) (hkind : n.kind = .inlineGroup) :
    AreFlowing n.children := by
  intro c hc
  obtain ⟨hinline, hgroup⟩ := h.wellShaped.group hkind c hc
  obtain ⟨hclean, hpart⟩ := h.content hkind rfl rfl c hc
  exact ⟨hclean, hpart.resolve_right hgroup, hinline⟩

theorem parts_spreadGroup (h : n.Clean) (hn : n.kind.isPart = true ∨ n.kind = .inlineGroup) :
    AreParts n.spreadGroup := by
  unfold spreadGroup
  split
  · next hkind =>
    intro c hc
    obtain ⟨hclean, hpart, -⟩ := flowing_children_of_group h hkind c hc
    exact ⟨hclean, hpart⟩
  · next hkind => exact List.forall_mem_singleton.mpr ⟨h, hn.resolve_right hkind⟩

theorem flowing_spreadGroup (h : n.Clean) (hn : n.kind.isPart = true ∨ n.kind = .inlineGroup)
    (hinline : n.isInline = true) : AreFlowing n.spreadGroup := by
  unfold spreadGroup
  split
  · next hkind => exact flowing_children_of_group h hkind
  · next hkind => exact List.forall_mem_singleton.mpr ⟨h, hn.resolve_right hkind, hinline⟩

/-! ## Joining -/

theorem flowing_appendText (h : n.Clean) {t : String} (hkind : n.kind = .text t) (s : String)
    (stop : Nat) : (n.appendText s stop).Clean ∧ (n.appendText s stop).kind.isPart = true ∧
      (n.appendText s stop).isInline = true := by
  have hchildren := h.wellShaped.leaf (by rw [hkind]; rfl)
  simp only [appendText, hkind]
  exact ⟨clean_nil hchildren (by simp), rfl, rfl⟩

theorem AreFlowing.joinTextAfter (last : Node) (ns : List Node) :
    AreFlowing (last :: ns) → AreFlowing (joinTextAfter last ns) := by
  fun_induction Node.joinTextAfter last ns with
  | case1 last => exact fun h => h
  | case2 last n ns t s _ hlast ih =>
    intro h
    obtain ⟨hclean, hrest⟩ := List.forall_mem_cons.mp h
    refine ih (List.forall_mem_cons.mpr ⟨?_, (List.forall_mem_cons.mp hrest).2⟩)
    exact flowing_appendText hclean.1 hlast s _
  | case3 last n ns _ ih =>
    intro h
    obtain ⟨hclean, hrest⟩ := List.forall_mem_cons.mp h
    exact List.forall_mem_cons.mpr ⟨hclean, ih hrest⟩

theorem AreFlowing.joinText (h : AreFlowing ns) : AreFlowing (joinText ns) := by
  cases ns with
  | nil => exact h
  | cons n ns => exact AreFlowing.joinTextAfter n ns h

theorem isBlank_of_text {s : String} (hkind : n.kind = .text s) : n.isBlank = isBlankText s := by
  obtain ⟨span, kind, children, layout⟩ := n
  obtain rfl : kind = .text s := hkind
  rw [isBlank]

/-- Joining texts makes nothing blank that was not, and the other way round. -/
theorem all_isBlank_joinTextAfter (last : Node) (ns : List Node) :
    (joinTextAfter last ns).all isBlank = (last :: ns).all isBlank := by
  fun_induction joinTextAfter last ns with
  | case1 last => rfl
  | case2 last n ns t s hn hlast ih =>
    have hjoined : (last.appendText s n.span.stop).isBlank = (last.isBlank && n.isBlank) := by
      have hkind : (last.appendText s n.span.stop).kind = .text (t ++ s) := by
        simp only [appendText, hlast, kind_mk]
      rw [isBlank_of_text hkind, isBlank_of_text hlast, isBlank_of_text hn, isBlankText,
        isBlankText, isBlankText, String.toList_append, Text.allBlank, List.all_append]
      rfl
    rw [ih, List.all_cons, hjoined, List.all_cons, List.all_cons, Bool.and_assoc]
  | case3 last n ns _ ih => simp only [List.all_cons, ih]

theorem all_isBlank_joinText (ns : List Node) : (joinText ns).all isBlank = ns.all isBlank := by
  cases ns with
  | nil => rfl
  | cons n ns => exact all_isBlank_joinTextAfter n ns

/-! ## Groups -/

/-- Clean nodes that are groups, or parts that do not flow. -/
def AreGrouped (ns : List Node) : Prop :=
  ∀ n ∈ ns, n.Clean ∧ (n.kind = .inlineGroup ∨ n.kind.isPart = true ∧ n.isInline = false)

theorem AreGrouped.content (h : AreGrouped ns) : AreContent ns := fun n hn =>
  ⟨(h n hn).1, (h n hn).2.elim .inr fun hpart => .inl hpart.1⟩

theorem AreGrouped.textsApart (h : AreGrouped ns) : TextsApart ns := by
  refine textsApart_of_noText fun n hn => isText_eq_false ?_
  rcases (h n hn).2 with hgroup | ⟨-, hinline⟩
  · exact .inl hgroup
  · exact .inr (.inr hinline)

theorem AreFlowing.reverse (h : AreFlowing ns) : AreFlowing ns.reverse :=
  fun n hn => h n (List.mem_reverse.mp hn)

theorem grouped_groupOf (h : AreFlowing ns) : AreGrouped (groupOf ns) := by
  unfold groupOf
  split
  · exact List.forall_mem_nil _
  · have hclean : ∀ c ∈ joinText ns, c.Clean := fun c hc => (h.joinText c hc).1
    refine List.forall_mem_singleton.mpr ⟨clean_iff.mpr ⟨?_, hclean⟩, .inl rfl⟩
    exact wellShaped_of_flowing (.inl rfl) h.joinText (textsApart_joinText ns) (by simp)

theorem grouped_groupRunsAfter (hms : AreFlowing ms) (hns : AreParts ns) :
    AreGrouped (groupRunsAfter ms ns) := by
  induction ns generalizing ms with
  | nil => exact grouped_groupOf hms.reverse
  | cons n ns ih =>
    obtain ⟨hn, hns⟩ := List.forall_mem_cons.mp hns
    rw [groupRunsAfter]
    by_cases hinline : n.isInline = true
    · rw [if_pos hinline]
      exact ih (List.forall_mem_cons.mpr ⟨⟨hn.1, hn.2, hinline⟩, hms⟩) hns
    · rw [if_neg hinline]
      have hrest := ih (List.forall_mem_nil _) hns
      exact List.forall_mem_append.mpr ⟨grouped_groupOf hms.reverse,
        List.forall_mem_cons.mpr ⟨⟨hn.1, .inr ⟨hn.2, Bool.eq_false_iff.mpr hinline⟩⟩, hrest⟩⟩

theorem grouped_normalize (h : AreContent ns) : AreGrouped (normalize ns) := by
  have hspread : AreContent (ns.flatMap spreadUnknown) := fun c hc => by
    obtain ⟨n, hn, hc⟩ := List.mem_flatMap.mp hc
    exact content_spreadUnknown (h n hn).1 (h n hn).2 c hc
  have hparts : AreParts ((ns.flatMap spreadUnknown).flatMap spreadGroup) := fun c hc => by
    obtain ⟨n, hn, hc⟩ := List.mem_flatMap.mp hc
    exact parts_spreadGroup (hspread n hn).1 (hspread n hn).2 c hc
  have hgrouped := grouped_groupRunsAfter (List.forall_mem_nil _) hparts
  exact fun c hc => hgrouped c (List.mem_of_mem_filter hc)

/-! ## Paragraphs -/

/-- Clean nodes that are paragraphs, or parts that neither flow nor stand for blank lines. -/
def AreBlocks (ns : List Node) : Prop :=
  ∀ n ∈ ns, n.Clean ∧
    (n.kind = .paragraph ∨ n.kind.isPart = true ∧ n.isInline = false ∧ n.kind ≠ .gap)

theorem blocks_paragraphOf (h : AreFlowing ns) : AreBlocks (paragraphOf ns) := by
  unfold paragraphOf
  split
  · exact List.forall_mem_nil _
  · next hblank =>
    have hsome : ∃ c ∈ joinText ns, c.isBlank = false := by
      rw [← all_isBlank_joinText, List.all_eq_true] at hblank
      simpa using hblank
    have hclean : ∀ c ∈ joinText ns, c.Clean := fun c hc => (h.joinText c hc).1
    refine List.forall_mem_singleton.mpr ⟨clean_iff.mpr ⟨?_, hclean⟩, .inl rfl⟩
    exact wellShaped_of_flowing (.inr rfl) h.joinText (textsApart_joinText ns) fun _ => hsome

theorem blocks_paragraphsAfter (hms : AreFlowing ms) (hns : AreContent ns) :
    AreBlocks (paragraphsAfter ms ns) := by
  induction ns generalizing ms with
  | nil => exact blocks_paragraphOf hms.reverse
  | cons n ns ih =>
    obtain ⟨hn, hns⟩ := List.forall_mem_cons.mp hns
    rw [paragraphsAfter]
    by_cases hinline : n.isInline = true
    · rw [if_pos hinline]
      have hrun := (flowing_spreadGroup hn.1 hn.2 hinline).reverse
      exact ih (List.forall_mem_append.mpr ⟨hrun, hms⟩) hns
    · rw [if_neg hinline]
      have hrest := ih (List.forall_mem_nil _) hns
      refine List.forall_mem_append.mpr
        ⟨List.forall_mem_append.mpr ⟨blocks_paragraphOf hms.reverse, ?_⟩, hrest⟩
      by_cases hgap : n.isGap = true
      · rw [if_pos hgap]
        exact List.forall_mem_nil _
      · rw [if_neg hgap]
        -- A group flows, so what does not flow is a part.
        have hpart := hn.2.resolve_right fun hkind => hinline (by rw [isInline, hkind]; rfl)
        refine List.forall_mem_singleton.mpr ⟨hn.1, .inr ⟨hpart, ?_, ?_⟩⟩
        · exact Bool.eq_false_iff.mpr hinline
        · exact fun hkind => hgap (beq_iff_eq.mpr hkind)

theorem AreBlocks.textsApart (h : AreBlocks ns) : TextsApart ns := by
  refine textsApart_of_noText fun n hn => isText_eq_false ?_
  rcases (h n hn).2 with hparagraph | ⟨-, hinline, -⟩
  · exact .inr (.inl hparagraph)
  · exact .inr (.inr hinline)

/-! ## Assembly -/

/-- A node that holds grouped content, and forms no paragraphs of it, is clean. -/
theorem clean_of_content (hkind : n.kind.HoldsContent) (hforms : n.formsParagraphs = false)
    (h : AreContent n.children) (hapart : TextsApart n.children) : n.Clean := by
  have hinside : ∀ c ∈ n.children, c.kind.standsInside = true ∧ c.kind.isTablePart = false := by
    intro c hc
    rcases (h c hc).2 with hpart | hgroup
    · exact ⟨Kind.standsInside_of_isPart hpart, Kind.isTablePart_of_isPart hpart⟩
    · rw [hgroup]
      exact ⟨rfl, rfl⟩
  have hparagraph : ∀ c ∈ n.children, c.kind ≠ .paragraph := by
    intro c hc
    rcases (h c hc).2 with hpart | hgroup
    · exact Kind.ne_of_isPart hpart rfl
    · rw [hgroup]
      simp
  refine clean_iff.mpr ⟨?_, fun c hc => (h c hc).1⟩
  refine wellShaped_of_holdsNodes hkind.toHoldsNodes hinside hapart (fun hp => ?_)
    (fun c hc hp => absurd hp (hparagraph c hc)) (fun e he hc => absurd hc (hkind.not_code e he))
    fun e l he hl => absurd hl (hkind.not_list e l he)
  rw [hforms] at hp
  cases hp

/-- A node that holds blocks is clean. -/
theorem clean_of_blocks (hkind : n.kind.HoldsContent) (hforms : n.formsParagraphs = true)
    (h : AreBlocks n.children) : n.Clean := by
  have hinside : ∀ c ∈ n.children, c.kind.standsInside = true ∧ c.kind.isTablePart = false := by
    intro c hc
    rcases (h c hc).2 with hparagraph | ⟨hpart, -⟩
    · rw [hparagraph]
      exact ⟨rfl, rfl⟩
    · exact ⟨Kind.standsInside_of_isPart hpart, Kind.isTablePart_of_isPart hpart⟩
  refine clean_iff.mpr ⟨?_, fun c hc => (h c hc).1⟩
  refine wellShaped_of_holdsNodes hkind.toHoldsNodes hinside h.textsApart (fun _ c hc => ?_)
    (fun _ _ _ => hforms) (fun e he hc => absurd hc (hkind.not_code e he))
    fun e l he hl => absurd hl (hkind.not_list e l he)
  rcases (h c hc).2 with hparagraph | ⟨-, hblock⟩
  · rw [isInline, hparagraph]
    exact ⟨rfl, by simp⟩
  · exact hblock

/-- **Assembly makes a clean node of any content.** -/
theorem clean_assemble (hkind : n.kind.HoldsContent) (h : AreContent n.children) :
    n.assemble.Clean := by
  have hgrouped : ∃ m : Node, m.kind = n.kind ∧ AreContent m.children ∧ TextsApart m.children ∧
      n.assemble = if m.formsParagraphs then m.formParagraphs else m := by
    by_cases hlength : 1 < n.children.length
    · have hnormal := grouped_normalize h
      refine ⟨n.withChildren (normalize n.children), rfl, hnormal.content, hnormal.textsApart, ?_⟩
      rw [assemble, if_pos hlength]
    · refine ⟨n, rfl, h, textsApart_of_short (by omega), ?_⟩
      rw [assemble, if_neg hlength]
  obtain ⟨m, hm, hcontent, hapart, heq⟩ := hgrouped
  rw [← hm] at hkind
  rw [heq]
  by_cases hforms : m.formsParagraphs = true
  · rw [if_pos hforms]
    exact clean_of_blocks hkind hforms (blocks_paragraphsAfter (List.forall_mem_nil _) hcontent)
  · rw [if_neg hforms]
    exact clean_of_content hkind (Bool.eq_false_iff.mpr hforms) hcontent hapart

end Node

end Bracemark
