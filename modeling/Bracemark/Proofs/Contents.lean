/-
What the content of an element becomes.

Before it is assembled, what has been read inside an element is cut down to what the form keeps,
and the text at the edges of a cell is trimmed. A table is taken apart and laid out anew. This
says for every element where the nodes inside it come from: they are gathered from its content
or bundles of that (`Shape.gathered_node?`), and inside a table they are a caption of such nodes
and sections whose rows are among the items (`Table.parts_layout?`).
-/
import Bracemark.Proofs.Gathering
import Bracemark.Proofs.Kinds

set_option autoImplicit false

namespace Bracemark

open Node

variable {ns : List Node} {n c : Node}

/-! ## Content that is kept -/

/-- A form keeps what it has been given, or makes text of it. -/
theorem Form.gathered_keptContent (form : Form) (ns : List Node) :
    ∀ c ∈ form.keptContent ns, Gathered ns c := by
  intro c hc
  unfold keptContent codeBody at hc
  split at hc
  · exact .member (List.mem_of_mem_filter hc)
  · split at hc
    · cases hc
    · dsimp only at hc
      split at hc
      · cases hc
      · rw [List.mem_singleton.mp hc]
        exact .brace _ _
  · exact .member hc

theorem Form.keptContent_nil (form : Form) : form.keptContent [] = [] := by
  cases form <;> rfl

theorem gathered_trimEdges (ns : List Node) : ∀ c ∈ trimEdges ns, Gathered ns c := by
  intro c hc
  obtain ⟨n, hn, hnc⟩ := exists_retexted_of_mem_trimEdges hc
  rcases hnc with rfl | ⟨s, t, hkind, rfl⟩
  · exact .member hn
  · exact .grown (.member hn) hkind rfl rfl

/-! ## Elements -/

theorem children_assemble_nil (h : n.children = []) : n.assemble.children = [] := by
  have hshort : ¬ 1 < n.children.length := by simp [h]
  rw [assemble]
  simp only [if_neg hshort]
  split
  · rw [formParagraphs, h]
    rfl
  · exact h

theorem gathered_cellNode (span : Span) (cell : Cell) (ns : List Node) :
    ∀ c ∈ (cellNode span cell ns).children, Gathered ns c ∨ Bundle ns c := by
  intro c hc
  have hedges := gathered_trimEdges ns
  exact (gathered_or_bundle_of_mem_assemble _ c hc).imp (·.trans hedges) (·.trans hedges)

/-- The nodes inside an element that is no table come from its content. -/
theorem Shape.gathered_node? {shape : Shape} {header : Header} (htable : ∀ t, shape ≠ .table t)
    (hn : shape.node? header ns = some n) : ∀ c ∈ n.children, Gathered ns c ∨ Bundle ns c := by
  cases shape with
  | table t => exact absurd rfl (htable t)
  | cell cell =>
    cases hn
    exact gathered_cellNode _ cell ns
  | element feature | caption =>
    cases hn
    exact gathered_or_bundle_of_mem_assemble _

/-- An element without content has nothing in it; a table must have some. -/
theorem Shape.children_node?_nil {shape : Shape} {header : Header}
    (hn : shape.node? header [] = some n) : n.children = [] := by
  cases shape with
  | table t => cases hn
  | element feature | cell cell | caption =>
    cases hn
    exact children_assemble_nil rfl

/-! ## Tables -/

/-- A row of a table, made of one of the items: its cells have been given their places. -/
def Node.PlacedFrom (items : List Node) (r : Node) : Prop :=
  r.kind = .row ∧ ∃ r' ∈ items, r'.kind = .row ∧ ∀ d ∈ r.children, ∃ d' ∈ r'.children,
    d = d' ∨ ∃ a b, d'.kind = .cell a ∧ d = d'.withKind (.cell b)

/-- A part of a table: its caption, which is gathered from the captions among the items, or a
section with groups of its rows. -/
inductive Node.TablePart (items : List Node) (c : Node) : Prop
  | caption : c.kind = .caption →
      (∀ d ∈ c.children, Gathered ((items.filter isCaption).flatMap Node.children) d ∨
        Bundle ((items.filter isCaption).flatMap Node.children) d) → TablePart items c
  | section (role : Role) : c.kind = .tableSection role →
      (∀ g ∈ c.children, (∃ group, g.kind = .rowGroup group) ∧
        ∀ r ∈ g.children, r.PlacedFrom items) → TablePart items c

theorem Block.placedFrom_of_mem_placed {b : Block} {r : Node} (hb : b ∈ Block.placed ns)
    (hr : r ∈ b.rows) : r.PlacedFrom ns := by
  obtain ⟨r', hr', hrow, boxes, rfl⟩ := Block.exists_of_mem_placed hb hr
  exact ⟨hrow, r', hr', hrow, fun d hd => exists_of_mem_withBoxes hd⟩

/-- **The parts of a table** come from its items. -/
theorem Table.parts_layout? {t : Table} {span : Span} (hn : t.layout? span ns = some n) :
    (∃ laid, n.kind = .table laid) ∧ ∀ c ∈ n.children, TablePart ns c := by
  obtain ⟨laid, hkind, -, -, hchildren⟩ := Table.layout?_eq_some hn
  refine ⟨⟨laid, hkind⟩, ?_⟩
  rw [hchildren]
  refine List.forall_mem_append.mpr ⟨?_, ?_⟩
  · intro c hc
    unfold captionOf at hc
    split at hc
    · cases hc
    · rw [List.mem_singleton.mp hc]
      exact .caption (kind_assemble _) (gathered_or_bundle_of_mem_assemble _)
  · intro c hc
    obtain ⟨role, -, hc⟩ := List.mem_flatMap.mp hc
    obtain ⟨groups, hgroups, rfl⟩ := Block.exists_of_mem_sectionOf hc
    refine .section role rfl fun g hg => ?_
    obtain ⟨b, hb, rfl⟩ := List.mem_map.mp hg
    exact ⟨⟨b.group, rfl⟩, fun r hr => Block.placedFrom_of_mem_placed (hgroups b hb) hr⟩

end Bracemark
