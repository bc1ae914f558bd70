/-
How tall documents are.

While a source is read, the elements around the place of reading are counted, and at the limit
none may begin that holds anything. That bounds the height of the tree, too, although the two
are not the same: a group or a paragraph may stand between an element and what is inside it, and
between a table and the content of its cells there are a section, a group of rows, a row and the
cell. So each element around a node stands for six levels at most (`Made.height_le`), and every
way down through a document is short, whatever the source (`Document.descents_bounded`). The
recursions that write a document follow such ways.
-/
import Bracemark.Proofs.Contents
import Bracemark.Proofs.DocumentShape
import Bracemark.Proofs.History

set_option autoImplicit false

namespace Bracemark

/-! ## Ways down -/

namespace Node

/-- The nodes on a way down a tree, from the first on: each but the first is a child of the one
before it. -/
inductive Descent : Node → List Node → Prop
  | here (n : Node) : Descent n [n]
  | down {n c : Node} {path : List Node} :
    c ∈ n.children → Descent c path → Descent n (n :: path)

mutual

/-- The number of nodes on the longest way down from a node. -/
def height : Node → Nat
  | .mk _ _ children _ => heightAll children + 1

/-- The largest of the heights of some nodes. -/
def heightAll : List Node → Nat
  | [] => 0
  | n :: ns => max n.height (heightAll ns)

end

mutual

/-- The way down a tree that keeps to the first child. -/
def leftmost : Node → List Node
  | .mk span kind children layout => .mk span kind children layout :: leftmostOf children

/-- The way down from the first of some nodes. -/
def leftmostOf : List Node → List Node
  | [] => []
  | n :: _ => n.leftmost

end

variable {n c : Node} {ns : List Node} {path : List Node} {h : Nat}

theorem heightAll_le_iff : heightAll ns ≤ h ↔ ∀ n ∈ ns, n.height ≤ h := by
  induction ns with
  | nil => simp [heightAll]
  | cons n ns ih => simp [heightAll, ih]

theorem height_le_iff : n.height ≤ h + 1 ↔ ∀ c ∈ n.children, c.height ≤ h := by
  obtain ⟨span, kind, children, layout⟩ := n
  rw [height, Nat.add_le_add_iff_right]
  exact heightAll_le_iff

theorem height_pos (n : Node) : 0 < n.height := by
  obtain ⟨span, kind, children, layout⟩ := n
  exact Nat.succ_pos _

theorem height_lt_of_mem (hc : c ∈ n.children) : c.height < n.height := by
  have hpos := n.height_pos
  have hle : n.height ≤ (n.height - 1) + 1 := by omega
  have hchild := height_le_iff.mp hle c hc
  omega

/-- What has nothing inside it is no taller than one node. -/
theorem height_le_one (hn : n.children = []) : n.height ≤ 1 := by
  apply height_le_iff.mpr
  rw [hn]
  exact List.forall_mem_nil _

/-- Only what is inside a node makes it tall. -/
theorem height_eq_of_children {m : Node} (hm : m.children = n.children) :
    m.height = n.height := by
  obtain ⟨_, _, _, _⟩ := n
  obtain ⟨_, _, _, _⟩ := m
  subst hm
  rfl

/-- **No way down is longer than a tree is tall.** -/
theorem Descent.length_le_height (hpath : Descent n path) : path.length ≤ n.height := by
  induction hpath with
  | here n => exact n.height_pos
  | down hc _ ih =>
    have hlt := height_lt_of_mem hc
    rw [List.length_cons]
    omega

/-- A way down begins at the node that it is a way down from. -/
theorem descent_cons {u : Node} (hpath : Descent n (u :: path)) :
    n = u ∧ (path = [] ∨ ∃ c ∈ n.children, Descent c path) := by
  cases hpath with
  | here => exact ⟨rfl, .inl rfl⟩
  | down hc hrest => exact ⟨rfl, .inr ⟨_, hc, hrest⟩⟩

theorem descent_leftmost : ∀ n : Node, Descent n n.leftmost
  | .mk _ _ [] _ => .here _
  | .mk _ _ (c :: _) _ => .down List.mem_cons_self (descent_leftmost c)

/-! ## What is written into a tree -/

mutual

theorem height_bare : ∀ n : Node, n.bare.height = n.height
  | .mk span kind children layout => by rw [bare, height, height, heightAll_bareAll children]

theorem heightAll_bareAll : ∀ ns : List Node, heightAll (bareAll ns) = heightAll ns
  | [] => rfl
  | n :: ns => by rw [bareAll, heightAll, heightAll, height_bare n, heightAll_bareAll ns]

end

/-- Preparing a tree adds no nodes to it. -/
theorem height_of_prepare {d e : Context} {m : Node} (hm : n.prepare d = .ok (m, e)) :
    m.height = n.height := by
  rw [← height_bare m, bare_of_prepare hm, height_bare n]

/-! ## What is gathered -/

theorem keptInGathering_height (hpos : 0 < h) : KeptInGathering fun n => n.height ≤ h where
  text _ _ := (height_le_one rfl).trans hpos
  inner hn _ hc := (height_lt_of_mem hc).le.trans hn
  grown hn _ _ hchildren := (height_eq_of_children hchildren).trans_le hn

theorem Gathered.height_le (hpos : 0 < h) (hns : ∀ n ∈ ns, n.height ≤ h) (hc : Gathered ns c) :
    c.height ≤ h :=
  hc.kept (keptInGathering_height hpos) hns

/-- Groups and paragraphs add one level to what they are made of. -/
theorem height_le_of_gathered (hpos : 0 < h) (hns : ∀ n ∈ ns, n.height ≤ h)
    (hc : Gathered ns c ∨ Bundle ns c) : c.height ≤ h + 1 := by
  rcases hc with hc | hc
  · exact (hc.height_le hpos hns).trans (Nat.le_succ h)
  · apply height_le_iff.mpr
    intro d hd
    exact (hc.children d hd).height_le hpos hns

theorem height_assemble_le (hpos : 0 < h) (hns : ∀ c ∈ n.children, c.height ≤ h) :
    n.assemble.height ≤ h + 2 := by
  apply height_le_iff.mpr
  intro c hc
  exact height_le_of_gathered hpos hns (gathered_or_bundle_of_mem_assemble n c hc)

end Node

/-! ## Tables -/

open Node

variable {forms : Catalog} {ns : List Node} {n : Node} {h : Nat}

theorem Node.PlacedFrom.height_le {r : Node} (hr : r.PlacedFrom ns)
    (hns : ∀ n ∈ ns, n.height ≤ h + 1) : r.height ≤ h + 1 := by
  obtain ⟨-, r', hr', -, hcells⟩ := hr
  apply height_le_iff.mpr
  intro d hd
  obtain ⟨d', hd', hplaced⟩ := hcells d hd
  have hcell : d.height = d'.height := by
    rcases hplaced with rfl | ⟨a, b, -, rfl⟩
    · rfl
    · exact height_eq_of_children rfl
  rw [hcell]
  exact height_le_iff.mp (hns r' hr') d' hd'

/-- Above the rows of a table there are their group, a section and the table. -/
theorem Table.height_layout?_le {t : Table} {span : Span} (hpos : 0 < h)
    (hns : ∀ n ∈ ns, n.height ≤ h + 1) (hn : t.layout? span ns = some n) : n.height ≤ h + 4 := by
  apply height_le_iff.mpr
  intro c hc
  cases (Table.parts_layout? hn).2 c hc with
  | caption _ hcontent =>
    -- A caption is put together from what is inside the captions among the items.
    have hcaptions : ∀ d ∈ (ns.filter isCaption).flatMap Node.children, d.height ≤ h := by
      intro d hd
      obtain ⟨caption, hcaption, hd⟩ := List.mem_flatMap.mp hd
      exact height_le_iff.mp (hns caption (List.mem_of_mem_filter hcaption)) d hd
    apply height_le_iff.mpr
    intro d hd
    exact (height_le_of_gathered hpos hcaptions (hcontent d hd)).trans (Nat.le_succ _)
  | «section» role _ hgroups =>
    apply height_le_iff.mpr
    intro g hg
    apply height_le_iff.mpr
    intro r hr
    exact ((hgroups g hg).2 r hr).height_le hns

/-! ## Elements -/

/-- How tall a node may be that is read inside so many elements. -/
def heightLimit (level : Nat) : Nat :=
  6 * (maxNesting - level) + 1

/-- By how much more than other nodes the parts of a table may be tall. -/
def Slot.rise : Slot → Nat
  | .cell => 2
  | .content .table => 3
  | _ => 0

theorem heightLimit_pos (level : Nat) : 0 < heightLimit level :=
  Nat.succ_pos _

/-- One more element leaves room for six levels less. -/
theorem heightLimit_eq {level : Nat} (hlevel : level < maxNesting) :
    heightLimit level = heightLimit (level + 1) + 6 := by
  unfold heightLimit
  omega

theorem Slot.rise_content {form : Form} (htable : form ≠ .table) :
    (Slot.content form).rise = 0 := by
  cases form with
  | table => exact absurd rfl htable
  | _ => rfl

theorem Shape.form_eq_table {shape : Shape} (h : shape.form = .table) : ∃ t, shape = .table t := by
  cases shape with
  | table t => exact ⟨t, rfl⟩
  | element feature => cases feature <;> cases h
  | cell | caption => cases h

/-- An element is at most six levels taller than its content may be: so much is a table, and
anything else is less. -/
theorem Shape.height_node?_le {shape : Shape} {header : Header} (hpos : 0 < h)
    (hns : ∀ n ∈ ns, n.height ≤ h + (Slot.content shape.form).rise)
    (hn : shape.node? header ns = some n) : n.height ≤ h + 6 := by
  by_cases htable : shape.form = .table
  · obtain ⟨t, rfl⟩ := Shape.form_eq_table htable
    exact Table.height_layout?_le (by omega : 0 < h + 2) hns hn
  · rw [Slot.rise_content htable] at hns
    have hshape : ∀ t, shape ≠ .table t := by
      rintro t rfl
      exact htable rfl
    have hheight : n.height ≤ (h + 1) + 1 := by
      apply height_le_iff.mpr
      intro c hc
      exact height_le_of_gathered hpos hns (Shape.gathered_node? hshape hn c hc)
    omega

/-- **Each element stands for six levels at most.** What is read inside so many elements is no
taller than it may be that far below the limit. -/
theorem Made.height_le {slot : Slot} {level : Nat} (hn : Made forms slot level n) :
    n.height ≤ heightLimit level + slot.rise := by
  induction hn with
  | @text level | @gap level | @blank level | @assigned level | @code level | @breakLine level
  | @blankRows level =>
    have hpos := heightLimit_pos level
    exact (height_le_one rfl).trans (by omega)
  | known _ _ _ ih => exact ih
  | @unknown level span closed ns hlevel _ ih =>
    have hheight : (branch span (.unknown closed) ns).assemble.height ≤
        heightLimit (level + 1) + 2 := height_assemble_le (heightLimit_pos _) ih
    -- Assembly adds two levels, and an element may add six.
    rw [heightLimit_eq hlevel]
    omega
  | @element level form header shape ns n _ hshape _ hempty hn ih =>
    rcases hempty with rfl | ⟨-, hlevel⟩
    · -- At the limit an element may still begin, but nothing is inside it.
      rw [Form.keptContent_nil] at hn
      exact (height_le_one (Shape.children_node?_nil hn)).trans (heightLimit_pos level)
    · have hkept : ∀ c ∈ form.keptContent ns,
          c.height ≤ heightLimit (level + 1) + (Slot.content form).rise := by
        intro c hc
        have hpos : 0 < heightLimit (level + 1) + (Slot.content form).rise := by
          have := heightLimit_pos (level + 1)
          omega
        exact (form.gathered_keptContent ns c hc).height_le hpos ih
      rw [heightLimit_eq hlevel]
      obtain rfl := Form.form_of_shape? hshape
      exact Shape.height_node?_le (heightLimit_pos _) hkept hn
  | @ofParts level form n hparts _ ih =>
    have htable : form ≠ .table := by
      rintro rfl
      cases hparts
    rw [Slot.rise_content htable]
    exact ih
  | item _ ih | get _ ih => exact ih
  | caption _ ih | explicitCell _ ih => exact ih.trans (Nat.le_add_right _ _)
  | row span _ ih => exact height_le_iff.mpr ih
  | @contentCell level span ns _ ih =>
    apply height_le_iff.mpr
    intro c hc
    exact height_le_of_gathered (heightLimit_pos level) ih (gathered_cellNode span .plain ns c hc)

/-! ## Documents -/

namespace Document

theorem height_read_le (forms : Catalog) (source : String) :
    (read forms source).root.height ≤ heightLimit 0 + 2 := by
  obtain ⟨ns, hns, hroot⟩ := exists_made forms source
  rw [hroot]
  exact height_assemble_le (heightLimit_pos 0) fun c hc => (hns c hc).height_le

/-- **Every way down a document is short**, however long the source is, and so it is when the
document has been prepared for writing, which no document fails to be. -/
theorem descents_bounded (forms : Catalog) (source : String) :
    (∀ path, Descent (read forms source).root path → path.length ≤ 8 * (maxNesting + 1)) ∧
      ∀ (target : Target) (s : Settings), ∃ text d,
        (read forms source).render target s = .ok (text, d) ∧
          ∀ path, Descent d.root path → path.length ≤ 8 * (maxNesting + 1) := by
  have hlimit : heightLimit 0 + 2 ≤ 8 * (maxNesting + 1) := by decide
  have hroot := (height_read_le forms source).trans hlimit
  refine ⟨fun path hpath => hpath.length_le_height.trans hroot, ?_⟩
  intro target s
  obtain ⟨m, c, hm, -⟩ := prepare_restores (Context.start target s).reset (read forms source).root
  have hprepared : m.height ≤ 8 * (maxNesting + 1) := (height_of_prepare hm).trans_le hroot
  refine ⟨c.reset.write m, { read forms source with root := m }, ?_, ?_⟩
  · simp only [Document.render, Context.run, hm, bind, Except.bind, pure, Except.pure]
  · exact fun path hpath => hpath.length_le_height.trans hprepared

/-- In a table nine nodes stand one inside the other down to emphasized text in its only cell. -/
theorem descents_bounded_table :
    let root := (read .standard "\x7btable|\x7bi|a\x7d b\x7d").root
    Descent root root.leftmost ∧ root.leftmost.length = 9 ∧
      root.leftmost.length ≤ 8 * (maxNesting + 1) := by
  intro root
  have hpath : Descent root root.leftmost := descent_leftmost root
  exact ⟨hpath, by decide +kernel, (descents_bounded .standard _).1 _ hpath⟩

end Document

end Bracemark
