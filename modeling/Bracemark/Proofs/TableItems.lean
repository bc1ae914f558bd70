/-
The items of a table's body and what laying out makes of them.

Laying out takes the items apart in a few steps: captions are taken out, rows are gathered
into groups, the groups without rows go, and what is left is placed, given its role and put
into sections. Each step is opened here once. What a table is made of (`Table.layout?_eq_some`)
and where its rows come from (`Block.exists_of_mem_placed`) is all that the theory of tables
needs to know of them.
-/
import Mathlib
import Bracemark.Table.Layout

set_option autoImplicit false

namespace Bracemark

/-! ## Cells -/

namespace Node

theorem cell?_eq_some {n : Node} {c : Cell} : n.cell? = some c ↔ n.kind = .cell c := by
  unfold cell?
  split
  · next c' hkind => simp [hkind]
  · next hkind => exact ⟨fun h => absurd h (by simp), fun h => absurd h (hkind c)⟩

/-- Nodes that are given boxes stay as they are, but for cells. -/
theorem exists_of_mem_withBoxes {ns : List Node} {boxes : List Box} {c : Node} :
    c ∈ withBoxes ns boxes →
      ∃ n ∈ ns, c = n ∨ ∃ a b, n.kind = .cell a ∧ c = n.withKind (.cell b) := by
  fun_induction withBoxes ns boxes with
  | case1 => exact fun hc => absurd hc List.not_mem_nil
  | case2 n ns => exact fun hc => ⟨c, hc, .inl rfl⟩
  | case3 n ns box boxes a hkind ih =>
    intro hc
    rcases List.mem_cons.mp hc with rfl | hc
    · exact ⟨n, List.mem_cons_self, .inr ⟨a, _, hkind, rfl⟩⟩
    · obtain ⟨m, hm, heq⟩ := ih hc
      exact ⟨m, List.mem_cons_of_mem n hm, heq⟩
  | case4 n ns box boxes _ ih =>
    intro hc
    rcases List.mem_cons.mp hc with rfl | hc
    · exact ⟨c, List.mem_cons_self, .inl rfl⟩
    · obtain ⟨m, hm, heq⟩ := ih hc
      exact ⟨m, List.mem_cons_of_mem n hm, heq⟩

/-- The cells among some nodes get the boxes in order, if there is one for each. -/
theorem boxes_withBoxes (ns : List Node) (boxes : List Box) :
    boxes.length = (ns.filterMap cell?).length →
      ((withBoxes ns boxes).filterMap cell?).map (·.box) = boxes := by
  fun_induction withBoxes ns boxes with
  | case1 boxes =>
    intro h
    exact (List.length_eq_zero_iff.mp h).symm
  | case2 n ns =>
    intro h
    rw [List.length_eq_zero_iff.mp h.symm]
    rfl
  | case3 n ns box boxes c hkind ih =>
    intro h
    rw [List.filterMap_cons_some (cell?_eq_some.mpr hkind)] at h
    have hcell : (n.withKind (.cell { c with box })).cell? = some { c with box } := rfl
    rw [List.filterMap_cons_some hcell, List.map_cons, ih (Nat.succ.inj h)]
  | case4 n ns box boxes hkind ih =>
    intro h
    have hnone : n.cell? = none :=
      Option.eq_none_iff_forall_ne_some.mpr fun c hc => hkind c (cell?_eq_some.mp hc)
    rw [List.filterMap_cons_none hnone] at h ⊢
    exact ih h

end Node

/-! ## Captions and rows -/

namespace Node

variable {n : Node}

/-- Whether a node is a caption. -/
def isCaption (n : Node) : Bool :=
  n.kind == .caption

/-- Whether a node is a row of a table. -/
def isRow (n : Node) : Bool :=
  n.kind == .row

theorem isCaption_iff : n.isCaption = true ↔ n.kind = .caption :=
  beq_iff_eq

theorem isRow_iff : n.isRow = true ↔ n.kind = .row :=
  beq_iff_eq

end Node

namespace Block

/-- The rows of all groups, one after another. -/
def allRows (blocks : List Block) : List Node :=
  blocks.flatMap (·.rows)

@[simp] theorem allRows_nil : allRows [] = [] := rfl

@[simp] theorem allRows_cons (b : Block) (bs : List Block) :
    allRows (b :: bs) = b.rows ++ allRows bs := rfl

/-- Collecting takes the captions out of the items of a table and leaves their order. -/
theorem collect_captions (group : RowGroup) (rows items : List Node) :
    (collect group rows items).1 = items.filter Node.isCaption := by
  fun_induction collect group rows items with
  | case1 => rfl
  | case2 group rows n ns hkind captions blocks hcollect ih =>
    rw [hcollect] at ih
    rw [List.filter_cons_of_pos (Node.isCaption_iff.mpr hkind), ← ih]
  | case3 group rows n ns next hkind captions blocks hcollect ih =>
    rw [hcollect] at ih
    rw [List.filter_cons_of_neg (by simp [Node.isCaption, hkind]), ← ih]
  | case4 group rows n ns hkind ih =>
    rw [List.filter_cons_of_neg (by simp [Node.isCaption, hkind]), ih]
  | case5 group rows n ns hkind _ _ ih =>
    rw [List.filter_cons_of_neg (mt Node.isCaption_iff.mp hkind), ih]

/-- Collecting gathers the rows in the order of the items. -/
theorem collect_rows (group : RowGroup) (rows items : List Node) :
    allRows (collect group rows items).2 = rows.reverse ++ items.filter Node.isRow := by
  fun_induction collect group rows items with
  | case1 group rows => simp
  | case2 group rows n ns hkind captions blocks hcollect ih =>
    rw [hcollect] at ih
    rw [List.filter_cons_of_neg (by simp [Node.isRow, hkind]), ← ih]
  | case3 group rows n ns next hkind captions blocks hcollect ih =>
    rw [hcollect] at ih
    rw [List.filter_cons_of_neg (by simp [Node.isRow, hkind]), allRows_cons, ih,
      List.reverse_nil, List.nil_append]
  | case4 group rows n ns hkind ih =>
    -- The row becomes the last of the rows so far and stays where the items had it.
    rw [List.filter_cons_of_pos (Node.isRow_iff.mpr hkind), ih, List.reverse_cons,
      List.append_assoc, List.singleton_append]
  | case5 group rows n ns _ _ hkind ih =>
    rw [List.filter_cons_of_neg (mt Node.isRow_iff.mp hkind), ih]

/-- Leaving out groups without rows leaves out no row. -/
theorem allRows_filter (blocks : List Block) :
    allRows (blocks.filter fun b => !b.rows.isEmpty) = allRows blocks := by
  induction blocks with
  | nil => rfl
  | cons b bs ih =>
    by_cases hrows : b.rows = []
    · rw [List.filter_cons_of_neg (by simpa using hrows), ih, allRows_cons, hrows, List.nil_append]
    · rw [List.filter_cons_of_pos (by simpa using hrows), allRows_cons, allRows_cons, ih]

/-- The captions of a table are all captions among its items. -/
theorem ofItems_captions (items : List Node) :
    (ofItems items).1 = items.filter Node.isCaption :=
  collect_captions .plain [] items

/-- The rows of a table's groups are all rows among its items. -/
theorem ofItems_rows (items : List Node) :
    allRows (ofItems items).2 = items.filter Node.isRow :=
  (allRows_filter _).trans (collect_rows .plain [] items)

theorem kind_of_ofItems_rows {items : List Node} {b : Block} (hb : b ∈ (ofItems items).2) :
    ∀ r ∈ b.rows, r.kind = .row := by
  intro r hr
  have hmem : r ∈ allRows (ofItems items).2 := List.mem_flatMap.mpr ⟨b, hb, hr⟩
  rw [ofItems_rows] at hmem
  exact Node.isRow_iff.mp (List.mem_filter.mp hmem).2

/-! ## Placed groups -/

/-- The groups of a table with their rows numbered and their cells placed. -/
def placed (items : List Node) : List Block :=
  (placeAll 0 (ofItems items).2).1

end Block

namespace Node

theorem length_placeRows (first count probe : Nat) (rows : List (List Extent)) :
    ∀ (row : Nat) (o : Occupancy),
      (Bracemark.placeRows first count probe row o rows).1.length = rows.length := by
  induction rows with
  | nil => exact fun _ _ => rfl
  | cons cells rows ih =>
    intro row o
    rw [Bracemark.placeRows]
    simp only [List.length_cons, ih]

/-- Placing gives boxes to the cells of a row and leaves the row as it is otherwise. -/
theorem exists_of_mem_placeRows {first : Nat} {rows : List Node} {r : Node}
    (hr : r ∈ (placeRows first rows).1) :
    ∃ r' ∈ rows, ∃ boxes, r = r'.withChildren (withBoxes r'.children boxes) := by
  obtain ⟨i, hi⟩ := List.mem_iff_getElem?.mp hr
  obtain ⟨r', boxes, hr', -, heq⟩ := List.getElem?_zipWith_eq_some.mp hi
  exact ⟨r', List.mem_of_getElem? hr', boxes, heq.symm⟩

end Node

namespace Block

theorem exists_of_mem_placeAll {blocks : List Block} :
    ∀ {first : Nat} {b : Block} {r : Node}, b ∈ (placeAll first blocks).1 → r ∈ b.rows →
      ∃ r' ∈ allRows blocks, ∃ boxes, r = r'.withChildren (Node.withBoxes r'.children boxes) := by
  induction blocks with
  | nil =>
    intro first b r hb
    cases hb
  | cons b' bs ih =>
    intro first b r hb hr
    rw [allRows_cons]
    rcases List.mem_cons.mp hb with rfl | hb
    · obtain ⟨r', hr', heq⟩ := Node.exists_of_mem_placeRows hr
      exact ⟨r', List.mem_append_left _ hr', heq⟩
    · obtain ⟨r', hr', heq⟩ := ih hb hr
      exact ⟨r', List.mem_append_right _ hr', heq⟩

/-- The rows of a table come from rows among its items, whose cells have been given boxes. -/
theorem exists_of_mem_placed {items : List Node} {b : Block} {r : Node} (hb : b ∈ placed items)
    (hr : r ∈ b.rows) : ∃ r' ∈ items, r'.kind = .row ∧
      ∃ boxes, r = r'.withChildren (Node.withBoxes r'.children boxes) := by
  obtain ⟨r', hr', hboxes⟩ := exists_of_mem_placeAll hb hr
  rw [ofItems_rows] at hr'
  obtain ⟨hitem, hrow⟩ := List.mem_filter.mp hr'
  exact ⟨r', hitem, Node.isRow_iff.mp hrow, hboxes⟩

/-! ## Sections -/

theorem map_withRoles (t : Table) (blocks : List Block) :
    (withRoles t blocks).map (·.2) = blocks := by
  refine List.ext_getElem? fun i => ?_
  rw [withRoles, List.getElem?_map, List.getElem?_mapIdx, Option.map_map]
  exact Option.map_id'

/-- A section is made of groups of the table. -/
theorem exists_of_mem_sectionOf {t : Table} {blocks : List Block} {role : Role} {c : Node}
    (hc : c ∈ sectionOf role (withRoles t blocks)) : ∃ groups : List Block,
      (∀ b ∈ groups, b ∈ blocks) ∧ c =
        .branch (Node.outerSpan (groups.map node)) (.tableSection role) (groups.map node) := by
  rw [sectionOf] at hc
  split at hc
  · cases hc
  · refine ⟨((withRoles t blocks).filter fun b => b.1 == role).map (·.2), fun b hb => ?_, ?_⟩
    · obtain ⟨rb, hrb, rfl⟩ := List.mem_map.mp hb
      rw [← map_withRoles t blocks]
      exact List.mem_map_of_mem (List.mem_of_mem_filter hrb)
    · rw [List.map_map]
      exact List.mem_singleton.mp hc

end Block

/-! ## Tables -/

/-- What a table is made of. -/
theorem Table.layout?_eq_some {t : Table} {span : Span} {items : List Node} {n : Node}
    (hn : t.layout? span items = some n) :
    ∃ laid : Table, n.kind = .table laid ∧
      laid.rows = (Block.placeAll 0 (Block.ofItems items).2).2.1 ∧ n.span = span ∧
      n.children = captionOf (items.filter Node.isCaption) ++
        [Role.head, .body, .foot].flatMap fun role =>
          Block.sectionOf role (Block.withRoles t (Block.placed items)) := by
  simp only [layout?] at hn
  split at hn
  · cases hn
  · cases hn
    refine ⟨_, rfl, rfl, rfl, ?_⟩
    rw [Node.branch, Node.children_mk, Block.ofItems_captions]
    rfl

end Bracemark
