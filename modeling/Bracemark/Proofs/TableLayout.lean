/-
Laying out a table loses no row and makes none.

The items of a table's body are cut into groups by break lines. Laying out leaves out the
groups without rows, numbers the rows and the cells, and sorts the groups into head, body and
foot. `Table.Arranged` says what comes of it, in terms of the items alone: which groups there
are, where each of them goes, and that each row keeps its cells and its turn.

A row is followed through this by what it is without the places of its cells (`unplacedRow`),
and a group by its settings with such rows (`Block.asWritten`), since placing is all that
changes them. Cells are numbered whatever they ask for: nothing here needs their boxes to fit.
-/
import Bracemark.Proofs.TableItems

set_option autoImplicit false

namespace Bracemark

/-! ## Rows without places -/

/-- A kind without the place that laying out a table gives a cell. -/
def Kind.unplaced : Kind → Kind
  | .cell c => .cell { c with box := .corner }
  | kind => kind

namespace Node

/-- A node without the place that laying out a table gives a cell. -/
def unplaced (n : Node) : Node :=
  n.withKind n.kind.unplaced

/-- A row without the places of its cells. -/
def unplacedRow (n : Node) : Node :=
  n.withChildren (n.children.map unplaced)

/-- Whether a node is a section of a table. -/
def isTableSection (n : Node) : Bool :=
  match n.kind with
  | .tableSection _ => true
  | _ => false

/-- The rows in the sections of a table, from first to last. -/
def tableRows (n : Node) : List Node :=
  ((n.children.filter isTableSection).flatMap children).flatMap children

@[simp] theorem unplaced_withKind (n : Node) (kind : Kind) :
    (n.withKind kind).unplaced = n.withKind kind.unplaced := rfl

@[simp] theorem unplacedRow_withChildren (n : Node) (ns : List Node) :
    (n.withChildren ns).unplacedRow = n.withChildren (ns.map unplaced) := rfl

end Node

/-! ## Groups as they are written -/

/-- What an item of a table's body says about its groups: a break line begins a group with
its settings, and a row stands in the group that has been begun last. -/
def Node.groupMark? (n : Node) : Option (RowGroup ⊕ Node) :=
  match n.kind with
  | .rowGroup g => some (.inl g)
  | .row => some (.inr n)
  | _ => none

namespace Block

/-- What the items of a group say: its settings, then its rows. -/
def marks (b : Block) : List (RowGroup ⊕ Node) :=
  .inl b.group :: b.rows.map .inr

/-- A group without what laying out adds: its settings, and rows without places. -/
def asWritten (b : Block) : Block :=
  ⟨{ b.group with firstRow := 0, rowCount := 0 }, b.rows.map Node.unplacedRow⟩

end Block

/-- Groups whose rows, counted, take the numbers from `first` on up to `last`, group after
group. -/
def Consecutive (first last : Nat) : List Block → Prop
  | [] => first = last
  | b :: bs =>
    b.group.firstRow = first ∧ b.group.rowCount = b.rows.length ∧ 0 < b.group.rowCount ∧
      Consecutive (first + b.group.rowCount) last bs

namespace Table

/-- The role of a group of rows that stands at `index` among `count` groups with rows: the one
that it names; else head among the first groups, as many as the table asks for; else foot
among the last ones; else body. -/
inductive GivesRole (t : Table) (count index : Nat) (g : RowGroup) : Role → Prop
  | named {role : Role} : g.role = some role → GivesRole t count index g role
  | head : g.role = none → index < t.head → GivesRole t count index g .head
  | foot : g.role = none → t.head ≤ index → count ≤ index + t.foot → GivesRole t count index g .foot
  | body : g.role = none → t.head ≤ index → index + t.foot < count → GivesRole t count index g .body

/-- The section of a table for a role is there if there are groups for it, which it holds in
order. -/
inductive IsSection (role : Role) : List Block → List Node → Prop
  | absent : IsSection role [] []
  | present {groups : List Block} {n : Node} :
    groups ≠ [] → n.kind = .tableSection role → n.children = groups.map Block.node →
    IsSection role groups [n]

/-- The caption of a table is there if there are captions among its items. It is made of what
is in all of them. -/
inductive IsCaption (items : List Node) : List Node → Prop
  | absent : (∀ n ∈ items, n.kind ≠ .caption) → IsCaption items []
  | present {c n : Node} (span : Span) :
    c ∈ items → c.kind = .caption → n.kind = .caption →
    n = (Node.branch span .caption
      ((items.filter Node.isCaption).flatMap Node.children)).assemble →
    IsCaption items [n]

/-- What a table is made of when `items` have been laid out for a table with the settings `t`.
Its groups are `groups`, in the order of the items, and `roles` are their roles. -/
structure Arranged (t : Table) (items : List Node) (made : Node) (laid : Table)
    (groups : List Block) (roles : List Role) : Prop where
  kind_eq : made.kind = .table laid
  rows_eq : laid.rows = (items.filter Node.isRow).length
  /-- Every row of the items stands in the sections once, with its cells as they were. -/
  perm : (made.tableRows.map Node.unplacedRow).Perm
    ((items.filter Node.isRow).map Node.unplacedRow)
  /-- The groups are those that the break lines cut the items into, without the empty ones. -/
  source : ∃ written : List Block,
    .inl .plain :: items.filterMap Node.groupMark? = written.flatMap Block.marks ∧
    groups.map Block.asWritten =
      (written.filter fun b => !b.rows.isEmpty).map Block.asWritten
  /-- The rows of the groups are the rows of the items in order. -/
  inOrder : (Block.allRows groups).map Node.unplacedRow =
    (items.filter Node.isRow).map Node.unplacedRow
  consecutive : Consecutive 0 laid.rows groups
  /-- The cells of a row carry the number of the row. -/
  numbered : ∀ (i : Nat) (row : Node), (Block.allRows groups)[i]? = some row →
    ∀ c ∈ row.cells, c.box.row = i
  roles_length : roles.length = groups.length
  roles_given : ∀ (i : Nat) (b : Block) (role : Role), groups[i]? = some b →
    roles[i]? = some role → t.GivesRole groups.length i b.group role
  children_eq : ∃ (caption : List Node) (sections : Role → List Node),
    made.children = caption ++ (sections .head ++ sections .body ++ sections .foot) ∧
    IsCaption items caption ∧
    ∀ role, IsSection role (((roles.zip groups).filter (·.1 == role)).map (·.2)) (sections role)

end Table

/-! ## Cells get the number of their row -/

theorem placeRow_boxes (first count probe row : Nat) (cells : List Extent) :
    ∀ (col : Nat) (o : Occupancy),
      (placeRow first count probe row col o cells).1.length = cells.length ∧
        ∀ b ∈ (placeRow first count probe row col o cells).1, b.row = first + row := by
  induction cells with
  | nil =>
    intro col o
    exact ⟨rfl, fun b hb => absurd hb List.not_mem_nil⟩
  | cons cell cells ih =>
    intro col o
    rw [placeRow]
    obtain ⟨hlength, hrow⟩ := ih _ _
    exact ⟨congrArg (· + 1) hlength, List.forall_mem_cons.mpr ⟨rfl, hrow⟩⟩

/-- The boxes of the rows of a group, row by row: one for each cell, in that row. -/
theorem placeRows_boxes (first count probe : Nat) (rows : List (List Extent)) :
    ∀ (row : Nat) (o : Occupancy) (i : Nat) (boxes : List Box),
      (placeRows first count probe row o rows).1[i]? = some boxes →
        ∃ cells, rows[i]? = some cells ∧ boxes.length = cells.length ∧
          ∀ b ∈ boxes, b.row = first + (row + i) := by
  induction rows with
  | nil =>
    intro row o i boxes h
    cases h
  | cons cells rows ih =>
    intro row o i boxes h
    rw [placeRows] at h
    obtain ⟨hlength, hrow⟩ := placeRow_boxes first count probe row cells 0 o
    cases i with
    | zero =>
      cases h
      exact ⟨cells, rfl, hlength, hrow⟩
    | succ i =>
      obtain ⟨cells', hcells, hlength', hrow'⟩ := ih _ _ i boxes h
      refine ⟨cells', hcells, hlength', fun b hb => ?_⟩
      rw [hrow' b hb]
      omega

namespace Node

/-- Giving boxes to the cells among some nodes changes nothing else about them. -/
theorem map_unplaced_withBoxes (ns : List Node) (boxes : List Box) :
    (withBoxes ns boxes).map unplaced = ns.map unplaced := by
  fun_induction withBoxes ns boxes with
  | case1 => rfl
  | case2 => rfl
  | case3 n ns box boxes c hkind ih =>
    rw [List.map_cons, List.map_cons, ih, unplaced_withKind, unplaced, hkind]
    rfl
  | case4 n ns box boxes _ ih => rw [List.map_cons, List.map_cons, ih]

/-! ## Placed rows -/

theorem map_unplacedRow_zipWith (rows : List Node) (boxes : List (List Box))
    (hlength : boxes.length = rows.length) :
    (rows.zipWith (fun row bs => row.withChildren (withBoxes row.children bs)) boxes).map
      unplacedRow = rows.map unplacedRow := by
  induction rows generalizing boxes with
  | nil => rfl
  | cons r rows ih =>
    cases boxes with
    | nil => cases hlength
    | cons bs boxes =>
      rw [List.zipWith_cons_cons, List.map_cons, List.map_cons, ih boxes (by simpa using hlength),
        unplacedRow_withChildren, map_unplaced_withBoxes]
      rfl

/-- Placing the cells of some rows changes nothing but their places. -/
theorem map_unplacedRow_placeRows (first : Nat) (rows : List Node) :
    (placeRows first rows).1.map unplacedRow = rows.map unplacedRow := by
  refine map_unplacedRow_zipWith rows (place first (rows.map fun row => row.cells.map (·.asked))).1
    ?_
  rw [place, length_placeRows, List.length_map]

theorem length_placedRows (first : Nat) (rows : List Node) :
    (placeRows first rows).1.length = rows.length := by
  have hlength := congrArg List.length (map_unplacedRow_placeRows first rows)
  rwa [List.length_map, List.length_map] at hlength

/-- The cells of the row at `i` in a group that begins with row `first` carry the number of
their row in the table. -/
theorem numbered_placeRows (first : Nat) (rows : List Node) {i : Nat} {row : Node}
    (h : (placeRows first rows).1[i]? = some row) : ∀ c ∈ row.cells, c.box.row = first + i := by
  intro c hc
  obtain ⟨r, boxes, hr, hboxes, rfl⟩ := List.getElem?_zipWith_eq_some.mp h
  obtain ⟨cells, hcells, hlength, hrow⟩ := placeRows_boxes first _ _ _ 0 _ i boxes hboxes
  rw [List.getElem?_map, hr, Option.map_some, Option.some_inj] at hcells
  subst hcells
  have hall := boxes_withBoxes r.children boxes (by rw [hlength, List.length_map]; rfl)
  have hbox : c.box ∈ boxes := by
    rw [← hall]
    exact List.mem_map_of_mem hc
  rw [hrow c.box hbox, Nat.zero_add]

end Node

/-! ## Placed groups -/

namespace Block

theorem collect_marks (group : RowGroup) (rows items : List Node) :
    .inl group :: (rows.reverse.map .inr ++ items.filterMap Node.groupMark?) =
      (collect group rows items).2.flatMap marks := by
  fun_induction collect group rows items with
  | case1 group rows => simp [marks]
  | case2 group rows n ns hkind captions blocks hcollect ih =>
    rw [hcollect] at ih
    rw [List.filterMap_cons_none (by simp [Node.groupMark?, hkind]), ih]
  | case3 group rows n ns next hkind captions blocks hcollect ih =>
    rw [hcollect] at ih
    have hmark : n.groupMark? = some (.inl next) := by simp [Node.groupMark?, hkind]
    rw [List.filterMap_cons_some hmark, List.flatMap_cons, ← ih]
    rfl
  | case4 group rows n ns hkind ih =>
    have hmark : n.groupMark? = some (.inr n) := by simp [Node.groupMark?, hkind]
    rw [List.filterMap_cons_some hmark, ← ih, List.reverse_cons, List.map_append,
      List.append_assoc]
    rfl
  | case5 group rows n ns _ hgroup hrow ih =>
    have hmark : n.groupMark? = none := by
      unfold Node.groupMark?
      split
      · next g hkind => exact absurd hkind (hgroup g)
      · next hkind => exact absurd hkind hrow
      · rfl
    rw [List.filterMap_cons_none hmark, ih]

/-- Placing changes nothing of a group but what placing adds. -/
theorem map_asWritten_placeAll (blocks : List Block) :
    ∀ first : Nat, (placeAll first blocks).1.map asWritten = blocks.map asWritten := by
  induction blocks with
  | nil => exact fun _ => rfl
  | cons b bs ih =>
    intro first
    rw [placeAll, List.map_cons, List.map_cons, ih]
    congr 1
    simp only [asWritten, Node.map_unplacedRow_placeRows]

theorem allRows_asWritten (blocks : List Block) :
    allRows (blocks.map asWritten) = (allRows blocks).map Node.unplacedRow := by
  induction blocks with
  | nil => rfl
  | cons b bs ih => rw [List.map_cons, allRows_cons, allRows_cons, ih, List.map_append, asWritten]

/-- The rows of the placed groups are the rows among the items. -/
theorem map_unplacedRow_placed (items : List Node) :
    (allRows (placed items)).map Node.unplacedRow =
      (items.filter Node.isRow).map Node.unplacedRow := by
  rw [← ofItems_rows, ← allRows_asWritten, ← allRows_asWritten, placed, map_asWritten_placeAll]

/-- The groups with rows take the numbers of the rows among themselves. -/
theorem consecutive_placeAll (blocks : List Block) (h : ∀ b ∈ blocks, b.rows ≠ []) :
    ∀ first : Nat, Consecutive first (placeAll first blocks).2.1 (placeAll first blocks).1 := by
  induction blocks with
  | nil => exact fun _ => rfl
  | cons b bs ih =>
    intro first
    obtain ⟨hb, hbs⟩ := List.forall_mem_cons.mp h
    have hlength := Node.length_placedRows first b.rows
    exact ⟨rfl, hlength.symm, List.length_pos_iff.mpr hb, ih hbs _⟩

theorem count_placeAll (blocks : List Block) :
    ∀ first : Nat, (placeAll first blocks).2.1 = first + (allRows blocks).length := by
  induction blocks with
  | nil => exact fun _ => rfl
  | cons b bs ih =>
    intro first
    rw [placeAll, ih, allRows_cons, List.length_append, Nat.add_assoc]

/-- The cells of a row carry its number among the rows of all groups. -/
theorem numbered_placeAll (blocks : List Block) :
    ∀ (first i : Nat) (row : Node), (allRows (placeAll first blocks).1)[i]? = some row →
      ∀ c ∈ row.cells, c.box.row = first + i := by
  induction blocks with
  | nil =>
    intro first i row h
    cases h
  | cons b bs ih =>
    intro first i row h
    have hrows : allRows (placeAll first (b :: bs)).1 =
        (Node.placeRows first b.rows).1 ++ allRows (placeAll (first + b.rows.length) bs).1 := rfl
    have hlength := Node.length_placedRows first b.rows
    rw [hrows] at h
    by_cases hi : i < b.rows.length
    · rw [List.getElem?_append_left (by omega)] at h
      exact Node.numbered_placeRows first b.rows h
    · rw [List.getElem?_append_right (by omega)] at h
      intro c hc
      rw [ih _ _ row h c hc]
      omega

/-! ## Sections -/

/-- The roles of the groups of a table. -/
def roles (t : Table) (blocks : List Block) : List Role :=
  (withRoles t blocks).map (·.1)

theorem length_roles (t : Table) (blocks : List Block) :
    (roles t blocks).length = blocks.length := by
  rw [roles, withRoles, List.length_map, List.length_mapIdx]

theorem roles_zip (t : Table) (blocks : List Block) :
    (roles t blocks).zip blocks = withRoles t blocks :=
  (List.zip_of_prod rfl (map_withRoles t blocks)).symm

theorem getElem?_roles (t : Table) (blocks : List Block) (i : Nat) :
    (roles t blocks)[i]? =
      blocks[i]?.map fun b => b.group.role.getD (t.roleAt i blocks.length) := by
  rw [roles, withRoles, List.getElem?_map, List.getElem?_mapIdx, Option.map_map]
  rfl

end Block

namespace Table

theorem givesRole_getD (t : Table) (count index : Nat) (g : RowGroup) :
    t.GivesRole count index g (g.role.getD (t.roleAt index count)) := by
  cases hrole : g.role with
  | some role => exact .named hrole
  | none =>
    rw [Option.getD_none, roleAt]
    by_cases hhead : index < t.head
    · rw [if_pos hhead]
      exact .head hrole hhead
    · rw [if_neg hhead]
      by_cases hfoot : count ≤ index + t.foot
      · rw [if_pos hfoot]
        exact .foot hrole (by omega) hfoot
      · rw [if_neg hfoot]
        exact .body hrole (by omega) (by omega)

end Table

namespace Block

theorem isSection_sectionOf (role : Role) (blocks : List (Role × Block)) :
    Table.IsSection role ((blocks.filter (·.1 == role)).map (·.2)) (sectionOf role blocks) := by
  rw [sectionOf]
  by_cases hnone : blocks.filter (·.1 == role) = []
  · rw [hnone]
    exact .absent
  · rw [if_neg (by simpa using hnone)]
    refine .present (by simpa using hnone) rfl ?_
    rw [Node.branch, Node.children_mk, List.map_map]
    rfl

/-- The rows in a section are those of its groups. -/
theorem rows_of_isSection {role : Role} {groups : List Block} {ns : List Node}
    (h : Table.IsSection role groups ns) :
    ((ns.filter Node.isTableSection).flatMap Node.children).flatMap Node.children =
      allRows groups := by
  cases h with
  | absent => rfl
  | present _ hkind hchildren =>
    rw [List.filter_cons_of_pos (by simp [Node.isTableSection, hkind]), List.filter_nil,
      List.flatMap_singleton, hchildren, List.flatMap_map]
    rfl

/-- Sorting the groups into the three sections loses none and doubles none. -/
theorem perm_byRole (blocks : List (Role × Block)) :
    (((blocks.filter (·.1 == .head)) ++ (blocks.filter (·.1 == .body)) ++
      (blocks.filter (·.1 == .foot))).map (·.2)).Perm (blocks.map (·.2)) := by
  refine List.Perm.map _ ?_
  induction blocks with
  | nil => exact .nil
  | cons b bs ih =>
    obtain ⟨role, b⟩ := b
    cases role with
    | head => exact ih.cons _
    | body =>
      refine List.Perm.trans ?_ (ih.cons _)
      rw [List.append_assoc, List.append_assoc]
      exact List.perm_middle
    | foot => exact List.perm_middle.trans (ih.cons _)

end Block

/-! ## The table -/

namespace Table

theorem isCaption_captionOf (items : List Node) :
    IsCaption items (captionOf (items.filter Node.isCaption)) := by
  rw [captionOf]
  by_cases hnone : items.filter Node.isCaption = []
  · rw [hnone]
    refine .absent fun n hn hkind => ?_
    have hmem : n ∈ items.filter Node.isCaption :=
      List.mem_filter.mpr ⟨hn, Node.isCaption_iff.mpr hkind⟩
    rw [hnone] at hmem
    exact absurd hmem List.not_mem_nil
  · obtain ⟨c, hc⟩ := List.exists_mem_of_ne_nil _ hnone
    rw [if_neg (by simpa using hnone)]
    exact .present _ (List.mem_of_mem_filter hc)
      (Node.isCaption_iff.mp (List.mem_filter.mp hc).2) (Node.kind_assemble _) rfl

theorem filter_isTableSection_of_isCaption {items ns : List Node} (h : IsCaption items ns) :
    ns.filter Node.isTableSection = [] := by
  cases h with
  | absent => rfl
  | present _ _ _ hkind => exact List.filter_cons_of_neg (by simp [Node.isTableSection, hkind])

/-- The rows in the sections of a table are the rows of its groups in another order. -/
theorem tableRows_perm {items caption : List Node} {n : Node} {sections : Role → List Node}
    {blocks : List (Role × Block)}
    (hchildren : n.children =
      caption ++ (sections .head ++ sections .body ++ sections .foot))
    (hcaption : IsCaption items caption)
    (hsections : ∀ role, IsSection role ((blocks.filter (·.1 == role)).map (·.2)) (sections role)) :
    n.tableRows.Perm (Block.allRows (blocks.map (·.2))) := by
  have hrows : n.tableRows = Block.allRows ((blocks.filter (·.1 == .head) ++
      blocks.filter (·.1 == .body) ++ blocks.filter (·.1 == .foot)).map (·.2)) := by
    rw [Node.tableRows, hchildren]
    simp only [List.filter_append, List.flatMap_append, filter_isTableSection_of_isCaption hcaption,
      Block.rows_of_isSection (hsections _), List.nil_append, List.map_append,
      Block.allRows]
  rw [hrows]
  exact (Block.perm_byRole blocks).flatMap_right _

/-- **Laying out a table loses no row and makes none.** -/
theorem layout?_arranged {t : Table} {span : Span} {items : List Node} {n : Node}
    (hn : t.layout? span items = some n) :
    ∃ laid groups roles, t.Arranged items n laid groups roles := by
  obtain ⟨laid, hkind, hcount, -, hchildren⟩ := layout?_eq_some hn
  rw [List.flatMap_cons, List.flatMap_cons, List.flatMap_singleton, ← List.append_assoc
    (Block.sectionOf .head _)] at hchildren
  have hcaption := isCaption_captionOf items
  have hsections := fun role =>
    Block.isSection_sectionOf role (Block.withRoles t (Block.placed items))
  have hinOrder := Block.map_unplacedRow_placed items
  refine ⟨laid, Block.placed items, Block.roles t (Block.placed items), ?_⟩
  exact {
    kind_eq := hkind
    rows_eq := by rw [hcount, Block.count_placeAll, Block.ofItems_rows, Nat.zero_add]
    perm := by
      rw [← hinOrder, ← Block.map_withRoles t (Block.placed items)]
      exact (tableRows_perm hchildren hcaption hsections).map _
    source := ⟨_, Block.collect_marks .plain [] items, Block.map_asWritten_placeAll _ 0⟩
    inOrder := hinOrder
    consecutive := by
      rw [hcount]
      refine Block.consecutive_placeAll _ (fun b hb => ?_) 0
      simpa using (List.mem_filter.mp hb).2
    numbered := fun i row hrow c hc => by
      rw [Block.numbered_placeAll _ 0 i row hrow c hc, Nat.zero_add]
    roles_length := Block.length_roles t _
    roles_given := fun i b role hb hrole => by
      rw [Block.getElem?_roles, hb, Option.map_some, Option.some_inj] at hrole
      rw [← hrole]
      exact givesRole_getD t _ i b.group
    children_eq := by
      rw [Block.roles_zip]
      exact ⟨_, fun role => Block.sectionOf role _, hchildren, hcaption, hsections⟩ }

/-- A table that asks for one group of head and more groups of foot than there are. -/
def topAndBottom : Table :=
  ⟨.empty, 1, 5, true, 0, 0, .blank 0 0, ""⟩

/-- Rows in three groups with captions between them, an empty group among them, and a last
group that names its role. -/
def interleavedItems : List Node :=
  let cell (start : Nat) : Node :=
    .branch ⟨start, start + 1⟩ (.cell .plain) [.text ⟨start, start + 1⟩ "x"]
  let row (start width : Nat) : Node :=
    .branch ⟨start, start + 1⟩ .row (List.replicate width (cell start))
  let line (start : Nat) (role : Option Role) : Node :=
    .leaf ⟨start, start + 3⟩ (.rowGroup { RowGroup.plain with role := role })
  let caption (start : Nat) : Node :=
    .branch ⟨start, start + 11⟩ .caption [.text ⟨start + 9, start + 10⟩ "c"]
  [caption 0, row 12 2, line 14 none, line 18 none, row 22 1, .null 24, caption 25, row 37 3,
    line 39 (some .head), row 43 1]

theorem layout?_arranged_interleaved :
    ∃ n, topAndBottom.layout? ⟨0, 44⟩ interleavedItems = some n ∧
      ∃ laid groups roles, topAndBottom.Arranged interleavedItems n laid groups roles := by
  have hsome : (topAndBottom.layout? ⟨0, 44⟩ interleavedItems).isSome = true := by decide
  obtain ⟨n, hn⟩ := Option.isSome_iff_exists.mp hsome
  exact ⟨n, hn, layout?_arranged hn⟩

-- The named role puts the last group into the head, before the group that is above it.
example :
    (topAndBottom.layout? ⟨0, 44⟩ interleavedItems).map (fun n =>
      n.children.map fun c => (c.kind.label, c.children.map (·.span))) =
    some [("Caption", [⟨9, 35⟩]), ("TableSection", [⟨12, 13⟩, ⟨43, 44⟩]),
      ("TableSection", [⟨22, 38⟩])] := by
  decide

end Table

end Bracemark
