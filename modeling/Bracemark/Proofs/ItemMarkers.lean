/-
The markers of list items.

Each open list has the number of its current item, and the walk counts it up when it leaves an
item. So the marker of an item can be read off the tree along the path to it: every list on the
path shows its first number and one more for each item that has been left in it
(`Document.read_items_marked`). Where items are read in lists only, as with the standard
catalogue, that is the place of the item among the children of its list.

An item is counted by the innermost list around it, so what a node adds to the count of the list
around it are the items in the node that are in no list inside it, `Node.looseItems`. The walk over
a node goes on by as many items (`Node.lists_prepare`), and the induction on the path carries the
lists that have been opened on the way.
-/
import Bracemark.Proofs.DocumentShape
import Bracemark.Proofs.Walk

set_option autoImplicit false

namespace Bracemark

open Text

/-! ## Lists and items -/

namespace Kind

/-- The list that nodes of this kind are. -/
def list? : Kind → Option ItemList
  | .element ⟨_, _, .list l⟩ => some l
  | _ => none

/-- Whether nodes of this kind are items of lists. -/
def isItem : Kind → Bool
  | .element ⟨_, _, .item _⟩ => true
  | _ => false

/-- Whether nodes of this kind count up the variable that shows the current item. -/
def countsItems : Kind → Bool
  | .element ⟨_, _, .increment name⟩ => name == "list"
  | _ => false

theorem list?_eq_some_iff {k : Kind} {l : ItemList} :
    k.list? = some l ↔ ∃ e, k = .element e ∧ e.feature = .list l := by
  constructor
  · intro h
    unfold list? at h
    split at h
    · next name as l' =>
      cases h
      exact ⟨_, rfl, rfl⟩
    · cases h
  · rintro ⟨⟨name, as, feature⟩, rfl, rfl⟩
    rfl

theorem isItem_iff {k : Kind} : k.isItem = true ↔ ∃ e i, k = .element e ∧ e.feature = .item i := by
  constructor
  · intro h
    unfold isItem at h
    split at h
    · next name as i => exact ⟨_, i, rfl, rfl⟩
    · cases h
  · rintro ⟨⟨name, as, feature⟩, i, rfl, rfl⟩
    rfl

theorem list?_of_isItem {k : Kind} (h : k.isItem = true) : k.list? = none := by
  obtain ⟨⟨name, as, feature⟩, i, rfl, rfl⟩ := isItem_iff.mp h
  rfl

theorem isItem_of_list? {k : Kind} {l : ItemList} (h : k.list? = some l) : k.isItem = false := by
  obtain ⟨⟨name, as, feature⟩, rfl, rfl⟩ := list?_eq_some_iff.mp h
  rfl

/-- How many items are in a node of this kind, itself included, that are in no list inside it, if
so many are in its children. -/
def looseItems (k : Kind) (inner : Nat) : Nat :=
  (if k.isItem then 1 else 0) + if k.list?.isSome then 0 else inner

theorem looseItems_of_list {k : Kind} {l : ItemList} (h : k.list? = some l) (inner : Nat) :
    k.looseItems inner = 0 := by
  rw [looseItems, isItem_of_list? h, h]
  rfl

theorem looseItems_of_no_list {k : Kind} (h : k.list? = none) (inner : Nat) :
    k.looseItems inner = (if k.isItem then 1 else 0) + inner := by
  rw [looseItems, h]
  rfl

end Kind

namespace Node

mutual

/-- How many items are in a node, itself included, that are in no list inside it. -/
def looseItems : Node → Nat
  | .mk _ kind children _ => kind.looseItems (looseItemsAll children)

/-- How many items are in some nodes that are in no list inside them. -/
def looseItemsAll : List Node → Nat
  | [] => 0
  | n :: ns => n.looseItems + looseItemsAll ns

end

theorem looseItems_eq (n : Node) : n.looseItems = n.kind.looseItems (looseItemsAll n.children) := by
  cases n
  rw [looseItems]
  rfl

/-! ## Paths -/

/-- The node that a path leads to; the path says of each node on it which of its children comes
next. -/
def at? (n : Node) : List Nat → Option Node
  | [] => some n
  | i :: path => n.children[i]?.bind fun c => c.at? path

/-- How many items inside a node, and in no list inside it, end before the node that a path leads
to begins. -/
def leftBefore (n : Node) : List Nat → Nat
  | [] => 0
  | i :: path =>
    looseItemsAll (n.children.take i) +
      match n.children[i]? with
      | none => 0
      | some c => if c.kind.list?.isSome then 0 else c.leftBefore path

/-- A list on a path. -/
structure ListOnPath where
  list : ItemList
  /-- Which child of the list comes next on the path. -/
  index : Nat
  /-- How many items of the list end before the node that the path leads to begins. -/
  left : Nat
deriving DecidableEq, Repr

/-- The lists around the node that a path leads to, outermost first. -/
def listsOn (n : Node) : List Nat → List ListOnPath
  | [] => []
  | i :: path =>
    (n.kind.list?.map fun l => ⟨l, i, n.leftBefore (i :: path)⟩).toList ++
      match n.children[i]? with
      | none => []
      | some c => c.listsOn path

variable {n c : Node} {i : Nat} {path : List Nat}

theorem leftBefore_cons (h : n.children[i]? = some c) : n.leftBefore (i :: path) =
    looseItemsAll (n.children.take i) + if c.kind.list?.isSome then 0 else c.leftBefore path := by
  rw [leftBefore, h]

theorem listsOn_cons (h : n.children[i]? = some c) : n.listsOn (i :: path) =
    (n.kind.list?.map fun l => ⟨l, i, n.leftBefore (i :: path)⟩).toList ++ c.listsOn path := by
  rw [listsOn, h]

/-- A list on a path is the node at which the path begins, or is on the rest of the path. -/
theorem mem_listsOn_cons (h : n.children[i]? = some c) {o : ListOnPath} :
    o ∈ n.listsOn (i :: path) ↔
      (∃ l, n.kind.list? = some l ∧ ⟨l, i, n.leftBefore (i :: path)⟩ = o) ∨ o ∈ c.listsOn path := by
  rw [listsOn_cons h, List.mem_append, Option.mem_toList, Option.map_eq_some_iff]

end Node

/-! ## Counting -/

/-- Counting goes on from any number until the largest is reached. -/
theorem nextNumber_iterate {n : Int} (hn : n ≤ maxNumber) (count : Nat) :
    nextNumber^[count] n = min (n + count) maxNumber := by
  induction count with
  | zero =>
    show n = min (n + 0) maxNumber
    rw [Int.add_zero, min_eq_left hn]
  | succ count ih => rw [Function.iterate_succ_apply', ih, nextNumber_min]

namespace Lists

theorem advance_iterate_enter (l : Lists) (style : Style) (number : Int) (count : Nat) :
    advance^[count] (l.enter style number) = l.enter style (nextNumber^[count] number) := by
  induction count with
  | zero => rfl
  | succ count ih =>
    rw [Function.iterate_succ_apply', ih, Function.iterate_succ_apply']
    rfl

theorem advance_iterate_start (count : Nat) : advance^[count] start = start :=
  Function.iterate_fixed rfl count

theorem leave?_eq_some {l m : Lists} (h : l.leave? = some m) : m = ⟨l.opened.tail⟩ := by
  obtain ⟨_ | ⟨top, outer⟩⟩ := l
  · cases h
  · cases h
    rfl

/-- The lists inside a node. -/
def inside (l : Lists) (k : Kind) : Lists :=
  match k.list? with
  | none => l
  | some list => l.enter list.style list.start

/-- The lists after a node. -/
def after (l : Lists) (k : Kind) : Lists :=
  if k.isItem then l.advance else if k.list?.isSome then ⟨l.opened.tail⟩ else l

/-- What is counted inside a list is forgotten with it; what is counted inside any other node
stays. -/
theorem after_inside (l : Lists) (k : Kind) (count : Nat) :
    (advance^[count] (l.inside k)).after k = advance^[k.looseItems count] l := by
  cases hlist : k.list? with
  | some list =>
    rw [Kind.looseItems_of_list hlist, inside, hlist, advance_iterate_enter, after,
      Kind.isItem_of_list? hlist, hlist]
    rfl
  | none =>
    rw [Kind.looseItems_of_no_list hlist, inside, hlist, after, hlist]
    cases k.isItem with
    | true => exact (Function.iterate_add_apply advance 1 count l).symm
    | false =>
      show advance^[count] l = advance^[0 + count] l
      rw [Nat.zero_add]

end Lists

/-! ## One step of the walk -/

variable {c d e : Context} {k : Kind} {children : List Node}

theorem CounterName.ofName?_eq_lists_iff {name : String} :
    ofName? name = some .lists ↔ name = "list" := by
  constructor
  · intro h
    unfold ofName? at h
    split at h
    · cases h
    · cases h
    · cases h
    · rfl
    · cases h
  · rintro rfl
    rfl

theorem Context.lists_assign (c : Context) (name value : String) :
    (c.assign name value).numbering.lists = c.numbering.lists := by
  unfold assign
  split <;> rfl

/-- Counting up anything else does not change the numbers of items. -/
theorem Context.lists_increment (c : Context) {name : String} (h : name ≠ "list") :
    (c.increment name).numbering.lists = c.numbering.lists := by
  unfold increment
  split
  · rfl
  · rfl
  · rfl
  · next hname => exact absurd (CounterName.ofName?_eq_lists_iff.mp hname) h
  · rfl

/-- Coming to a node opens the list that it is. -/
theorem Kind.lists_enter (c : Context) (children : List Node) (h : k.countsItems = false) :
    (k.enter c children).2.numbering.lists = c.numbering.lists.inside k := by
  cases k with
  | element e =>
    obtain ⟨name, as, feature⟩ := e
    cases feature with
    | assign name => exact c.lists_assign name _
    | increment name => exact c.lists_increment (by simpa [countsItems] using h)
    | _ => rfl
  | _ => rfl

/-- Leaving a node goes on to the next item after an item, and closes the list that it is. -/
theorem Kind.lists_leave (h : (k.enter c children).1.leave d = .ok e) :
    e.numbering.lists = d.numbering.lists.after k := by
  cases k with
  | element x =>
    obtain ⟨name, as, feature⟩ := x
    cases feature with
    | division start =>
      obtain ⟨sections, -, rfl⟩ := Feature.leave_division start h
      rfl
    | list l =>
      obtain ⟨lists, hlists, rfl⟩ := Feature.leave_list l h
      exact Lists.leave?_eq_some hlists
    | _ =>
      cases h
      rfl
  | _ =>
    cases h
    rfl

/-! ## The walk -/

namespace Node

/-- Nothing in the tree counts up the variable that shows the current item. -/
def LeavesItems (n : Node) : Prop :=
  n.EveryKind fun k => k.countsItems = false

mutual

/-- **The walk over a node** goes on by the items in it that the list around it has. -/
theorem lists_prepare {c d : Context} : ∀ {n m : Node}, n.LeavesItems →
    n.prepare c = .ok (m, d) → d.numbering.lists = Lists.advance^[n.looseItems] c.numbering.lists
  | .mk span k children l, m, hn, h => by
    obtain ⟨ns, e, hns, rfl, hpasses⟩ := prepare_mk h
    have hinside : e.numbering.lists =
        Lists.advance^[looseItemsAll children] (c.numbering.lists.inside k) := by
      rw [lists_prepareAll hn.children hns]
      exact congrArg _ (Kind.lists_enter c children hn.kind)
    have hleave := Kind.lists_leave hpasses.leave
    have hafter : d.numbering.lists = e.numbering.lists.after k := hleave
    rw [hafter, hinside, Lists.after_inside, looseItems]

theorem lists_prepareAll {c d : Context} : ∀ {ns ms : List Node},
    (∀ n ∈ ns, n.LeavesItems) → prepareAll c ns = .ok (ms, d) →
      d.numbering.lists = Lists.advance^[looseItemsAll ns] c.numbering.lists
  | [], ms, _, h => by
    cases h
    rfl
  | n :: ns, ms, hns, h => by
    obtain ⟨m, ms', e, hn, hrest, rfl, -⟩ := prepareAll_cons h
    obtain ⟨hleaves, hns⟩ := List.forall_mem_cons.mp hns
    rw [lists_prepareAll hns hrest, lists_prepare hleaves hn, ← Function.iterate_add_apply,
      Nat.add_comm]
    rfl

end

/-- How the walk comes to one of some nodes. -/
theorem prepareAll_getElem? {n : Node} : ∀ {ns ms : List Node} {c d : Context} {i : Nat},
    (∀ n ∈ ns, n.LeavesItems) → prepareAll c ns = .ok (ms, d) → ns[i]? = some n →
      ∃ c' m d', n.prepare c' = .ok (m, d') ∧ ms[i]? = some m ∧ c'.settings = c.settings ∧
        c'.numbering.lists = Lists.advance^[looseItemsAll (ns.take i)] c.numbering.lists
  | [], ms, c, d, i, _, _, hi => by cases hi
  | n' :: ns, ms, c, d, 0, _, h, hi => by
    cases hi
    obtain ⟨m, ms', e, hn, -, rfl, -⟩ := prepareAll_cons h
    exact ⟨c, m, e, hn, rfl, rfl, rfl⟩
  | n' :: ns, ms, c, d, i + 1, hns, h, hi => by
    obtain ⟨m, ms', e, hn, hrest, rfl, hrestored⟩ := prepareAll_cons h
    obtain ⟨hleaves, hns⟩ := List.forall_mem_cons.mp hns
    obtain ⟨c', m', d', hprepare, hmem, hsettings, hlists⟩ := prepareAll_getElem? hns hrest hi
    refine ⟨c', m', d', hprepare, hmem, hsettings.trans hrestored.settings, ?_⟩
    rw [hlists, lists_prepare hleaves hn, ← Function.iterate_add_apply, Nat.add_comm]
    rfl

/-- A list on a path as the walk has it when it comes to the end of the path. -/
def ListOnPath.opened (o : ListOnPath) : OpenList :=
  ⟨nextNumber^[o.left] o.list.start, o.list.style⟩

/-- **How the walk comes to the end of a path**: the lists on the path are open, each with as many
items left as there are before the end of the path. -/
theorem prepare_at? : ∀ (path : List Nat) {n t m : Node} {c d : Context}, n.LeavesItems →
    n.prepare c = .ok (m, d) → n.at? path = some t →
      ∃ c' t', m.at? path = some t' ∧ t'.kind = (t.kind.enter c' t.children).1 ∧
        c'.settings = c.settings ∧ c'.numbering.lists.opened =
          ((n.listsOn path).map ListOnPath.opened).reverse ++
            (Lists.advance^[if n.kind.list?.isSome then 0 else n.leftBefore path]
              c.numbering.lists).opened
  | [], .mk span k children l, t, m, c, d, _, h, ht => by
    cases ht
    obtain ⟨ns, e, -, rfl, -⟩ := prepare_mk h
    refine ⟨c, _, rfl, rfl, rfl, ?_⟩
    rw [leftBefore, ite_self]
    rfl
  | i :: path, .mk span k children l, t, m, c, d, hn, h, ht => by
    obtain ⟨ns, e, hns, rfl, hpasses⟩ := prepare_mk h
    obtain ⟨child, hchild, ht⟩ := Option.bind_eq_some_iff.mp ht
    obtain ⟨b, m', b', hprepare, hmem, hsettings, hlists⟩ :=
      prepareAll_getElem? hn.children hns hchild
    obtain ⟨c', t', hat, hkind, hsettings', hopened⟩ := prepare_at? path
      (hn.children child (List.mem_of_getElem? hchild)) hprepare ht
    have hinside : (c.inside k children).numbering.lists = c.numbering.lists.inside k :=
      Kind.lists_enter c children hn.kind
    -- What the list around the child has left before it and in it comes together.
    rw [hlists, hinside, ← Function.iterate_add_apply, Nat.add_comm,
      ← leftBefore_cons (n := .mk span k children l) hchild] at hopened
    refine ⟨c', t', ?_, hkind, ?_, ?_⟩
    · rw [at?, children_mk, hmem]
      exact hat
    · exact hsettings'.trans (hsettings.trans (Kind.settings_enter c children k))
    · rw [hopened, listsOn_cons (n := .mk span k children l) hchild, kind_mk, Lists.inside]
      cases k.list? with
      | none => rfl
      | some list =>
        rw [Lists.advance_iterate_enter, List.map_append, List.reverse_append, List.append_assoc]
        rfl

end Node

/-! ## Items in lists -/

namespace Node

variable {n c : Node} {ns : List Node} {i : Nat}

/-- None of the nodes has an item outside the lists in it. -/
def NoneLoose (ns : List Node) : Prop :=
  ∀ n ∈ ns, n.looseItems = 0

theorem looseItemsAll_eq_zero_iff : looseItemsAll ns = 0 ↔ NoneLoose ns := by
  induction ns with
  | nil => exact iff_of_true rfl (List.forall_mem_nil _)
  | cons n ns ih => rw [looseItemsAll, Nat.add_eq_zero_iff, ih, NoneLoose, NoneLoose,
      List.forall_mem_cons]

/-- A node that is no item has no items outside the lists in it if it is a list, or if the nodes
in it have none. -/
theorem looseItems_eq_zero (hitem : n.kind.isItem = false)
    (h : n.kind.list? = none → NoneLoose n.children) : n.looseItems = 0 := by
  rw [looseItems_eq]
  cases hlist : n.kind.list? with
  | some l => exact Kind.looseItems_of_list hlist _
  | none =>
    rw [Kind.looseItems_of_no_list hlist, hitem, looseItemsAll_eq_zero_iff.mpr (h hlist)]
    rfl

theorem noneLoose_children (h : n.looseItems = 0) (hlist : n.kind.list? = none) :
    NoneLoose n.children := by
  rw [looseItems_eq, Kind.looseItems_of_no_list hlist, Nat.add_eq_zero_iff] at h
  exact looseItemsAll_eq_zero_iff.mp h.2

theorem transparent_looseItems : Transparent fun n => n.looseItems = 0 := by
  intro n hn
  have hitem : n.kind.isItem = false := Bool.eq_false_iff.mpr fun hitem => by
    obtain ⟨e, i, hkind, -⟩ := Kind.isItem_iff.mp hitem
    exact hn e hkind
  have hlist : n.kind.list? = none := Option.eq_none_iff_forall_not_mem.mpr fun l hl => by
    obtain ⟨e, hkind, -⟩ := Kind.list?_eq_some_iff.mp hl
    exact hn e hkind
  exact ⟨fun h => noneLoose_children h hlist, fun h => looseItems_eq_zero hitem fun _ => h⟩

/-- An item with no other items in it outside the lists in it. -/
structure SoleItem (n : Node) : Prop where
  item : n.kind.isItem = true
  children : NoneLoose n.children

theorem SoleItem.looseItems (h : n.SoleItem) : n.looseItems = 1 := by
  rw [looseItems_eq, Kind.looseItems_of_no_list (Kind.list?_of_isItem h.item), h.item,
    looseItemsAll_eq_zero_iff.mpr h.children]
  rfl

/-- A list has items in it, and those have other items only in lists of their own. -/
def HoldsItems (n : Node) : Prop :=
  n.kind.list?.isSome = true → ∀ c ∈ n.children, c.SoleItem

theorem looseItemsAll_take (h : ∀ c ∈ ns, c.SoleItem) (hi : i ≤ ns.length) :
    looseItemsAll (ns.take i) = i := by
  induction ns generalizing i with
  | nil =>
    rw [Nat.le_zero.mp hi]
    rfl
  | cons n ns ih =>
    obtain ⟨hn, hns⟩ := List.forall_mem_cons.mp h
    cases i with
    | zero => rfl
    | succ i =>
      rw [List.take_succ_cons, looseItemsAll, hn.looseItems, ih hns (Nat.le_of_succ_le_succ hi),
        Nat.add_comm]

theorem leftBefore_eq_zero (path : List Nat) :
    ∀ {n : Node}, NoneLoose n.children → n.leftBefore path = 0 := by
  induction path with
  | nil => exact fun _ => rfl
  | cons i path ih =>
    intro n h
    have htake : looseItemsAll (n.children.take i) = 0 :=
      looseItemsAll_eq_zero_iff.mpr fun c hc => h c (List.mem_of_mem_take hc)
    cases hchild : n.children[i]? with
    | none =>
      rw [leftBefore, hchild, htake]
      rfl
    | some c =>
      rw [leftBefore_cons hchild, htake, Nat.zero_add]
      cases hlist : c.kind.list? with
      | some l => rfl
      | none => exact ih (noneLoose_children (h c (List.mem_of_getElem? hchild)) hlist)

/-- Where lists have items in them, as many items of a list are left as stand before the child on
the path. -/
theorem left_eq_index (path : List Nat) : ∀ {n t : Node}, n.Every HoldsItems →
    n.at? path = some t → ∀ o ∈ n.listsOn path, o.left = o.index := by
  induction path with
  | nil =>
    intro n t _ _ o ho
    cases ho
  | cons i path ih =>
    intro n t hn ht o ho
    obtain ⟨c, hchild, ht⟩ := Option.bind_eq_some_iff.mp ht
    obtain ⟨hholds, hchildren⟩ := every_iff.mp hn
    rcases (mem_listsOn_cons hchild).mp ho with ⟨l, hlist, rfl⟩ | ho
    · have hitems := hholds (Option.isSome_iff_exists.mpr ⟨l, hlist⟩)
      have hlength : i ≤ n.children.length := by
        obtain ⟨hlt, -⟩ := List.getElem?_eq_some_iff.mp hchild
        exact hlt.le
      have hc := hitems c (List.mem_of_getElem? hchild)
      show n.leftBefore (i :: path) = i
      rw [leftBefore_cons hchild, looseItemsAll_take hitems hlength,
        leftBefore_eq_zero path hc.children, ite_self, Nat.add_zero]
    · exact ih (hchildren c (List.mem_of_getElem? hchild)) ht o ho

/-- Where items are in lists only, there is a list around each of them. -/
theorem listsOn_ne_nil (path : List Nat) : ∀ {n t : Node}, n.looseItems = 0 →
    n.at? path = some t → t.kind.isItem = true → n.listsOn path ≠ [] := by
  induction path with
  | nil =>
    intro n t hn ht hitem
    cases ht
    rw [looseItems_eq, Kind.looseItems_of_no_list (Kind.list?_of_isItem hitem), hitem,
      Nat.add_eq_zero_iff] at hn
    cases hn.1
  | cons i path ih =>
    intro n t hn ht hitem
    obtain ⟨c, hchild, ht⟩ := Option.bind_eq_some_iff.mp ht
    rw [listsOn_cons hchild]
    cases hlist : n.kind.list? with
    | none => exact ih (noneLoose_children hn hlist c (List.mem_of_getElem? hchild)) ht hitem
    | some l => exact List.cons_ne_nil _ _

end Node

/-! ## Items that are read in lists only -/

open Node

/-- Whether items may be read as a slot. -/
def Slot.allowsItem : Slot → Bool
  | .element .item | .content .list => true
  | _ => false

/-- Items are in lists only, except that the node may be one where the slot allows it. -/
structure InLists (slot : Slot) (n : Node) : Prop where
  children : n.kind.list? = none → NoneLoose n.children
  item : n.kind.isItem = true → slot.allowsItem = true

theorem InLists.looseItems {slot : Slot} {n : Node} (h : InLists slot n)
    (hslot : slot.allowsItem = false) : n.looseItems = 0 := by
  refine looseItems_eq_zero (Bool.eq_false_iff.mpr fun hitem => ?_) h.children
  rw [h.item hitem] at hslot
  cases hslot

theorem inLists_of_looseItems {slot : Slot} {n : Node} (h : n.looseItems = 0) :
    InLists slot n := by
  refine ⟨noneLoose_children h, fun hitem => ?_⟩
  exact absurd rfl (listsOn_ne_nil [] h rfl hitem)

theorem Slot.allowsItem_element {form : Form} (h : form ≠ .item) :
    (Slot.element form).allowsItem = false := by
  cases form <;> first | rfl | exact absurd rfl h

theorem Slot.allowsItem_content {form : Form} (h : form ≠ .list) :
    (Slot.content form).allowsItem = false := by
  cases form <;> first | rfl | exact absurd rfl h

theorem exists_list_of_gives {k : Kind} (h : Form.list.Gives k) : ∃ l, k.list? = some l := by
  cases k with
  | element e =>
    obtain ⟨name, as, feature⟩ := e
    cases feature with
    | list l => exact ⟨l, rfl⟩
    | _ => cases h
  | _ => cases h

theorem eq_item_of_gives {form : Form} {k : Kind} (h : form.Gives k) (hitem : k.isItem = true) :
    form = .item := by
  obtain ⟨⟨name, as, feature⟩, i, rfl, rfl⟩ := Kind.isItem_iff.mp hitem
  exact h.symm

section

variable {forms : Catalog} (hforms : Form.item ∉ forms)
include hforms

/-- **Where items are not recognised by themselves, they are in lists only.** -/
theorem Made.inLists {slot : Slot} {level : Nat} {n : Node} (h : Made forms slot level n) :
    InLists slot n := by
  have hkept := transparent_looseItems
  induction h with
  | text | assigned | code => exact inLists_of_looseItems (hkept.keptInAssembly.text _ _)
  | gap | blank | breakLine | blankRows => exact inLists_of_looseItems (hkept.leaf (by simp))
  | known hform _ _ ih =>
    have hitem : _ ≠ Form.item := fun h => hforms (h ▸ hform)
    exact inLists_of_looseItems (ih.looseItems (Slot.allowsItem_element hitem))
  | unknown _ _ _ _ ih =>
    exact inLists_of_looseItems
      (hkept.assemble (by simp [Node.branch]) fun n hn => (ih n hn).looseItems rfl)
  | @element level form header shape ns n _ hshape _ _ hn ih =>
    have hgives := Form.gives_node? hshape hn
    have hitem : n.kind.isItem = true → (Slot.element form).allowsItem = true := fun hitem => by
      rw [eq_item_of_gives hgives hitem]
      rfl
    by_cases hlist : form = .list
    · subst hlist
      obtain ⟨l, hl⟩ := exists_list_of_gives hgives
      refine ⟨fun hnone => ?_, hitem⟩
      rw [hnone] at hl
      cases hl
    · have hcontents := hkept.keptContent form fun n hn =>
        (ih n hn).looseItems (Slot.allowsItem_content hlist)
      cases shape with
      | element feature =>
        cases hn
        exact ⟨fun _ => hkept.keptInAssembly.assemble hcontents, hitem⟩
      | _ => exact inLists_of_looseItems (hkept.node? (fun _ h => by cases h) hcontents hn)
  | ofParts _ _ ih => exact inLists_of_looseItems (ih.looseItems rfl)
  | @item level n hitem ih => exact ⟨ih.children, fun _ => rfl⟩
  | get _ ih | caption _ ih | explicitCell _ ih => exact inLists_of_looseItems (ih.looseItems rfl)
  | row _ _ ih =>
    exact inLists_of_looseItems (hkept.branch (by simp) fun n hn => (ih n hn).looseItems rfl)
  | contentCell _ _ ih =>
    exact inLists_of_looseItems (hkept.cellNode _ _ fun n hn => (ih n hn).looseItems rfl)

/-- What is read in a list is an item or blank. -/
theorem Made.soleItem {level : Nat} {n : Node} (h : Made forms (.content .list) level n)
    (helement : n.element?.isSome = true) : n.SoleItem := by
  have hchildren := (h.inLists hforms).children
  cases h with
  | ofParts hparts _ => cases hparts
  | item hitem =>
    cases hitem with
    | element header _ hshape _ _ hn =>
      have hkind := Kind.isItem_iff.mpr (exists_item_of_gives (Form.gives_node? hshape hn))
      exact ⟨hkind, hchildren (Kind.list?_of_isItem hkind)⟩
  | blank span groups => cases helement

namespace Document

/-- Lists have items in them and nothing else, and there are no items elsewhere. -/
theorem holdsItems_read (source : String) :
    (read forms source).root.Every HoldsItems ∧ (read forms source).root.looseItems = 0 := by
  constructor
  · have hasks : AsksOfElements HoldsItems := fun n hn hlist => by
      obtain ⟨l, hl⟩ := Option.isSome_iff_exists.mp hlist
      obtain ⟨e, hkind, -⟩ := Kind.list?_eq_some_iff.mp hl
      exact absurd hkind (hn e)
    refine every_read hasks forms ?_ source
    intro form header feature level ns _ hfeature hns hlist
    obtain ⟨l, hl⟩ := Option.isSome_iff_exists.mp hlist
    rw [kind_assemble] at hl
    obtain ⟨e, hkind, hfeature'⟩ := Kind.list?_eq_some_iff.mp hl
    obtain rfl : _ = e := Kind.element.inj hkind
    obtain rfl : feature = _ := hfeature'
    obtain rfl : _ = form := Feature.form_of_ofForm? hfeature
    have hitems : ∀ c ∈ Form.list.keptContent ns, c.SoleItem := fun c hc => by
      obtain ⟨hc, helement⟩ := List.mem_filter.mp hc
      exact (hns c hc).soleItem hforms helement
    have hblocks : ∀ c ∈ Form.list.keptContent ns, c.isInline = false := fun c hc => by
      obtain ⟨e, i, hkind, hi⟩ := Kind.isItem_iff.mp (hitems c hc).item
      exact isInline_of_item hkind hi
    show ∀ c ∈ (Node.branch _ _ (Form.list.keptContent ns)).assemble.children, c.SoleItem
    rwa [assemble_list rfl hblocks]
  · obtain ⟨ns, hns, hroot⟩ := exists_made forms source
    rw [hroot]
    exact transparent_looseItems.assemble (by simp [Node.branch])
      fun n hn => ((hns n hn).inLists hforms).looseItems rfl

end Document

end

/-! ## First numbers -/

/-- The first number of a list is no larger than the largest number. -/
def Kind.StartsInRange (k : Kind) : Prop :=
  ∀ l, k.list? = some l → l.start ≤ maxNumber

theorem Arguments.number_le (as : Arguments) (name : String) (position : Option Nat) :
    (as.number name position).resolve 1 1 ≤ maxNumber := by
  unfold number
  cases as.get? name position with
  | none => exact one_le_maxNumber
  | some raw =>
    rw [Lookup.of]
    cases hread : readNumber? (trim raw) with
    | none => exact one_le_maxNumber
    | some n => exact le_maxNumber_of_isNumber (Option.filter_eq_some_iff.mp hread).2

theorem Document.startsInRange_read (forms : Catalog) (source : String) :
    (read forms source).root.EveryKind Kind.StartsInRange := by
  have hasks : Kind.AsksOfElements Kind.StartsInRange := fun k hk l hl => by
    obtain ⟨e, hkind, -⟩ := Kind.list?_eq_some_iff.mp hl
    exact absurd hkind (hk e)
  refine everyKind_read hasks ?_ forms source
  intro form name as feature _ hfeature l hl
  obtain ⟨e, hkind, hlist⟩ := Kind.list?_eq_some_iff.mp hl
  obtain rfl : _ = e := Kind.element.inj hkind
  obtain rfl : feature = _ := hlist
  obtain rfl : _ = form := Feature.form_of_ofForm? hfeature
  cases hfeature
  exact as.number_le "start" none

/-- The lists on a path are nodes of the tree. -/
theorem Node.everyKind_listsOn {K : Kind → Prop} (path : List Nat) : ∀ {n t : Node},
    n.EveryKind K → n.at? path = some t →
      ∀ o ∈ n.listsOn path, ∃ k, K k ∧ k.list? = some o.list := by
  induction path with
  | nil =>
    intro n t _ _ o ho
    cases ho
  | cons i path ih =>
    intro n t hn ht o ho
    obtain ⟨c, hchild, ht⟩ := Option.bind_eq_some_iff.mp ht
    rcases (mem_listsOn_cons hchild).mp ho with ⟨l, hlist, rfl⟩ | ho
    · exact ⟨n.kind, hn.kind, hlist⟩
    · exact ih (hn.children c (List.mem_of_getElem? hchild)) ht o ho

/-! ## Markers -/

open Node in
/-- What the walk makes of an item when the lists on a path are open. -/
theorem Kind.enter_item {x : Element} {i : Item} (hi : x.feature = .item i)
    {lists : List ListOnPath}
    (hopened : c.numbering.lists.opened = (lists.map ListOnPath.opened).reverse) :
    ((Kind.element x).enter c children).1 = .element ⟨x.name, x.arguments, .item
      { label := c.settings.listSeparator.intercalate (lists.map fun o =>
          o.list.style.format (nextNumber^[o.left] o.list.start))
        style := lists.getLast?.map fun o => o.list.style
        level := lists.length }⟩ := by
  obtain ⟨name, as, feature⟩ := x
  obtain rfl : feature = _ := hi
  have htext : c.listText = c.settings.listSeparator.intercalate (lists.map fun o =>
      o.list.style.format (nextNumber^[o.left] o.list.start)) := by
    rw [Context.listText, Numbering.listText, Lists.text, hopened, List.reverse_reverse,
      List.map_map]
    rfl
  have hstyle : c.numbering.lists.style? = lists.getLast?.map fun o => o.list.style := by
    rw [Lists.style?, hopened, List.head?_reverse, List.getLast?_map, Option.map_map]
    rfl
  have hlevel : c.numbering.lists.level = lists.length := by
    rw [Lists.level, hopened, List.length_reverse, List.length_map]
  simp only [enter, Feature.enter, htext, hstyle, hlevel]

/-- What the walk makes of an item of a tree, when no list is open where the walk begins. -/
theorem Node.prepare_item {root m n : Node} {path : List Nat} {x : Element} {i : Item}
    (hc : c.numbering.lists = .start) (hleaves : root.LeavesItems)
    (hrange : root.EveryKind Kind.StartsInRange) (hm : root.prepare c = .ok (m, d))
    (hpath : root.at? path = some n) (hkind : n.kind = .element x) (hi : x.feature = .item i) :
    ∃ n', m.at? path = some n' ∧ n'.kind = .element ⟨x.name, x.arguments, .item
      { label := c.settings.listSeparator.intercalate ((root.listsOn path).map fun o =>
          o.list.style.format (min (o.list.start + o.left) maxNumber))
        style := (root.listsOn path).getLast?.map fun o => o.list.style
        level := (root.listsOn path).length }⟩ := by
  obtain ⟨c', n', hat, hn', hsettings, hopened⟩ := prepare_at? path hleaves hm hpath
  have hlists : c'.numbering.lists.opened =
      ((root.listsOn path).map ListOnPath.opened).reverse := by
    rw [hopened, hc, Lists.advance_iterate_start]
    exact List.append_nil _
  have hlabel : ((root.listsOn path).map fun o =>
      o.list.style.format (nextNumber^[o.left] o.list.start)) = (root.listsOn path).map fun o =>
        o.list.style.format (min (o.list.start + o.left) maxNumber) := by
    refine List.map_congr_left fun o ho => congrArg _ ?_
    obtain ⟨k, hk, hlist⟩ := everyKind_listsOn path hrange hpath o ho
    exact nextNumber_iterate (hk o.list hlist) o.left
  refine ⟨n', hat, ?_⟩
  rw [hn', hkind, Kind.enter_item hi hlists, hlabel, hsettings]

namespace Document

open Node

/-- **The marker of an item can be read off the tree.** Where nothing counts up the variable that
shows the current item, preparing a document gives to each item, wherever a path leads to it, the
number in each list around it, outermost first and in the style of the list, and the number of
these lists. The number in a list is its first one and one more for each item of the list that ends
before, until the largest number is reached. Where items are not recognised by themselves, there is
a list around each item, and as many of its items end before as stand before the one on the path. -/
theorem read_items_marked (forms : Catalog) (source : String) (c : Context)
    (h : ∀ n ∈ (read forms source).root.nodes, n.kind.countsItems = false) :
    let root := (read forms source).root
    ∃ m d, root.prepare c.reset = .ok (m, d) ∧
      ∀ (path : List Nat) (n : Node) (e : Element) (i : Item),
        root.at? path = some n → n.kind = .element e → e.feature = .item i →
          let lists := root.listsOn path
          (∃ n', m.at? path = some n' ∧ n'.kind = .element ⟨e.name, e.arguments, .item
            { label := c.settings.listSeparator.intercalate (lists.map fun o =>
                o.list.style.format (min (o.list.start + o.left) maxNumber))
              style := lists.getLast?.map fun o => o.list.style
              level := lists.length }⟩) ∧
          (Form.item ∉ forms → lists ≠ [] ∧ ∀ o ∈ lists, o.left = o.index) := by
  intro root
  obtain ⟨m, d, hm, -⟩ := prepare_restores c.reset root
  refine ⟨m, d, hm, fun path n e i hpath hkind hi => ⟨?_, fun hforms => ?_⟩⟩
  · exact prepare_item (c := c.reset) rfl h (startsInRange_read forms source) hm hpath hkind hi
  · obtain ⟨hholds, hloose⟩ := holdsItems_read hforms source
    have hitem : n.kind.isItem = true := Kind.isItem_iff.mpr ⟨e, i, hkind, hi⟩
    exact ⟨listsOn_ne_nil path hloose hpath hitem, left_eq_index path hholds hpath⟩

/-- A list in the third item of another one, which has come to the largest number by then. -/
theorem read_items_marked_nested :
    let source := "\x7blist 1 start=9223372036854775806|\x7bitem|a\x7d\x7bitem|b\x7d\x7bitem|" ++
      "\x7bi|c \x7blist a|\x7bitem|x\x7d\x7bitem|y\x7d\x7d\x7d\x7d\x7d"
    let root := (read .standard source).root
    (∀ n ∈ root.nodes, n.kind.countsItems = false) ∧
      (root.listsOn [0, 2, 0, 1, 1]).map (fun o => (o.index, o.left)) = [(2, 2), (1, 1)] ∧
      ∃ m d n, root.prepare (Context.start .plain .standard).reset = .ok (m, d) ∧
        m.at? [0, 2, 0, 1, 1] = some n ∧ n.kind = .element ⟨"item", ⟨[]⟩,
          .item ⟨"9223372036854775807.b", some .lowerAlpha, 2⟩⟩ := by
  intro source root
  have hcounts : ∀ n ∈ root.nodes, n.kind.countsItems = false := by
    decide +kernel
  have hlists : root.listsOn [0, 2, 0, 1, 1] =
      [⟨⟨.decimal, 9223372036854775806, false⟩, 2, 2⟩, ⟨⟨.lowerAlpha, 1, false⟩, 1, 1⟩] := by
    decide +kernel
  have hitem : (root.at? [0, 2, 0, 1, 1]).map kind =
      some (.element ⟨"item", ⟨[]⟩, .item ⟨"", none, 0⟩⟩) := by
    decide +kernel
  obtain ⟨n, hpath, hkind⟩ := Option.map_eq_some_iff.mp hitem
  obtain ⟨m, d, hm, hmarked⟩ :=
    read_items_marked .standard source (Context.start .plain .standard) hcounts
  obtain ⟨⟨n', hat, hkind'⟩, -⟩ := hmarked _ n _ _ hpath hkind rfl
  refine ⟨hcounts, ?_, m, d, n', hm, hat, ?_⟩
  · rw [hlists]
    rfl
  · rw [hkind', hlists]
    decide +kernel

/-- Where items are recognised by themselves, an item that stands in another one is counted with
the list around them, so that the second item of this list has the number 3. -/
theorem item_in_item_counted :
    let source := "\x7blist 1|\x7bitem|a\x7bitem|b\x7d\x7d\x7bitem|c\x7d\x7d"
    let root := (read [.list, .item] source).root
    let c := Context.start .plain .standard
    (∀ n ∈ root.nodes, n.kind.countsItems = false) ∧
      ∃ i : Item,
        ((root.prepare c.reset).toOption.bind fun r => r.1.at? [0, 1]).map kind =
          some (.element ⟨"item", ⟨[]⟩, .item i⟩) ∧
        i.label = "3" ∧
        i.label ≠ c.settings.listSeparator.intercalate ((root.listsOn [0, 1]).map fun o =>
          o.list.style.format (min (o.list.start + o.index) maxNumber)) := by
  intro source root c
  exact ⟨by decide +kernel, ⟨"3", some .decimal, 1⟩, by decide +kernel, rfl, by decide +kernel⟩

end Document

end Bracemark
