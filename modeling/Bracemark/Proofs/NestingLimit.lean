/-
The nesting limit.

While a source is read, the elements around the place of reading are counted, and where there
are as many as may be, a brace among parts is text. The tree shows at most the elements that
were counted: text in braces that is taken apart does not stand around anything any more, and
captions and cells are not among the elements of the tree. So a node at the limit of the tree
was at the limit when it was read.

Lists and assignments read what they may hold without asking for the limit. An item or a
variable may therefore begin there, but it holds nothing, as its content would be one level
deeper still. But for that no element begins at the limit, whatever is around it
(`Made.limited`, `Document.nesting_limited`).
-/
import Bracemark.Proofs.Height

set_option autoImplicit false

namespace Bracemark

open Node

/-! ## Elements around a node -/

/-- Whether nodes of this kind are elements around what is inside them. -/
def Kind.nests : Kind → Bool
  | .element _ | .unknown _ | .table _ => true
  | _ => false

/-- The second kind is read by the grammar of what is inside the first, and not as a part: an
item in a list, or a variable that is shown in the value for another. -/
def Kind.Reads (outer inner : Kind) : Prop :=
  Form.list.Gives outer ∧ Form.item.Gives inner ∨ Form.assign.Gives outer ∧ Form.get.Gives inner

/-- How many elements are around a node, and the kind of the innermost one. -/
structure Around where
  count : Nat
  innermost : Kind

namespace Around

/-- What is around the children of a node of some kind. -/
def inside (a : Around) (k : Kind) : Around :=
  if k.nests then ⟨a.count + 1, k⟩ else a

/-- What is around a node when some nodes are, from the outermost on. -/
def through (a : Around) (above : List Node) : Around :=
  above.foldl (fun a n => a.inside n.kind) a

/-- An element may stand here: there are fewer elements around it than at the limit, or just as
many, if the innermost one reads it and nothing is in it. -/
structure Admits (a : Around) (n : Node) : Prop where
  le : a.count ≤ maxNesting
  atLimit : a.count = maxNesting → n.children = [] ∧ a.innermost.Reads n.kind

variable {a b : Around} {k : Kind}

theorem inside_of_nests (hk : k.nests = true) : a.inside k = ⟨a.count + 1, k⟩ :=
  if_pos hk

theorem inside_of_not (hk : k.nests = false) : a.inside k = a :=
  if_neg (Bool.eq_false_iff.mp hk)

theorem count_inside_le (a : Around) (k : Kind) : (a.inside k).count ≤ a.count + 1 := by
  unfold inside
  split
  · exact le_rfl
  · exact Nat.le_succ _

theorem count_inside_lt (h : b.count < a.count) : (b.inside k).count < (a.inside k).count := by
  unfold inside
  split
  · exact Nat.succ_lt_succ h
  · exact h

theorem admits_of_lt {n : Node} (h : a.count < maxNesting) : a.Admits n :=
  ⟨h.le, fun heq => absurd heq h.ne⟩

theorem count_through (above : List Node) (a : Around) :
    (a.through above).count = a.count + above.countP fun n => n.kind.nests := by
  induction above generalizing a with
  | nil => rfl
  | cons n above ih =>
    rw [through, List.foldl_cons, ← through, ih, List.countP_cons]
    cases hn : n.kind.nests with
    | true =>
      rw [inside_of_nests hn, if_pos rfl]
      show a.count + 1 + _ = _
      omega
    | false =>
      rw [inside_of_not hn, if_neg Bool.false_ne_true]
      omega

theorem innermost_through (above : List Node) (a : Around) :
    (a.through above).innermost =
      (((above.filter fun n => n.kind.nests).getLast?).map Node.kind).getD a.innermost := by
  induction above generalizing a with
  | nil => rfl
  | cons n above ih =>
    rw [through, List.foldl_cons, ← through, ih, List.filter_cons]
    cases hn : n.kind.nests with
    | true =>
      rw [inside_of_nests hn, if_pos rfl, List.getLast?_cons]
      cases (above.filter fun n => n.kind.nests).getLast? <;> rfl
    | false => rw [inside_of_not hn, if_neg Bool.false_ne_true]

end Around

/-! ## Trees within the limit -/

/-- All elements of a tree stand where they may, as long as the tree has something around it. -/
inductive Node.Limited : Around → Node → Prop
  | intro {a : Around} {n : Node} : (n.kind.nests = true → a.Admits n) →
      (∀ c ∈ n.children, Limited (a.inside n.kind) c) → Limited a n

namespace Node

variable {a b : Around} {n c : Node} {ns : List Node}

theorem Limited.admits (h : Limited a n) (hn : n.kind.nests = true) : a.Admits n := by
  obtain ⟨hadmits, -⟩ := h
  exact hadmits hn

theorem Limited.children (h : Limited a n) : ∀ c ∈ n.children, Limited (a.inside n.kind) c := by
  obtain ⟨-, hchildren⟩ := h
  exact hchildren

/-- A node that is no element asks nothing itself. -/
theorem limited_iff_of_not (hn : n.kind.nests = false) :
    Limited a n ↔ ∀ c ∈ n.children, Limited a c := by
  constructor
  · intro h c hc
    have hinside := h.children c hc
    rwa [Around.inside_of_not hn] at hinside
  · intro h
    refine .intro (fun hnests => ?_) ?_
    · rw [hn] at hnests
      cases hnests
    · rwa [Around.inside_of_not hn]

theorem limited_iff_of_kind {k : Kind} (hn : n.kind = k) (hk : k.nests = false) :
    Limited a n ↔ ∀ c ∈ n.children, Limited a c := by
  apply limited_iff_of_not
  rw [hn]
  exact hk

theorem limited_leaf (hn : n.kind.nests = false) (hchildren : n.children = []) : Limited a n := by
  apply (limited_iff_of_not hn).mpr
  rw [hchildren]
  exact List.forall_mem_nil _

/-- With fewer elements around it a tree stays within the limit, whatever they are. -/
theorem Limited.mono (h : Limited a n) (hlt : b.count < a.count) : Limited b n := by
  induction h generalizing b with
  | @intro a n hadmits _ ih =>
    refine .intro (fun hn => ?_) fun c hc => ih c hc (Around.count_inside_lt hlt)
    have hle := (hadmits hn).le
    exact Around.admits_of_lt (by omega)

/-- Assembly takes elements away from around a node and puts none there. -/
theorem keptInGathering_limited (a : Around) : KeptInGathering (Limited a) where
  text _ _ := limited_leaf rfl rfl
  inner := by
    intro n c hn _ hc
    have hinside := hn.children c hc
    cases hnests : n.kind.nests with
    | true =>
      rw [Around.inside_of_nests hnests] at hinside
      exact hinside.mono (Nat.lt_succ_self _)
    | false => rwa [Around.inside_of_not hnests] at hinside
  grown := by
    intro n m s t hn hold hnew hchildren
    rw [limited_iff_of_kind hnew rfl, hchildren]
    exact (limited_iff_of_kind hold rfl).mp hn

theorem limited_of_gathered (hns : ∀ n ∈ ns, Limited a n) (hc : Gathered ns c ∨ Bundle ns c) :
    Limited a c := by
  rcases hc with hc | hc
  · exact hc.kept (keptInGathering_limited a) hns
  · have hnests : c.kind.nests = false := by
      rcases hc.kind with hkind | hkind <;> rw [hkind] <;> rfl
    apply (limited_iff_of_not hnests).mpr
    intro d hd
    exact (hc.children d hd).kept (keptInGathering_limited a) hns

/-- What holds of a tree holds at the end of every way down it. -/
theorem Limited.last {above : List Node} {m : Node} (h : Limited a m)
    (hpath : Descent m (above ++ [n])) : Limited (a.through above) n := by
  induction above generalizing a m with
  | nil =>
    obtain ⟨rfl, -⟩ := descent_cons hpath
    exact h
  | cons u above ih =>
    obtain ⟨rfl, hnil | ⟨c, hc, hrest⟩⟩ := descent_cons hpath
    · exact absurd hnil (List.append_ne_nil_of_right_ne_nil above (List.cons_ne_nil n []))
    · exact ih (h.children c hc) hrest

end Node

/-! ## Tables -/

variable {forms : Catalog} {a : Around} {ns : List Node} {n : Node}

theorem Node.PlacedFrom.limited {r : Node} (hr : r.PlacedFrom ns) (hns : ∀ n ∈ ns, Limited a n) :
    Limited a r := by
  obtain ⟨hrow, r', hr', hrow', hcells⟩ := hr
  apply (limited_iff_of_kind hrow rfl).mpr
  intro d hd
  obtain ⟨d', hd', hplaced⟩ := hcells d hd
  have hcell := (limited_iff_of_kind hrow' rfl).mp (hns r' hr') d' hd'
  rcases hplaced with rfl | ⟨x, y, hkind, rfl⟩
  · exact hcell
  · -- Only the box of a cell was written, so its children are the same.
    have hchildren := (limited_iff_of_kind hkind rfl).mp hcell
    exact (limited_iff_of_kind rfl rfl).mpr hchildren

theorem Table.limited_layout? {t : Table} {span : Span} (hns : ∀ n ∈ ns, Limited a n)
    (hn : t.layout? span ns = some n) : ∀ c ∈ n.children, Limited a c := by
  intro c hc
  cases (Table.parts_layout? hn).2 c hc with
  | caption hkind hcontent =>
    have hcaptions : ∀ d ∈ (ns.filter isCaption).flatMap Node.children, Limited a d := by
      intro d hd
      obtain ⟨caption, hcaption, hd⟩ := List.mem_flatMap.mp hd
      obtain ⟨hmem, hcaption⟩ := List.mem_filter.mp hcaption
      have hkind : caption.kind = .caption := by simpa [isCaption] using hcaption
      exact (limited_iff_of_kind hkind rfl).mp (hns caption hmem) d hd
    apply (limited_iff_of_kind hkind rfl).mpr
    exact fun d hd => limited_of_gathered hcaptions (hcontent d hd)
  | «section» role hkind hgroups =>
    apply (limited_iff_of_kind hkind rfl).mpr
    intro g hg
    obtain ⟨⟨group, hgroup⟩, hrows⟩ := hgroups g hg
    apply (limited_iff_of_kind hgroup rfl).mpr
    exact fun r hr => (hrows r hr).limited hns

/-! ## Elements -/

/-- What may be around a node that is read as a slot of the grammar. Parts ask for the limit
themselves. -/
def Slot.StandsIn (n : Node) (a : Around) : Slot → Prop
  | .part => True
  | .element _ => n.kind.nests = true → a.count = maxNesting → a.innermost.Reads n.kind
  | .cell => True
  | .content .list => Form.list.Gives a.innermost
  | .content .assign => Form.assign.Gives a.innermost
  | .content _ => True

/-- All elements but cells and captions are elements around what is inside them. -/
theorem Kind.nests_iff_of_gives {form : Form} {k : Kind} (hk : form.Gives k) :
    k.nests = true ↔ form ≠ .cell ∧ form ≠ .caption := by
  cases k with
  | element e =>
    obtain rfl : e.feature.form = form := hk
    cases e.feature <;> simp [nests, Feature.form]
  | table t | cell c | caption =>
    cases hk
    simp [nests]
  | _ => cases hk

/-- What is inside an element has that around it. -/
theorem Slot.standsIn_content {form : Form} {k : Kind} (hk : form.Gives k) (n : Node) :
    (Slot.content form).StandsIn n (a.inside k) := by
  cases form with
  | list | assign =>
    rw [Around.inside_of_nests ((Kind.nests_iff_of_gives hk).mpr (by simp))]
    exact hk
  | _ => trivial

theorem Made.gives {slot : Slot} {form : Form} {level : Nat} (h : Made forms slot level n)
    (hslot : slot = .element form) : form.Gives n.kind := by
  cases h with
  | element header _ hshape _ _ hn =>
    cases hslot
    exact Form.gives_node? hshape hn
  | _ => cases hslot

/-- The children of an element stand where they may if its content does. -/
theorem Shape.limited_node? {shape : Shape} {header : Header} (hns : ∀ n ∈ ns, Limited a n)
    (hn : shape.node? header ns = some n) : ∀ c ∈ n.children, Limited a c := by
  by_cases htable : shape.form = .table
  · obtain ⟨t, rfl⟩ := Shape.form_eq_table htable
    exact Table.limited_layout? hns hn
  · have hshape : ∀ t, shape ≠ .table t := by
      rintro t rfl
      exact htable rfl
    intro c hc
    exact limited_of_gathered hns (Shape.gathered_node? hshape hn c hc)

/-- **Elements stand where they may.** What is read inside so many elements has no more of them
around it in the tree, and where these are as many as at the limit, no element begins but what
an element reads by its own grammar, and that is empty. -/
theorem Made.limited {slot : Slot} {level : Nat} (hn : Made forms slot level n) :
    ∀ a : Around, a.count ≤ level → a.count ≤ maxNesting → slot.StandsIn n a → Limited a n := by
  -- The induction is on how the node was read. What is around it stays open, as there is more
  -- around the children than around the node.
  induction hn with
  | text | gap | blank | assigned | code | breakLine | blankRows =>
    intro a _ _ _
    exact limited_leaf rfl rfl
  | known _ hlevel _ ih =>
    -- A part is read as an element below the limit only.
    intro a ha hmax _
    exact ih a ha hmax fun _ heq => absurd heq (ha.trans_lt hlevel).ne
  | @unknown level span closed ns hlevel _ ih =>
    intro a ha _ _
    have hinside := a.count_inside_le (.unknown closed)
    refine .intro (fun _ => Around.admits_of_lt (ha.trans_lt hlevel)) fun c hc => ?_
    rw [kind_assemble]
    refine limited_of_gathered (fun d hd => ih d hd _ ?_ ?_ trivial)
      (gathered_or_bundle_of_mem_assemble _ c hc)
    · exact hinside.trans (by omega)
    · exact hinside.trans (by omega)
  | @element level form header shape ns n _ hshape _ hempty hn ih =>
    intro a ha hmax hstands
    have hgives := Form.gives_node? hshape hn
    rcases hempty with rfl | ⟨-, hlevel⟩
    · -- Only an element without content may stand at the limit.
      rw [Form.keptContent_nil] at hn
      have hchildren := Shape.children_node?_nil hn
      refine .intro (fun hnests => ⟨hmax, fun heq => ⟨hchildren, hstands hnests heq⟩⟩) ?_
      rw [hchildren]
      exact List.forall_mem_nil _
    · have hinside := a.count_inside_le n.kind
      have hcontent : ∀ c ∈ ns, Limited (a.inside n.kind) c := by
        intro c hc
        refine ih c hc _ (by omega) (by omega) ?_
        exact Slot.standsIn_content hgives c
      have hkept : ∀ c ∈ form.keptContent ns, Limited (a.inside n.kind) c := by
        intro c hc
        exact limited_of_gathered hcontent (.inl (form.gathered_keptContent ns c hc))
      exact .intro (fun _ => Around.admits_of_lt (by omega)) (Shape.limited_node? hkept hn)
  | ofParts _ _ ih =>
    intro a ha hmax _
    exact ih a ha hmax trivial
  | item hitem ih =>
    -- The limit is not asked for here, but then there is a list around the item.
    intro a ha hmax hlist
    exact ih a ha hmax fun _ _ => .inl ⟨hlist, hitem.gives rfl⟩
  | get hget ih =>
    intro a ha hmax hassign
    exact ih a ha hmax fun _ _ => .inr ⟨hassign, hget.gives rfl⟩
  | caption hnode ih =>
    -- Neither captions nor cells are elements of the tree, so the limit says nothing of them.
    intro a ha hmax _
    refine ih a ha hmax fun hnests _ => ?_
    exact absurd rfl ((Kind.nests_iff_of_gives (hnode.gives rfl)).mp hnests).2
  | explicitCell hnode ih =>
    intro a ha hmax _
    refine ih a ha hmax fun hnests _ => ?_
    exact absurd rfl ((Kind.nests_iff_of_gives (hnode.gives rfl)).mp hnests).1
  | row span _ ih =>
    intro a ha hmax _
    exact (limited_iff_of_not rfl).mpr fun c hc => ih c hc a ha hmax trivial
  | @contentCell level span ns _ ih =>
    intro a ha hmax _
    have hkind : (cellNode span .plain ns).kind = .cell .plain := by
      rw [cellNode, kind_assemble]
      rfl
    apply (limited_iff_of_kind hkind rfl).mpr
    intro c hc
    exact limited_of_gathered (fun d hd => ih d hd a ha hmax trivial)
      (gathered_cellNode span .plain ns c hc)

/-! ## Documents -/

namespace Document

theorem limited_read (forms : Catalog) (source : String) :
    Limited ⟨0, .document⟩ (read forms source).root := by
  obtain ⟨ns, hns, hroot⟩ := exists_made forms source
  rw [hroot]
  apply (limited_iff_of_kind (kind_assemble _) rfl).mpr
  intro c hc
  refine limited_of_gathered (fun n hn => ?_) (gathered_or_bundle_of_mem_assemble _ c hc)
  exact (hns n hn).limited _ le_rfl (Nat.zero_le _) trivial

/-- **Elements begin below the nesting limit.** An element of a document, a table or text in
braces has fewer such nodes around it than at the limit, whatever the elements around it are.
There is one exception: an item whose innermost element is a list, and a variable whose
innermost element is an assignment, may have as many around them as at the limit. Nothing is
inside them then. -/
theorem nesting_limited (forms : Catalog) (source : String) {above : List Node} {n : Node}
    (hpath : Descent (read forms source).root (above ++ [n])) (hn : n.kind.nests = true) :
    above.countP (fun m => m.kind.nests) < maxNesting ∨
      above.countP (fun m => m.kind.nests) = maxNesting ∧ n.children = [] ∧
        ∃ outer, (above.filter fun m => m.kind.nests).getLast? = some outer ∧
          outer.kind.Reads n.kind := by
  have hadmits := ((limited_read forms source).last hpath).admits hn
  have hcount : (Around.through ⟨0, .document⟩ above).count =
      above.countP fun m => m.kind.nests := by
    rw [Around.count_through, Nat.zero_add]
  rcases Nat.lt_or_eq_of_le hadmits.le with hlt | heq
  · exact .inl (hcount ▸ hlt)
  · obtain ⟨hchildren, hreads⟩ := hadmits.atLimit heq
    rw [hcount] at heq
    refine .inr ⟨heq, hchildren, ?_⟩
    rw [Around.innermost_through] at hreads
    cases hlast : (above.filter fun m => m.kind.nests).getLast? with
    | some outer =>
      rw [hlast] at hreads
      exact ⟨outer, rfl, hreads⟩
    | none =>
      -- At the limit there are elements around the node, so one of them is the innermost.
      rw [List.countP_eq_length_filter, List.getLast?_eq_none_iff.mp hlast] at heq
      cases heq

/-- A text inside as many elements as leave room for one more below the limit. -/
def deepSource (inner : String) : String :=
  String.join (List.replicate (maxNesting - 1) "\x7bb|") ++ inner ++
    String.join (List.replicate (maxNesting - 1) "\x7d")

/-- An empty item stands at the limit when its list is the last element that may begin. -/
theorem exists_item_at_limit : ∃ above n,
    Descent (read .standard (deepSource "\x7blist|\x7bitem\x7d\x7d")).root (above ++ [n]) ∧
      n.kind.nests = true ∧ above.countP (fun m => m.kind.nests) = maxNesting := by
  let path := (read .standard (deepSource "\x7blist|\x7bitem\x7d\x7d")).root.leftmost
  obtain ⟨hne, hnests, hcount⟩ : ∃ hne : path ≠ [], (path.getLast hne).kind.nests = true ∧
      path.dropLast.countP (fun m => m.kind.nests) = maxNesting := by
    decide +kernel
  refine ⟨path.dropLast, path.getLast hne, ?_, hnests, hcount⟩
  rw [List.dropLast_append_getLast]
  exact descent_leftmost _

/-- The item at the limit is the one that the exception is made for. -/
theorem nesting_limited_item : ∃ above n,
    Descent (read .standard (deepSource "\x7blist|\x7bitem\x7d\x7d")).root (above ++ [n]) ∧
      n.kind.nests = true ∧ n.children = [] ∧
        ∃ outer, (above.filter fun m => m.kind.nests).getLast? = some outer ∧
          outer.kind.Reads n.kind := by
  obtain ⟨above, n, hpath, hn, hcount⟩ := exists_item_at_limit
  rcases nesting_limited .standard _ hpath hn with hlt | ⟨-, hempty, hreads⟩
  · exact absurd hcount hlt.ne
  · exact ⟨above, n, hpath, hn, hempty, hreads⟩

/-- **An element may begin at the nesting limit**, where an element reads it by its own
grammar. -/
theorem exists_past_limit : ¬ ∀ (source : String) (above : List Node) (n : Node),
    Descent (read .standard source).root (above ++ [n]) → n.kind.nests = true →
      above.countP (fun m => m.kind.nests) < maxNesting := by
  intro hbelow
  obtain ⟨above, n, hpath, hn, hcount⟩ := exists_item_at_limit
  exact absurd hcount (hbelow _ above n hpath hn).ne

end Document

end Bracemark
