/-
Spans that are in order.

A tree is well spanned when every span in it begins and ends between two characters
of the source, every node lies inside its parent, and the children of a node follow
each other without overlapping. Text in braces asks for more: its children lie between
the braces, since assembly takes the braces off and lets the children join what is
around them.

`Series source lo hi ns` says this of some nodes that follow each other between two
offsets. It is what reading hands to assembly and what every step of assembly keeps:
nodes that are taken apart, put into a group or left out give a series between the same
offsets.
-/
import Bracemark.Proofs.Places
import Bracemark.Node.Search

set_option autoImplicit false

namespace Bracemark

namespace Node

/-! ## All nodes of a tree -/

mutual

/-- The level that a walk begins at makes no difference to what it comes by. -/
theorem map_walk (level level' : Nat) : ∀ n : Node,
    (n.walk level).map (·.2) = (n.walk level').map (·.2)
  | .mk span kind children layout => by
    simp only [walk, List.map_cons]
    rw [map_walkAll (level + 1) (level' + 1) children]

theorem map_walkAll (level level' : Nat) : ∀ ns : List Node,
    (walkAll level ns).map (·.2) = (walkAll level' ns).map (·.2)
  | [] => rfl
  | n :: ns => by
    simp only [walkAll, List.map_append]
    rw [map_walk level level' n, map_walkAll level level' ns]

end

theorem walkAll_eq (level : Nat) (ns : List Node) :
    (walkAll level ns).map (·.2) = ns.flatMap nodes := by
  induction ns with
  | nil => rfl
  | cons n ns ih =>
    rw [walkAll, List.map_append, ih, List.flatMap_cons, map_walk level 0 n, nodes]

/-- The nodes of a tree are its root and those of its children. -/
theorem nodes_mk (span : Span) (kind : Kind) (children : List Node) (layout : Layout) :
    (mk span kind children layout).nodes =
      mk span kind children layout :: children.flatMap nodes := by
  rw [nodes, walk, List.map_cons, walkAll_eq]

/-- A property of all nodes of a tree. -/
def Every (P : Node → Prop) (n : Node) : Prop :=
  ∀ m ∈ n.nodes, P m

theorem every_iff {P : Node → Prop} {n : Node} :
    n.Every P ↔ P n ∧ ∀ c ∈ n.children, c.Every P := by
  cases n with
  | mk span kind children layout =>
    simp only [Every, nodes_mk, List.mem_cons, List.mem_flatMap, forall_eq_or_imp, children_mk]
    exact and_congr_right fun _ =>
      ⟨fun h c hc m hm => h m ⟨c, hc, hm⟩, fun h m ⟨c, hc, hm⟩ => h c hc m hm⟩

/-! ## Nodes in order -/

/-- The spans of the nodes follow each other between two offsets. -/
def InOrder (lo hi : Nat) : List Node → Prop
  | [] => lo ≤ hi
  | n :: ns => lo ≤ n.span.start ∧ n.span.start ≤ n.span.stop ∧ InOrder n.span.stop hi ns

/-- The spans of the nodes lie between two offsets. -/
def AllWithin (lo hi : Nat) (ns : List Node) : Prop :=
  lo ≤ hi ∧ ∀ n ∈ ns, lo ≤ n.span.start ∧ n.span.start ≤ n.span.stop ∧ n.span.stop ≤ hi

end Node

/-- The part of its span that the children of a node stand in: between the braces, where
the node has braces. -/
def Kind.inside (k : Kind) (s : Span) : Span :=
  match k with
  | .unknown closed => ⟨s.start + 1, s.stop - closed.toNat⟩
  | _ => s

theorem Kind.start_le_inside (k : Kind) (s : Span) : s.start ≤ (k.inside s).start := by
  cases k <;> simp [inside]

theorem Kind.inside_le_stop (k : Kind) (s : Span) : (k.inside s).stop ≤ s.stop := by
  cases k <;> simp [inside]

section

variable (source : List Char)

/-- What is asked of the spans of a node and its children. -/
structure Node.Fits (n : Node) : Prop where
  start : IsBoundary source n.span.start
  stop : IsBoundary source n.span.stop
  insideStart : IsBoundary source (n.kind.inside n.span).start
  insideStop : IsBoundary source (n.kind.inside n.span).stop
  children : if Node.keepsOrder n.kind
    then Node.InOrder (n.kind.inside n.span).start (n.kind.inside n.span).stop n.children
    else Node.AllWithin n.span.start n.span.stop n.children

/-- All spans of a tree are in order. -/
def Node.WellSpanned (n : Node) : Prop :=
  n.Every (Node.Fits source)

/-- Well spanned nodes that follow each other between two offsets. -/
def Series (lo hi : Nat) : List Node → Prop
  | [] => lo ≤ hi
  | n :: ns => lo ≤ n.span.start ∧ n.WellSpanned source ∧ Series n.span.stop hi ns

end

variable {source : List Char} {lo hi mid : Nat} {n : Node} {ns ms : List Node}

/-! ## Well spanned nodes -/

namespace Node

theorem WellSpanned.fits (h : n.WellSpanned source) : n.Fits source :=
  (every_iff.mp h).1

theorem Fits.start_le_stop (h : n.Fits source) : n.span.start ≤ n.span.stop := by
  have hchildren := h.children
  split at hchildren
  · -- The children lead from one end of the inside to the other.
    have hinside : ∀ {lo : Nat} {ns : List Node}, InOrder lo (n.kind.inside n.span).stop ns →
        lo ≤ (n.kind.inside n.span).stop := by
      intro lo ns hns
      induction ns generalizing lo with
      | nil => exact hns
      | cons m ms ih => exact hns.1.trans (hns.2.1.trans (ih hns.2.2))
    exact (n.kind.start_le_inside n.span).trans
      ((hinside hchildren).trans (n.kind.inside_le_stop n.span))
  · exact hchildren.1

theorem WellSpanned.start_le_stop (h : n.WellSpanned source) : n.span.start ≤ n.span.stop :=
  h.fits.start_le_stop

end Node

/-! ## Series -/

namespace Series

theorem iff_inOrder : Series source lo hi ns ↔
    Node.InOrder lo hi ns ∧ ∀ n ∈ ns, n.WellSpanned source := by
  induction ns generalizing lo with
  | nil => simp [Series, Node.InOrder]
  | cons n ns ih =>
    simp only [Series, Node.InOrder, ih, List.forall_mem_cons]
    constructor
    · rintro ⟨hlo, hn, hns, hall⟩
      exact ⟨⟨hlo, hn.start_le_stop, hns⟩, hn, hall⟩
    · rintro ⟨⟨hlo, -, hns⟩, hn, hall⟩
      exact ⟨hlo, hn, hns, hall⟩

theorem nil (h : lo ≤ hi) : Series source lo hi [] := h

theorem singleton_iff : Series source lo hi [n] ↔
    lo ≤ n.span.start ∧ n.WellSpanned source ∧ n.span.stop ≤ hi := Iff.rfl

theorem le (h : Series source lo hi ns) : lo ≤ hi := by
  induction ns generalizing lo with
  | nil => exact h
  | cons n ns ih => exact h.1.trans (h.2.1.start_le_stop.trans (ih h.2.2))

/-- A series stands between any two offsets further apart. -/
theorem mono {lo' hi' : Nat} (h : Series source lo hi ns) (hlo : lo' ≤ lo) (hhi : hi ≤ hi') :
    Series source lo' hi' ns := by
  induction ns generalizing lo lo' with
  | nil => exact hlo.trans (Nat.le_trans h hhi)
  | cons n ns ih => exact ⟨hlo.trans h.1, h.2.1, ih h.2.2 (Nat.le_refl _)⟩

theorem append (h : Series source lo mid ns) (h' : Series source mid hi ms) :
    Series source lo hi (ns ++ ms) := by
  induction ns generalizing lo with
  | nil => exact h'.mono h (Nat.le_refl _)
  | cons n ns ih => exact ⟨h.1, h.2.1, ih h.2.2⟩

/-- A series can be cut in two wherever one node ends and the next begins. -/
theorem of_append (h : Series source lo hi (ns ++ ms)) :
    ∃ mid, Series source lo mid ns ∧ Series source mid hi ms := by
  induction ns generalizing lo with
  | nil => exact ⟨lo, Nat.le_refl _, h⟩
  | cons n ns ih =>
    obtain ⟨mid, hns, hms⟩ := ih h.2.2
    exact ⟨mid, ⟨h.1, h.2.1, hns⟩, hms⟩

/-- What is left of a series when nodes are left out is a series. -/
theorem sublist (h : Series source lo hi ms) (hsub : ns.Sublist ms) :
    Series source lo hi ns := by
  induction hsub generalizing lo with
  | slnil => exact h
  | cons m _ ih =>
    -- The nodes after one that is left out begin no earlier than it did.
    exact (ih h.2.2).mono (h.1.trans h.2.1.start_le_stop) (Nat.le_refl _)
  | cons_cons m _ ih => exact ⟨h.1, h.2.1, ih h.2.2⟩

/-- Each node of a series may be replaced by a series in its span. -/
theorem flatMap {f : Node → List Node} (h : Series source lo hi ns)
    (hf : ∀ n ∈ ns, n.WellSpanned source → Series source n.span.start n.span.stop (f n)) :
    Series source lo hi (ns.flatMap f) := by
  induction ns generalizing lo with
  | nil => exact h
  | cons n ns ih =>
    rw [List.flatMap_cons]
    exact ((hf n List.mem_cons_self h.2.1).mono h.1 (Nat.le_refl _)).append
      (ih h.2.2 fun m hm => hf m (List.mem_cons_of_mem n hm))

/-- Each node of a series may be replaced by one with the same span. -/
theorem forall₂ (h : Series source lo hi ns) (hms : List.Forall₂ (fun n m => m.span = n.span ∧
    (n.WellSpanned source → m.WellSpanned source)) ns ms) : Series source lo hi ms := by
  induction hms generalizing lo with
  | nil => exact h
  | cons hm _ ih =>
    obtain ⟨hspan, hwell⟩ := hm
    refine ⟨hspan ▸ h.1, hwell h.2.1, ?_⟩
    rw [hspan]
    exact ih h.2.2

/-- The span around a series that is not empty. -/
theorem outerSpan (h : Series source lo hi ns) (hne : ns ≠ []) :
    lo ≤ (Node.outerSpan ns).start ∧ (Node.outerSpan ns).stop ≤ hi ∧
      IsBoundary source (Node.outerSpan ns).start ∧
      IsBoundary source (Node.outerSpan ns).stop ∧
      Series source (Node.outerSpan ns).start (Node.outerSpan ns).stop ns := by
  obtain ⟨first, rest, rfl⟩ := List.exists_cons_of_ne_nil hne
  -- The last node ends where the series may end at the earliest.
  have hlast : ∀ {lo : Nat} {first : Node} {rest : List Node},
      Series source lo hi (first :: rest) → ∃ last, (first :: rest).getLast? = some last ∧
        last.WellSpanned source ∧ last.span.stop ≤ hi ∧
        Series source first.span.stop last.span.stop rest := by
    intro lo first rest h
    induction rest generalizing lo first with
    | nil => exact ⟨first, rfl, h.2.1, h.2.2, Nat.le_refl _⟩
    | cons next rest ih =>
      obtain ⟨last, hlast, hwell, hhi, hrest⟩ := ih h.2.2
      exact ⟨last, by rw [List.getLast?_cons_cons, hlast], hwell, hhi, h.2.2.1, h.2.2.2.1, hrest⟩
  obtain ⟨last, hlast, hwell, hhi, hrest⟩ := hlast h
  simp only [Node.outerSpan, List.head?_cons, hlast]
  exact ⟨h.1, hhi, h.2.1.fits.start, hwell.fits.stop, Nat.le_refl _, h.2.1, hrest⟩

end Series

/-! ## A node and its children -/

/-- The kinds whose nodes have their children follow each other in the whole of the span:
all but tables and text in braces. -/
def Kind.Plain : Kind → Prop
  | .table _ | .unknown _ => False
  | _ => True

theorem Kind.Plain.keepsOrder {k : Kind} (h : k.Plain) : Node.keepsOrder k = true := by
  cases k with
  | table => cases h
  | _ => rfl

theorem Kind.Plain.inside_eq {k : Kind} (h : k.Plain) (s : Span) : k.inside s = s := by
  cases k with
  | unknown => cases h
  | _ => rfl

namespace Node

/-- The children of a node that keeps their order make a series. -/
theorem WellSpanned.series (h : n.WellSpanned source) (hkind : keepsOrder n.kind = true) :
    Series source (n.kind.inside n.span).start (n.kind.inside n.span).stop n.children := by
  have hchildren := h.fits.children
  rw [if_pos hkind] at hchildren
  exact Series.iff_inOrder.mpr ⟨hchildren, (every_iff.mp h).2⟩

theorem WellSpanned.series_of_plain (h : n.WellSpanned source) (hkind : n.kind.Plain) :
    Series source n.span.start n.span.stop n.children := by
  simpa only [hkind.inside_eq] using h.series hkind.keepsOrder

theorem wellSpanned_of_series {span : Span} {kind : Kind} {children : List Node}
    {layout : Layout} (hkind : kind.Plain) (hstart : IsBoundary source span.start)
    (hstop : IsBoundary source span.stop)
    (h : Series source span.start span.stop children) :
    (mk span kind children layout).WellSpanned source := by
  obtain ⟨horder, heach⟩ := Series.iff_inOrder.mp h
  refine every_iff.mpr ⟨⟨hstart, hstop, ?_, ?_, ?_⟩, heach⟩
  · rwa [kind_mk, span_mk, hkind.inside_eq]
  · rwa [kind_mk, span_mk, hkind.inside_eq]
  · rwa [kind_mk, if_pos hkind.keepsOrder, span_mk, hkind.inside_eq]

theorem wellSpanned_leaf {span : Span} {kind : Kind} (hkind : kind.Plain)
    (hstart : IsBoundary source span.start) (hstop : IsBoundary source span.stop)
    (h : span.start ≤ span.stop) : (leaf span kind).WellSpanned source :=
  wellSpanned_of_series hkind hstart hstop (.nil h)

/-- The node around a series that is not empty stands where the series does. -/
theorem series_branch {kind : Kind} (hkind : kind.Plain) (h : Series source lo hi ns)
    (hne : ns ≠ []) : Series source lo hi [branch (outerSpan ns) kind ns] := by
  obtain ⟨hlo, hhi, hstart, hstop, hns⟩ := h.outerSpan hne
  exact Series.singleton_iff.mpr ⟨hlo, wellSpanned_of_series hkind hstart hstop hns, hhi⟩

/-- A well spanned node with another series for its children. -/
theorem WellSpanned.withChildren (h : n.WellSpanned source) (hkind : keepsOrder n.kind = true)
    (hms : Series source (n.kind.inside n.span).start (n.kind.inside n.span).stop ms) :
    (n.withChildren ms).WellSpanned source := by
  obtain ⟨horder, heach⟩ := Series.iff_inOrder.mp hms
  have hfits := h.fits
  refine every_iff.mpr ⟨⟨hfits.start, hfits.stop, hfits.insideStart, hfits.insideStop, ?_⟩, heach⟩
  rw [Node.withChildren, kind_mk, if_pos hkind]
  exact horder

/-- A change of kind between kinds that treat their children alike. -/
theorem WellSpanned.withKind (h : n.WellSpanned source) (hold : n.kind.Plain) {kind : Kind}
    (hnew : kind.Plain) : (n.withKind kind).WellSpanned source :=
  wellSpanned_of_series hnew h.fits.start h.fits.stop (h.series_of_plain hold)

/-! ## Taking nodes apart -/

theorem series_self (h : n.WellSpanned source) :
    Series source n.span.start n.span.stop [n] :=
  ⟨Nat.le_refl _, h, Nat.le_refl _⟩

/-- The opening brace, the children and the closing brace follow each other. -/
theorem series_spreadUnknown (h : n.WellSpanned source) :
    Series source n.span.start n.span.stop n.spreadUnknown := by
  cases hkind : n.kind with
  | unknown closed =>
    have hseries := h.series (by rw [hkind]; rfl)
    have hfits := h.fits
    have hopen := hfits.insideStart
    have hclose := hfits.insideStop
    simp only [hkind, Kind.inside] at hseries hopen hclose
    have hle := hseries.le
    simp only [spreadUnknown, hkind]
    refine ⟨Nat.le_refl _, wellSpanned_leaf trivial hfits.start hopen
      (Nat.le_add_right _ _), hseries.append ?_⟩
    cases closed with
    | false => exact .nil (Nat.le_refl _)
    | true =>
      -- The closing brace is the byte by which the inside falls short of the span.
      exact ⟨Nat.le_refl _, wellSpanned_leaf trivial hclose hfits.stop (Nat.sub_le _ _),
        Nat.le_refl _⟩
  | _ =>
    simp only [spreadUnknown, hkind]
    exact series_self h

theorem series_spreadGroup (h : n.WellSpanned source) :
    Series source n.span.start n.span.stop n.spreadGroup := by
  cases hkind : n.kind with
  | inlineGroup =>
    simp only [spreadGroup, hkind]
    exact h.series_of_plain (by rw [hkind]; trivial)
  | _ =>
    simp only [spreadGroup, hkind]
    exact series_self h

/-! ## Putting nodes together -/

/-- A text node grows over the text that follows it. -/
theorem series_appendText {last : Node} {s t : String} (hlast : last.kind = .text t)
    (h : Series source lo hi (last :: n :: ns)) :
    Series source lo hi (last.appendText s n.span.stop :: ns) := by
  obtain ⟨hlo, hwell, hafter, hn, hns⟩ := h
  -- Of the two ends the later one is kept, and in a series that is the second.
  have hstop : max last.span.stop n.span.stop = n.span.stop :=
    Nat.max_eq_right (hafter.trans hn.start_le_stop)
  simp only [appendText, hlast, hstop]
  refine ⟨hlo, wellSpanned_of_series trivial hwell.fits.start hn.fits.stop ?_, hns⟩
  exact (hwell.series_of_plain (by rw [hlast]; trivial)).mono (Nat.le_refl _)
    (hafter.trans hn.start_le_stop)

theorem series_joinTextAfter (last : Node) (ns : List Node) :
    ∀ {lo : Nat}, Series source lo hi (last :: ns) →
      Series source lo hi (joinTextAfter last ns) := by
  fun_induction joinTextAfter last ns with
  | case1 last => exact fun h => h
  | case2 last n ns s t _ hlast ih => exact fun h => ih (series_appendText hlast h)
  | case3 last n ns _ ih => exact fun h => ⟨h.1, h.2.1, ih h.2.2⟩

theorem series_joinText (h : Series source lo hi ns) : Series source lo hi (joinText ns) := by
  cases ns with
  | nil => exact h
  | cons n ns => exact series_joinTextAfter n ns h

theorem series_groupOf (h : Series source lo hi ns) : Series source lo hi (groupOf ns) := by
  rw [groupOf]
  split
  · exact .nil h.le
  · next hne =>
    exact series_branch trivial (series_joinText h)
      (joinText_ne_nil (by simpa using hne))

theorem series_groupRunsAfter (run ns : List Node) :
    ∀ {lo : Nat}, Series source lo hi (run.reverse ++ ns) →
      Series source lo hi (groupRunsAfter run ns) := by
  fun_induction groupRunsAfter run ns with
  | case1 run => exact fun h => series_groupOf (by simpa using h)
  | case2 run n ns _ ih => exact fun h => ih (by simpa using h)
  | case3 run n ns _ ih =>
    intro lo h
    -- The run ends at `mid`, before the node that does not flow; the next run is empty
    -- and begins after that node.
    obtain ⟨mid, hrun, hlo, hn, hns⟩ := h.of_append
    exact (series_groupOf hrun).append ⟨hlo, hn, ih hns⟩

/-- Bringing nodes into groups keeps them between the same offsets. -/
theorem series_normalize (h : Series source lo hi ns) : Series source lo hi (normalize ns) := by
  have hspread : Series source lo hi ((ns.flatMap spreadUnknown).flatMap spreadGroup) :=
    (h.flatMap fun _ _ => series_spreadUnknown).flatMap fun _ _ => series_spreadGroup
  exact (series_groupRunsAfter [] _ hspread).sublist List.filter_sublist

/-! ## Paragraphs -/

theorem series_paragraphOf (h : Series source lo hi ns) :
    Series source lo hi (paragraphOf ns) := by
  rw [paragraphOf]
  split
  · exact .nil h.le
  · next hblank =>
    refine series_branch trivial (series_joinText h) (joinText_ne_nil ?_)
    rintro rfl
    exact hblank rfl

theorem series_paragraphsAfter (run ns : List Node) :
    ∀ {lo : Nat}, Series source lo hi (run.reverse ++ ns) →
      Series source lo hi (paragraphsAfter run ns) := by
  fun_induction paragraphsAfter run ns with
  | case1 run => exact fun h => series_paragraphOf (by simpa using h)
  | case2 run n ns _ ih =>
    intro lo h
    obtain ⟨mid, hrun, hlo, hn, hns⟩ := h.of_append
    refine ih ?_
    -- The run is kept back to front, so a group that joins it is turned round twice.
    rw [List.reverse_append, List.reverse_reverse, List.append_assoc]
    exact hrun.append (((series_spreadGroup hn).mono hlo (Nat.le_refl _)).append hns)
  | case3 run n ns _ ih =>
    intro lo h
    obtain ⟨mid, hrun, hlo, hn, hns⟩ := h.of_append
    refine ((series_paragraphOf hrun).append ?_).append (ih hns)
    have hkept : Series source mid n.span.stop [n] := ⟨hlo, hn, Nat.le_refl _⟩
    split
    · exact .nil hkept.le
    · exact hkept

/-! ## Assembly -/

/-- **Assembly keeps spans in order.** -/
theorem WellSpanned.assemble (h : n.WellSpanned source) (hkind : keepsOrder n.kind = true) :
    n.assemble.WellSpanned source := by
  obtain ⟨grouped, hgrouped⟩ : ∃ m, m =
      if 1 < n.children.length then n.withChildren (normalize n.children) else n := ⟨_, rfl⟩
  -- Each of the two steps puts another series in the place of the children.
  have hwell : grouped.WellSpanned source ∧ keepsOrder grouped.kind = true := by
    rw [hgrouped]
    split
    · exact ⟨h.withChildren hkind (series_normalize (h.series hkind)), hkind⟩
    · exact ⟨h, hkind⟩
  rw [Node.assemble, ← hgrouped]
  split
  · exact hwell.1.withChildren hwell.2
      (series_paragraphsAfter [] _ (hwell.1.series hwell.2))
  · exact hwell.1

/-! ## The check of a tree -/

/-- Each child of a well spanned node lies in its span. -/
theorem WellSpanned.series_child (h : n.WellSpanned source) {c : Node} (hc : c ∈ n.children) :
    Series source n.span.start n.span.stop [c] := by
  cases hkind : keepsOrder n.kind with
  | true =>
    exact ((h.series hkind).sublist (List.singleton_sublist.mpr hc)).mono
      (n.kind.start_le_inside n.span) (n.kind.inside_le_stop n.span)
  | false =>
    have hchildren := h.fits.children
    rw [if_neg (by simp [hkind])] at hchildren
    obtain ⟨hlo, -, hhi⟩ := hchildren.2 c hc
    exact Series.singleton_iff.mpr ⟨hlo, (every_iff.mp h).2 c hc, hhi⟩

mutual

/-- A well spanned tree passes the check of its spans. -/
theorem WellSpanned.spansInOrder : ∀ {n : Node}, n.WellSpanned source → n.spansInOrder = true
  | .mk span kind children layout, h => by
    rw [Node.spansInOrder]
    refine childrenInOrder_of_series children (fun c hc => h.series_child hc) fun hkind => ?_
    exact (h.series hkind).mono (kind.start_le_inside span) (kind.inside_le_stop span)

theorem childrenInOrder_of_series {outer : Span} {ordered : Bool} {least : Nat} :
    ∀ ns : List Node, (∀ n ∈ ns, Series source outer.start outer.stop [n]) →
      (ordered = true → Series source least outer.stop ns) →
        childrenInOrder outer ordered least ns = true
  | [], _, _ => rfl
  | n :: ns, hlies, horder => by
    obtain ⟨⟨hlo, hwell, hhi⟩, hrest⟩ := List.forall_mem_cons.mp hlies
    have hhi' : n.span.stop ≤ outer.stop := hhi
    have hchild := hwell.spansInOrder
    have hnext := childrenInOrder_of_series ns hrest fun h => (horder h).2.2
    have hleast : ordered = true → least ≤ n.span.start := fun h => (horder h).1
    rw [childrenInOrder, hchild, hnext, lies]
    cases ordered with
    | false => simp [hlo, hhi', hwell.start_le_stop]
    | true => simp [hlo, hhi', hwell.start_le_stop, hleast rfl]

end

end Node

end Bracemark
