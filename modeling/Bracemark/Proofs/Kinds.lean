/-
Elements, from what is read to what is kept.

Assembly, the trimming of cells and code, and the layout of tables move elements from
place to place and leave some of them out. They make nodes of other kinds as they go, but
an element node is made in one place only, where an element has been read. So a property
that all other nodes take over from the nodes in them (`Node.Transparent`) holds of a tree
that has been put in order if it holds of the nodes that it was made of
(`Node.Transparent.assemble`, `Node.Transparent.node?`).

That something holds of every node is such a property if it asks something of elements only.
Most of what is asked of an element is asked of its kind alone; what is asked of a node may
also speak of what is inside it.
-/
import Bracemark.Proofs.Gathering
import Bracemark.Proofs.TableSpans

set_option autoImplicit false

namespace Bracemark

/-- The property asks something of elements only. -/
def Kind.AsksOfElements (K : Kind → Prop) : Prop :=
  ∀ k, (∀ e, k ≠ .element e) → K k

/-- Whether assembly makes nodes of this kind: text, groups and paragraphs. -/
def Kind.isAssembled : Kind → Bool
  | .text _ | .inlineGroup | .paragraph => true
  | _ => false

/-! ## Trees -/

namespace Node

/-- The property asks something of element nodes only. -/
def AsksOfElements (P : Node → Prop) : Prop :=
  ∀ n : Node, (∀ e, n.kind ≠ .element e) → P n

/-- The property asks nothing of the nodes that assembly makes. -/
def AllowsAssembled (P : Node → Prop) : Prop :=
  ∀ n : Node, n.kind.isAssembled = true → P n

theorem AsksOfElements.allows {P : Node → Prop} (hP : AsksOfElements P) : AllowsAssembled P := by
  intro n hn
  refine hP n fun e he => ?_
  rw [he] at hn
  cases hn

/-- All nodes of some trees have a property. -/
def AllEvery (P : Node → Prop) (ns : List Node) : Prop :=
  ∀ n ∈ ns, n.Every P

/-- The kinds of all nodes of a tree have a property. -/
def EveryKind (K : Kind → Prop) (n : Node) : Prop :=
  n.Every fun m => K m.kind

/-- The kinds of all nodes of some trees have a property. -/
def AllKinds (K : Kind → Prop) (ns : List Node) : Prop :=
  ∀ n ∈ ns, n.EveryKind K

theorem asksOfElements_kind {K : Kind → Prop} (h : Kind.AsksOfElements K) :
    AsksOfElements fun n => K n.kind :=
  fun n hn => h n.kind hn

variable {K : Kind → Prop} {P : Node → Prop} {n m : Node} {ns ms : List Node}

theorem everyKind_iff : n.EveryKind K ↔ K n.kind ∧ AllKinds K n.children :=
  every_iff

theorem EveryKind.kind (h : n.EveryKind K) : K n.kind :=
  (everyKind_iff.mp h).1

theorem EveryKind.children (h : n.EveryKind K) : AllKinds K n.children :=
  (everyKind_iff.mp h).2

theorem everyKind_mk {span : Span} {k : Kind} {l : Layout} :
    (mk span k ns l).EveryKind K ↔ K k ∧ AllKinds K ns :=
  everyKind_iff

theorem allKinds_nil : AllKinds K [] :=
  fun _ h => by cases h

theorem allKinds_cons : AllKinds K (n :: ns) ↔ n.EveryKind K ∧ AllKinds K ns :=
  List.forall_mem_cons

theorem Every.children (h : n.Every P) : AllEvery P n.children :=
  (every_iff.mp h).2

/-! ## Assembly -/

/-- Nodes that assembly takes apart hand the property on to the nodes in them, and nodes that it
makes have the property if the nodes in them have it. -/
structure KeptInAssembly (H : Node → Prop) : Prop where
  inner {n : Node} : n.kind.isLoose = true ∨ n.kind.isAssembled = true → H n →
    ∀ c ∈ n.children, H c
  made {n : Node} : n.kind.isAssembled = true → (∀ c ∈ n.children, H c) → H n

section

variable {H : Node → Prop} (hH : KeptInAssembly H)
include hH

theorem KeptInAssembly.text (span : Span) (s : String) : H (text span s) :=
  hH.made rfl (List.forall_mem_nil _)

theorem KeptInAssembly.gathering : KeptInGathering H where
  text := hH.text
  inner h hloose := hH.inner (.inl hloose) h _
  grown h hold hnew hchildren :=
    hH.made (by rw [hnew]; rfl) (hchildren ▸ hH.inner (.inr (by rw [hold]; rfl)) h)

theorem KeptInAssembly.gathered (h : ∀ c ∈ ns, H c) (c : Node)
    (hc : Gathered ns c ∨ Bundle ns c) : H c := by
  have hgathered : ∀ d, Gathered ns d → H d := fun d hd => hd.kept hH.gathering h
  rcases hc with hc | hc
  · exact hgathered c hc
  · refine hH.made ?_ fun d hd => hgathered d (hc.children d hd)
    rcases hc.kind with hkind | hkind <;> rw [hkind] <;> rfl

/-- **Assembly moves elements and makes none.** -/
theorem KeptInAssembly.assemble (h : ∀ c ∈ n.children, H c) : ∀ c ∈ n.assemble.children, H c :=
  fun c hc => hH.gathered h c (gathered_or_bundle_of_mem_assemble n c hc)

end

theorem AllowsAssembled.kept (hP : AllowsAssembled P) : KeptInAssembly (Every P) where
  inner _ h := h.children
  made hn h := every_iff.mpr ⟨hP _ hn, h⟩

theorem AllEvery.assemble (hP : AllowsAssembled P) (h : AllEvery P n.children) :
    AllEvery P n.assemble.children :=
  hP.kept.assemble h

/-! ## Properties of trees -/

/-- The property of a tree that is no element is that of the trees in it. -/
def Transparent (H : Node → Prop) : Prop :=
  ∀ n : Node, (∀ e, n.kind ≠ .element e) → (H n ↔ ∀ c ∈ n.children, H c)

/-- That all nodes have a property which asks something of elements only. -/
theorem AsksOfElements.transparent (hP : AsksOfElements P) : Transparent (Every P) :=
  fun n hn => every_iff.trans (and_iff_right (hP n hn))

end Node

open Node

variable {n : Node} {ns : List Node}

/-- The second node is the first one, or that with another text where it is a text. -/
def Node.Retexted (n m : Node) : Prop :=
  m = n ∨ ∃ s t, n.kind = .text s ∧ m = n.withKind (.text t)

theorem Node.Retexted.trans {l m : Node} (hlm : l.Retexted m) (hmn : m.Retexted n) :
    l.Retexted n := by
  rcases hlm with rfl | ⟨s, t, hkind, rfl⟩
  · exact hmn
  · rcases hmn with rfl | ⟨_, t', -, rfl⟩
    · exact .inr ⟨s, t, hkind, rfl⟩
    · exact .inr ⟨s, t', hkind, rfl⟩

theorem retexted_trimTextStart (n : Node) : n.Retexted (trimTextStart n) := by
  unfold trimTextStart
  split
  · next s hkind => exact .inr ⟨s, _, hkind, rfl⟩
  · exact .inl rfl

theorem retexted_trimTextEnd (n : Node) : n.Retexted (trimTextEnd n) := by
  unfold trimTextEnd
  split
  · next s hkind => exact .inr ⟨s, _, hkind, rfl⟩
  · exact .inl rfl

theorem exists_retexted_of_mem_modify {f : Node → Node} (hf : ∀ n : Node, n.Retexted (f n))
    {i : Nat} {c : Node} (hc : c ∈ ns.modify i f) : ∃ n ∈ ns, n.Retexted c := by
  obtain ⟨j, hj⟩ := List.mem_iff_getElem?.mp hc
  rw [List.getElem?_modify] at hj
  obtain ⟨n, hn, rfl⟩ := Option.map_eq_some_iff.mp hj
  refine ⟨n, List.mem_of_getElem? hn, ?_⟩
  split
  · exact hf n
  · exact .inl rfl

/-- The content of a cell is what has been read, with other texts at its two ends. -/
theorem exists_retexted_of_mem_trimEdges {c : Node} (hc : c ∈ trimEdges ns) :
    ∃ n ∈ ns, n.Retexted c := by
  have hedges := List.mem_of_mem_filter hc
  obtain ⟨m, hm, hmc⟩ := exists_retexted_of_mem_modify retexted_trimTextEnd hedges
  rw [List.modifyHead_eq_modify_zero] at hm
  obtain ⟨n, hn, hnm⟩ := exists_retexted_of_mem_modify retexted_trimTextStart hm
  exact ⟨n, hn, hnm.trans hmc⟩

namespace Node.Transparent

variable {H : Node → Prop} (hH : Transparent H)
include hH

theorem keptInAssembly : KeptInAssembly H where
  inner {n} hn := (hH n fun e he => by rw [he] at hn; rcases hn with hn | hn <;> cases hn).mp
  made {n} hn := (hH n fun e he => by rw [he] at hn; cases hn).mpr

theorem branch {span : Span} {k : Kind} (hk : ∀ e, k ≠ .element e) (h : ∀ c ∈ ns, H c) :
    H (Node.branch span k ns) :=
  (hH (Node.branch span k ns) hk).mpr h

theorem leaf {span : Span} {k : Kind} (hk : ∀ e, k ≠ .element e) : H (Node.leaf span k) :=
  hH.branch hk (List.forall_mem_nil _)

/-- A node that is no element does not lose the property when it is assembled. -/
theorem assemble (hn : ∀ e, n.kind ≠ .element e) (h : ∀ c ∈ n.children, H c) : H n.assemble :=
  (hH n.assemble (by rwa [kind_assemble])).mpr (hH.keptInAssembly.assemble h)

/-- What is in a node does not depend on the kind of the node. -/
theorem withKind (hn : ∀ e, n.kind ≠ .element e) {k : Kind} (hk : ∀ e, k ≠ .element e) (h : H n) :
    H (n.withKind k) :=
  (hH (n.withKind k) hk).mpr ((hH n hn).mp h)

/-! ## Cells and code -/

theorem cellNode (span : Span) (c : Cell) (h : ∀ n ∈ ns, H n) :
    H (Bracemark.cellNode span c ns) := by
  have hedges : ∀ m ∈ trimEdges ns, H m := fun m hm => by
    obtain ⟨n, hn, hnm⟩ := exists_retexted_of_mem_trimEdges hm
    rcases hnm with rfl | ⟨s, t, hkind, rfl⟩
    · exact h _ hn
    · exact hH.withKind (by simp [hkind]) (by simp) (h n hn)
  exact hH.assemble (by simp [Node.branch]) hedges

theorem keptContent (form : Form) (h : ∀ n ∈ ns, H n) : ∀ n ∈ form.keptContent ns, H n := by
  unfold Form.keptContent codeBody
  split
  · exact fun n hn => h n (List.mem_of_mem_filter hn)
  · split
    · exact List.forall_mem_nil _
    · dsimp only
      split
      · exact List.forall_mem_nil _
      · exact List.forall_mem_singleton.mpr (hH.keptInAssembly.text _ _)
  · exact h

/-! ## Tables -/

theorem boxed (h : ∀ n ∈ ns, H n) (boxes : List Box) :
    ∀ n ∈ Node.withBoxes ns boxes, H n := by
  intro c hc
  obtain ⟨n, hn, hnc⟩ := exists_of_mem_withBoxes hc
  rcases hnc with rfl | ⟨_, _, hkind, rfl⟩
  · exact h _ hn
  · exact hH.withKind (by simp [hkind]) (by simp) (h n hn)

theorem captionOf (hns : ∀ n ∈ ns, n.kind = .caption) (h : ∀ n ∈ ns, H n) :
    ∀ n ∈ Bracemark.captionOf ns, H n := by
  unfold Bracemark.captionOf
  split
  · exact List.forall_mem_nil _
  · refine List.forall_mem_singleton.mpr (hH.assemble (by simp [Node.branch]) fun c hc => ?_)
    obtain ⟨n, hn, hc⟩ := List.mem_flatMap.mp hc
    exact (hH n (by simp [hns n hn])).mp (h n hn) c hc

/-- The rows of a table come from its items, and placing changes only their cells. -/
theorem placed (h : ∀ n ∈ ns, H n) : ∀ b ∈ Block.placed ns, ∀ r ∈ b.rows, H r := by
  intro b hb r hr
  obtain ⟨r', hr', hrow, boxes, rfl⟩ := Block.exists_of_mem_placed hb hr
  have hcells := (hH r' (by simp [hrow])).mp (h r' hr')
  exact (hH _ (by simp [withChildren, hrow])).mpr (hH.boxed hcells boxes)

theorem sectionOf {t : Table} {blocks : List Block} (role : Role)
    (h : ∀ b ∈ blocks, ∀ r ∈ b.rows, H r) :
    ∀ c ∈ Block.sectionOf role (Block.withRoles t blocks), H c := by
  intro c hc
  obtain ⟨groups, hgroups, rfl⟩ := Block.exists_of_mem_sectionOf hc
  refine hH.branch (by simp) fun n hn => ?_
  obtain ⟨b, hb, rfl⟩ := List.mem_map.mp hn
  exact hH.branch (by simp) (h b (hgroups b hb))

theorem layout? {t : Table} {span : Span} (h : ∀ n ∈ ns, H n)
    (hn : t.layout? span ns = some n) : H n := by
  obtain ⟨laid, hkind, -, -, hchildren⟩ := Table.layout?_eq_some hn
  have hcaptions : ∀ c ∈ Bracemark.captionOf (ns.filter Node.isCaption), H c :=
    hH.captionOf (fun c hc => Node.isCaption_iff.mp (List.mem_filter.mp hc).2)
      fun c hc => h c (List.mem_of_mem_filter hc)
  refine (hH n (by simp [hkind])).mpr ?_
  rw [hchildren]
  refine List.forall_mem_append.mpr ⟨hcaptions, fun c hc => ?_⟩
  obtain ⟨role, -, hc⟩ := List.mem_flatMap.mp hc
  exact hH.sectionOf role (hH.placed h) c hc

/-! ## Elements -/

/-- **The node that an element becomes** has one element node that its content has not:
the element itself, where its form has a feature. -/
theorem node? {shape : Shape} {header : Header}
    (hmade : ∀ feature, shape = .element feature → H (Node.branch header.span
      (.element ⟨header.name, header.arguments, feature⟩) ns).assemble)
    (h : ∀ n ∈ ns, H n) (hn : shape.node? header ns = some n) : H n := by
  cases shape with
  | element feature =>
    cases hn
    exact hmade feature rfl
  | table t => exact hH.layout? h hn
  | cell c =>
    cases hn
    exact hH.cellNode _ c h
  | caption =>
    cases hn
    exact hH.assemble (by simp [Node.branch]) h

end Node.Transparent

end Bracemark
