/-
The visits of the walk.

The walk comes to the nodes of a tree one after another, each before its children. A `Visit`
is one such coming: where the node stands in the tree, the context that the walk has when it
comes there, and the node. The counters are threaded through the whole walk, so what number
something has can only be said from the visits before it.

An assertion about the visits so far, the position and the context is `Stable` if it is kept
when the walk comes to a node and when it goes on after one. A stable assertion that holds at
the beginning holds wherever the walk comes to (`Stable.of_split`).
-/
import Bracemark.Proofs.Walk

set_option autoImplicit false

namespace Bracemark

/-! ## Positions -/

/-- Whether a node of this kind is a section. -/
def Kind.isSection : Kind → Bool
  | .element ⟨_, _, .division _⟩ => true
  | _ => false

/-- Where a node stands in a tree. Nodes are told apart by their index, the number of nodes
that the walk comes to before. -/
structure Position where
  index : Nat
  /-- The nodes around it, outermost first. -/
  above : List Nat
  /-- The sections among the nodes around it. -/
  sections : List Nat
deriving DecidableEq, Repr

namespace Position

/-- Where a tree begins. -/
def start : Position := ⟨0, [], []⟩

/-- Where the children of a node begin. -/
def inside (p : Position) (k : Kind) : Position :=
  ⟨p.index + 1, p.above ++ [p.index],
    if k.isSection then p.sections ++ [p.index] else p.sections⟩

/-- Where the walk goes on after so many nodes. -/
def past (p : Position) (count : Nat) : Position :=
  { p with index := p.index + count }

@[simp] theorem index_inside (p : Position) (k : Kind) : (p.inside k).index = p.index + 1 := rfl

@[simp] theorem above_inside (p : Position) (k : Kind) :
    (p.inside k).above = p.above ++ [p.index] := rfl

@[simp] theorem index_past (p : Position) (count : Nat) :
    (p.past count).index = p.index + count := rfl

@[simp] theorem above_past (p : Position) (count : Nat) : (p.past count).above = p.above := rfl

@[simp] theorem sections_past (p : Position) (count : Nat) :
    (p.past count).sections = p.sections := rfl

theorem past_past (p : Position) (m n : Nat) : (p.past m).past n = p.past (m + n) := by
  simp only [past, Nat.add_assoc]

theorem sections_inside_of_section (p : Position) {k : Kind} (h : k.isSection = true) :
    (p.inside k).sections = p.sections ++ [p.index] :=
  if_pos h

theorem sections_inside_of_not_section (p : Position) {k : Kind} (h : k.isSection = false) :
    (p.inside k).sections = p.sections := by
  rw [inside, h]
  rfl

/-- What is around a position comes before it. -/
structure Valid (p : Position) : Prop where
  above : ∀ j ∈ p.above, j < p.index
  sections : ∀ j ∈ p.sections, j < p.index

theorem Valid.inside {p : Position} (h : p.Valid) (k : Kind) : (p.inside k).Valid := by
  have hlast : ∀ js : List Nat, (∀ j ∈ js, j < p.index) →
      ∀ j ∈ js ++ [p.index], j < p.index + 1 := by
    intro js hjs j hj
    rcases List.mem_append.mp hj with hj | hj
    · exact Nat.lt_succ_of_lt (hjs j hj)
    · rw [List.mem_singleton.mp hj]
      exact Nat.lt_succ_self _
  refine ⟨hlast _ h.above, ?_⟩
  by_cases hk : k.isSection = true
  · rw [sections_inside_of_section p hk]
    exact hlast _ h.sections
  · rw [sections_inside_of_not_section p (Bool.not_eq_true _ ▸ hk)]
    exact fun j hj => Nat.lt_succ_of_lt (h.sections j hj)

theorem Valid.past {p : Position} (h : p.Valid) (count : Nat) : (p.past count).Valid :=
  ⟨fun j hj => Nat.lt_add_right count (h.above j hj),
    fun j hj => Nat.lt_add_right count (h.sections j hj)⟩

/-- The walk comes from `p` to `q` without leaving what is around `p`. -/
structure LeadsTo (p q : Position) : Prop where
  index_le : p.index ≤ q.index
  above : ∃ js, q.above = p.above ++ js ∧ ∀ j ∈ js, p.index ≤ j
  sections : ∃ js, q.sections = p.sections ++ js ∧ ∀ j ∈ js, p.index ≤ j

namespace LeadsTo

variable {p q r : Position}

theorem refl (p : Position) : p.LeadsTo p :=
  ⟨le_rfl, ⟨[], (List.append_nil _).symm, by simp⟩, ⟨[], (List.append_nil _).symm, by simp⟩⟩

theorem trans (h : p.LeadsTo q) (h' : q.LeadsTo r) : p.LeadsTo r := by
  have hjoin : ∀ {as bs cs : List Nat}, (∃ js, bs = as ++ js ∧ ∀ j ∈ js, p.index ≤ j) →
      (∃ js, cs = bs ++ js ∧ ∀ j ∈ js, q.index ≤ j) →
      ∃ js, cs = as ++ js ∧ ∀ j ∈ js, p.index ≤ j := by
    rintro as bs cs ⟨js, rfl, hjs⟩ ⟨ks, rfl, hks⟩
    refine ⟨js ++ ks, List.append_assoc _ _ _, fun j hj => ?_⟩
    rcases List.mem_append.mp hj with hj | hj
    · exact hjs j hj
    · exact h.index_le.trans (hks j hj)
  exact ⟨h.index_le.trans h'.index_le, hjoin h.above h'.above, hjoin h.sections h'.sections⟩

theorem inside (p : Position) (k : Kind) : p.LeadsTo (p.inside k) := by
  refine ⟨Nat.le_succ _, ⟨[p.index], rfl, by simp⟩, ?_⟩
  by_cases hk : k.isSection = true
  · exact ⟨[p.index], sections_inside_of_section p hk, by simp⟩
  · refine ⟨[], ?_, by simp⟩
    rw [sections_inside_of_not_section p (Bool.not_eq_true _ ▸ hk), List.append_nil]

theorem past (p : Position) (count : Nat) : p.LeadsTo (p.past count) :=
  ⟨Nat.le_add_right _ _, ⟨[], (List.append_nil _).symm, by simp⟩,
    ⟨[], (List.append_nil _).symm, by simp⟩⟩

end LeadsTo

end Position

/-! ## Visits -/

/-- One coming of the walk to a node. -/
structure Visit where
  position : Position
  /-- The context that the walk has when it comes to the node. -/
  context : Context
  node : Node

namespace Visit

/-- What the walk makes of the kind of the node and of the context. -/
def entered (v : Visit) : Kind × Context :=
  v.node.kind.enter v.context v.node.children

/-- The kind that the walk gives to the node. -/
def kind (v : Visit) : Kind :=
  v.entered.1

/-- Whether the walk comes to a section. -/
def isSection (v : Visit) : Bool :=
  v.node.kind.isSection

end Visit

namespace Node

mutual

/-- The visits that the walk makes in a node. -/
def visits (p : Position) (c : Context) : Node → List Visit
  | .mk span kind children layout =>
    ⟨p, c, .mk span kind children layout⟩ ::
      visitsAll (p.inside kind) (c.inside kind children) children

/-- The visits that the walk makes in some nodes, one after another. -/
def visitsAll (p : Position) (c : Context) : List Node → List Visit
  | [] => []
  | n :: ns =>
    let first := n.visits p c
    match n.prepare c with
    | .error _ => first
    | .ok (_, d) => first ++ visitsAll (p.past first.length) d ns

end

theorem visitsAll_cons {c d : Context} {n m : Node} (p : Position) (ns : List Node)
    (h : n.prepare c = .ok (m, d)) :
    visitsAll p c (n :: ns) =
      n.visits p c ++ visitsAll (p.past (n.visits p c).length) d ns := by
  rw [visitsAll, h]

mutual

/-- Every node of a tree is visited once, in the order of the tree. -/
theorem map_node_visits (p : Position) (c : Context) :
    ∀ n : Node, (n.visits p c).map Visit.node = n.nodes
  | .mk span k children l => by
    rw [visits, List.map_cons, map_node_visitsAll, nodes_mk]

theorem map_node_visitsAll (p : Position) (c : Context) :
    ∀ ns : List Node, (visitsAll p c ns).map Visit.node = ns.flatMap nodes
  | [] => rfl
  | n :: ns => by
    obtain ⟨m, d, hn, -⟩ := prepare_restores c n
    rw [visitsAll_cons p ns hn, List.map_append, map_node_visits p c n,
      map_node_visitsAll _ d ns, List.flatMap_cons]

end

mutual

/-- The walk gives to the nodes of a tree the kinds that it gives them at its visits. -/
theorem map_kind_visits (p : Position) {c d : Context} :
    ∀ {n m : Node}, n.prepare c = .ok (m, d) → m.nodes.map Node.kind = (n.visits p c).map Visit.kind
  | .mk span k children l, m, h => by
    obtain ⟨ns, e, hns, rfl, -⟩ := prepare_mk h
    rw [nodes_mk, visits, List.map_cons, List.map_cons, map_kind_visitsAll (p.inside k) hns]
    rfl

theorem map_kind_visitsAll (p : Position) {c d : Context} :
    ∀ {ns ms : List Node}, prepareAll c ns = .ok (ms, d) →
      (ms.flatMap nodes).map Node.kind = (visitsAll p c ns).map Visit.kind
  | [], ms, h => by
    cases h
    rfl
  | n :: ns, ms, h => by
    obtain ⟨m, ms', e, hn, hns, rfl, -⟩ := prepareAll_cons h
    rw [visitsAll_cons p ns hn, List.flatMap_cons, List.map_append, List.map_append,
      map_kind_visits p hn, map_kind_visitsAll _ hns]

end

mutual

/-- The visits in a node stay inside what is around it. -/
theorem leadsTo_of_mem_visits (p : Position) {c d : Context} :
    ∀ {n m : Node}, n.prepare c = .ok (m, d) → ∀ v ∈ n.visits p c, p.LeadsTo v.position
  | .mk span k children l, m, h, v, hv => by
    obtain ⟨ns, e, hns, rfl, -⟩ := prepare_mk h
    rw [visits] at hv
    rcases List.mem_cons.mp hv with rfl | hv
    · exact .refl p
    · exact (Position.LeadsTo.inside p k).trans (leadsTo_of_mem_visitsAll _ hns v hv)

theorem leadsTo_of_mem_visitsAll (p : Position) {c d : Context} :
    ∀ {ns ms : List Node}, prepareAll c ns = .ok (ms, d) →
      ∀ v ∈ visitsAll p c ns, p.LeadsTo v.position
  | [], ms, _, v, hv => by cases hv
  | n :: ns, ms, h, v, hv => by
    obtain ⟨m, ms', e, hn, hns, rfl, -⟩ := prepareAll_cons h
    rw [visitsAll_cons p ns hn] at hv
    rcases List.mem_append.mp hv with hv | hv
    · exact leadsTo_of_mem_visits p hn v hv
    · exact (Position.LeadsTo.past p _).trans (leadsTo_of_mem_visitsAll _ hns v hv)

end

end Node

/-! ## What holds all along -/

theorem mem_of_split {α : Type} {l b a : List α} {v : α} (h : l = b ++ v :: a) : v ∈ l :=
  h ▸ List.mem_append_cons_self

theorem mem_of_mem_before {α : Type} {l b a : List α} {u v : α} (h : l = b ++ v :: a)
    (hu : u ∈ b) : u ∈ l :=
  h ▸ List.mem_append_left _ hu

/-- Of two members of a list, one comes before the other or they are the same. -/
theorem mem_or_mem_of_split {α : Type} {b b' a a' : List α} {u v : α}
    (h : b ++ u :: a = b' ++ v :: a') : u ∈ b' ∨ u = v ∨ v ∈ b := by
  rcases List.append_eq_append_iff.mp h with ⟨m, rfl, hm⟩ | ⟨m, rfl, hm⟩
  · cases m with
    | nil => exact .inr (.inl (List.cons.inj hm).1)
    | cons w m =>
      rw [(List.cons.inj hm).1]
      exact .inl List.mem_append_cons_self
  · cases m with
    | nil => exact .inr (.inl (List.cons.inj hm).1.symm)
    | cons w m =>
      rw [(List.cons.inj hm).1]
      exact .inr (.inr List.mem_append_cons_self)

/-- The visits `h` come before the position `p`. -/
structure Ordered (h : List Visit) (p : Position) : Prop where
  valid : p.Valid
  earlier : ∀ b ∈ h, b.position.Valid ∧ b.position.index < p.index

namespace Ordered

variable {h : List Visit} {p : Position}

theorem start : Ordered [] .start :=
  ⟨⟨by simp [Position.start], by simp [Position.start]⟩, by simp⟩

theorem inside (ho : Ordered h p) (c : Context) (n : Node) :
    Ordered (h ++ [⟨p, c, n⟩]) (p.inside n.kind) := by
  refine ⟨ho.valid.inside n.kind, fun b hb => ?_⟩
  rcases List.mem_append.mp hb with hb | hb
  · exact ⟨(ho.earlier b hb).1, Nat.lt_succ_of_lt (ho.earlier b hb).2⟩
  · rw [List.mem_singleton.mp hb]
    exact ⟨ho.valid, Nat.lt_succ_self _⟩

/-- An index that is not used yet is neither around an earlier visit nor its own. -/
theorem index_notMem (ho : Ordered h p) {b : Visit} (hb : b ∈ h) :
    p.index ≠ b.position.index ∧ p.index ∉ b.position.above ∧ p.index ∉ b.position.sections := by
  obtain ⟨hvalid, hlt⟩ := ho.earlier b hb
  refine ⟨fun heq => absurd hlt (heq ▸ Nat.lt_irrefl _), fun hmem => ?_, fun hmem => ?_⟩
  · exact absurd (hvalid.above _ hmem) (Nat.not_lt.mpr hlt.le)
  · exact absurd (hvalid.sections _ hmem) (Nat.not_lt.mpr hlt.le)

end Ordered

/-- A node and what is inside it do not come before the position of the node. -/
theorem index_le_of_mem_cons {p : Position} {n : Node} {inner : List Visit} (c : Context)
    (hinner : ∀ b ∈ inner, (p.inside n.kind).LeadsTo b.position) :
    ∀ b ∈ (⟨p, c, n⟩ : Visit) :: inner, p.index ≤ b.position.index := by
  intro b hb
  rcases List.mem_cons.mp hb with rfl | hb
  · exact le_rfl
  · exact (Nat.le_succ _).trans (hinner b hb).index_le

/-- The assertion holds before each of the visits `vs`, when `h` are those before them. -/
def Along (I : List Visit → Position → Context → Prop) (h : List Visit) : List Visit → Prop
  | [] => True
  | v :: vs => (Ordered h v.position ∧ I h v.position v.context) ∧ Along I (h ++ [v]) vs

section

variable {I : List Visit → Position → Context → Prop}

theorem along_append {us vs : List Visit} :
    ∀ {h : List Visit}, Along I h us → Along I (h ++ us) vs → Along I h (us ++ vs) := by
  induction us with
  | nil =>
    intro h _ hvs
    rwa [List.append_nil] at hvs
  | cons u us ih =>
    intro h hus hvs
    rw [List.append_cons] at hvs
    exact ⟨hus.1, ih hus.2 hvs⟩

theorem Along.of_split {v : Visit} {before after : List Visit} :
    ∀ {h : List Visit}, Along I h (before ++ v :: after) →
      Ordered (h ++ before) v.position ∧ I (h ++ before) v.position v.context := by
  induction before with
  | nil =>
    intro h hv
    rw [List.append_nil]
    exact hv.1
  | cons u before ih =>
    intro h hv
    rw [List.append_cons]
    exact ih hv.2

end

/-- An assertion about the visits so far, the position and the context that is kept whenever
the walk comes to a node, and whenever it goes on after a node and the visits inside it. -/
structure Stable (I : List Visit → Position → Context → Prop) : Prop where
  enter {h : List Visit} {p : Position} {c : Context} (n : Node) :
    Ordered h p → I h p c →
      I (h ++ [⟨p, c, n⟩]) (p.inside n.kind) (c.inside n.kind n.children)
  leave {h inner : List Visit} {p : Position} {c d e : Context} {n : Node} :
    Ordered h p → I h p c → (∀ b ∈ inner, (p.inside n.kind).LeadsTo b.position) →
      I (h ++ ⟨p, c, n⟩ :: inner) ((p.inside n.kind).past inner.length) d →
      c.Passes n.kind n.children d e →
      I (h ++ ⟨p, c, n⟩ :: inner) (p.past (inner.length + 1)) e

/-- After the visits `vs` the walk is at the right place, and the assertion holds there and
has held all along. -/
structure Kept (I : List Visit → Position → Context → Prop) (h : List Visit) (p : Position)
    (vs : List Visit) (d : Context) : Prop where
  ordered : Ordered (h ++ vs) (p.past vs.length)
  after : I (h ++ vs) (p.past vs.length) d
  along : Along I h vs

namespace Stable

variable {I : List Visit → Position → Context → Prop}

mutual

theorem visits (hI : Stable I) {h : List Visit} {p : Position} {c d : Context}
    (ho : Ordered h p) (hi : I h p c) :
    ∀ {n m : Node}, n.prepare c = .ok (m, d) → Kept I h p (n.visits p c) d
  | .mk span k children l, m, hm => by
    obtain ⟨ns, e, hns, rfl, hpasses⟩ := Node.prepare_mk hm
    -- The walk comes to the children after the node itself.
    have hinner : Kept I (h ++ [⟨p, c, .mk span k children l⟩]) (p.inside k)
        (Node.visitsAll (p.inside k) (c.inside k children) children) e :=
      visitsAll hI (ho.inside c (.mk span k children l))
        (hI.enter (.mk span k children l) ho hi) hns
    obtain ⟨hordered, hafter, halong⟩ := hinner
    rw [List.append_assoc, List.singleton_append] at hordered hafter
    rw [Node.visits]
    refine ⟨⟨ho.valid.past _, ?_⟩, ?_, ⟨ho, hi⟩, halong⟩
    · intro b hb
      obtain ⟨hvalid, hlt⟩ := hordered.earlier b hb
      rw [Position.index_past, Position.index_inside] at hlt
      rw [Position.index_past, List.length_cons]
      exact ⟨hvalid, by omega⟩
    · exact hI.leave ho hi (Node.leadsTo_of_mem_visitsAll _ hns) hafter hpasses

theorem visitsAll (hI : Stable I) {h : List Visit} {p : Position} {c d : Context}
    (ho : Ordered h p) (hi : I h p c) :
    ∀ {ns ms : List Node}, Node.prepareAll c ns = .ok (ms, d) →
      Kept I h p (Node.visitsAll p c ns) d
  | [], ms, hms => by
    cases hms
    rw [Node.visitsAll]
    refine ⟨?_, ?_, trivial⟩
    · rw [List.append_nil]
      exact ho
    · rw [List.append_nil]
      exact hi
  | n :: ns, ms, hms => by
    obtain ⟨m, ms', e, hn, hns, rfl, -⟩ := Node.prepareAll_cons hms
    obtain ⟨hordered, hafter, halong⟩ := visits hI ho hi hn
    obtain ⟨hordered', hafter', halong'⟩ := visitsAll hI hordered hafter hns
    rw [Node.visitsAll_cons p ns hn]
    rw [List.append_assoc, Position.past_past, ← List.length_append] at hordered' hafter'
    exact ⟨hordered', hafter', along_append halong halong'⟩

end

/-- **What is stable holds wherever the walk comes to.** -/
theorem of_split (hI : Stable I) {c : Context} {n : Node} {before after : List Visit} {v : Visit}
    (hi : I [] .start c) (h : n.visits .start c = before ++ v :: after) :
    Ordered before v.position ∧ I before v.position v.context := by
  obtain ⟨m, d, hm, -⟩ := Node.prepare_restores c n
  have halong := (hI.visits .start hi hm).along
  rw [h] at halong
  exact halong.of_split

end Stable

theorem stable_index : Stable fun h p _ => h.map (·.position.index) = List.range p.index where
  enter n _ hi := by
    rw [List.map_append, hi, Position.index_inside, List.range_succ]
    rfl
  leave {h inner p c d e n} _ _ _ hd _ := by
    rw [hd, Position.index_past, Position.index_past, Position.index_inside]
    congr 1
    omega

theorem stable_settings (s : Settings) : Stable fun _ _ c => c.settings = s where
  enter n _ hi := (Kind.settings_enter _ n.children n.kind).trans hi
  leave _ hi _ _ hpasses := hpasses.around.settings.trans hi

/-- The lists of what is around a position are in order: what stands before a node in the list
is what is around that node, and likewise for sections. -/
structure Nested (h : List Visit) (p : Position) : Prop where
  above : ∀ b ∈ h, b.position.index ∈ p.above →
    ∃ js, p.above = b.position.above ++ b.position.index :: js
  sections : ∀ b ∈ h, b.position.index ∈ p.sections →
    b.isSection = true ∧ ∃ js, p.sections = b.position.sections ++ b.position.index :: js
  /-- What begins before a visit and is still around is around the visit, too. -/
  earlier : ∀ b ∈ h, ∀ j ∈ p.above, j < b.position.index → j ∈ b.position.above

theorem nested_start : Nested [] .start :=
  ⟨by simp, by simp, by simp⟩

theorem Nested.enter {h : List Visit} {p : Position} (ho : Ordered h p) (hi : Nested h p)
    (c : Context) (n : Node) : Nested (h ++ [⟨p, c, n⟩]) (p.inside n.kind) := by
  -- What an earlier node has around it still stands in front, followed by that node, when the
  -- new node comes last.
  have hsnoc : ∀ {as bs : List Nat} {i : Nat}, (∃ js, as = bs ++ i :: js) →
      ∃ js, as ++ [p.index] = bs ++ i :: js := by
    rintro as bs i ⟨js, rfl⟩
    exact ⟨js ++ [p.index], by rw [List.append_assoc, List.cons_append]⟩
  -- No earlier node has the index of the new one.
  have hearlier : ∀ {b : Visit} {js : List Nat}, b ∈ h → b.position.index ∈ js ++ [p.index] →
      b.position.index ∈ js := by
    intro b js hb hmem
    rcases List.mem_append.mp hmem with hmem | hmem
    · exact hmem
    · exact absurd (List.mem_singleton.mp hmem) (ho.earlier b hb).2.ne
  refine ⟨fun b hb hmem => ?_, fun b hb hmem => ?_, fun b hb j hj hlt => ?_⟩
  · rw [Position.above_inside] at hmem ⊢
    rcases List.mem_append.mp hb with hb | hb
    · exact hsnoc (hi.above b hb (hearlier hb hmem))
    · rw [List.mem_singleton.mp hb]
      exact ⟨[], rfl⟩
  · by_cases hn : n.kind.isSection = true
    · rw [Position.sections_inside_of_section p hn] at hmem ⊢
      rcases List.mem_append.mp hb with hb | hb
      · obtain ⟨hsection, hjs⟩ := hi.sections b hb (hearlier hb hmem)
        exact ⟨hsection, hsnoc hjs⟩
      · rw [List.mem_singleton.mp hb]
        exact ⟨hn, [], rfl⟩
    · rw [Position.sections_inside_of_not_section p (Bool.not_eq_true _ ▸ hn)] at hmem ⊢
      rcases List.mem_append.mp hb with hb | hb
      · exact hi.sections b hb hmem
      · rw [List.mem_singleton.mp hb] at hmem
        exact absurd (ho.valid.sections _ hmem) (Nat.lt_irrefl _)
  · rw [Position.above_inside] at hj
    rcases List.mem_append.mp hb with hb | hb
    · rcases List.mem_append.mp hj with hj | hj
      · exact hi.earlier b hb j hj hlt
      · rw [List.mem_singleton.mp hj] at hlt
        exact absurd hlt (ho.earlier b hb).2.not_gt
    · rw [List.mem_singleton.mp hb] at hlt ⊢
      rcases List.mem_append.mp hj with hj | hj
      · exact hj
      · exact absurd (List.mem_singleton.mp hj) hlt.ne

theorem Nested.leave {h inner : List Visit} {p : Position} (ho : Ordered h p) (hi : Nested h p)
    {c : Context} {n : Node} (hinner : ∀ b ∈ inner, (p.inside n.kind).LeadsTo b.position)
    (m : Nat) : Nested (h ++ ⟨p, c, n⟩ :: inner) (p.past m) := by
  -- What is around the position comes before the node and all that is inside it.
  have hlater := index_le_of_mem_cons c hinner
  refine ⟨fun b hb hmem => ?_, fun b hb hmem => ?_, fun b hb j hj hlt => ?_⟩
  · rcases List.mem_append.mp hb with hb | hb
    · exact hi.above b hb hmem
    · exact absurd (ho.valid.above _ hmem) (Nat.not_lt.mpr (hlater b hb))
  · rcases List.mem_append.mp hb with hb | hb
    · exact hi.sections b hb hmem
    · exact absurd (ho.valid.sections _ hmem) (Nat.not_lt.mpr (hlater b hb))
  · rcases List.mem_append.mp hb with hb | hb
    · exact hi.earlier b hb j hj hlt
    · rcases List.mem_cons.mp hb with rfl | hb
      · exact hj
      · obtain ⟨js, hjs, -⟩ := (hinner b hb).above
        rw [hjs, Position.above_inside]
        exact List.mem_append_left _ (List.mem_append_left _ hj)

theorem stable_nested : Stable fun h p _ => Nested h p where
  enter {_ _ c} n ho hi := hi.enter ho c n
  leave ho hi hinner _ _ := hi.leave ho hinner _

namespace Node

/-- **Nodes are told apart by their index.** The visits are numbered in their order. -/
theorem map_index_visits (c : Context) (n : Node) :
    (n.visits .start c).map (·.position.index) = List.range (n.visits .start c).length := by
  obtain ⟨m, d, hm, -⟩ := prepare_restores c n
  have hafter := (stable_index.visits .start rfl hm).after
  rw [List.nil_append, Position.index_past] at hafter
  rw [hafter]
  exact congrArg List.range (Nat.zero_add _)

theorem nodup_index_visits (c : Context) (n : Node) :
    ((n.visits .start c).map (·.position.index)).Nodup := by
  rw [map_index_visits]
  exact List.nodup_range

theorem nodup_visits (c : Context) (n : Node) : (n.visits .start c).Nodup :=
  List.Nodup.of_map _ (nodup_index_visits c n)

theorem eq_of_index_eq {c : Context} {n : Node} {u v : Visit} (hu : u ∈ n.visits .start c)
    (hv : v ∈ n.visits .start c) (h : u.position.index = v.position.index) : u = v :=
  List.inj_on_of_nodup_map (nodup_index_visits c n) hu hv h

/-- The visits before another are those with a smaller index. -/
theorem mem_before_iff {c : Context} {n : Node} {before after : List Visit} {u v : Visit}
    (hsplit : n.visits .start c = before ++ v :: after) (hu : u ∈ n.visits .start c) :
    u ∈ before ↔ u.position.index < v.position.index := by
  obtain ⟨hordered, -⟩ := stable_index.of_split (c := c) rfl hsplit
  refine ⟨fun hmem => (hordered.earlier u hmem).2, fun hlt => ?_⟩
  obtain ⟨before', after', hsplit'⟩ := List.append_of_mem hu
  obtain ⟨hordered', -⟩ := stable_index.of_split (c := c) rfl hsplit'
  -- One of the two comes first, and that is the one with the smaller index.
  rcases mem_or_mem_of_split (hsplit'.symm.trans hsplit) with hmem | rfl | hmem
  · exact hmem
  · exact absurd hlt (Nat.lt_irrefl _)
  · exact absurd hlt (hordered'.earlier v hmem).2.not_gt

/-- Two visits in their order, and those in between. -/
theorem exists_split {c : Context} {n : Node} {u v : Visit} (hu : u ∈ n.visits .start c)
    (hv : v ∈ n.visits .start c) (hlt : u.position.index < v.position.index) :
    ∃ before mid after, n.visits .start c = before ++ u :: (mid ++ v :: after) ∧
      ∀ b ∈ n.visits .start c, b ∈ mid ↔
        u.position.index < b.position.index ∧ b.position.index < v.position.index := by
  obtain ⟨earlier, after, hsplit⟩ := List.append_of_mem hv
  obtain ⟨before, mid, rfl⟩ := List.append_of_mem ((mem_before_iff hsplit hu).mpr hlt)
  have hsplit' : n.visits .start c = before ++ u :: (mid ++ v :: after) := by
    rw [hsplit, List.append_assoc, List.cons_append]
  refine ⟨before, mid, after, hsplit', fun b hb => ⟨fun hmem => ?_, fun ⟨hgt, hlt⟩ => ?_⟩⟩
  · obtain ⟨l₁, l₂, rfl⟩ := List.append_of_mem hmem
    have hsplit'' : n.visits .start c = (before ++ u :: l₁) ++ b :: (l₂ ++ v :: after) := by
      rw [hsplit]
      simp only [List.append_assoc, List.cons_append]
    refine ⟨(mem_before_iff hsplit'' hu).mp ?_, (mem_before_iff hsplit hb).mp ?_⟩
    · exact List.mem_append_cons_self
    · exact List.mem_append_right _ (List.mem_cons_of_mem _ hmem)
  · rcases List.mem_append.mp ((mem_before_iff hsplit hb).mpr hlt) with hmem | hmem
    · exact absurd hgt ((mem_before_iff hsplit' hb).mp hmem).not_gt
    · rcases List.mem_cons.mp hmem with rfl | hmem
      · exact absurd hgt (Nat.lt_irrefl _)
      · exact hmem

end Node

end Bracemark
