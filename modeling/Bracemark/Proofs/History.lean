/-
Writing a document again.

The walk that prepares a document writes into its nodes, and the next one finds there
what the last one left. None of it is ever read: every node gets its layout, and every
field that holds what only the course of a document can tell is written, before anything
is written out. The bare form of a node has those fields as reading leaves them. Preparing
a node and preparing its bare form come to the same (`Node.prepare_bare`), preparing keeps
the bare form (`Node.bare_of_prepare`), and the outline and the JSON text show nothing but
the bare form. So the bare form is all that a document hands on from one time of writing
to the next.
-/
import Bracemark.Proofs.Walk
import Bracemark.Format

set_option autoImplicit false

namespace Bracemark

/-! ## Bare nodes -/

/-- A feature in which nothing is known of the course of the document. -/
def Feature.bare : Feature → Feature
  | .heading h => .heading { h with shownLevel := h.level.getD 0, label := "" }
  | .list l => .list { l with nested := false }
  | .item _ => .item ⟨"", none, 0⟩
  | .get name _ => .get name none
  | .image f => .image { f with number := "" }
  | feature => feature

/-- A kind in which nothing is known of the course of the document. -/
def Kind.bare : Kind → Kind
  | .element e => .element { e with feature := e.feature.bare }
  | .table t => .table { t with number := "" }
  | kind => kind

namespace Node

mutual

/-- A node without anything that a walk has written into it. -/
def bare : Node → Node
  | .mk span kind children _ => .mk span kind.bare (bareAll children) .unset

/-- Nodes without anything that a walk has written into them. -/
def bareAll : List Node → List Node
  | [] => []
  | n :: ns => n.bare :: bareAll ns

end

end Node

/-! ## What the walk reads -/

namespace Node

mutual

/-- What a node spells does not depend on an earlier walk. -/
theorem spelled_bare (c : Context) : ∀ n : Node, n.bare.spelled c = n.spelled c
  | .mk span k children l => by
    have hchildren := spelledAll_bareAll c children
    cases k <;> simp only [bare, Kind.bare, spelled, hchildren]

theorem spelledAll_bareAll (c : Context) :
    ∀ ns : List Node, spelledAll c (bareAll ns) = spelledAll c ns
  | [] => rfl
  | n :: ns => by
    rw [bareAll, spelledAll, spelledAll, spelled_bare c n, spelledAll_bareAll c ns]

end

end Node

/-- Coming to an element overwrites all that an earlier walk has written into it. -/
theorem Feature.enter_bare (c : Context) (children : List Node) (f : Feature) :
    f.bare.enter c (Node.bareAll children) = f.enter c children := by
  cases f with
  | assign name =>
    simp only [bare, enter, Node.spelledAll_bareAll]
  | _ => rfl

theorem Kind.enter_bare (c : Context) (children : List Node) (k : Kind) :
    k.bare.enter c (Node.bareAll children) = k.enter c children := by
  cases k with
  | element e => simp only [bare, enter, Feature.enter_bare]
  | _ => rfl

/-- Coming to an element changes nothing else. -/
theorem Feature.bare_enter (c : Context) (children : List Node) (f : Feature) :
    (f.enter c children).1.bare = f.bare := by
  cases f <;> rfl

theorem Kind.bare_enter (c : Context) (children : List Node) (k : Kind) :
    (k.enter c children).1.bare = k.bare := by
  cases k with
  | element e => simp only [bare, enter, Feature.bare_enter]
  | _ => rfl

/-! ## Preparing -/

namespace Node

mutual

/-- **Preparing a node comes to the same whatever an earlier walk has left in it.** -/
theorem prepare_bare (c : Context) : ∀ n : Node, n.bare.prepare c = n.prepare c
  | .mk span k children l => by
    simp only [bare, prepare, Kind.enter_bare, prepareAll_bareAll _ children]

theorem prepareAll_bareAll (c : Context) :
    ∀ ns : List Node, prepareAll c (bareAll ns) = prepareAll c ns
  | [] => rfl
  | n :: ns => by
    simp only [bareAll, prepareAll, prepare_bare c n, prepareAll_bareAll _ ns]

end

mutual

/-- Preparing a node keeps its bare form. -/
theorem bare_of_prepare {c d : Context} :
    ∀ {n m : Node}, n.prepare c = .ok (m, d) → m.bare = n.bare
  | .mk span k children l, m, h => by
    obtain ⟨ns, e, hns, rfl, -⟩ := prepare_mk h
    rw [bare, bare, Kind.bare_enter, bareAll_of_prepareAll hns]

theorem bareAll_of_prepareAll {c d : Context} :
    ∀ {ns ms : List Node}, prepareAll c ns = .ok (ms, d) → bareAll ms = bareAll ns
  | [], ms, h => by
    cases h
    rfl
  | n :: ns, ms, h => by
    obtain ⟨m, ms', e, hn, hns, rfl, -⟩ := prepareAll_cons h
    rw [bareAll, bareAll, bare_of_prepare hn, bareAll_of_prepareAll hns]

end

/-! ## Showing the tree -/

theorem label_bare (k : Kind) : k.bare.label = k.label := by
  cases k <;> rfl

theorem detail_bare (k : Kind) : k.bare.detail = k.detail := by
  cases k <;> rfl

theorem jsonOf_bare (k : Kind) (span : Span) (children : List Json) :
    jsonOf k.bare span children = jsonOf k span children := by
  cases k <;> rfl

mutual

theorem json_bare : ∀ n : Node, n.bare.json = n.json
  | .mk span k children l => by
    rw [bare, json, json, jsonOf_bare, jsonAll_bareAll children]

theorem jsonAll_bareAll : ∀ ns : List Node, jsonAll (bareAll ns) = jsonAll ns
  | [] => rfl
  | n :: ns => by
    rw [bareAll, jsonAll, jsonAll, json_bare n, jsonAll_bareAll ns]

end

theorem outlineLine_bare (level : Nat) (n : Node) :
    n.bare.outlineLine level = n.outlineLine level := by
  cases n with
  | mk span k children l =>
    simp only [bare, outlineLine, kind_mk, span_mk, label_bare, detail_bare]

mutual

theorem walk_bare (level : Nat) :
    ∀ n : Node, n.bare.walk level = (n.walk level).map fun e => (e.1, e.2.bare)
  | .mk span k children l => by
    rw [bare, walk, walk, List.map_cons, walkAll_bareAll (level + 1) children]
    rfl

theorem walkAll_bareAll (level : Nat) : ∀ ns : List Node,
    walkAll level (bareAll ns) = (walkAll level ns).map fun e => (e.1, e.2.bare)
  | [] => rfl
  | n :: ns => by
    rw [bareAll, walkAll, walkAll, List.map_append, walk_bare level n, walkAll_bareAll level ns]

end

theorem bareAll_eq_map (ns : List Node) : bareAll ns = ns.map bare := by
  induction ns with
  | nil => rfl
  | cons n ns ih => rw [bareAll, List.map_cons, ih]

theorem children_bare (n : Node) : n.bare.children = n.children.map bare := by
  obtain ⟨span, kind, children, l⟩ := n
  exact bareAll_eq_map children

theorem nodes_bare (n : Node) : n.bare.nodes = n.nodes.map bare := by
  rw [nodes, walk_bare, List.map_map, nodes, List.map_map]
  rfl

theorem outline_bare (n : Node) : n.bare.outline = n.outline := by
  simp only [outline, walk_bare, List.map_map, Function.comp_def, outlineLine_bare]

end Node

/-! ## Documents -/

namespace Document

/-- Two documents with one source and one tree, but for what walks may have written into
the nodes. -/
structure SameBare (d e : Document) : Prop where
  source : d.source = e.source
  root : d.root.bare = e.root.bare

variable {d e : Document}

theorem SameBare.refl (d : Document) : d.SameBare d :=
  ⟨rfl, rfl⟩

/-- Writing a document for a target succeeds, and the text depends on the bare form alone. -/
theorem SameBare.render (h : d.SameBare e) (target : Target) (s : Settings) :
    ∃ text d' e', d.render target s = .ok (text, d') ∧ e.render target s = .ok (text, e') ∧
      d'.SameBare e := by
  -- Both walks are the walk over the bare form that the two documents share.
  have hprepare : ∀ c, d.root.prepare c = e.root.prepare c := fun c => by
    rw [← Node.prepare_bare, h.root, Node.prepare_bare]
  obtain ⟨m, c, hm, -⟩ := Node.prepare_restores (Context.start target s).reset e.root
  refine ⟨c.reset.write m, { d with root := m }, { e with root := m }, ?_, ?_, ?_⟩
  · simp only [Document.render, Context.run, hprepare, hm, bind, Except.bind, pure, Except.pure]
  · simp only [Document.render, Context.run, hm, bind, Except.bind, pure, Except.pure]
  · exact ⟨h.source, Node.bare_of_prepare hm⟩

/-- Writing a document in any format succeeds. The text depends on the bare form alone, and
the bare form stays. -/
theorem SameBare.write (h : d.SameBare e) (f : Format) (s : Settings) :
    ∃ text d' e', f.write s d = .ok (text, d') ∧ f.write s e = .ok (text, e') ∧
      d'.SameBare e := by
  -- A walk is made for two of the formats only; the others leave the document as it is.
  cases f with
  | html => exact h.render .html s
  | plain => exact h.render .plain s
  | tree =>
    have htext : d.outline = e.outline := by
      rw [outline, outline, ← Node.outline_bare, h.root, Node.outline_bare]
    exact ⟨d.outline, d, e, rfl, by rw [htext]; rfl, h⟩
  | json =>
    have htext : d.json = e.json := by
      rw [json, json, ← Node.json_bare, h.root, Node.json_bare]
    exact ⟨d.json, d, e, rfl, by rw [htext]; rfl, h⟩

/-- Writes one and the same document in some formats with some settings, one after another. -/
def writeEach : List (Format × Settings) → Document → Except Fault (List String)
  | [], _ => return []
  | (f, s) :: steps, d => do
    let (text, d) ← f.write s d
    let texts ← writeEach steps d
    return text :: texts

/-- Each of the texts is what the document would be written as at first. -/
theorem SameBare.writeEach (steps : List (Format × Settings)) :
    ∀ {d : Document}, d.SameBare e → ∃ texts, writeEach steps d = .ok texts ∧
      List.Forall₂ (fun step text => ∃ e', step.1.write step.2 e = .ok (text, e')) steps texts := by
  induction steps with
  | nil => exact fun _ => ⟨[], rfl, .nil⟩
  | cons step steps ih =>
    intro d h
    obtain ⟨f, s⟩ := step
    -- After each step the document is compared with the one read anew, not with the last.
    obtain ⟨text, d', e', hd, he, h'⟩ := h.write f s
    obtain ⟨texts, htexts, hall⟩ := ih h'
    refine ⟨text :: texts, ?_, .cons ⟨e', he⟩ hall⟩
    simp only [Document.writeEach, hd, htexts, bind, Except.bind, pure, Except.pure]

/-- **Writing does not depend on what has been written before.** A document that has been
read can be written in any formats with any settings, one after another, and each time the
text is the one that the same format and settings give for a document read anew. -/
theorem writeEach_read (forms : Catalog) (source : String) (steps : List (Format × Settings)) :
    ∃ texts, writeEach steps (read forms source) = .ok texts ∧
      List.Forall₂ (fun step text =>
        ∃ d, step.1.write step.2 (read forms source) = .ok (text, d)) steps texts :=
  SameBare.writeEach steps (.refl (read forms source))

end Document

end Bracemark
