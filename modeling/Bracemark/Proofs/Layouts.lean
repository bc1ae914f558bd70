/-
How nodes are set out.

The layout of a node is found out by two settings of the walk, and the walk makes them anew for the
children of every node: one level deeper, and without line breaks if the node is a cell. The newer
settings shadow the older ones, which come into force again when the frame of the children is left.
So what has been walked over before a node does not matter, and its layout is a matter of the
nodes around it alone (`Node.layout_prepare`), whatever layout it had before.
-/
import Bracemark.Proofs.Height

set_option autoImplicit false

namespace Bracemark

/-- Whether a node of this kind is a cell of a table. -/
def Kind.isCell : Kind → Bool
  | .cell _ => true
  | _ => false

/-! ## Coming to a node -/

/-- Coming to an element makes no settings. -/
theorem Feature.scope_enter (c : Context) (children : List Node) (f : Feature) :
    (f.enter c children).2.scope = c.scope := by
  cases f with
  | assign name => exact (c.restored_assign _ _).scope
  | increment name => exact (c.restored_increment _).scope
  | _ => rfl

theorem Kind.scope_enter (c : Context) (children : List Node) (k : Kind) :
    (k.enter c children).2.scope = c.scope := by
  cases k with
  | element e => exact Feature.scope_enter c children e.feature
  | _ => rfl

/-- Coming to a node makes no cell of it, nor takes it for something else than a cell. -/
theorem Kind.isCell_enter (c : Context) (children : List Node) (k : Kind) :
    (k.enter c children).1.isCell = k.isCell := by
  cases k <;> rfl

namespace Context

/-- The frame for the children of a node makes one setting of the depth. -/
theorem newest?_depth_frameFor (c : Context) (k : Kind) :
    Scope.newest? (c.frameFor k) Key.depth = some (.number (c.depth + 1)) := by
  cases k <;> rfl

theorem newest?_compact_frameFor (c : Context) (k : Kind) :
    Scope.newest? (c.frameFor k) Key.compact = if k.isCell then some (.flag true) else none := by
  cases k <;> rfl

theorem depth_within (c : Context) (k : Kind) : (c.within k).depth = c.depth + 1 := by
  rw [depth, within, Scope.get?_push, newest?_depth_frameFor]
  rfl

theorem compact_within (c : Context) (k : Kind) :
    (c.within k).scope.flag Key.compact = (c.scope.flag Key.compact || k.isCell) := by
  rw [Scope.flag, within, Scope.get?_push, newest?_compact_frameFor]
  cases k.isCell with
  | true =>
    rw [Bool.or_true]
    rfl
  | false =>
    rw [Bool.or_false]
    rfl

/-- The children of a node are one level deeper than the node. -/
theorem depth_inside (c : Context) (k : Kind) (children : List Node) :
    (c.inside k children).depth = c.depth + 1 := by
  rw [inside, depth_within, depth, Kind.scope_enter]
  rfl

/-- The children of a node are written without line breaks if the node is or if it is a cell. -/
theorem compact_inside (c : Context) (k : Kind) (children : List Node) :
    (c.inside k children).scope.flag Key.compact = (c.scope.flag Key.compact || k.isCell) := by
  rw [inside, compact_within, Kind.scope_enter, Kind.isCell_enter]

end Context

/-! ## The walk -/

namespace Node

/-- Each of some nodes is walked over in the scope of the first one. -/
theorem exists_of_mem_prepareAll {m : Node} : ∀ {ns ms : List Node} {c d : Context},
    prepareAll c ns = .ok (ms, d) → m ∈ ms →
      ∃ (n : Node) (c' d' : Context), n.prepare c' = .ok (m, d') ∧ c'.scope = c.scope
  | [], ms, c, d, h, hm => by
    cases h
    cases hm
  | n :: ns, ms, c, d, h, hm => by
    obtain ⟨m', ms', e, hn, hrest, rfl, hrestored⟩ := prepareAll_cons h
    rcases List.mem_cons.mp hm with rfl | hm
    · exact ⟨n, c, e, hn, rfl⟩
    · obtain ⟨n', c', d', hprepare, hscope⟩ := exists_of_mem_prepareAll hrest hm
      exact ⟨n', c', d', hprepare, hscope.trans hrestored.scope⟩

/-- **The layout of a node** is that of the place where the walk began, as many levels deeper as
there are nodes around the node, and without line breaks if one of these is a cell. -/
theorem layout_prepare : ∀ (above : List Node) {n m u : Node} {c d : Context},
    n.prepare c = .ok (m, d) → Descent m (above ++ [u]) →
      u.layout.depth = (c.depth + above.length).toNat ∧
        u.layout.compact = (c.scope.flag Key.compact || above.any fun a => a.kind.isCell)
  | [], .mk span k children l, m, u, c, d, h, hpath => by
    obtain ⟨ns, e, -, rfl, -⟩ := prepare_mk h
    obtain ⟨rfl, -⟩ := descent_cons hpath
    rw [List.any_nil, Bool.or_false, List.length_nil, Int.natCast_zero, Int.add_zero]
    exact ⟨rfl, rfl⟩
  | a :: above, .mk span k children l, m, u, c, d, h, hpath => by
    obtain ⟨ns, e, hns, rfl, -⟩ := prepare_mk h
    obtain ⟨rfl, hend | ⟨child, hchild, hpath⟩⟩ := descent_cons hpath
    · simp at hend
    · obtain ⟨n, c', d', hn, hscope⟩ := exists_of_mem_prepareAll hns hchild
      obtain ⟨hdepth, hcompact⟩ := layout_prepare above hn hpath
      have hlevel : c'.depth = c.depth + 1 := by
        rw [← Context.depth_inside c k children, Context.depth, hscope]
        rfl
      constructor
      · rw [hdepth, hlevel, List.length_cons, Int.natCast_succ, Int.add_assoc,
          Int.add_comm 1]
      · rw [hcompact, hscope, Context.compact_inside, List.any_cons, Bool.or_assoc, kind_mk,
          Kind.isCell_enter]

end Node

/-! ## Preparing and writing -/

/-- What is compact is neither indented nor broken into lines. -/
theorem Settings.noSpace_of_compact (s : Settings) {l : Layout} (h : l.compact = true) :
    s.indentFor l = "" ∧ l.lineEnd = "" := by
  rw [Settings.indentFor, Layout.lineEnd, h]
  exact ⟨rfl, rfl⟩

/-- **Every node is set out by what is around it.** From any context any tree can be prepared and
written; nothing has then been written into the tree but what only the course of the document can
tell. Each node in it has as its depth the number of nodes around it, and it is compact just if one
of these is a cell, whatever layouts the tree had before. So no node inside a cell is indented or
broken into lines. -/
theorem Context.run_setsOut (c : Context) (n : Node) :
    ∃ text m d, c.run n = .ok (text, m, d) ∧ m.bare = n.bare ∧
      ∀ above u, m.Descent (above ++ [u]) →
        u.layout.depth = above.length ∧
          (u.layout.compact = true ↔ ∃ a ∈ above, a.kind.isCell = true) ∧
          ((∃ a ∈ above, a.kind.isCell = true) →
            c.settings.indentFor u.layout = "" ∧ u.layout.lineEnd = "") := by
  obtain ⟨m, d, hm, -⟩ := n.prepare_restores c.reset
  refine ⟨d.reset.write m, m, d.reset, ?_, Node.bare_of_prepare hm, fun above u hpath => ?_⟩
  · simp only [run, hm, bind, Except.bind, pure, Except.pure]
  · obtain ⟨hdepth, hcompact⟩ := Node.layout_prepare above hm hpath
    -- Starting over has dropped all settings.
    have hreset : c.reset.depth = 0 ∧ c.reset.scope.flag Key.compact = false := ⟨rfl, rfl⟩
    rw [hreset.1, Int.zero_add, Int.toNat_natCast] at hdepth
    rw [hreset.2, Bool.false_or] at hcompact
    have hiff : u.layout.compact = true ↔ ∃ a ∈ above, a.kind.isCell = true := by
      rw [hcompact, List.any_eq_true]
    exact ⟨hdepth, hiff, fun hcell => c.settings.noSpace_of_compact (hiff.mpr hcell)⟩

end Bracemark
