/-
Looking for elements in a tree, and at its spans.

The spans of a tree are in order when every node lies inside its parent and the
children of a node follow each other without overlapping. The parts of a table
may have changed places, so they are only required to lie inside it.
-/
import Bracemark.Node
import Bracemark.Text.Quoted

set_option autoImplicit false

namespace Bracemark

open Text

/-! ## Elements by name -/

/-- There is no element with a name. -/
structure NoElement where
  name : String
deriving DecidableEq, Repr

/-- What is reported when there is no element with a name. -/
def NoElement.message (e : NoElement) : String :=
  "no element named " ++ inDoubleQuotes e.name

namespace Node

/-- The first element with a name, written in that case. -/
def findFirst (n : Node) (name : String) : Except NoElement Node :=
  match n.findAll name with
  | [] => .error ⟨name⟩
  | first :: _ => .ok first

/-! ## Spans in order -/

/-- Whether the children of a node of this kind follow each other in the order of
the source. -/
def keepsOrder (k : Kind) : Bool :=
  match k with
  | .table _ => false
  | _ => true

/-- Whether a span is no inverted one and lies inside another. -/
def lies (inner outer : Span) : Bool :=
  outer.start ≤ inner.start && inner.stop ≤ outer.stop && inner.start ≤ inner.stop

mutual

/-- Whether the spans of all nodes inside a node are in order. -/
def spansInOrder : Node → Bool
  | .mk span kind children _ => childrenInOrder span (keepsOrder kind) span.start children

/-- Whether nodes lie inside a span, with their own spans in order, and, if
`ordered`, one after another from `least` on. -/
def childrenInOrder (outer : Span) (ordered : Bool) (least : Nat) : List Node → Bool
  | [] => true
  | n :: ns =>
    lies n.span outer && (!ordered || least ≤ n.span.start) && n.spansInOrder &&
      childrenInOrder outer ordered n.span.stop ns

end

end Node

end Bracemark
