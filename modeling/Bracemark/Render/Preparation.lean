/-
Preparing a document for writing.

One walk over the tree, in the order of the source, gives every node its layout
and finds out what only the course of the document can tell: the numbers of
headings, tables and figures, the markers of list items, and the values of
variables at the places where they are shown. All this is written into the nodes,
over whatever an earlier walk left there.

The walk enters a frame for the children of each node and leaves it afterwards;
sections and lists are entered and left in the same way. Leaving what was never
entered would be a fault.
-/
import Bracemark.Node
import Bracemark.Render.Context

set_option autoImplicit false

namespace Bracemark

/-! ## Layout -/

namespace Context

/-- The number of nodes around the walk. -/
def depth (c : Context) : Int :=
  ((c.scope.get? Key.depth).bind Setting.asNumber?).getD 0

/-- The layout of a node that the walk comes to. -/
def layout (c : Context) : Layout :=
  ⟨c.depth.toNat, c.scope.flag Key.compact⟩

/-- The frame for the children of a node: one level deeper, and without line
breaks inside cells. -/
def frameFor (c : Context) (k : Kind) : Frame :=
  let deeper := (Key.depth, Setting.number (c.depth + 1))
  match k with
  | .cell _ => [deeper, (Key.compact, .flag true)]
  | _ => [deeper]

/-- Leaves the frame for the children of a node. -/
def leaveFrame (c : Context) : Except Fault Context :=
  match c.scope.pop? with
  | none => .error .noOpenFrame
  | some scope => .ok { c with scope }

end Context

/-! ## Values -/

namespace Node

mutual

/-- The text that a node adds to the value of a variable: its own, or the value
that the variable of an element has now. -/
def spelled (c : Context) : Node → String
  | .mk _ (.text s) _ _ => s
  | .mk _ (.element e) _ _ => ((e.arguments.get? "var" (some 0)).map c.valueOf).getD ""
  | .mk _ _ children _ => spelledAll c children

/-- The texts that some nodes add to the value of a variable. -/
def spelledAll (c : Context) : List Node → String
  | [] => ""
  | n :: ns => n.spelled c ++ spelledAll c ns

end

end Node

/-! ## Entering and leaving -/

namespace Feature

/-- The number that a heading shows: that of the section it stands in, unless it
is a title or numbers are not wanted. -/
def headingLabel (c : Context) (h : Heading) (shownLevel : Int) : String :=
  if 0 < shownLevel ∧ h.showNumber = true ∧ c.settings.showHeadingNumbers = true ∧
      0 < c.numbering.sections.level then
    c.sectionText ++ " "
  else ""

/-- What the walk does when it comes to an element with the given children. -/
def enter (c : Context) (children : List Node) : Feature → Feature × Context
  | .division start => (.division start, { c with numbering := c.numbering.enterSection start })
  | .heading h =>
    let shownLevel := h.level.getD c.numbering.sections.level
    (.heading { h with shownLevel, label := headingLabel c h shownLevel }, c)
  | .list l =>
    (.list { l with nested := decide (0 < c.numbering.lists.level) },
      { c with numbering := c.numbering.enterList l.style l.start })
  | .item _ =>
    (.item ⟨c.listText, c.numbering.lists.style?, c.numbering.lists.level⟩, c)
  | .get name _ => (.get name (some (c.valueOf name)), c)
  | .assign name => (.assign name, c.assign name (Node.spelledAll c children))
  | .increment name => (.increment name, c.increment name)
  | .image f =>
    let c := { c with numbering := c.numbering.enterFigure }
    (.image { f with number := c.figureText }, c)
  | feature => (feature, c)

/-- What the walk does when it has passed the children of an element. -/
def leave (c : Context) : Feature → Except Fault Context
  | .division _ => do return { c with numbering := ← c.numbering.leaveSection }
  | .list _ => do return { c with numbering := ← c.numbering.leaveList }
  | .item _ => return { c with numbering := c.numbering.advanceList }
  | .image _ => return { c with numbering := c.numbering.leaveFigure }
  | _ => return c

end Feature

namespace Kind

/-- What the walk does when it comes to a node with the given children. -/
def enter (c : Context) (children : List Node) : Kind → Kind × Context
  | .element e =>
    let (feature, c) := e.feature.enter c children
    (.element { e with feature }, c)
  | .table t =>
    let c := { c with numbering := c.numbering.enterTable }
    (.table { t with number := c.tableText }, c)
  | kind => (kind, c)

/-- What the walk does when it has passed the children of a node. -/
def leave (c : Context) : Kind → Except Fault Context
  | .element e => e.feature.leave c
  | .table _ => return { c with numbering := c.numbering.leaveTable }
  | _ => return c

end Kind

/-! ## The walk -/

namespace Node

mutual

/-- Prepares a node and all nodes inside it. -/
def prepare (c : Context) : Node → Except Fault (Node × Context)
  | .mk span kind children _ => do
    -- The layout is taken before the frame is entered: the frame is for the
    -- children.
    let layout := c.layout
    let (kind, c) := kind.enter c children
    let (children, c) ← prepareAll { c with scope := c.scope.push (c.frameFor kind) } children
    let c ← c.leaveFrame
    let c ← kind.leave c
    return (.mk span kind children layout, c)

/-- Prepares some nodes one after another. -/
def prepareAll (c : Context) : List Node → Except Fault (List Node × Context)
  | [] => return ([], c)
  | n :: ns => do
    let (n, c) ← prepare c n
    let (ns, c) ← prepareAll c ns
    return (n :: ns, c)

end

end Node

end Bracemark
