/-
The document tree.

A node has a span in the source, a kind, children in order, and the layout that
it is given when the document is prepared for writing. Reading produces nodes of
the kinds that stand for steps of the grammar (nothing, a sequence, a match) and
the kinds that documents are made of; assembly then groups text and forms
paragraphs.
-/
import Bracemark.Source.Place
import Bracemark.Feature
import Bracemark.Table.Basic

set_option autoImplicit false

namespace Bracemark

open Text

/-! ## Nodes -/

/-- An element: its name as written, its arguments, and what it is. -/
structure Element where
  name : String
  arguments : Arguments
  feature : Feature
deriving DecidableEq, Repr, Inhabited

/-- The kind of a node. -/
inductive Kind where
  /-- An optional part that is not there. -/
  | null
  /-- Parts one after another. -/
  | sequence
  /-- A matched pattern: the span of the match, then that of its captured part. -/
  | capture (groups : List Span)
  | text (s : String)
  /-- Blank lines between blocks. -/
  | gap
  /-- Text in braces that is no element, and whether the closing brace is there. -/
  | unknown (closed : Bool)
  /-- A run of text and elements that flow with it. -/
  | inlineGroup
  | paragraph
  | element (e : Element)
  | document
  | table (t : Table)
  | caption
  | tableSection (role : Role)
  | rowGroup (g : RowGroup)
  | row
  | cell (c : Cell)
deriving DecidableEq, Repr

namespace Kind

/-- The name of a kind in listings of a tree. -/
def label : Kind → String
  | .null => "Null"
  | .sequence => "Sequence"
  | .capture _ => "Match"
  | .text _ => "Text"
  | .gap => "Break"
  | .unknown _ => "Unknown"
  | .inlineGroup => "InlineGroup"
  | .paragraph => "Paragraph"
  | .element _ => "Element"
  | .document => "Document"
  | .table _ => "Table"
  | .caption => "Caption"
  | .tableSection _ => "TableSection"
  | .rowGroup _ => "RowGroup"
  | .row => "Row"
  | .cell _ => "Cell"

/-- Whether a node of this kind flows inside a paragraph. -/
def isInline : Kind → Bool
  | .text _ | .inlineGroup | .unknown _ => true
  | .element e => e.feature.isInline
  | _ => false

/-- Whether runs of text directly inside a node of this kind become
paragraphs. -/
def formsParagraphs : Kind → Bool
  | .document => true
  | .element e => e.feature.formsParagraphs
  | _ => false

end Kind

/-- How a node is set out in the written document. -/
structure Layout where
  /-- The number of nodes around it. -/
  depth : Nat
  /-- Whether it stands inside a cell and is written without line breaks. -/
  compact : Bool
deriving DecidableEq, Repr, Inhabited

/-- The layout of a node that has not been prepared. -/
def Layout.unset : Layout := ⟨0, false⟩

/-- A node of the document tree. -/
inductive Node where
  | mk (span : Span) (kind : Kind) (children : List Node) (layout : Layout)

namespace Node

/-- The bytes of the source that a node comes from. -/
def span : Node → Span
  | .mk span _ _ _ => span

/-- What a node is. -/
def kind : Node → Kind
  | .mk _ kind _ _ => kind

/-- The nodes inside a node. -/
def children : Node → List Node
  | .mk _ _ children _ => children

/-- How a node is set out. -/
def layout : Node → Layout
  | .mk _ _ _ layout => layout

@[simp] theorem span_mk (s : Span) (k : Kind) (cs : List Node) (l : Layout) :
    (mk s k cs l).span = s := rfl

@[simp] theorem kind_mk (s : Span) (k : Kind) (cs : List Node) (l : Layout) :
    (mk s k cs l).kind = k := rfl

@[simp] theorem children_mk (s : Span) (k : Kind) (cs : List Node) (l : Layout) :
    (mk s k cs l).children = cs := rfl

@[simp] theorem layout_mk (s : Span) (k : Kind) (cs : List Node) (l : Layout) :
    (mk s k cs l).layout = l := rfl

/-! ## Making nodes -/

/-- A node with children that has not been prepared. -/
def branch (span : Span) (kind : Kind) (children : List Node) : Node :=
  .mk span kind children .unset

/-- A node without children. -/
def leaf (span : Span) (kind : Kind) : Node :=
  branch span kind []

/-- A piece of text. -/
def text (span : Span) (s : String) : Node :=
  leaf span (.text s)

/-- A part that is not there. -/
def null (offset : Nat) : Node :=
  leaf ⟨offset, offset⟩ .null

instance : Inhabited Node := ⟨null 0⟩

/-- A node with other children. -/
def withChildren (n : Node) (children : List Node) : Node :=
  .mk n.span n.kind children n.layout

/-- A node of another kind. -/
def withKind (n : Node) (kind : Kind) : Node :=
  .mk n.span kind n.children n.layout

/-! ## Asking about nodes -/

/-- The text of a text node. -/
def text? (n : Node) : Option String :=
  match n.kind with
  | .text s => some s
  | _ => none

/-- The element of an element node. -/
def element? (n : Node) : Option Element :=
  match n.kind with
  | .element e => some e
  | _ => none

/-- The cell of a cell node. -/
def cell? (n : Node) : Option Cell :=
  match n.kind with
  | .cell c => some c
  | _ => none

/-- The name of an element node as written. -/
def name? (n : Node) : Option String :=
  n.element?.map (·.name)

/-- Whether a node flows inside a paragraph. -/
def isInline (n : Node) : Bool :=
  n.kind.isInline

/-- Whether runs of text directly inside a node become paragraphs. -/
def formsParagraphs (n : Node) : Bool :=
  n.kind.formsParagraphs

mutual

/-- Whether a node is white space: blank text, or a group of nothing else. -/
def isBlank : Node → Bool
  | .mk _ (.text s) _ _ => isBlankText s
  | .mk _ .inlineGroup children _ => allBlank children
  | _ => false

/-- Whether some nodes are white space, all of them. -/
def allBlank : List Node → Bool
  | [] => true
  | n :: ns => n.isBlank && allBlank ns

end

theorem allBlank_eq_all (ns : List Node) : allBlank ns = ns.all isBlank := by
  induction ns with
  | nil => rfl
  | cons n ns ih => simp [allBlank, ih]

mutual

/-- A node and all nodes inside it, each before its children, with the number of
nodes around it up to the one that the walk began at. -/
def walk (level : Nat) : Node → List (Nat × Node)
  | .mk span kind children layout =>
    (level, .mk span kind children layout) :: walkAll (level + 1) children

/-- The walks over some nodes one after another. -/
def walkAll (level : Nat) : List Node → List (Nat × Node)
  | [] => []
  | n :: ns => n.walk level ++ walkAll level ns

end

/-- A node and all nodes inside it, each before its children. -/
def nodes (n : Node) : List Node :=
  (n.walk 0).map (·.2)

/-- The texts of all text nodes inside a node, put together. -/
def plainText (n : Node) : String :=
  String.join (n.nodes.filterMap text?)

/-- The element nodes with a name, written in that case. -/
def findAll (n : Node) (name : String) : List Node :=
  n.nodes.filter fun m => m.name? == some name

/-- The span from the beginning of the first node to the end of the last. -/
def outerSpan (ns : List Node) : Span :=
  match ns.head?, ns.getLast? with
  | some first, some last => ⟨first.span.start, last.span.stop⟩
  | _, _ => ⟨0, 0⟩

end Node

end Bracemark
