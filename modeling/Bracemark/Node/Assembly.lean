/-
Assembly: from the parts that were read to the structure of a document.

The children of a node are put in order right after they have been read. Text in
braces that is no element joins the text around it, braces included; groups that
were made further inside are taken apart; runs of children that flow together
become groups, with adjacent pieces of text made into one; and groups of nothing
but white space are left out. A node with a single child is left as it is.

In documents, sections, floating and aligned blocks, the runs then become
paragraphs, and the blank lines between them, which have done their work, go.
-/
import Bracemark.Node

set_option autoImplicit false

namespace Bracemark.Node

open Text

/-! ## Groups -/

/-- Text in braces as a run of nodes: the opening brace, what is inside, and the
closing brace if it is there. The closing brace is the last byte of the span. Text
in braces that has been read ends after its closing brace, so its span does not stop
at 0; a node made by hand may say that it does, and the difference is 0 then, where
numbers of a limited size would have none. -/
def spreadUnknown (n : Node) : List Node :=
  match n.kind with
  | .unknown closed =>
    let opening := text ⟨n.span.start, n.span.start + 1⟩ "\x7b"
    let closing := if closed then [text ⟨n.span.stop - 1, n.span.stop⟩ "\x7d"] else []
    opening :: n.children ++ closing
  | _ => [n]

/-- A group as the run of nodes inside it. -/
def spreadGroup (n : Node) : List Node :=
  match n.kind with
  | .inlineGroup => n.children
  | _ => [n]

/-- Adds a piece of text to the end of a text node. -/
def appendText (n : Node) (s : String) (stop : Nat) : Node :=
  match n.kind with
  | .text t => .mk ⟨n.span.start, max n.span.stop stop⟩ (.text (t ++ s)) n.children n.layout
  | _ => n

/-- Makes adjacent pieces of text into one. `last` is the node that comes before
the rest and may still grow. -/
def joinTextAfter (last : Node) : List Node → List Node
  | [] => [last]
  | n :: ns =>
    match last.kind, n.kind with
    | .text _, .text s => joinTextAfter (last.appendText s n.span.stop) ns
    | _, _ => last :: joinTextAfter n ns

/-- Makes adjacent pieces of text into one; its span runs from the first to the
last. -/
def joinText : List Node → List Node
  | [] => []
  | n :: ns => joinTextAfter n ns

/-- The group of a run of nodes; an empty run has none. -/
def groupOf (run : List Node) : List Node :=
  if run.isEmpty then []
  else
    let members := joinText run
    [branch (outerSpan members) .inlineGroup members]

/-- Puts the longest runs of nodes that flow together into groups. `run` is the
run that has been collected so far, last node first. -/
def groupRunsAfter (run : List Node) : List Node → List Node
  | [] => groupOf run.reverse
  | n :: ns =>
    if n.isInline then groupRunsAfter (n :: run) ns
    else groupOf run.reverse ++ n :: groupRunsAfter [] ns

/-- Puts the longest runs of nodes that flow together into groups. -/
def groupRuns (ns : List Node) : List Node :=
  groupRunsAfter [] ns

/-- Whether a node is a group that holds nothing, or one blank piece of text. -/
def isEmptyGroup (n : Node) : Bool :=
  match n.kind, n.children with
  | .inlineGroup, [] => true
  | .inlineGroup, [only] => (only.text?.map isBlankText).getD false
  | _, _ => false

/-- Brings the children of a node into groups. -/
def normalize (ns : List Node) : List Node :=
  let spread := (ns.flatMap spreadUnknown).flatMap spreadGroup
  (groupRuns spread).filter fun n => !n.isEmptyGroup

/-! ## Paragraphs -/

/-- The paragraph of a run of nodes; a run of white space has none. -/
def paragraphOf (run : List Node) : List Node :=
  if run.all isBlank then []
  else
    let members := joinText run
    [branch (outerSpan members) .paragraph members]

/-- Whether a node stands for blank lines. -/
def isGap (n : Node) : Bool :=
  n.kind == .gap

/-- Puts the longest runs of nodes that flow together into paragraphs. `run` is
the run that has been collected so far, last node first. -/
def paragraphsAfter (run : List Node) : List Node → List Node
  | [] => paragraphOf run.reverse
  | n :: ns =>
    if n.isInline then paragraphsAfter ((spreadGroup n).reverse ++ run) ns
    else
      paragraphOf run.reverse ++ (if n.isGap then [] else [n]) ++ paragraphsAfter [] ns

/-- Puts the longest runs of nodes that flow together into paragraphs and leaves
out the blank lines between them. -/
def paragraphs (ns : List Node) : List Node :=
  paragraphsAfter [] ns

/-- A node with its children put into paragraphs. -/
def formParagraphs (n : Node) : Node :=
  n.withChildren (paragraphs n.children)

/-! ## Assembly -/

/-- A node with its children in the order of a document. -/
def assemble (n : Node) : Node :=
  -- An only child is left as it is, even where it is an unknown group.
  let grouped := if 1 < n.children.length then n.withChildren (normalize n.children) else n
  if grouped.formsParagraphs then grouped.formParagraphs else grouped

/-! ## Small laws -/

@[simp] theorem joinText_nil : joinText [] = [] := rfl

theorem joinTextAfter_ne_nil (last : Node) (ns : List Node) : joinTextAfter last ns ≠ [] := by
  fun_induction joinTextAfter last ns with
  | case1 last => exact List.cons_ne_nil _ _
  | case2 _ _ _ _ _ _ _ ih => exact ih
  | case3 last n ns _ ih => exact List.cons_ne_nil _ _

theorem joinText_ne_nil {ns : List Node} (h : ns ≠ []) : joinText ns ≠ [] := by
  obtain ⟨n, rest, rfl⟩ := List.exists_cons_of_ne_nil h
  exact joinTextAfter_ne_nil n rest

@[simp] theorem groupOf_nil : groupOf [] = [] := rfl

@[simp] theorem paragraphOf_nil : paragraphOf [] = [] := rfl

@[simp] theorem paragraphs_nil : paragraphs [] = [] := rfl

@[simp] theorem span_assemble (n : Node) : n.assemble.span = n.span := by
  simp only [assemble, formParagraphs, withChildren]
  split <;> split <;> rfl

@[simp] theorem kind_assemble (n : Node) : n.assemble.kind = n.kind := by
  simp only [assemble, formParagraphs, withChildren]
  split <;> split <;> rfl

end Bracemark.Node
