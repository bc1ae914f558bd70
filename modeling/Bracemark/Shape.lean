/-
From a form and its arguments to a node.

Before the content of an element is read its arguments are checked, and what they
say is kept in a shape: the feature of an element, or the settings of a table, a
cell or a caption. Once content and closing brace have been read, the shape
becomes a node. Some forms refuse some content, or keep only part of it.
-/
import Bracemark.Table.Layout

set_option autoImplicit false

namespace Bracemark

open Text

/-! ## Shapes -/

/-- What the arguments of an element said. -/
inductive Shape where
  | element (feature : Feature)
  | table (t : Table)
  | cell (c : Cell)
  | caption
deriving DecidableEq, Repr

/-- Checks the arguments of an element. There is no shape when one that is needed
is missing or one is unfit. -/
def Form.shape? (form : Form) (name : String) (as : Arguments) : Option Shape :=
  match form with
  | .table => (Table.ofArguments? as).map .table
  | .cell => (Cell.ofArguments? as).map .cell
  | .caption => some .caption
  | form => (Feature.ofForm? form name as).map .element

/-! ## Content -/

/-- Whether nothing but white space stands on a line. -/
def isBlankLine (line : List Char) : Bool :=
  Text.allBlank line

/-- The lines of a text, without the newlines that end them and without a
carriage return before each of these. A newline at the very end begins no line. -/
def linesOf (cs : List Char) : List (List Char) :=
  linesAfter [] cs
where
  /-- The lines of a text whose first line began with `line`, last character
  first. -/
  linesAfter (line : List Char) : List Char → List (List Char)
    | [] => if line.isEmpty then [] else [line.reverse]
    | c :: cs =>
      if c = '\n' then
        (match line with
          | '\r' :: before => before.reverse
          | line => line.reverse) :: linesAfter [] cs
      else linesAfter (c :: line) cs

/-- The lines of a text from the first to the last that is not blank, with
newlines between them. -/
def trimBlankLines (cs : List Char) : List Char :=
  let fromFirst := (linesOf cs).dropWhile isBlankLine
  let lines := (fromFirst.reverse.dropWhile isBlankLine).reverse
  ['\n'].intercalate lines

/-- The body of preformatted text: one piece of text without the blank lines at
its two ends, or nothing. -/
def codeBody (ns : List Node) : List Node :=
  if ns.isEmpty then []
  else
    let body := trimBlankLines (String.join (ns.filterMap Node.text?)).toList
    if body.isEmpty then [] else [.text (Node.outerSpan ns) (String.ofList body)]

/-- The part of its content that a form keeps: the items of a list, the body of
preformatted text, and everything elsewhere. -/
def Form.keptContent (form : Form) (ns : List Node) : List Node :=
  match form with
  | .list => ns.filter fun n => n.element?.isSome
  | .code => codeBody ns
  | _ => ns

/-! ## Cells -/

/-- Takes the white space from the beginning of a piece of text. -/
def trimTextStart (n : Node) : Node :=
  match n.kind with
  | .text s => n.withKind (.text (trimStart s))
  | _ => n

/-- Takes the white space from the end of a piece of text. -/
def trimTextEnd (n : Node) : Node :=
  match n.kind with
  | .text s => n.withKind (.text (trimEnd s))
  | _ => n

/-- Whether a node is a piece of text with nothing in it. -/
def isEmptyText (n : Node) : Bool :=
  n.text? == some ""

/-- The content of a cell without the white space at its two ends and without
empty pieces of text. -/
def trimEdges (ns : List Node) : List Node :=
  let ns := ns.modifyHead trimTextStart
  let ns := ns.modify (ns.length - 1) trimTextEnd
  ns.filter fun n => !isEmptyText n

/-- The node of a cell. -/
def cellNode (span : Span) (c : Cell) (content : List Node) : Node :=
  (Node.branch span (.cell c) (trimEdges content)).assemble

/-! ## Nodes -/

/-- What has been read of an element when its closing brace has been read. -/
structure Header where
  /-- The name as written. -/
  name : String
  arguments : Arguments
  span : Span
deriving DecidableEq, Repr, Inhabited

/-- The node of an element. A table without rows has none. -/
def Shape.node? (shape : Shape) (h : Header) (content : List Node) : Option Node :=
  match shape with
  | .element feature =>
    some (Node.branch h.span (.element ⟨h.name, h.arguments, feature⟩) content).assemble
  | .table t => t.layout? h.span content
  | .cell c => some (cellNode h.span c content)
  | .caption => some (Node.branch h.span .caption content).assemble

end Bracemark
