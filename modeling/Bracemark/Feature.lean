/-
What an element is, once it has been read.

For each form of element that becomes an element node there is a feature, which
holds what its arguments said. Some features also hold what only becomes known
when a document is prepared for writing: the number of a heading, the value of a
variable, the marker of a list item, the number of a figure. Before that they
hold a value that stands for not being known yet.
-/
import Bracemark.Arguments
import Bracemark.Form
import Bracemark.Numbering.Style

set_option autoImplicit false

namespace Bracemark

open Text

/-! ## Layout of blocks -/

/-- The side on which a floating block stands. -/
inductive FloatSide where
  | left
  | right
deriving DecidableEq, Repr, Inhabited

namespace FloatSide

/-- The side with a name. -/
def ofName? : String → Option FloatSide
  | "l" | "left" => some .left
  | "r" | "right" => some .right
  | _ => none

/-- The side in a style sheet. -/
def css : FloatSide → String
  | .left => "left"
  | .right => "right"

end FloatSide

/-- How the text of a block is aligned. -/
inductive TextAlign where
  | left
  | center
  | right
deriving DecidableEq, Repr, Inhabited

namespace TextAlign

/-- The alignment with a name. -/
def ofName? : String → Option TextAlign
  | "l" | "left" => some .left
  | "c" | "m" | "center" | "middle" => some .center
  | "r" | "right" => some .right
  | _ => none

/-- The alignment in a style sheet. -/
def css : TextAlign → String
  | .left => "left"
  | .center => "center"
  | .right => "right"

end TextAlign

/-! ## Sizes of images -/

/-- How wide an image is shown. -/
inductive ImageSize where
  | auto
  /-- So many pixels. -/
  | pixels (n : Nat)
  /-- So many hundredths of the width of the window. -/
  | percent (n : Nat)
deriving DecidableEq, Repr, Inhabited

namespace ImageSize

/-- The largest width that can be written. -/
def maxWidth : Nat := 4294967295

/-- The widths that have names. -/
def named? : String → Option Nat
  | "tiny" => some 60
  | "small" => some 120
  | "medium" => some 240
  | "large" => some 480
  | "huge" => some 960
  | _ => none

/-- A width in digits, if it is not too large. -/
def width? (digits : List Char) : Option Nat :=
  (readNatural? digits).filter (· ≤ maxWidth)

/-- Reads a size: a name, a number of pixels with or without its unit, or a
percentage. Anything else leaves the width to the image. -/
def ofText (raw : String) : ImageSize :=
  let trimmed := trim raw
  match named? trimmed with
  | some n => .pixels n
  | none =>
    let digits := trimmed.toList.takeWhile Char.isDigit
    let unit := dropLeadingBlanks (trimmed.toList.dropWhile Char.isDigit)
    match width? digits, unit with
    | some n, [] => .pixels n
    | some n, ['p', 'x'] => .pixels n
    | some n, ['%'] => .percent n
    | _, _ => .auto

/-- The style attribute for a size. -/
def styleAttribute : ImageSize → String
  | .auto => ""
  | .pixels n => " style=\"width: " ++ toString n ++ "px;\""
  | .percent n => " style=\"width: " ++ toString n ++ "vw;\""

end ImageSize

/-! ## Features -/

/-- A heading. -/
structure Heading where
  /-- The level that its arguments ask for. -/
  level : Option Int
  /-- Whether the number of the section is shown. -/
  showNumber : Bool
  /-- The level it is written at, once known. -/
  shownLevel : Int
  /-- The number and the space after it, once known. -/
  label : String
deriving DecidableEq, Repr, Inhabited

/-- A list. -/
structure ItemList where
  style : Style
  /-- The number of its first item. -/
  start : Int
  /-- Whether it stands inside another list, once known. -/
  nested : Bool
deriving DecidableEq, Repr, Inhabited

/-- An item of a list. -/
structure Item where
  /-- The numbers of all lists around it, once known. -/
  label : String
  /-- The style of its list, once known. -/
  style : Option Style
  /-- The number of lists around it, once known. -/
  level : Nat
deriving DecidableEq, Repr, Inhabited

/-- A numbered image. -/
structure Figure where
  url : String
  size : ImageSize
  showNumber : Bool
  showCaption : Bool
  /-- Whether it stands in the line of the text. -/
  inLine : Bool
  /-- The figure's number, once known. -/
  number : String
deriving DecidableEq, Repr, Inhabited

/-- What an element is. -/
inductive Feature where
  /-- Emphasis by HTML elements of one letter each, the innermost first. -/
  | emphasis (tags : String)
  | lineBreak
  | paragraph
  | heading (h : Heading)
  /-- A section, with its number if it asks for one. -/
  | division (start : Option Int)
  | list (l : ItemList)
  | item (i : Item)
  | link (url : String)
  /-- The value of a variable, once known. -/
  | get (name : String) (value : Option String)
  | assign (name : String)
  | increment (name : String)
  | entity (plain html : String)
  | code
  | float (side : FloatSide) (clear : Bool)
  | align (side : TextAlign)
  | image (f : Figure)
deriving DecidableEq, Repr, Inhabited

namespace Feature

/-- Whether an element flows inside a paragraph. -/
def isInline : Feature → Bool
  | .emphasis _ | .lineBreak | .link _ | .get _ _ | .assign _ | .increment _ | .entity _ _ => true
  | .image f => f.inLine
  | _ => false

/-- Whether text directly inside an element is put into paragraphs. -/
def formsParagraphs : Feature → Bool
  | .division _ | .float _ _ | .align _ => true
  | _ => false

/-- A name or address that must be there. -/
def required? (as : Arguments) (name : String) : Option String :=
  (as.get? name (some 0)).filter (· ≠ "")

/-- The feature of an element of some form, from its name and arguments. There is
none when an argument is missing or unfit, nor for the parts of tables. -/
def ofForm? (form : Form) (name : String) (as : Arguments) : Option Feature :=
  match form with
  | .emphasis => some (.emphasis (lowered name))
  | .line => some .lineBreak
  | .paragraph => some .paragraph
  | .heading =>
    let level := (as.number "level" (some 0)).value?
    let showNumber := (as.flag "numbers" none).resolve true true
    some (.heading ⟨level, showNumber, level.getD 0, ""⟩)
  | .division => some (.division (as.number "start" none).value?)
  | .list =>
    let style := ((as.get? "style" (some 0)).bind Style.ofCode?).getD .disc
    some (.list ⟨style, (as.number "start" none).resolve 1 1, false⟩)
  | .item => some (.item ⟨"", none, 0⟩)
  | .link => (required? as "url").map .link
  | .get => (required? as "var").map fun name => .get name none
  | .assign => (required? as "var").map .assign
  | .increment => (required? as "var").map .increment
  | .entity => (Entity.ofElementName? name).map fun e => .entity e.plain e.html
  | .code => some .code
  | .float =>
    let side := match as.get? "align" (some 0) with
      | none => some FloatSide.left
      | some word => FloatSide.ofName? word
    side.map fun side => .float side ((as.flag "clear" none).resolve false false)
  | .align => ((as.get? "align" (some 0)).bind TextAlign.ofName?).map .align
  | .image =>
    (required? as "url").map fun url => .image
      { url
        size := ((as.get? "size" none).map ImageSize.ofText).getD .auto
        showNumber := (as.flag "numbers" none).resolve true true
        showCaption := (as.flag "caption" none).resolve true true
        inLine := (as.flag "inline" none).resolve false false
        number := "" }
  | .table | .cell | .caption => none

end Feature

end Bracemark
