/-
The numbers of a document.

Four counters follow the structure of a document: sections, lists, tables and
figures. The counters for tables and figures are brought to the level of the
sections whenever a section is entered or left, so that both stay in step.
-/
import Bracemark.Fault
import Bracemark.Numbering.Sections
import Bracemark.Numbering.Lists
import Bracemark.Numbering.Captions

set_option autoImplicit false

namespace Bracemark

/-! ## The counters -/

/-- The number of levels at which tables and figures are counted. -/
def captionLevels : Nat := 2

/-- The counters of a document. -/
structure Numbering where
  sections : Sections
  lists : Lists
  tables : Captions
  figures : Captions
deriving DecidableEq, Repr, Inhabited

namespace Numbering

/-- The counters at the beginning of a document. -/
def start : Numbering :=
  ⟨.start, .start, .start captionLevels, .start captionLevels⟩

/-- Back to the beginning of a document. -/
def reset (n : Numbering) : Numbering :=
  ⟨.start, .start, n.tables.reset, n.figures.reset⟩

/-- Brings the counters for tables and figures to the level of the sections. -/
def align (n : Numbering) : Numbering :=
  { n with
    tables := n.tables.resize n.sections.level
    figures := n.figures.resize n.sections.level }

/-- Opens a section. -/
def enterSection (n : Numbering) (number : Option Int) : Numbering :=
  { n with sections := n.sections.enter number }.align

/-- Closes a section. -/
def leaveSection (n : Numbering) : Except Fault Numbering :=
  match n.sections.leave? with
  | none => .error .noOpenSection
  | some sections => .ok { n with sections := sections }.align

/-- Opens a list. -/
def enterList (n : Numbering) (style : Style) (number : Int) : Numbering :=
  { n with lists := n.lists.enter style number }

/-- Closes a list. -/
def leaveList (n : Numbering) : Except Fault Numbering :=
  match n.lists.leave? with
  | none => .error .noOpenList
  | some lists => .ok { n with lists := lists }

/-- Goes on to the next item of the innermost list. -/
def advanceList (n : Numbering) : Numbering :=
  { n with lists := n.lists.advance }

/-- Comes to a table. -/
def enterTable (n : Numbering) : Numbering :=
  { n with tables := n.tables.resize n.sections.level }

/-- Passes a table. -/
def leaveTable (n : Numbering) : Numbering :=
  { n with tables := n.tables.advance }

/-- Comes to a figure. -/
def enterFigure (n : Numbering) : Numbering :=
  { n with figures := n.figures.resize n.sections.level }

/-- Passes a figure. -/
def leaveFigure (n : Numbering) : Numbering :=
  { n with figures := n.figures.advance }

/-- The section number, from the outermost open section to the innermost. -/
def sectionText (n : Numbering) (separator : String) : String :=
  joinNumbers separator n.sections.numbers

/-- The marker of the current list item. -/
def listText (n : Numbering) (separator : String) : String :=
  n.lists.text separator

/-- The number of the current table. -/
def tableText (n : Numbering) (separator : String) : String :=
  n.tables.text n.sections.numbers separator

/-- The number of the current figure. -/
def figureText (n : Numbering) (separator : String) : String :=
  n.figures.text n.sections.numbers separator

end Numbering

end Bracemark
