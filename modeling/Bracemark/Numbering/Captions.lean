/-
Numbers of tables and figures.

Tables and figures are counted within the sections around them, but only down to
a given depth: a counter has one slot more than there are sections open, up to a
largest number of slots. Only its last slot counts; the numbers before it come
from the open sections. Sections that lie deeper share the count of the section
around them.
-/
import Bracemark.Text.Integer
import Bracemark.Numbering.Sections

set_option autoImplicit false

namespace Bracemark

open Text

/-- A counter for one kind of captioned thing. -/
structure Captions where
  /-- One slot for each level, outermost first. -/
  slots : List Int
  /-- The largest number of slots, at least one. -/
  maxLevel : Nat
deriving DecidableEq, Repr, Inhabited

namespace Captions

/-- A counter with a single slot, at its first number. -/
def start (maxLevel : Nat) : Captions :=
  ⟨[1], max maxLevel 1⟩

/-- Back to the first number outside all sections. -/
def reset (c : Captions) : Captions :=
  { c with slots := [1] }

/-- The number of slots inside as many sections. -/
def levelFor (c : Captions) (sectionLevel : Nat) : Nat :=
  min (sectionLevel + 1) c.maxLevel

/-- Brings the slots to the number for `sectionLevel`: slots that are new begin at
one, slots that stay keep their number. -/
def resize (c : Captions) (sectionLevel : Nat) : Captions :=
  let level := c.levelFor sectionLevel
  { c with slots := c.slots.take level ++ List.replicate (level - c.slots.length) 1 }

/-- Goes on to the next number in the last slot. -/
def advance (c : Captions) : Captions :=
  { c with slots := c.slots.modify (c.slots.length - 1) nextNumber }

/-- Goes on to the next number at the level for `sectionLevel`. -/
def advanceIn (c : Captions) (sectionLevel : Nat) : Captions :=
  (c.resize sectionLevel).advance

/-- The number in the last slot. -/
def current (c : Captions) : Int :=
  c.slots.getLast?.getD 1

/-- The numbers of the open sections for the slots before the last one, and the
current number. -/
def numbers (c : Captions) (sections : List Int) : List Int :=
  sections.take (c.slots.length - 1) ++ [c.current]

/-- The numbers with a separator between them. -/
def text (c : Captions) (sections : List Int) (separator : String) : String :=
  joinNumbers separator (c.numbers sections)

@[simp] theorem length_slots_resize (c : Captions) (sectionLevel : Nat) :
    (c.resize sectionLevel).slots.length = c.levelFor sectionLevel := by
  simp [resize]; omega

@[simp] theorem length_slots_advance (c : Captions) :
    c.advance.slots.length = c.slots.length := by
  simp [advance]

end Captions

end Bracemark
