/-
Section numbers.

The open sections form a stack. Each level knows the number that its next child
gets; the document itself is the bottom of the stack and is never closed. A
section may ask for a number of its own, and its next sibling goes on from there.
-/
import Bracemark.Text.Integer

set_option autoImplicit false

namespace Bracemark

open Text

/-- An open section. -/
structure OpenSection where
  number : Int
  /-- The number of the next section inside it. -/
  nextChild : Int
deriving DecidableEq, Repr, Inhabited

/-- The open sections, innermost first, and the number that the next section
outside all of them gets. -/
structure Sections where
  nextTop : Int
  opened : List OpenSection
deriving DecidableEq, Repr, Inhabited

namespace Sections

/-- No section has been opened. -/
def start : Sections := ⟨1, []⟩

/-- How many sections are open. -/
def level (s : Sections) : Nat :=
  s.opened.length

/-- The number that a section opened now gets. -/
def next (s : Sections) : Int :=
  match s.opened with
  | [] => s.nextTop
  | top :: _ => top.nextChild

/-- Opens a section with a number of its own or the next one. -/
def enter (s : Sections) (number : Option Int) : Sections :=
  { s with opened := ⟨number.getD s.next, 1⟩ :: s.opened }

/-- Closes the innermost section; what follows it goes on from its number. There
is nothing to close outside all sections. -/
def leave? (s : Sections) : Option Sections :=
  match s.opened with
  | [] => none
  | [closed] => some ⟨nextNumber closed.number, []⟩
  | closed :: parent :: outer =>
    some { s with opened := { parent with nextChild := nextNumber closed.number } :: outer }

/-- The numbers of the open sections, outermost first. -/
def numbers (s : Sections) : List Int :=
  s.opened.reverse.map (·.number)

@[simp] theorem level_start : start.level = 0 := rfl

@[simp] theorem level_enter (s : Sections) (number : Option Int) :
    (s.enter number).level = s.level + 1 := rfl

@[simp] theorem numbers_enter (s : Sections) (number : Option Int) :
    (s.enter number).numbers = s.numbers ++ [number.getD s.next] := by
  simp [enter, numbers]

/-- A section is closed exactly when one is open. -/
theorem leave?_eq_none_iff (s : Sections) : s.leave? = none ↔ s.level = 0 := by
  obtain ⟨n, _ | ⟨c, _ | ⟨p, o⟩⟩⟩ := s <;> simp [leave?, level]

end Sections

/-- Numbers written one after another with a separator between them. -/
def joinNumbers (separator : String) (numbers : List Int) : String :=
  separator.intercalate (numbers.map toString)

end Bracemark
