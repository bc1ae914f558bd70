/-
Item numbers of lists.

Each open list keeps the number of its current item and the style it counts in.
A marker shows the numbers of all open lists, outermost first, every one in its
own style.
-/
import Bracemark.Text.Integer
import Bracemark.Numbering.Style

set_option autoImplicit false

namespace Bracemark

open Text

/-- An open list. -/
structure OpenList where
  number : Int
  style : Style
deriving DecidableEq, Repr, Inhabited

/-- The open lists, innermost first. -/
structure Lists where
  opened : List OpenList
deriving DecidableEq, Repr, Inhabited

namespace Lists

/-- No list is open. -/
def start : Lists := ⟨[]⟩

/-- How many lists are open. -/
def level (l : Lists) : Nat :=
  l.opened.length

/-- Opens a list whose first item has the given number. -/
def enter (l : Lists) (style : Style) (number : Int) : Lists :=
  ⟨⟨number, style⟩ :: l.opened⟩

/-- Closes the innermost list, if one is open. -/
def leave? (l : Lists) : Option Lists :=
  match l.opened with
  | [] => none
  | _ :: outer => some ⟨outer⟩

/-- Goes on to the next item of the innermost list, if one is open. -/
def advance (l : Lists) : Lists :=
  match l.opened with
  | [] => l
  | top :: outer => ⟨{ top with number := nextNumber top.number } :: outer⟩

/-- The number of the current item. -/
def number? (l : Lists) : Option Int :=
  l.opened.head?.map (·.number)

/-- The style of the innermost list. -/
def style? (l : Lists) : Option Style :=
  l.opened.head?.map (·.style)

/-- The marker of the current item. -/
def text (l : Lists) (separator : String) : String :=
  separator.intercalate (l.opened.reverse.map fun o => o.style.format o.number)

@[simp] theorem level_enter (l : Lists) (style : Style) (number : Int) :
    (l.enter style number).level = l.level + 1 := rfl

@[simp] theorem level_advance (l : Lists) : l.advance.level = l.level := by
  obtain ⟨_ | ⟨t, o⟩⟩ := l <;> simp [advance, level]

end Lists

end Bracemark
