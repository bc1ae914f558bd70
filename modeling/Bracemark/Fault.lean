/-
Steps that have no meaning.

Sections, lists and frames are entered and left in pairs. To leave what was never
entered has no meaning; it is a fault, and what it would have changed stays as it
is.
-/

set_option autoImplicit false

namespace Bracemark

/-- A step that leaves something that was never entered. -/
inductive Fault where
  | noOpenSection
  | noOpenList
  | noOpenFrame
deriving DecidableEq, Repr, Inhabited

/-- What is reported about a fault. -/
def Fault.message : Fault → String
  | .noOpenSection => "illegal exit from the root section level"
  | .noOpenList => "illegal exit with no open list"
  | .noOpenFrame => "illegal pop of the root environment frame"

end Bracemark
