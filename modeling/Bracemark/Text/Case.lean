/-
Letter case of names.

Names of elements, arguments, roles and formats are compared without regard to
the case of the twenty-six ASCII letters; every other character stands for
itself only, so that no letter outside ASCII ever matches one inside it.
-/

set_option autoImplicit false

namespace Bracemark.Text

/-- `lowered s` is `s` with the ASCII capitals replaced by small letters. -/
def lowered (s : String) : String :=
  String.ofList (s.toList.map Char.toLower)

/-- Equality up to the case of ASCII letters. -/
def sameLetters (a b : String) : Bool :=
  lowered a == lowered b

@[simp] theorem toList_lowered (s : String) : (lowered s).toList = s.toList.map Char.toLower :=
  String.toList_ofList

@[simp] theorem sameLetters_self (a : String) : sameLetters a a = true := by
  simp [sameLetters]

end Bracemark.Text
