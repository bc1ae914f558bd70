/-
Settings for writing documents.
-/

set_option autoImplicit false

namespace Bracemark

/-- What can be chosen about the written document. -/
structure Settings where
  /-- What every class name in HTML begins with. -/
  classPrefix : String
  /-- One level of indentation in HTML. -/
  indent : String
  sectionSeparator : String
  listSeparator : String
  tableSeparator : String
  figureSeparator : String
  showHeadingNumbers : Bool
  showTableNumbers : Bool
  showFigureNumbers : Bool
  tableLabel : String
  figureLabel : String
deriving DecidableEq, Repr

/-- The settings where nothing else is chosen. -/
def Settings.standard : Settings where
  classPrefix := "sml_"
  indent := "  "
  sectionSeparator := "."
  listSeparator := "."
  tableSeparator := "-"
  figureSeparator := "-"
  showHeadingNumbers := true
  showTableNumbers := true
  showFigureNumbers := true
  tableLabel := "Table"
  figureLabel := "Fig."

instance : Inhabited Settings := ⟨.standard⟩

end Bracemark
