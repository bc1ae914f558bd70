/-
Format codes of tables.

Borders and alignments are written as strings with one letter for each position.
A dot leaves a position as it is, and an asterisk ends the string and repeats
the code before it for all positions that follow. A string may be longer or
shorter than the positions it is used for. An unknown letter makes the whole
string invalid, which rejects the element that carries it.
-/
import Bracemark.Text.Blank
import Bracemark.Arguments

set_option autoImplicit false

namespace Bracemark

open Text

/-! ## Borders, alignments, roles -/

/-- The border along one edge of a cell. -/
inductive Border where
  | none
  | single
  | double
  | bold
deriving DecidableEq, Repr, Inhabited

namespace Border

/-- The border that a letter stands for. -/
def ofCode? : Char → Option Border
  | 'n' => some .none
  | 's' => some .single
  | 'd' => some .double
  | 'b' => some .bold
  | _ => Option.none

/-- The border in a style sheet. -/
def css : Border → String
  | .none => "none"
  | .single => "1px solid"
  | .double => "3px double"
  | .bold => "2px solid"

end Border

/-- How the text of a cell is aligned. -/
inductive Align where
  | left
  | center
  | right
  | justify
deriving DecidableEq, Repr, Inhabited

namespace Align

/-- The alignment that a letter stands for. -/
def ofCode? : Char → Option Align
  | 'l' => some .left
  | 'c' => some .center
  | 'r' => some .right
  | 'j' => some .justify
  | _ => none

/-- The alignment in a style sheet. -/
def css : Align → String
  | .left => "left"
  | .center => "center"
  | .right => "right"
  | .justify => "justify"

end Align

/-- The part of a table that a group of rows belongs to. -/
inductive Role where
  | head
  | body
  | foot
deriving DecidableEq, Repr, Inhabited

namespace Role

/-- The role with a name, whatever its case. -/
def ofName? (name : String) : Option Role :=
  match lowered name with
  | "head" => some .head
  | "body" => some .body
  | "foot" => some .foot
  | _ => none

/-- The name of a role. -/
def name : Role → String
  | .head => "head"
  | .body => "body"
  | .foot => "foot"

/-- The HTML element for a role. -/
def htmlTag : Role → String
  | .head => "thead"
  | .body => "tbody"
  | .foot => "tfoot"

end Role

/-! ## Strings of codes -/

/-- The codes of a string, `none` where a dot stands, and whether an asterisk
follows them. -/
structure Codes (α : Type) where
  codes : List (Option α)
  repeats : Bool
deriving DecidableEq, Repr

namespace Codes

variable {α : Type}

/-- Reads codes up to the end or an asterisk. -/
def ofChars? (decode : Char → Option α) : List Char → Option (Codes α)
  | [] => some ⟨[], false⟩
  | c :: cs =>
    if c = '*' then some ⟨[], true⟩
    else if c = '.' then
      (ofChars? decode cs).map fun more => { more with codes := none :: more.codes }
    else
      (decode c).bind fun code =>
        (ofChars? decode cs).map fun more => { more with codes := some code :: more.codes }

/-- Reads a string of codes, with white space around it left out. -/
def ofText? (decode : Char → Option α) (raw : String) : Option (Codes α) :=
  ofChars? decode (trimBlanks raw.toList)

/-- Reads a string of borders. -/
def borders? (raw : String) : Option (Codes Border) :=
  ofText? Border.ofCode? raw

/-- Reads a string of alignments. -/
def alignments? (raw : String) : Option (Codes Align) :=
  ofText? Align.ofCode? raw

/-- The code for a position; `none` leaves the position as it is. -/
def codeAt (c : Codes α) (index : Nat) : Option α :=
  match c.codes[index]? with
  | some code => code
  | none => if c.repeats then c.codes.getLast?.join else none

/-- The codes for as many positions. -/
def expand (c : Codes α) (count : Nat) : List (Option α) :=
  (List.range count).map c.codeAt

@[simp] theorem length_expand (c : Codes α) (count : Nat) : (c.expand count).length = count := by
  simp [expand]

@[simp] theorem getElem?_expand (c : Codes α) (count index : Nat) :
    (c.expand count)[index]? = if index < count then some (c.codeAt index) else none := by
  simp only [expand, List.getElem?_map]
  split <;> simp_all

end Codes

/-! ## The formats of a table or a group of rows -/

/-- The three strings that a table or a group of rows may carry. -/
structure FormatSpec where
  horizontal : Option (Codes Border)
  vertical : Option (Codes Border)
  align : Option (Codes Align)
deriving DecidableEq, Repr

namespace FormatSpec

/-- No strings. -/
def empty : FormatSpec := ⟨none, none, none⟩

/-- Reads one string that may be absent; an invalid one is an error. -/
def readCodes? {α : Type} (read : String → Option α) : Option String → Option (Option α)
  | none => some none
  | some raw => (read raw).map some

/-- The strings among the arguments of an element, unless one is invalid. -/
def ofArguments? (as : Arguments) : Option FormatSpec := do
  let horizontal ← readCodes? Codes.borders? (as.get? "hborders" none)
  let vertical ← readCodes? Codes.borders? (as.get? "vborders" none)
  let align ← readCodes? Codes.alignments? (as.get? "align" none)
  return ⟨horizontal, vertical, align⟩

end FormatSpec

end Bracemark
