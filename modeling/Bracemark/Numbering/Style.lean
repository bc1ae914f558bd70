/-
Styles of list markers.

An ordered list counts in decimal, letters or roman numerals, an unordered one
puts the same bullet before every item. Letters are the bijective numeration in
base twenty-six (A to Z, then AA), which has no zero, so numbers below one have
no letters and show a question mark. Roman numerals go as far as four thousand
less one; beyond that the decimal number is written.
-/
import Bracemark.Text.Case

set_option autoImplicit false

namespace Bracemark

open Text

/-- How the items of a list are marked. -/
inductive Style where
  | decimal
  | lowerAlpha
  | upperAlpha
  | lowerRoman
  | upperRoman
  | disc
  | circle
deriving DecidableEq, Repr, Inhabited

/-! ## Letters and roman numerals -/

/-- The letter for a digit from 0 to 25. -/
def letter (digit : Nat) : Char :=
  Char.ofNat ('A'.toNat + digit)

/-- The letters of a positive number, last letter first; zero has none. -/
def lettersFromEnd (n : Nat) : List Char :=
  if h : n = 0 then []
  else letter ((n - 1) % 26) :: lettersFromEnd ((n - 1) / 26)
termination_by n
decreasing_by omega

/-- A number in letters. -/
def toAlpha (number : Int) : String :=
  if number < 1 then "?" else String.ofList (lettersFromEnd number.toNat).reverse

/-- The largest number written in roman numerals. -/
def maxRoman : Nat := 3999

/-- The values that roman numerals add up, largest first. -/
def romanValues : List (Nat × String) :=
  [(1000, "M"), (900, "CM"), (500, "D"), (400, "CD"), (100, "C"), (90, "XC"), (50, "L"),
    (40, "XL"), (10, "X"), (9, "IX"), (5, "V"), (4, "IV"), (1, "I")]

/-- Writes each value as often as it goes into what the larger ones leave. -/
def romanFrom : List (Nat × String) → Nat → String
  | [], _ => ""
  | (value, numeral) :: values, n =>
    String.join (List.replicate (n / value) numeral) ++ romanFrom values (n % value)

/-- A number in roman numerals. -/
def toRoman (number : Int) : String :=
  if number < 1 then "?"
  else if (maxRoman : Int) < number then toString number
  else romanFrom romanValues number.toNat

/-! ## Styles -/

namespace Style

/-- The style that a code in a document stands for. -/
def ofCode? : String → Option Style
  | "1" => some .decimal
  | "a" => some .lowerAlpha
  | "A" => some .upperAlpha
  | "i" => some .lowerRoman
  | "I" => some .upperRoman
  | "." => some .disc
  | "o" => some .circle
  | _ => none

/-- Whether items are told apart by their markers. -/
def isOrdered : Style → Bool
  | .disc | .circle => false
  | _ => true

/-- The name of the style in style sheets. -/
def css : Style → String
  | .decimal => "decimal"
  | .lowerAlpha => "lower-alpha"
  | .upperAlpha => "upper-alpha"
  | .lowerRoman => "lower-roman"
  | .upperRoman => "upper-roman"
  | .disc => "disc"
  | .circle => "circle"

/-- The bullet that plain text shows before an unordered item. -/
def bullet : Style → String
  | .circle => "o"
  | _ => "*"

/-- A number in this style; unordered styles show none. -/
def format (style : Style) (number : Int) : String :=
  match style with
  | .decimal => toString number
  | .lowerAlpha => lowered (toAlpha number)
  | .upperAlpha => toAlpha number
  | .lowerRoman => lowered (toRoman number)
  | .upperRoman => toRoman number
  | .disc | .circle => ""

end Style

end Bracemark
