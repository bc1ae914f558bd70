/-
Keys of settings.

A key is a path written as text: a name, and then any number of further names
after a dot or positions in square brackets. Names consist of ASCII letters,
digits, spaces, underscores and hyphens. A position is a signed 64-bit integer
that may stand between spaces and tabs.
-/
import Bracemark.Settings.Value
import Bracemark.Text.Blank
import Bracemark.Text.Integer

set_option autoImplicit false

namespace Bracemark

open Text

/-- Whether a character may stand in a name of a key. -/
def isKeyChar (c : Char) : Bool :=
  c.isAlphanum || c == '_' || c == '-' || c == ' '

/-- Cuts a text after the name it begins with, which must not be empty. -/
def keyName? (cs : List Char) : Option (PathStep × List Char) :=
  let name := cs.takeWhile isKeyChar
  if name.isEmpty then none
  else some (.name (String.ofList name), cs.dropWhile isKeyChar)

/-- Cuts a text after a position and the bracket that closes it. -/
def keyIndex? (cs : List Char) : Option (PathStep × List Char) :=
  let inside := cs.takeWhile (· != ']')
  match cs.dropWhile (· != ']') with
  | _ :: rest =>
    let digits := ((inside.dropWhile isLineSpace).reverse.dropWhile isLineSpace).reverse
    if digits.head? = some '+' then none
    else ((readInteger? digits).filter isNumber).map fun i => (.index i, rest)
  | [] => none

/-- The steps after the first name, at most `fuel` of them. -/
def keySteps? : Nat → List Char → Option Path
  | _, [] => some []
  | 0, _ :: _ => none
  | fuel + 1, '.' :: cs => do
    let (step, rest) ← keyName? cs
    let steps ← keySteps? fuel rest
    return step :: steps
  | fuel + 1, '[' :: cs => do
    let (step, rest) ← keyIndex? cs
    let steps ← keySteps? fuel rest
    return step :: steps
  | _ + 1, _ => none

/-- The path that a key stands for. Every step takes a character at least. -/
def Path.ofKey? (key : String) : Option Path := do
  let (step, rest) ← keyName? key.toList
  let steps ← keySteps? rest.length rest
  return step :: steps

end Bracemark
