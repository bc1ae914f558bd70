/-
How arguments are written.

An argument is a value with perhaps a name and an equals sign before it. The
value stands in double quotes, in single quotes, or bare; a quoted value may
hold anything, a bare one ends at white space, a closing brace or a bar. In a
quoted value a backslash protects the quote and the backslash; in a bare value
it protects any character.

Which of the two rules undoes the protection is decided by the first character
of the value as it stands in the text. A bare value that begins with a quote,
because the quote is never closed, is therefore undone like a quoted one.
-/
import Bracemark.Arguments
import Bracemark.Source.Pattern

set_option autoImplicit false

namespace Bracemark

open Text

/-! ## Undoing protection -/

/-- Replaces a backslash and the character after it by that character, wherever
`protects` says that a backslash protects it. -/
def unprotect (protects : Char → Bool) : List Char → List Char
  | '\\' :: c :: cs =>
    if protects c then c :: unprotect protects cs
    else '\\' :: c :: unprotect protects cs
  | c :: cs => c :: unprotect protects cs
  | [] => []

/-- The characters that a backslash protects in a value that begins with `c`. -/
def protectedBy (c : Option Char) : Char → Bool :=
  match c with
  | some '"' => fun d => d == '"' || d == '\\'
  | some '\x27' => fun d => d == '\x27' || d == '\\'
  | _ => fun _ => true

/-! ## One argument -/

/-- Matches a value: in double quotes, else in single quotes, else bare. -/
def value? (cs : List Char) : Option Capture :=
  (Pattern.doubleQuoted.capture? cs).or
    ((Pattern.singleQuoted.capture? cs).or (Pattern.bare.capture? cs))

/-- The value that a match stands for. -/
def valueOf (c : Capture) : String :=
  -- The rule is chosen by the first character of the match, quotes included.
  let raw := dropLeadingBlanks c.text
  String.ofList (unprotect (protectedBy raw.head?) c.word)

/-- An argument as it was read: its name as written and its value. -/
structure WrittenArgument where
  name : Option String
  value : String
deriving DecidableEq, Repr

/-- Reads one argument. A name and its equals sign that no value follows are no
argument, and they are not read as a bare value instead. -/
def Place.argument? (p : Place) : Option (WrittenArgument × Place) :=
  let (name, q) :=
    match Pattern.argumentName.capture? p.rest with
    | some c => (some (String.ofList c.word), p.skip c.text c.rest)
    | none => (none, p)
  (value? q.rest).map fun c => (⟨name, valueOf c⟩, q.skip c.text c.rest)

/-! ## Lists of arguments -/

/-- Reads arguments, at most `fuel` of them, for as long as there are any. -/
def Place.argumentsLoop : Nat → Arguments → Place → Arguments × Place
  | 0, as, p => (as, p)
  | fuel + 1, as, p =>
    match p.argument? with
    | none => (as, p)
    | some (a, q) => argumentsLoop fuel (as.push a.name a.value) q

/-- Reads as many arguments as follow. Each takes a byte at least, so there are
no more of them than bytes left. -/
def Place.arguments (p : Place) : Arguments × Place :=
  p.argumentsLoop p.left .empty

/-- Reads a whole text as arguments; nothing but white space may be left over. -/
def Arguments.ofText? (cs : List Char) : Option Arguments :=
  let (as, p) := (Place.first cs).arguments
  if allBlank p.rest then some as else none

end Bracemark
