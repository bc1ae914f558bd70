/-
Quoted text.

A text is quoted so that it can be shown on one line and read without doubt. The
usual control characters, the backslash and the quotes are written with a
backslash, and a character that cannot be shown by its code point. An extender is
written by its code point where it would otherwise join a character that does not
belong to the text.
-/
import Bracemark.Text.Printable

set_option autoImplicit false

namespace Bracemark.Text

/-- Which characters are protected beyond those that always are. -/
structure Quoting where
  singleQuotes : Bool
  extenders : Bool
deriving DecidableEq, Repr

/-- A code point in hexadecimal digits between braces. -/
def codePoint (c : Char) : List Char :=
  ['\\', 'u', '{'] ++ Nat.toDigits 16 c.toNat ++ ['}']

/-- How a character is written in a quoted text. -/
def quoteChar (q : Quoting) (c : Char) : List Char :=
  if c = '\x00' then ['\\', '0']
  else if c = '\t' then ['\\', 't']
  else if c = '\r' then ['\\', 'r']
  else if c = '\n' then ['\\', 'n']
  else if c = '\\' then ['\\', '\\']
  else if c = '"' then ['\\', '"']
  else if c = '\x27' ∧ q.singleQuotes = true then ['\\', '\x27']
  else if q.extenders && isExtender c then codePoint c
  else if isShown c then [c]
  else codePoint c

/-- A text between double quotes; single quotes need no protection in it, and
every extender is written by its code point. -/
def inDoubleQuotes (s : String) : String :=
  "\"" ++ String.ofList (s.toList.flatMap (quoteChar ⟨false, true⟩)) ++ "\""

/-- A text between single quotes. Both kinds of quote are protected; only an
extender at the very beginning is written by its code point. -/
def inSingleQuotes (s : String) : String :=
  let body := match s.toList with
    | [] => []
    | c :: cs => quoteChar ⟨true, true⟩ c ++ cs.flatMap (quoteChar ⟨true, false⟩)
  "'" ++ String.ofList body ++ "'"

end Bracemark.Text
