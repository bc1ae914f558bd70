/-
The grammar.

Grammars are data: fixed text, patterns, sequences, choices, repetitions and
optional parts, the named rules of the language, and the forms of element. The
content of each form is such a grammar, too. `Parser/Reading` says what a
grammar reads.
-/
import Bracemark.Source.Pattern
import Bracemark.Form

set_option autoImplicit false

namespace Bracemark

/-! ## Rules -/

/-- The named rules of the language. -/
inductive Rule where
  /-- A run of plain text. -/
  | text
  /-- A backslash and the character it protects. -/
  | escape
  /-- Text between two runs of backticks. -/
  | verbatim
  /-- Blank lines between blocks. -/
  | gap
  /-- A markup character that means nothing where it stands. -/
  | stray
  /-- An element of any form in the catalogue, or text in braces. -/
  | element
  /-- Text in braces that is no element. -/
  | unknown
  /-- Any of the things that content consists of. -/
  | part
  /-- An item of a list. -/
  | item
  /-- A line that separates groups of rows. -/
  | breakLine
  /-- White space between the rows of a table. -/
  | blankRows
  /-- A row of a table. -/
  | row
deriving DecidableEq, Repr, Inhabited

/-! ## Grammars -/

/-- A grammar. -/
inductive Grammar where
  /-- The text itself. -/
  | literal (s : String)
  | pattern (p : Pattern)
  /-- One after another. -/
  | sequence (gs : List Grammar)
  /-- The first that matches. -/
  | choice (gs : List Grammar)
  /-- Between `least` and `most` times. -/
  | many (g : Grammar) (least : Nat) (most : Option Nat)
  /-- Once or not at all. -/
  | optional (g : Grammar)
  /-- An element of one form. -/
  | form (f : Form)
  | rule (r : Rule)
deriving Repr, Inhabited

namespace Grammar

/-- As often as possible. -/
def repeated (g : Grammar) : Grammar :=
  .many g 0 none

/-- Content: any number of parts. -/
def parts : Grammar :=
  repeated (.rule .part)

end Grammar

/-- The grammar of the content of a form. -/
def Form.content : Form → Grammar
  | .list => .repeated (.choice [.form .item, .pattern .blank])
  | .assign => .repeated (.choice [.form .get, .rule .escape, .rule .text])
  | .code => .repeated (.choice [.rule .verbatim, .rule .escape, .rule .text])
  | .table =>
    .repeated (.choice [.form .caption, .rule .breakLine, .rule .blankRows, .rule .row])
  | _ => .parts

end Bracemark
