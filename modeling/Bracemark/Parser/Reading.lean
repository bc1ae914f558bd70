/-
What a grammar reads.

`Grammar.readAbove` reads a grammar when it is known how to read one level
deeper, by recursion on the grammar. `Grammar.readAt` ties the levels together:
below the last level at which an element may begin nothing is read, and every
other level is read with the help of the one below it. `Grammar.read` begins at
the level that the scope in force leaves.

The nodes of a sequence or a repetition are the children of one node.
-/
import Bracemark.Parser.Table

set_option autoImplicit false

namespace Bracemark

open Bracemark.Parser Reading

variable {m : Type → Type} [Reading m]

/-! ## Rules -/

/-- What a rule reads. -/
def Rule.readAbove (inner : Grammar → m Node) : Rule → m Node
  | .text => Parser.text
  | .escape => Parser.escape
  | .verbatim => Parser.verbatim
  | .gap => Parser.gap
  | .stray => Parser.stray
  | .element => Parser.element inner
  | .unknown => Parser.unknown inner
  | .part => Parser.part inner
  | .item => Parser.ofForm inner .item
  | .breakLine => Parser.breakLine
  | .blankRows => Parser.blankRows
  | .row => Parser.row inner

/-! ## Grammars -/

namespace Grammar

/-- The text itself as a node. -/
def readLiteral (s : String) : m Node := do
  let start ← here
  exactly s.toList
  let stop ← here
  return .text (start.spanTo stop) s

/-- A match as a node. -/
def readPattern (p : Pattern) : m Node := do
  let start ← here
  let c ← Reading.pattern p
  let stop ← here
  return .leaf (start.spanTo stop) (.capture (c.spans start.offset))

/-- Nodes one after another as the children of one node. -/
def readSequence (p : m (List Node)) : m Node := do
  let start ← here
  let nodes ← p
  let stop ← here
  return .branch (start.spanTo stop) .sequence nodes

/-- A node, or an empty one where there is none. -/
def readOptional (p : m Node) : m Node := do
  let start ← here
  let node ← Reading.optional p
  return node.getD (.null start.offset)

mutual

/-- What a grammar reads, where `inner` reads the content of elements. -/
def readAbove (inner : Grammar → m Node) : Grammar → m Node
  | .literal s => readLiteral s
  | .pattern p => readPattern p
  | .sequence gs => readSequence (readAll inner gs)
  | .choice gs => readFirst inner gs
  | .many g least most => readSequence (Reading.many (readAbove inner g) least most)
  | .optional g => readOptional (readAbove inner g)
  | .form f => ofForm inner f
  | .rule r => r.readAbove inner

/-- All of some grammars, one after another. -/
def readAll (inner : Grammar → m Node) : List Grammar → m (List Node)
  | [] => pure []
  | g :: gs => do
    let node ← readAbove inner g
    let nodes ← readAll inner gs
    return node :: nodes

/-- The first of some grammars that matches. -/
def readFirst (inner : Grammar → m Node) : List Grammar → m Node
  | [] => fail
  | g :: gs => orElse (readAbove inner g) (readFirst inner gs)

end

/-- What a grammar reads where elements may be nested `levels` deeper. -/
def readAt : Nat → Grammar → m Node
  | 0, g => readAbove (fun _ => fail) g
  | levels + 1, g => readAbove (readAt levels) g

/-- What a grammar reads. -/
def read (g : Grammar) : m Node := do
  let n ← nesting
  readAt (maxNesting - n) g

end Grammar

end Bracemark
