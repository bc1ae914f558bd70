/-
Text and what breaks it.

Plain text is everything that is not markup. A run of it ends before a backtick,
a brace, a backslash or a newline, and in a table cell before a bar too. Every
run, escape and newline is a piece of text of its own; assembly makes one out of
them.

A run of backticks opens verbatim text, which goes on to the next place where as
many backticks stand; it holds one character at least.
-/
import Bracemark.Parser

set_option autoImplicit false

namespace Bracemark.Parser

open Text Reading

variable {m : Type → Type} [Reading m]

/-! ## Pieces of text -/

/-- The node of a piece of text. -/
def textFrom (start stop : Place) (cs : List Char) : Node :=
  .text (start.spanTo stop) (String.ofList cs)

/-- A run of plain text. -/
def text : m Node := do
  let start ← here
  let inCell ← localFlag Key.cellText
  let run ← pattern (if inCell then .cellTextRun else .textRun)
  let stop ← here
  return textFrom start stop run.text

/-- A backslash with the character that it protects; before any other character
it stands for itself. -/
def escape : m Node := do
  let start ← here
  let c ← pattern .escape
  let stop ← here
  return textFrom start stop (if c.word.isEmpty then ['\\'] else c.word)

/-- Cuts a text where so many backticks stand, and drops them. -/
def cutAtFence (fence : List Char) : List Char → Option (List Char × List Char)
  | [] => if fence.isEmpty then some ([], []) else none
  | c :: cs =>
    if fence.isPrefixOf (c :: cs) then some ([], (c :: cs).drop fence.length)
    else (cutAtFence fence cs).map fun (before, after) => (c :: before, after)

/-- The text up to the next place where so many backticks stand, one character at
least, and the place after them. -/
def upToFence (fence : List Char) (place : Place) : Option (List Char × Place) :=
  match place.rest with
  | [] => none
  | c :: cs =>
    (cutAtFence fence cs).map fun (before, after) =>
      (c :: before, place.skip (c :: before ++ fence) after)

/-- Text between two runs of backticks of the same length. -/
def verbatim : m Node := do
  let start ← here
  let opening ← pattern .backticks
  let content ← ofPlace (upToFence opening.text)
  let stop ← here
  return textFrom start stop content

/-- Blank lines between blocks; a table cell has none. -/
def gap : m Node := do
  let inCell ← localFlag Key.cellText
  require !inCell
  let start ← here
  let _ ← pattern .blockBreak
  let stop ← here
  return .leaf (start.spanTo stop) .gap

/-- Whether a markup character may stand for itself: a backtick anywhere, a
closing brace in the outermost text, an opening one where elements are nested too
deeply. -/
def isStray (outermost exhausted : Bool) (c : Char) : Bool :=
  if c = '\x60' then true
  else if c = '}' then outermost
  else if c = '{' then exhausted
  else false

/-- The next character. -/
def nextChar (place : Place) : Option (Char × Place) :=
  place.step?.map fun (c, _, next) => (c, next)

/-- A markup character that means nothing where it stands. -/
def stray : m Node := do
  let start ← here
  let outermost ← localFlag Key.topLevel
  let tooDeep ← exhausted
  let c ← ofPlace nextChar
  require (isStray outermost tooDeep c)
  let stop ← here
  return textFrom start stop [c]

end Bracemark.Parser
