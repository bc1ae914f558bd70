/-
The patterns of the grammar.

The fixed shapes of text that reading is built from, each matched at the place
where reading stands. A pattern reads as much as it can and is matched in one
way only, so a match is a way of cutting the text in two: what is taken and what
is left. Some patterns single out one part of what they take, the name without
the white space before it for instance; that part is the captured one.

`Pattern.capture?` gives all these pieces as texts. That they put together the
text that was read is what `Capture.text` is for.
-/
import Bracemark.Text.Blank
import Bracemark.Source.Place

set_option autoImplicit false

namespace Bracemark

open Text

/-! ## Matches -/

/-- A match cut into its pieces. A pattern that singles nothing out has no
captured part, and all it takes stands in `lead`. -/
structure Capture where
  /-- What is taken before the captured part. -/
  lead : List Char
  /-- The captured part. -/
  part : Option (List Char)
  /-- What is taken after the captured part. -/
  tail : List Char
  /-- What is left. -/
  rest : List Char
deriving DecidableEq, Repr

namespace Capture

/-- Everything that was taken. -/
def text (c : Capture) : List Char :=
  c.lead ++ c.part.getD [] ++ c.tail

/-- The captured part, or nothing. -/
def word (c : Capture) : List Char :=
  c.part.getD []

/-- A match that singles nothing out. -/
def plain (taken rest : List Char) : Capture :=
  ⟨taken, none, [], rest⟩

/-- The spans of the match and of its captured part, for a match at `offset`. -/
def spans (c : Capture) (offset : Nat) : List Span :=
  let whole := ⟨offset, offset + width c.text⟩
  match c.part with
  | none => [whole]
  | some part =>
    let start := offset + width c.lead
    [whole, ⟨start, start + width part⟩]

end Capture

/-! ## Classes of characters -/

/-- The characters of names: ASCII letters, digits and the underscore. -/
def isNameChar (c : Char) : Bool :=
  c.isAlphanum || c == '_'

/-- The characters that may begin markup, and the newline. -/
def isMarkup (c : Char) : Bool :=
  c == '\x60' || c == '{' || c == '}' || c == '\\' || c == '\n'

/-- The characters that a backslash takes away the meaning of. -/
def isEscapable (c : Char) : Bool :=
  c == '\\' || c == '\x60' || c == '{' || c == '}' || c == '|'

/-! ## Runs -/

/-- The longest run of characters in a class, if it is not empty. -/
def runOf? (inClass : Char → Bool) (cs : List Char) : Option Capture :=
  let taken := cs.takeWhile inClass
  if taken.isEmpty then none else some (.plain taken (cs.dropWhile inClass))

/-- White space and then a longest non-empty run of name characters, which is
the captured part. -/
def spacedName? (cs : List Char) : Option Capture :=
  let body := cs.dropWhile isBlank
  let name := body.takeWhile isNameChar
  if name.isEmpty then none
  else some ⟨cs.takeWhile isBlank, some name, [], body.dropWhile isNameChar⟩

/-- A newline and one or more blank lines: it ends with the last newline before
the next character that is no space, tab or newline. -/
def blockBreak? : List Char → Option Capture
  | '\n' :: cs =>
    let run := cs.takeWhile fun c => isLineSpace c || c == '\n'
    let lines := (run.reverse.dropWhile isLineSpace).reverse
    if lines.isEmpty then none
    else some (.plain ('\n' :: lines) (cs.drop lines.length))
  | _ => none

/-- The body of a quoted value up to its closing quote, and what follows the
quote. A backslash protects the character after it. -/
def quotedBody? (quote : Char) : List Char → Option (List Char × List Char)
  | [] => none
  | '\\' :: [] => none
  | '\\' :: c :: cs =>
    (quotedBody? quote cs).map fun (body, rest) => ('\\' :: c :: body, rest)
  | c :: cs =>
    if c = quote then some ([], cs)
    else (quotedBody? quote cs).map fun (body, rest) => (c :: body, rest)

/-- White space and a quoted value, whose body is the captured part. -/
def quoted? (quote : Char) (cs : List Char) : Option Capture :=
  match cs.dropWhile isBlank with
  | [] => none
  | c :: body =>
    if c = quote then
      (quotedBody? quote body).map fun (body, rest) =>
        ⟨cs.takeWhile isBlank ++ [quote], some body, [quote], rest⟩
    else none

/-- The longest bare value: it ends at white space, a closing brace or a bar. A
backslash protects the character after it, which may not be a newline. -/
def bareBody : List Char → List Char × List Char
  | [] => ([], [])
  | ['\\'] => ([], ['\\'])
  | '\\' :: c :: cs =>
    if c = '\n' then ([], '\\' :: c :: cs)
    else
      let (body, rest) := bareBody cs
      ('\\' :: c :: body, rest)
  | c :: cs =>
    if isBlank c || c == '}' || c == '|' then ([], c :: cs)
    else
      let (body, rest) := bareBody cs
      (c :: body, rest)

/-! ## Patterns -/

/-- The patterns of the grammar by name. -/
inductive Pattern where
  /-- The name of an element. -/
  | name
  /-- The bar between arguments and content. -/
  | split
  /-- The closing brace, for which the end of the source also stands. -/
  | close
  /-- Plain text up to the next markup character, or a single newline. -/
  | textRun
  /-- Plain text in a table cell, where a bar ends it too. -/
  | cellTextRun
  /-- A backslash and the character it protects, if it protects one. -/
  | escape
  /-- A newline and one or more blank lines. -/
  | blockBreak
  /-- A run of backticks. -/
  | backticks
  /-- A line of three or more dashes with arguments after them. -/
  | groupBreak
  /-- White space, at least one character. -/
  | blank
  /-- Spaces and tabs, perhaps none. -/
  | spaces
  /-- Spaces and tabs up to the end of the line. -/
  | rowEnd
  /-- The name of an argument and its equals sign. -/
  | argumentName
  /-- A value in double quotes. -/
  | doubleQuoted
  /-- A value in single quotes. -/
  | singleQuoted
  /-- A value without quotes. -/
  | bare
deriving DecidableEq, Repr, Inhabited

/-- Matches a pattern at the beginning of a text. -/
def Pattern.capture? (p : Pattern) (cs : List Char) : Option Capture :=
  match p with
  | .name => spacedName? cs
  | .split =>
    match cs.dropWhile isBlank with
    | '|' :: rest => some (.plain (cs.takeWhile isBlank ++ ['|']) rest)
    | _ => none
  | .close =>
    match cs.dropWhile isBlank with
    | [] => some (.plain cs [])
    | '}' :: rest => some (.plain (cs.takeWhile isBlank ++ ['}']) rest)
    | _ => none
  | .textRun =>
    match cs with
    | '\n' :: rest => some (.plain ['\n'] rest)
    | _ => runOf? (fun c => !isMarkup c) cs
  | .cellTextRun => runOf? (fun c => !isMarkup c && c != '|') cs
  | .escape =>
    match cs with
    | '\\' :: c :: rest =>
      if isEscapable c then some ⟨['\\'], some [c], [], rest⟩
      else some ⟨['\\'], some [], [], c :: rest⟩
    | ['\\'] => some ⟨['\\'], some [], [], []⟩
    | _ => none
  | .blockBreak => blockBreak? cs
  | .backticks => runOf? (· == '\x60') cs
  | .groupBreak =>
    let margin := cs.takeWhile isLineSpace
    let line := cs.dropWhile isLineSpace
    let dashes := line.takeWhile (· == '-')
    if dashes.length < 3 then none
    else
      let after := line.dropWhile (· == '-')
      let inLine := fun c => c != '\n' && c != '}'
      let tail := after.takeWhile inLine
      match after.dropWhile inLine with
      | '\n' :: rest => some ⟨margin ++ dashes, some tail, ['\n'], rest⟩
      | rest => some ⟨margin ++ dashes, some tail, [], rest⟩
  | .blank => runOf? isBlank cs
  | .spaces => some (.plain (cs.takeWhile isLineSpace) (cs.dropWhile isLineSpace))
  | .rowEnd =>
    match cs.dropWhile isLineSpace with
    | [] => some (.plain cs [])
    | '\n' :: rest => some (.plain (cs.takeWhile isLineSpace ++ ['\n']) rest)
    | _ => none
  | .argumentName =>
    (spacedName? cs).bind fun c =>
      match c.rest.dropWhile isBlank with
      | '=' :: rest =>
        some { c with tail := c.rest.takeWhile isBlank ++ ['='], rest := rest }
      | _ => none
  | .doubleQuoted => quoted? '"' cs
  | .singleQuoted => quoted? '\x27' cs
  | .bare =>
    let (body, rest) := bareBody (cs.dropWhile isBlank)
    if body.isEmpty then none else some ⟨cs.takeWhile isBlank, some body, [], rest⟩

end Bracemark
