/-
Settings files.

A settings file assigns values to names, one on each line, and a line with a name
in square brackets says which table the names after it belong to. Values are
quoted strings, truth values and integers; a hash sign begins a comment. A name
may have several parts with dots between them, and no name is assigned twice.

A string stands between quotes of either kind. Between double quotes a backslash
begins an escape; between single quotes it stands for itself. A string between
three quotes may go over several lines.

Every reader here takes the characters to read and gives what it has read together
with the characters after it, or nothing if they are not well formed.
-/
import Bracemark.Settings.Value
import Bracemark.Text.Integer
import Bracemark.Text.Blank

set_option autoImplicit false

namespace Bracemark.SettingsFile

open Text

/-! ## Characters -/

/-- The rest of a text after a byte order mark. -/
def dropMark : List Char → List Char
  | c :: cs => if c.toNat = 0xfeff then cs else c :: cs
  | [] => []

/-- Line ends as line feeds, also where a carriage return stands before them. -/
def unifyLineEnds : List Char → List Char
  | '\r' :: '\n' :: cs => '\n' :: unifyLineEnds cs
  | c :: cs => c :: unifyLineEnds cs
  | [] => []

/-- Whether a character may stand in a settings file: any but the controls, of which
only tabs and line feeds may. -/
def isAllowed (c : Char) : Bool :=
  c == '\t' || c == '\n' || (0x20 ≤ c.toNat && c.toNat != 0x7f)

/-- The characters of a settings file; a byte order mark at its beginning is passed
over. -/
def characters (text : String) : List Char :=
  unifyLineEnds (dropMark text.toList)

/-- The rest of a line after spaces and tabs. -/
def skipSpaces (cs : List Char) : List Char :=
  cs.dropWhile isLineSpace

/-- The rest of a text after the line end that it may begin with. -/
def dropLineEnd : List Char → List Char
  | '\n' :: cs => cs
  | cs => cs

/-- Goes to the next line; nothing but a comment may be left of this one. -/
def lineEnd? (cs : List Char) : Option (List Char) :=
  match skipSpaces cs with
  | [] => some []
  | '\n' :: cs => some cs
  | '#' :: cs => some (dropLineEnd (cs.dropWhile (· != '\n')))
  | _ => none

/-! ## Strings -/

/-- The value of a hexadecimal digit. -/
def hexValue? (c : Char) : Option Nat :=
  if c.isDigit then some (c.toNat - '0'.toNat)
  else if 'a' ≤ c ∧ c ≤ 'f' then some (c.toNat - 'a'.toNat + 10)
  else if 'A' ≤ c ∧ c ≤ 'F' then some (c.toNat - 'A'.toNat + 10)
  else none

/-- The character whose code point is written in some hexadecimal digits. -/
def codePoint? (digits : List Char) : Option Char :=
  let n? := digits.foldl (fun n c => do return 16 * (← n) + (← hexValue? c)) (some 0)
  n?.bind fun n => if n.isValidChar then some (Char.ofNat n) else none

/-- Cuts a text at the quote that ends a string. Where there are escapes, a backslash
protects the character after it. The string may not leave its line. -/
def quotedBody? (quote : Char) (escapes : Bool) : List Char → Option (List Char × List Char)
  | [] => none
  | c :: cs =>
    if c = '\n' then none
    else if c = quote then some ([], cs)
    else if escapes && c == '\\' then
      match cs with
      | [] => none
      | d :: ds =>
        if d = '\n' then none
        else (quotedBody? quote escapes ds).map fun (body, rest) => (c :: d :: body, rest)
    else (quotedBody? quote escapes cs).map fun (body, rest) => (c :: body, rest)

/-- Cuts a text at the three quotes that end a string. Up to two more quotes directly
before them belong to the string. -/
def fencedBody? (quote : Char) (escapes : Bool) : List Char → Option (List Char × List Char)
  | [] => none
  | c :: cs =>
    if c = quote ∧ cs.take 2 = [quote, quote] then
      let extra := ((cs.drop 2).take 2).takeWhile (· == quote)
      some (extra, cs.drop (2 + extra.length))
    else if escapes && c == '\\' then
      match cs with
      | [] => none
      | d :: ds => (fencedBody? quote escapes ds).map fun (body, rest) => (c :: d :: body, rest)
    else (fencedBody? quote escapes cs).map fun (body, rest) => (c :: body, rest)

/-- What a string with escapes stands for. A backslash at the end of a line joins it
with the next line that has more than white space; `joining` says that such a line is
looked for. -/
def unescape? (joining : Bool) : List Char → Option (List Char)
  | [] => some []
  | '\\' :: 'u' :: a :: b :: c :: d :: cs => do
    let char ← codePoint? [a, b, c, d]
    return char :: (← unescape? false cs)
  | '\\' :: 'U' :: a :: b :: c :: d :: e :: f :: g :: h :: cs => do
    let char ← codePoint? [a, b, c, d, e, f, g, h]
    return char :: (← unescape? false cs)
  | '\\' :: c :: cs =>
    if isLineSpace c || c == '\n' then
      if (skipSpaces (c :: cs)).head? = some '\n' then unescape? true cs else none
    else do
      let char ← match c with
        | 'b' => some '\x08'
        | 't' => some '\t'
        | 'n' => some '\n'
        | 'f' => some '\x0c'
        | 'r' => some '\r'
        | '"' => some '"'
        | '\\' => some '\\'
        | _ => none
      return char :: (← unescape? false cs)
  | c :: cs =>
    if joining && (isLineSpace c || c == '\n') then unescape? true cs
    else (unescape? false cs).map (c :: ·)

/-- Reads a string that stays in its line, if the text begins with one. -/
def lineString? : List Char → Option (String × List Char)
  | '"' :: cs => do
    let (body, rest) ← quotedBody? '"' true cs
    return (String.ofList (← unescape? false body), rest)
  | '\x27' :: cs => do
    let (body, rest) ← quotedBody? '\x27' false cs
    return (String.ofList body, rest)
  | _ => none

/-- Reads a string. A line end directly after three quotes does not belong to it. -/
def string? : List Char → Option (String × List Char)
  | '"' :: '"' :: '"' :: cs => do
    let (body, rest) ← fencedBody? '"' true (dropLineEnd cs)
    return (String.ofList (← unescape? false body), rest)
  | '\x27' :: '\x27' :: '\x27' :: cs => do
    let (body, rest) ← fencedBody? '\x27' false (dropLineEnd cs)
    return (String.ofList body, rest)
  | cs => lineString? cs

/-! ## Integers -/

/-- Reads digits in a base after those that came to `n`. Single underscores may stand
between digits; `afterDigit` says that a digit has just been read. -/
def digits? (base n : Nat) (afterDigit : Bool) : List Char → Option Nat
  | [] => if afterDigit then some n else none
  | c :: cs =>
    if c = '_' then if afterDigit then digits? base n false cs else none
    else do
      let d ← hexValue? c
      if d < base then digits? base (base * n + d) true cs else none

/-- Reads a decimal number, which does not begin with a needless zero. -/
def decimal? (cs : List Char) : Option Nat :=
  if cs.head? = some '0' ∧ cs ≠ ['0'] then none else digits? 10 0 false cs

/-- Reads an integer. Those in other bases than ten have no sign. -/
def integer? (cs : List Char) : Option Int :=
  let read? : Option Int := match cs with
    | '0' :: 'x' :: cs => (digits? 16 0 false cs).map Int.ofNat
    | '0' :: 'o' :: cs => (digits? 8 0 false cs).map Int.ofNat
    | '0' :: 'b' :: cs => (digits? 2 0 false cs).map Int.ofNat
    | '-' :: cs => (decimal? cs).map fun n => -(n : Int)
    | '+' :: cs => (decimal? cs).map Int.ofNat
    | cs => (decimal? cs).map Int.ofNat
  read?.filter isNumber

/-! ## Names and values -/

/-- Whether a character may stand in a name without quotes. -/
def isBareChar (c : Char) : Bool :=
  c.isAlphanum || c == '_' || c == '-'

/-- Reads one part of a name. -/
def namePart? (cs : List Char) : Option (String × List Char) :=
  let name := cs.takeWhile isBareChar
  if name.isEmpty then lineString? cs else some (String.ofList name, cs.dropWhile isBareChar)

/-- Reads a name of at most `fuel` parts with dots between them. -/
def name? : Nat → List Char → Option (List String × List Char)
  | 0, _ => none
  | fuel + 1, cs => do
    let (part, rest) ← namePart? (skipSpaces cs)
    match skipSpaces rest with
    | '.' :: rest =>
      let (parts, rest) ← name? fuel rest
      return (part :: parts, rest)
    | rest => return ([part], rest)

/-- Reads a value. -/
def value? (cs : List Char) : Option (Scalar × List Char) :=
  match cs.head? with
  | some '"' | some '\x27' => (string? cs).map fun (s, rest) => (.text s, rest)
  | _ =>
    let isWordChar := fun c => isBareChar c || c == '+'
    let word := cs.takeWhile isWordChar
    let scalar? : Option Scalar :=
      if word = ['t', 'r', 'u', 'e'] then some (.flag true)
      else if word = ['f', 'a', 'l', 's', 'e'] then some (.flag false)
      else (integer? word).map .number
    scalar?.map fun s => (s, cs.dropWhile isWordChar)

/-! ## Lines -/

/-- What a line of a settings file says. -/
inductive Line where
  | nothing
  /-- The names after it belong to a table. -/
  | header (name : List String)
  | assignment (name : List String) (value : Scalar)
deriving DecidableEq, Repr

/-- Reads a line. -/
def line? (cs : List Char) : Option (Line × List Char) :=
  match skipSpaces cs with
  | [] | '\n' :: _ | '#' :: _ => (lineEnd? cs).map fun rest => (.nothing, rest)
  | '[' :: cs => do
    let (name, rest) ← name? cs.length cs
    match rest with
    | ']' :: rest => return (.header name, ← lineEnd? rest)
    | _ => none
  | cs => do
    let (name, rest) ← name? cs.length cs
    match rest with
    | '=' :: rest =>
      let (value, rest) ← value? (skipSpaces rest)
      return (.assignment name value, ← lineEnd? rest)
    | _ => none

/-- Reads lines to the end, at most `fuel` of them. -/
def lines? : Nat → List Char → Option (List Line)
  | _, [] => some []
  | 0, _ :: _ => none
  | fuel + 1, cs => do
    let (line, rest) ← line? cs
    return line :: (← lines? fuel rest)

/-- The assignments that lines make below a table, each with its whole name. -/
def assignments (table : List String) : List Line → List (List String × Scalar)
  | [] => []
  | .nothing :: lines => assignments table lines
  | .header name :: lines => assignments name lines
  | .assignment name value :: lines => (table ++ name, value) :: assignments table lines

/-- The tables that lines name. -/
def headers (lines : List Line) : List (List String) :=
  lines.filterMap fun line =>
    match line with
    | .header name => some name
    | _ => none

/-- Whether no name is assigned twice, or both to a value and to a table. -/
def isConsistent (names : List (List String)) : Bool :=
  match names with
  | [] => true
  | name :: names =>
    names.all (fun other => !name.isPrefixOf other && !other.isPrefixOf name) && isConsistent names

/-- Reads a settings file: the assignments it makes, or none if it is not well
formed. Every line takes a character at least. -/
def read? (text : String) : Option (List (List String × Scalar)) := do
  let cs := characters text
  let lines ← if cs.all isAllowed then lines? cs.length cs else none
  let made := assignments [] lines
  let tables := headers lines
  let clash := tables.any fun t => made.any fun a => a.1.isPrefixOf t
  if isConsistent (made.map (·.1)) && decide tables.Nodup && !clash then some made else none

end Bracemark.SettingsFile
