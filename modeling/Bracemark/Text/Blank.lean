/-
White space.

One notion of white space serves the whole library: the twenty-five characters
with the Unicode property White_Space. The grammar skips it between the pieces
of an element, arguments are trimmed of it before they are read as numbers, and
rendered paragraphs and cells are trimmed of it at both ends.

Trimming is defined on lists of characters, where it is two uses of
`List.dropWhile`; the versions for strings go through them.
-/

set_option autoImplicit false

namespace Bracemark.Text

/-! ## The characters -/

/-- Whether a character has the Unicode property White_Space. -/
def isBlank (c : Char) : Bool :=
  let n := c.toNat
  (9 ≤ n && n ≤ 13) || n == 0x20 || n == 0x85 || n == 0xa0 || n == 0x1680 ||
    (0x2000 ≤ n && n ≤ 0x200a) || n == 0x2028 || n == 0x2029 || n == 0x202f ||
    n == 0x205f || n == 0x3000

/-- Whether a character is a space or a tab: the white space that may stand
inside a line of a table. -/
def isLineSpace (c : Char) : Bool :=
  c == ' ' || c == '\t'

theorem isBlank_of_isLineSpace {c : Char} (h : isLineSpace c = true) : isBlank c = true := by
  simp only [isLineSpace, Bool.or_eq_true, beq_iff_eq] at h
  rcases h with rfl | rfl <;> decide

/-! ## Trimming -/

/-- The characters from the first one that is not blank. -/
def dropLeadingBlanks (cs : List Char) : List Char :=
  cs.dropWhile isBlank

/-- The characters up to the last one that is not blank. -/
def dropTrailingBlanks (cs : List Char) : List Char :=
  (cs.reverse.dropWhile isBlank).reverse

/-- The characters from the first to the last one that is not blank. -/
def trimBlanks (cs : List Char) : List Char :=
  dropTrailingBlanks (dropLeadingBlanks cs)

/-- Whether there is nothing but white space. -/
def allBlank (cs : List Char) : Bool :=
  cs.all isBlank

@[simp] theorem dropLeadingBlanks_nil : dropLeadingBlanks [] = [] := rfl

@[simp] theorem dropTrailingBlanks_nil : dropTrailingBlanks [] = [] := rfl

@[simp] theorem trimBlanks_nil : trimBlanks [] = [] := rfl

/-- `trimStart s` is `s` without the white space it begins with. -/
def trimStart (s : String) : String :=
  String.ofList (dropLeadingBlanks s.toList)

/-- `trimEnd s` is `s` without the white space it ends with. -/
def trimEnd (s : String) : String :=
  String.ofList (dropTrailingBlanks s.toList)

/-- `trim s` is `s` without the white space at its two ends. -/
def trim (s : String) : String :=
  String.ofList (trimBlanks s.toList)

/-- Whether a text holds white space only; the empty text does. -/
def isBlankText (s : String) : Bool :=
  allBlank s.toList

@[simp] theorem toList_trim (s : String) : (trim s).toList = trimBlanks s.toList :=
  String.toList_ofList

@[simp] theorem toList_trimStart (s : String) :
    (trimStart s).toList = dropLeadingBlanks s.toList :=
  String.toList_ofList

@[simp] theorem toList_trimEnd (s : String) :
    (trimEnd s).toList = dropTrailingBlanks s.toList :=
  String.toList_ofList

end Bracemark.Text
