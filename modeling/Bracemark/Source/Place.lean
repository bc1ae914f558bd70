/-
Places in a source text.

A place says how far reading has come: the offset in bytes of UTF-8, the size of
the whole source, and the characters still to be read. Going back is keeping an
earlier place, so nothing has to be undone when an alternative does not match.

Offsets count bytes because spans are reported in bytes. The characters left are
kept as a list, so a place always stands between two characters.
-/

set_option autoImplicit false

namespace Bracemark

/-! ## Spans -/

/-- A half-open range of byte offsets into the source. -/
structure Span where
  start : Nat
  stop : Nat
deriving DecidableEq, Repr, Inhabited

/-! ## Width -/

/-- The number of bytes that some characters take in UTF-8. -/
def width (cs : List Char) : Nat :=
  cs.foldr (fun c n => c.utf8Size + n) 0

@[simp] theorem width_nil : width [] = 0 := rfl

@[simp] theorem width_cons (c : Char) (cs : List Char) :
    width (c :: cs) = c.utf8Size + width cs := rfl

@[simp] theorem width_append (a b : List Char) : width (a ++ b) = width a + width b := by
  induction a with
  | nil => simp
  | cons c a ih => rw [List.cons_append, width_cons, width_cons, ih, Nat.add_assoc]

/-- Only the empty text has no width. -/
theorem width_eq_zero_iff (cs : List Char) : width cs = 0 ↔ cs = [] := by
  cases cs with
  | nil => simp
  | cons c cs =>
    have := c.utf8Size_pos
    simp; omega

/-! ## Places -/

/-- Where reading has come to. -/
structure Place where
  offset : Nat
  /-- The size of the source in bytes. -/
  size : Nat
  /-- The characters not read yet. -/
  rest : List Char
deriving DecidableEq, Repr, Inhabited

namespace Place

/-- The place before the first character of a source. -/
def first (source : List Char) : Place :=
  ⟨0, width source, source⟩

/-- The bytes between a place and the end of the source. -/
def left (p : Place) : Nat :=
  p.size - p.offset

/-- The place after `taken`, where `rest` is what follows it. -/
def skip (p : Place) (taken rest : List Char) : Place :=
  { p with offset := p.offset + width taken, rest := rest }

/-- Whether the source ends here. -/
def atEnd (p : Place) : Bool :=
  p.size ≤ p.offset

/-- The text left begins with `c`. -/
def startsWith (p : Place) (c : Char) : Bool :=
  p.rest.head? == some c

/-- The span from one place to a later one. -/
def spanTo (p q : Place) : Span :=
  ⟨p.offset, q.offset⟩

/-- The place after the next character, and that character's span. -/
def step? (p : Place) : Option (Char × Span × Place) :=
  match p.rest with
  | [] => none
  | c :: rest =>
    let q := p.skip [c] rest
    some (c, p.spanTo q, q)

@[simp] theorem skip_offset (p : Place) (taken rest : List Char) :
    (p.skip taken rest).offset = p.offset + width taken := rfl

@[simp] theorem skip_size (p : Place) (taken rest : List Char) :
    (p.skip taken rest).size = p.size := rfl

@[simp] theorem skip_rest (p : Place) (taken rest : List Char) :
    (p.skip taken rest).rest = rest := rfl

end Place

/-! ## Cutting a source by offsets -/

/-- The characters after the first `n` bytes; none when `n` falls inside a
character or past the end. -/
def dropBytes? (n : Nat) : List Char → Option (List Char)
  | [] => if n = 0 then some [] else none
  | c :: cs =>
    if n = 0 then some (c :: cs)
    else if c.utf8Size ≤ n then dropBytes? (n - c.utf8Size) cs
    else none

/-- The characters that make up the first `n` bytes; none when `n` falls inside a
character or past the end. -/
def takeBytes? (n : Nat) : List Char → Option (List Char)
  | [] => if n = 0 then some [] else none
  | c :: cs =>
    if n = 0 then some []
    else if c.utf8Size ≤ n then (takeBytes? (n - c.utf8Size) cs).map (c :: ·)
    else none

/-- The text that a span covers; empty when the span does not cut the source
between characters. -/
def sliceOf (source : List Char) (span : Span) : List Char :=
  if span.start ≤ span.stop then
    ((dropBytes? span.start source).bind (takeBytes? (span.stop - span.start))).getD []
  else []

/-- The place at a byte offset, or the end of the source if the offset lies
beyond it. An offset inside a character has no place. -/
def Place.at? (source : List Char) (offset : Nat) : Option Place :=
  let size := width source
  if size ≤ offset then some ⟨size, size, []⟩
  else (dropBytes? offset source).map fun rest => ⟨offset, size, rest⟩

end Bracemark
