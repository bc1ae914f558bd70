/-
Ways of reading.

The grammar is written once, over a few steps that any way of reading takes: to
match a piece of the text or not, to try one thing and then another, to repeat, to
ask what the scope in force says, and to read inside a frame of settings.

A parser is one such way. It looks at the scope in force, starts at a place in the
source, and either matches, with a value and the place after it, or does not.
Since the place is a value that is handed on, an alternative that does not match
leaves nothing to be taken back.

One thing outlives an alternative that is given up: the memory of elements that
were read inside it. An element that begins at some place inside so many others
is always read in the same way, so the next alternative that comes by takes it
from memory.
-/
import Bracemark.Node
import Bracemark.Scope
import Bracemark.Source.Pattern

set_option autoImplicit false

namespace Bracemark

/-! ## Memory -/

/-- An element that has been read. -/
structure Recollection where
  /-- The offset at which it begins. -/
  start : Nat
  /-- The number of elements around it. -/
  nesting : Nat
  node : Node
  /-- The place after it. -/
  after : Place

/-- The elements that have been read, newest first. A memory that does not recall
answers no question; reading with it reads every element again. -/
structure Memory where
  recollections : List Recollection
  recalls : Bool

namespace Memory

/-- Nothing has been read. -/
def empty : Memory := ⟨[], true⟩

/-- A memory that never answers. -/
def forgetful : Memory := ⟨[], false⟩

/-- Keeps an element. -/
def remember (m : Memory) (r : Recollection) : Memory :=
  { m with recollections := r :: m.recollections }

/-- The element that was read at an offset inside so many others. -/
def find? (m : Memory) (start nesting : Nat) : Option Recollection :=
  if m.recalls then
    m.recollections.find? fun r => r.start == start && r.nesting == nesting
  else none

@[simp] theorem find?_empty (start nesting : Nat) : empty.find? start nesting = none := rfl

@[simp] theorem find?_forgetful (start nesting : Nat) :
    forgetful.find? start nesting = none := rfl

end Memory

/-! ## Nesting -/

/-- The number of elements inside each other beyond which a brace is text. -/
def maxNesting : Nat := 64

namespace Scope

/-- Whether no element may begin here any more. -/
def exhausted (s : Scope) : Bool :=
  maxNesting ≤ s.nesting

/-- The frame of the content of an element: its own settings, and one more element
around. -/
def deeper (s : Scope) (frame : Frame) : Frame :=
  frame ++ [(Key.nesting, .number (s.nesting + 1))]

end Scope

/-! ## Ways of reading -/

/-- What reading consists of. -/
class Reading (m : Type → Type) extends Monad m where
  /-- Matches nothing. -/
  fail {α : Type} : m α
  /-- The place that reading has come to. -/
  here : m Place
  /-- Reads without a look at scope or memory. -/
  ofPlace {α : Type} (step : Place → Option (α × Place)) : m α
  /-- Tries `q` where `p` does not match. -/
  orElse {α : Type} (p q : m α) : m α
  /-- Repeats `p` between `least` and `most` times. A match that takes nothing is
  not kept and ends the repetition. -/
  many {α : Type} (p : m α) (least : Nat) (most : Option Nat) : m (List α)
  /-- Whether a flag is set in the top frame. -/
  localFlag (key : String) : m Bool
  /-- The catalogue in force. -/
  catalog : m Catalog
  /-- The number of elements around. -/
  nesting : m Nat
  /-- Reads inside a frame of its own. -/
  inFrame {α : Type} (frame : Frame) (p : m α) : m α
  /-- Reads one element deeper; where elements are nested too deeply it does not
  match. -/
  nested {α : Type} (frame : Frame) (p : m α) : m α
  /-- Takes an element from memory, or else reads it and keeps it there. An element
  that has none around it is not kept. -/
  recalling (p : m Node) : m Node

namespace Reading

variable {m : Type → Type} [Reading m] {α : Type}

/-- Matches without reading if a condition holds. -/
def require (condition : Bool) : m Unit :=
  if condition then pure () else fail

/-- Matches with a value if there is one. -/
def ofOption : Option α → m α
  | some a => pure a
  | none => fail

/-- Matches always, with a value where `p` matches. -/
def optional (p : m α) : m (Option α) :=
  orElse (do let a ← p; return some a) (return none)

/-- Whether no element may begin here any more. -/
def exhausted : m Bool := do
  let n ← nesting
  return decide (maxNesting ≤ n)

/-- Matches a pattern. -/
def pattern (p : Pattern) : m Capture :=
  ofPlace fun place => (p.capture? place.rest).map fun c => (c, place.skip c.text c.rest)

/-- Matches some characters as they stand. -/
def exactly (cs : List Char) : m Unit :=
  ofPlace fun place =>
    if cs.isPrefixOf place.rest then some ((), place.skip cs (place.rest.drop cs.length))
    else none

end Reading

/-! ## Parsers -/

/-- A parser for values of a type. -/
def Parser (α : Type) : Type :=
  Scope → Place → Memory → Option (α × Place) × Memory

namespace Parser

variable {α : Type}

/-- Reads on for as long as `p` matches and moves on, at most `limit` times. Each
match takes a byte at least, so `fuel` need not exceed the bytes left by more
than one. A match that does not move on is not kept and ends the repetition. -/
def collect (p : Parser α) (scope : Scope) :
    Nat → Option Nat → Place → Memory → (List α × Place) × Memory
  | 0, _, place, memory => (([], place), memory)
  | _ + 1, some 0, place, memory => (([], place), memory)
  | fuel + 1, limit, place, memory =>
    match p scope place memory with
    | (none, memory) => (([], place), memory)
    | (some (a, next), memory) =>
      -- A match that stays where it is would be found again without end.
      if next.offset = place.offset then (([], place), memory)
      else
        let ((as, last), memory) := collect p scope fuel (limit.map (· - 1)) next memory
        ((a :: as, last), memory)

instance : Reading Parser where
  pure a := fun _ place memory => (some (a, place), memory)
  bind p f := fun scope place memory =>
    match p scope place memory with
    | (none, memory) => (none, memory)
    | (some (a, place), memory) => f a scope place memory
  fail := fun _ _ memory => (none, memory)
  here := fun _ place memory => (some (place, place), memory)
  ofPlace step := fun _ place memory => (step place, memory)
  orElse p q := fun scope place memory =>
    match p scope place memory with
    | (none, memory) => q scope place memory
    | matched => matched
  many p least most := fun scope place memory =>
    let ((as, last), memory) := collect p scope (place.left + 1) most place memory
    if as.length < least then (none, memory) else (some (as, last), memory)
  localFlag key := fun scope place memory => (some (scope.localFlag key, place), memory)
  catalog := fun scope place memory => (some (scope.catalog, place), memory)
  nesting := fun scope place memory => (some (scope.nesting, place), memory)
  inFrame frame p := fun scope place memory => p (scope.push frame) place memory
  nested frame p := fun scope place memory =>
    if scope.exhausted then (none, memory)
    else p (scope.push (scope.deeper frame)) place memory
  recalling p := fun scope place memory =>
    match memory.find? place.offset scope.nesting with
    | some r => (some (r.node, r.after), memory)
    | none =>
      match p scope place memory with
      | (none, memory) => (none, memory)
      | (some (node, after), memory) =>
        -- The outermost elements are never come upon a second time.
        if scope.nesting = 0 then (some (node, after), memory)
        else
          (some (node, after),
            memory.remember ⟨place.offset, scope.nesting, node, after⟩)

/-! ## Small laws -/

section

variable {β : Type} (s : Scope) (place : Place) (m : Memory)

@[simp] theorem pure_apply (a : α) : (pure a : Parser α) s place m = (some (a, place), m) := rfl

theorem bind_apply (p : Parser α) (f : α → Parser β) :
    (p >>= f) s place m =
      match p s place m with
      | (none, m) => (none, m)
      | (some (a, place), m) => f a s place m := rfl

@[simp] theorem fail_apply : (Reading.fail : Parser α) s place m = (none, m) := rfl

@[simp] theorem here_apply :
    (Reading.here : Parser Place) s place m = (some (place, place), m) := rfl

@[simp] theorem ofPlace_apply (step : Place → Option (α × Place)) :
    (Reading.ofPlace step : Parser α) s place m = (step place, m) := rfl

theorem orElse_apply (p q : Parser α) :
    (Reading.orElse p q) s place m =
      match p s place m with
      | (none, m) => q s place m
      | matched => matched := rfl

theorem collect_succ (p : Parser α) (fuel : Nat) {limit : Option Nat} (h : limit ≠ some 0) :
    collect p s (fuel + 1) limit place m =
      match p s place m with
      | (none, m) => (([], place), m)
      | (some (a, next), m) =>
        if next.offset = place.offset then (([], place), m)
        else
          let ((as, last), m) := collect p s fuel (limit.map (· - 1)) next m
          ((a :: as, last), m) := by
  rw [collect]
  exact h

theorem many_apply (p : Parser α) (least : Nat) (most : Option Nat) :
    (Reading.many p least most) s place m =
      let ((as, last), m) := collect p s (place.left + 1) most place m
      if as.length < least then (none, m) else (some (as, last), m) := rfl

@[simp] theorem localFlag_apply (key : String) :
    (Reading.localFlag key : Parser Bool) s place m = (some (s.localFlag key, place), m) := rfl

@[simp] theorem catalog_apply :
    (Reading.catalog : Parser Catalog) s place m = (some (s.catalog, place), m) := rfl

@[simp] theorem nesting_apply :
    (Reading.nesting : Parser Nat) s place m = (some (s.nesting, place), m) := rfl

@[simp] theorem inFrame_apply (frame : Frame) (p : Parser α) :
    (Reading.inFrame frame p) s place m = p (s.push frame) place m := rfl

theorem nested_apply (frame : Frame) (p : Parser α) :
    (Reading.nested frame p) s place m =
      if s.exhausted then (none, m) else p (s.push (s.deeper frame)) place m := rfl

theorem recalling_apply (p : Parser Node) :
    (Reading.recalling p) s place m =
      match m.find? place.offset s.nesting with
      | some r => (some (r.node, r.after), m)
      | none =>
        match p s place m with
        | (none, m) => (none, m)
        | (some (node, after), m) =>
          if s.nesting = 0 then (some (node, after), m)
          else (some (node, after), m.remember ⟨place.offset, s.nesting, node, after⟩) := rfl

end

end Parser

end Bracemark
