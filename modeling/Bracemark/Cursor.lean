/-
Cursors.

A cursor stands at a place in a source, with a scope in force and a memory of the
elements that were read. It reads grammars, and it can try something and go back,
enter frames and leave them, and stop where elements are nested too deeply.

Going back restores the place and cuts the scope off at the mark; the memory is
kept.

Actions on a cursor are the second way of reading. Where a parser is handed a scope
and hands on a place, an action changes the cursor as it goes, in the middle of a
match too: frames are pushed and popped, and what does not match has to be taken
back.
-/
import Bracemark.Document
import Bracemark.Fault

set_option autoImplicit false

namespace Bracemark

/-- A place in a source with all that reading depends on. -/
structure Cursor where
  source : String
  place : Place
  scope : Scope
  memory : Memory

/-- A cursor's place and the mark of its scope. -/
structure Bookmark where
  place : Place
  mark : Mark
deriving DecidableEq, Repr

namespace Cursor

/-- A cursor before the first character of a source. -/
def first (source : String) (scope : Scope) : Cursor :=
  ⟨source, .first source.toList, scope, .empty⟩

/-- Moves to a byte offset, or to the end of the source where that comes first. -/
def advanceTo (c : Cursor) (offset : Nat) : Cursor :=
  { c with place := (Place.at? c.source.toList offset).getD c.place }

/-- Takes one character and gives its span. -/
def bump (c : Cursor) : Option Span × Cursor :=
  match c.place.step? with
  | none => (none, c)
  | some (_, span, place) => (some span, { c with place })

/-- The text that a span covers, or nothing if it does not cut the source between
characters. -/
def slice (c : Cursor) (span : Span) : String :=
  String.ofList (sliceOf c.source.toList span)

/-- The text not read yet. -/
def rest (c : Cursor) : String :=
  String.ofList c.place.rest

/-- Whether no element may begin here any more. -/
def exhausted (c : Cursor) : Bool :=
  c.scope.exhausted

/-! ## Going back -/

/-- Remembers the place and how far the scope goes. -/
def bookmark (c : Cursor) : Bookmark :=
  ⟨c.place, c.scope.mark⟩

/-- Goes back to a bookmark. -/
def goBack (c : Cursor) (b : Bookmark) : Cursor :=
  { c with place := b.place, scope := c.scope.rewind b.mark }

/-- Runs `body`, and goes back if it does not succeed. -/
def attempt {ε α : Type} (c : Cursor) (body : Cursor → Except ε α × Cursor) :
    Except ε α × Cursor :=
  match body c with
  | (.error e, d) => (.error e, d.goBack c.bookmark)
  | (.ok a, d) => (.ok a, d)

/-- Runs `body` inside a frame and leaves the top frame afterwards, whatever comes
of it. It is a fault if `body` went back to before the frame was entered and the
outermost frame is at the top. -/
def withFrame {α : Type} (c : Cursor) (frame : Frame) (body : Cursor → α × Cursor) :
    Except Fault (α × Cursor) :=
  let (result, d) := body { c with scope := c.scope.push frame }
  match d.scope.pop? with
  | none => .error .noOpenFrame
  | some scope => .ok (result, { d with scope })

/-- Runs `body` one element deeper; where elements are nested too deeply it is not
run and there is no result. -/
def withNestedFrame {α : Type} (c : Cursor) (frame : Frame) (body : Cursor → α × Cursor) :
    Except Fault (Option α × Cursor) :=
  if c.exhausted then .ok (none, c)
  else
    (c.withFrame (c.scope.deeper frame) body).map fun (result, d) => (some result, d)

/-! ## Memory -/

/-- Takes an element from memory and moves past it, if it was read here before. -/
def remembered (c : Cursor) : Option Node × Cursor :=
  match c.memory.find? c.place.offset c.scope.nesting with
  | none => (none, c)
  | some r => (some r.node, { c with place := r.after })

/-- Keeps an element that began at `start` and ends here. -/
def remember (c : Cursor) (start : Nat) (node : Node) : Cursor :=
  { c with memory := c.memory.remember ⟨start, c.scope.nesting, node, c.place⟩ }

/-- Runs a parser; one that does not match leaves the place as it is. -/
def run {α : Type} (c : Cursor) (p : Parser α) : Option α × Cursor :=
  match p c.scope c.place c.memory with
  | (none, memory) => (none, { c with memory })
  | (some (a, place), memory) => (some a, { c with place, memory })

end Cursor

/-! ## Actions -/

/-- Why an action has come to no value. -/
inductive Miss where
  | noMatch
  | fault (f : Fault)
deriving DecidableEq, Repr

/-- An action on a cursor: it comes to a value or fails, and leaves the cursor
wherever it was then. -/
def Action (α : Type) : Type :=
  Cursor → Except Miss α × Cursor

namespace Action

variable {α : Type}

/-- Acts for as long as `p` matches and moves on, at most `limit` times; what does
not match is taken back. -/
def collect (p : Action α) : Nat → Option Nat → Action (List α)
  | 0, _, c => (.ok [], c)
  | _ + 1, some 0, c => (.ok [], c)
  | fuel + 1, limit, c =>
    match c.attempt p with
    | (.error .noMatch, d) => (.ok [], d)
    | (.error (.fault f), d) => (.error (.fault f), d)
    | (.ok a, d) =>
      if d.place.offset = c.place.offset then (.ok [], d)
      else
        match collect p fuel (limit.map (· - 1)) d with
        | (.error e, last) => (.error e, last)
        | (.ok as, last) => (.ok (a :: as), last)

instance : Reading Action where
  pure a := fun c => (.ok a, c)
  bind p f := fun c =>
    match p c with
    | (.error e, d) => (.error e, d)
    | (.ok a, d) => f a d
  fail := fun c => (.error .noMatch, c)
  here := fun c => (.ok c.place, c)
  ofPlace step := fun c =>
    match step c.place with
    | none => (.error .noMatch, c)
    | some (a, place) => (.ok a, { c with place })
  orElse p q := fun c =>
    match c.attempt p with
    | (.error .noMatch, d) => d.attempt q
    | ended => ended
  many p least most := fun c =>
    match collect p (c.place.left + 1) most c with
    | (.error e, d) => (.error e, d)
    | (.ok as, d) => if as.length < least then (.error .noMatch, d) else (.ok as, d)
  localFlag key := fun c => (.ok (c.scope.localFlag key), c)
  catalog := fun c => (.ok c.scope.catalog, c)
  nesting := fun c => (.ok c.scope.nesting, c)
  inFrame frame p := fun c =>
    match c.withFrame frame p with
    | .error f => (.error (.fault f), c)
    | .ok ended => ended
  nested frame p := fun c =>
    match c.withNestedFrame frame p with
    | .error f => (.error (.fault f), c)
    | .ok (none, d) => (.error .noMatch, d)
    | .ok (some result, d) => (result, d)
  recalling p := fun c =>
    match c.remembered with
    | (some node, d) => (.ok node, d)
    | (none, _) =>
      match p c with
      | (.error e, d) => (.error e, d)
      | (.ok node, d) =>
        if d.scope.nesting = 0 then (.ok node, d)
        else (.ok node, d.remember c.place.offset node)

/-! ## Small laws -/

section

variable {β : Type} (c : Cursor)

theorem collect_succ (p : Action α) (fuel : Nat) {limit : Option Nat} (h : limit ≠ some 0) :
    collect p (fuel + 1) limit c =
      match c.attempt p with
      | (.error .noMatch, d) => (.ok [], d)
      | (.error (.fault f), d) => (.error (.fault f), d)
      | (.ok a, d) =>
        if d.place.offset = c.place.offset then (.ok [], d)
        else
          match collect p fuel (limit.map (· - 1)) d with
          | (.error e, last) => (.error e, last)
          | (.ok as, last) => (.ok (a :: as), last) := by
  rw [collect]
  exact h

theorem bind_apply (p : Action α) (f : α → Action β) :
    (p >>= f) c =
      match p c with
      | (.error e, d) => (.error e, d)
      | (.ok a, d) => f a d := rfl

theorem ofPlace_apply (step : Place → Option (α × Place)) :
    (Reading.ofPlace step : Action α) c =
      match step c.place with
      | none => (.error .noMatch, c)
      | some (a, place) => (.ok a, { c with place }) := rfl

theorem orElse_apply (p q : Action α) :
    (Reading.orElse p q) c =
      match c.attempt p with
      | (.error .noMatch, d) => d.attempt q
      | ended => ended := rfl

theorem many_apply (p : Action α) (least : Nat) (most : Option Nat) :
    (Reading.many p least most) c =
      match collect p (c.place.left + 1) most c with
      | (.error e, d) => (.error e, d)
      | (.ok as, d) => if as.length < least then (.error .noMatch, d) else (.ok as, d) := rfl

theorem inFrame_apply (frame : Frame) (p : Action α) :
    (Reading.inFrame frame p) c =
      match c.withFrame frame p with
      | .error f => (.error (.fault f), c)
      | .ok ended => ended := rfl

theorem nested_apply (frame : Frame) (p : Action α) :
    (Reading.nested frame p) c =
      match c.withNestedFrame frame p with
      | .error f => (.error (.fault f), c)
      | .ok (none, d) => (.error .noMatch, d)
      | .ok (some result, d) => (result, d) := rfl

theorem recalling_apply (p : Action Node) :
    (Reading.recalling p) c =
      match c.remembered with
      | (some node, d) => (.ok node, d)
      | (none, _) =>
        match p c with
        | (.error e, d) => (.error e, d)
        | (.ok node, d) =>
          if d.scope.nesting = 0 then (.ok node, d)
          else (.ok node, d.remember c.place.offset node) := rfl

end

end Action

/-! ## Reading -/

namespace Cursor

/-- Reads a grammar, and goes back where it does not match. -/
def tryRead (c : Cursor) (g : Grammar) : Except Miss Node × Cursor :=
  c.attempt (g.read : Action Node)

/-- Reads a grammar; nothing where it does not match. -/
def read (c : Cursor) (g : Grammar) : Option Node × Cursor :=
  let (result, d) := c.tryRead g
  (result.toOption, d)

/-- Reads as many parts as follow. -/
def readParts (c : Cursor) : List Node × Cursor :=
  let (node, d) := c.read .parts
  ((node.map Node.children).getD [], d)

/-! ## Small laws -/

/-- Going back to a bookmark made just now changes nothing. -/
@[simp] theorem goBack_bookmark (c : Cursor) : c.goBack c.bookmark = c := by
  simp [goBack, bookmark]

end Cursor

end Bracemark
