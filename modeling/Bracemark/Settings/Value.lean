/-
Values of settings before they are read.

Settings come as a tree of named values, put together from several sources: what
a later source says takes the place of what an earlier one said, name by name. A
value that came from a file remembers the file, so that an error can name it.

A place in the tree is given by a path of names and positions. Writing at a path
makes whatever tables and lists are needed on the way, also in the place of values
that are neither.
-/
import Bracemark.Text.Case

set_option autoImplicit false

namespace Bracemark

open Text

/-! ## Values -/

/-- A single value. -/
inductive Scalar where
  /-- A place that nothing was written to. -/
  | nothing
  | flag (b : Bool)
  | number (n : Int)
  | text (s : String)
deriving DecidableEq, Repr, Inhabited

/-- A tree of values. -/
inductive Value where
  /-- A single value and the file it came from, if it came from one. -/
  | scalar (origin : Option String) (s : Scalar)
  | table (members : List (String × Value))
  | list (items : List Value)
deriving Repr, Inhabited

/-- A step on the way to a value. -/
inductive PathStep where
  | name (s : String)
  /-- A position in a list; a negative one counts from the end. -/
  | index (i : Int)
deriving DecidableEq, Repr, Inhabited

/-- The way to a value. -/
abbrev Path := List PathStep

namespace Value

/-- A place that nothing was written to. -/
def nothing : Value := .scalar none .nothing

/-- The members of a table; nothing else has members. -/
def members : Value → List (String × Value)
  | .table members => members
  | _ => []

/-- The items of a list; nothing else has items. -/
def items : Value → List Value
  | .list items => items
  | _ => []

/-- The member of a table with a name. -/
def member? (v : Value) (name : String) : Option Value :=
  (v.members.find? fun m => m.1 == name).map (·.2)

/-- Gives a table a member in the place of the one it had. -/
def withMember (v : Value) (name : String) (member : Value) : Value :=
  let kept := v.members.filter fun m => m.1 != name
  .table (kept ++ [(name, member)])

/-- Gives a list an item at a position, with nothing in the positions before it
that did not exist. -/
def withItem (v : Value) (index : Nat) (item : Value) : Value :=
  let padded := v.items ++ List.replicate (index + 1 - v.items.length) nothing
  .list (padded.set index item)

/-- The position that an index means in a list with so many items. -/
def position (index : Int) (size : Nat) : Nat :=
  if index < 0 then (size - index.natAbs) else index.toNat

/-- Writes a value at a path. Names are written in small letters. -/
def write : Path → Value → Value → Value
  | [], new, _ => new
  | .name s :: path, new, v =>
    let name := lowered s
    v.withMember name (write path new ((v.member? name).getD nothing))
  | .index i :: path, new, v =>
    let index := position i v.items.length
    v.withItem index (write path new (v.items.getD index nothing))

/-- Writes some values, each at its path, one after another. -/
def writeAll (v : Value) (assignments : List (Path × Value)) : Value :=
  assignments.foldl (fun v a => write a.1 a.2 v) v

end Value

end Bracemark
