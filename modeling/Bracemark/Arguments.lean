/-
Arguments of elements.

An element carries a list of values, each with or without a name. Names are kept
in small letters. The last value given for a name counts; a value without a name
is found by its position among the values without names, so in an image element
the source may stand before or after a named width.

A value that ought to be a number or a truth value has three outcomes, missing,
invalid and a value, because an element may treat an absent argument and an
unreadable one differently.
-/
import Bracemark.Text.Blank
import Bracemark.Text.Case
import Bracemark.Text.Integer

set_option autoImplicit false

namespace Bracemark

open Text

/-! ## Outcomes of a lookup -/

/-- What reading an argument as a typed value came to. -/
inductive Lookup (α : Type) where
  | missing
  | invalid
  | value (a : α)
deriving DecidableEq, Repr

namespace Lookup

variable {α : Type}

/-- The value, if there is a readable one. -/
def value? : Lookup α → Option α
  | .value a => some a
  | _ => none

/-- `absent` when the argument is missing, `bad` when it cannot be read. -/
def resolve (l : Lookup α) (absent bad : α) : α :=
  match l with
  | .missing => absent
  | .invalid => bad
  | .value a => a

/-- Whether the argument is there but cannot be read. -/
def isInvalid : Lookup α → Bool
  | .invalid => true
  | _ => false

/-- Reads an argument that may be absent. -/
def of (read : String → Option α) : Option String → Lookup α
  | none => .missing
  | some raw =>
    match read raw with
    | none => .invalid
    | some a => .value a

@[simp] theorem of_none (read : String → Option α) : of read none = .missing := rfl

end Lookup

/-- Reads a truth value: one of four words for each, in any case, with white
space around it. -/
def readFlag? (raw : String) : Option Bool :=
  let word := lowered (trim raw)
  if word ∈ ["true", "on", "yes", "1"] then some true
  else if word ∈ ["false", "off", "no", "0"] then some false
  else none

/-! ## Lists of arguments -/

/-- One argument. -/
structure Argument where
  /-- The name in small letters, if there is one. -/
  name : Option String
  value : String
deriving DecidableEq, Repr, Inhabited

/-- The arguments of an element in the order they were given. -/
structure Arguments where
  entries : List Argument
deriving DecidableEq, Repr, Inhabited

namespace Arguments

/-- No arguments. -/
def empty : Arguments := ⟨[]⟩

/-- Adds an argument at the end; its name is kept in small letters. -/
def push (as : Arguments) (name : Option String) (value : String) : Arguments :=
  ⟨as.entries ++ [⟨name.map lowered, value⟩]⟩

/-- The number of arguments. -/
def size (as : Arguments) : Nat :=
  as.entries.length

/-- The last value given for a name, whatever its case. -/
def named? (as : Arguments) (name : String) : Option String :=
  (as.entries.reverse.find? fun a => a.name == some (lowered name)).map (·.value)

/-- The value without a name at a position among those without names. -/
def positional? (as : Arguments) (index : Nat) : Option String :=
  ((as.entries.filter fun a => a.name.isNone)[index]?).map (·.value)

/-- The value for a name, or else the one at a position where one is given. -/
def get? (as : Arguments) (name : String) (position : Option Nat) : Option String :=
  (as.named? name).or (position.bind as.positional?)

/-- An argument read as a number. -/
def number (as : Arguments) (name : String) (position : Option Nat) : Lookup Int :=
  .of (fun raw => readNumber? (trim raw)) (as.get? name position)

/-- An argument read as a truth value. -/
def flag (as : Arguments) (name : String) (position : Option Nat) : Lookup Bool :=
  .of readFlag? (as.get? name position)

/-- The names in the order they first appear, each with its last value. -/
def toMap (as : Arguments) : List (String × String) :=
  let names := (as.entries.filterMap (·.name)).eraseDups
  names.filterMap fun name => (as.named? name).map fun value => (name, value)

end Arguments

end Bracemark
