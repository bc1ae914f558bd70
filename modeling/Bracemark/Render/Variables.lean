/-
Document variables.

A variable holds text. One that holds a number can be counted up, and one that
has no value yet counts from one. Four names are not variables of a document but
show its counters.
-/
import Bracemark.Text.Blank
import Bracemark.Text.Integer

set_option autoImplicit false

namespace Bracemark

open Text

/-- The names that show a counter. -/
inductive CounterName where
  | sections
  | tables
  | figures
  | lists
deriving DecidableEq, Repr, Inhabited

/-- The counter that a name shows. -/
def CounterName.ofName? : String → Option CounterName
  | "section" => some .sections
  | "table" => some .tables
  | "figure" => some .figures
  | "list" => some .lists
  | _ => none

/-- The variables of a document, each name with its value. -/
structure Variables where
  values : List (String × String)
deriving DecidableEq, Repr, Inhabited

namespace Variables

/-- No variable has a value. -/
def empty : Variables := ⟨[]⟩

/-- The value of a variable. -/
def get? (v : Variables) (name : String) : Option String :=
  (v.values.find? fun e => e.1 == name).map (·.2)

/-- Gives a variable a value. -/
def insert (v : Variables) (name value : String) : Variables :=
  ⟨(name, value) :: v.values.filter fun e => e.1 != name⟩

/-- The value after one step of counting: one where there was none; none where the
value is no number, or the largest. -/
def counted? : Option String → Option Int
  | none => some 1
  | some value =>
    (readNumber? (trim value)).bind fun n => if n < maxNumber then some (n + 1) else none

/-- Counts a variable up and tells whether that was possible; otherwise nothing
changes. -/
def increment (v : Variables) (name : String) : Bool × Variables :=
  match counted? (v.get? name) with
  | none => (false, v)
  | some n => (true, v.insert name (toString n))

@[simp] theorem get?_empty (name : String) : empty.get? name = none := rfl

@[simp] theorem get?_insert_self (v : Variables) (name value : String) :
    (v.insert name value).get? name = some value := by
  simp [insert, get?]

theorem get?_insert_of_ne (v : Variables) {name other : String} (value : String)
    (h : other ≠ name) : (v.insert name value).get? other = v.get? other := by
  have hne : (name == other) = false := by simpa using fun e => h e.symm
  simp only [insert, get?, List.find?_cons, hne]
  congr 1
  rw [List.find?_filter]
  congr 1
  funext e
  by_cases he : e.1 = other
  · simp [he, h]
  · simp [he]

end Variables

end Bracemark
