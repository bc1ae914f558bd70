/-
Settings that hold for part of a document.

A scope is a log of settings cut into frames. A setting is looked up from the
newest entry down, so an inner frame shadows an outer one, and leaving a frame
drops all it brought. Some settings are inherited by everything inside; others
hold only where they were made, and for those the top frame alone is searched.

A mark remembers how long the log was and how many frames there were. Going back
to it cuts both off again, which undoes everything that was added in between.
-/
import Bracemark.Form

set_option autoImplicit false

namespace Bracemark

/-! ## Settings -/

/-- The value of a setting. -/
inductive Setting where
  | flag (b : Bool)
  | number (n : Int)
  | text (s : String)
  | catalog (forms : Catalog)
deriving DecidableEq, Repr

namespace Setting

/-- The truth value of a flag. -/
def asFlag? : Setting → Option Bool
  | .flag b => some b
  | _ => none

/-- The value of a number. -/
def asNumber? : Setting → Option Int
  | .number n => some n
  | _ => none

/-- The forms of a catalogue. -/
def asCatalog? : Setting → Option Catalog
  | .catalog forms => some forms
  | _ => none

end Setting

/-! ## Keys -/

namespace Key

/-- The forms of element that are recognised; inherited. -/
def catalog : String := "registry"

/-- Set for the outermost text, where a closing brace is a character like any
other; not inherited. -/
def topLevel : String := "top_level"

/-- Set for the text of a table cell, where a bar ends it; not inherited. -/
def cellText : String := "cell_text"

/-- The number of elements around the place of reading; inherited. -/
def nesting : String := "nesting"

/-- The number of nodes around a node that is being prepared; inherited. -/
def depth : String := "depth"

/-- Set inside cells, which are written without line breaks; inherited. -/
def compact : String := "compact"

end Key

/-! ## Scopes -/

/-- The settings made together when a frame is entered. -/
abbrev Frame := List (String × Setting)

/-- A log of settings cut into frames. -/
structure Scope where
  /-- All settings, oldest first. -/
  entries : Frame
  /-- For each frame inside the outermost one where its settings begin, oldest
  first. -/
  starts : List Nat
deriving DecidableEq, Repr

/-- The length of a log and the number of its frames. -/
structure Mark where
  depth : Nat
  length : Nat
deriving DecidableEq, Repr, Inhabited

namespace Scope

/-- A scope whose outermost frame holds the given settings. -/
def ofFrame (frame : Frame) : Scope := ⟨frame, []⟩

/-- A scope without settings. -/
def empty : Scope := ofFrame []

/-- The number of frames, with the outermost one. -/
def depth (s : Scope) : Nat :=
  s.starts.length + 1

/-- Where the settings of the top frame begin. -/
def topStart (s : Scope) : Nat :=
  s.starts.getLast?.getD 0

/-- Enters a frame. -/
def push (s : Scope) (frame : Frame) : Scope :=
  ⟨s.entries ++ frame, s.starts ++ [s.entries.length]⟩

/-- Leaves the top frame and drops its settings; the outermost frame cannot be
left. -/
def pop? (s : Scope) : Option Scope :=
  if s.starts.isEmpty then none
  else some ⟨s.entries.take s.topStart, s.starts.dropLast⟩

/-- Makes a setting in the top frame. -/
def insert (s : Scope) (key : String) (value : Setting) : Scope :=
  { s with entries := s.entries ++ [(key, value)] }

/-- The newest of some settings for a key. -/
def newest? (entries : Frame) (key : String) : Option Setting :=
  (entries.reverse.find? fun e => e.1 == key).map (·.2)

/-- The setting for a key, in whichever frame it was made last. -/
def get? (s : Scope) (key : String) : Option Setting :=
  newest? s.entries key

/-- The setting for a key in the top frame. -/
def getLocal? (s : Scope) (key : String) : Option Setting :=
  newest? (s.entries.drop s.topStart) key

/-- Whether a flag is set. -/
def flag (s : Scope) (key : String) : Bool :=
  ((s.get? key).bind Setting.asFlag?).getD false

/-- Whether a flag is set in the top frame. -/
def localFlag (s : Scope) (key : String) : Bool :=
  ((s.getLocal? key).bind Setting.asFlag?).getD false

/-- Remembers how far the log goes. -/
def mark (s : Scope) : Mark :=
  ⟨s.depth, s.entries.length⟩

/-- Goes back to a mark: frames and settings past it are cut off. -/
def rewind (s : Scope) (m : Mark) : Scope :=
  ⟨s.entries.take m.length, s.starts.take (m.depth - 1)⟩

/-! ## What reading asks of a scope -/

/-- The catalogue in force; without one, no element is recognised. -/
def catalog (s : Scope) : Catalog :=
  ((s.get? Key.catalog).bind Setting.asCatalog?).getD []

/-- The number of elements around the place of reading. -/
def nesting (s : Scope) : Nat :=
  (((s.get? Key.nesting).bind Setting.asNumber?).getD 0).toNat

/-! ## Small laws -/

/-- Newer settings are looked at first. -/
theorem newest?_append (entries frame : Frame) (key : String) :
    newest? (entries ++ frame) key = (newest? frame key).or (newest? entries key) := by
  simp only [newest?, List.reverse_append, List.find?_append]
  cases frame.reverse.find? fun e => e.1 == key <;> rfl

@[simp] theorem depth_ofFrame (frame : Frame) : (ofFrame frame).depth = 1 := rfl

@[simp] theorem depth_push (s : Scope) (frame : Frame) : (s.push frame).depth = s.depth + 1 := by
  simp [push, depth]

@[simp] theorem depth_insert (s : Scope) (key : String) (value : Setting) :
    (s.insert key value).depth = s.depth := rfl

/-- Leaving a frame right after entering it changes nothing. -/
@[simp] theorem pop?_push (s : Scope) (frame : Frame) : (s.push frame).pop? = some s := by
  simp [push, pop?, topStart]

/-- Going back to a mark taken just now changes nothing. -/
@[simp] theorem rewind_mark (s : Scope) : s.rewind s.mark = s := by
  simp [rewind, mark, depth]

end Scope

end Bracemark
