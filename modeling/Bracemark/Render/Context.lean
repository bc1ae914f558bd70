/-
The context of writing.

While a document is prepared and written, the context holds the settings, the
scope of the walk over the tree, the counters and the variables. Starting over
resets scope and counters; variables keep their values.
-/
import Bracemark.Settings
import Bracemark.Scope
import Bracemark.Numbering
import Bracemark.Render.Variables
import Bracemark.Text.Escape

set_option autoImplicit false

namespace Bracemark

open Text

/-- What a document is written as. -/
inductive Target where
  | html
  | plain
deriving DecidableEq, Repr, Inhabited

/-- The state of preparing and writing a document. -/
structure Context where
  target : Target
  settings : Settings
  scope : Scope
  numbering : Numbering
  assigned : Variables
deriving DecidableEq, Repr

namespace Context

/-- The context before a document. -/
def start (target : Target) (settings : Settings) : Context :=
  ⟨target, settings, .empty, .start, .empty⟩

/-- Starts over. The variables keep their values. -/
def reset (c : Context) : Context :=
  { c with scope := .empty, numbering := c.numbering.reset }

/-! ## Numbers -/

/-- The number of the current section. -/
def sectionText (c : Context) : String :=
  c.numbering.sectionText c.settings.sectionSeparator

/-- The marker of the current list item. -/
def listText (c : Context) : String :=
  c.numbering.listText c.settings.listSeparator

/-- The number of the current table. -/
def tableText (c : Context) : String :=
  c.numbering.tableText c.settings.tableSeparator

/-- The number of the current figure. -/
def figureText (c : Context) : String :=
  c.numbering.figureText c.settings.figureSeparator

/-! ## Variables -/

/-- The text that a name shows: a counter or the value of a variable, which is
empty where there is none. -/
def valueOf (c : Context) (name : String) : String :=
  match CounterName.ofName? name with
  | some .sections => c.sectionText
  | some .tables => c.tableText
  | some .figures => c.figureText
  | some .lists => c.listText
  | none => (c.assigned.get? name).getD ""

/-- Gives a variable a value; a name that shows a counter is left alone. -/
def assign (c : Context) (name value : String) : Context :=
  match CounterName.ofName? name with
  | some _ => c
  | none => { c with assigned := c.assigned.insert name value }

/-- Counts up what a name stands for: the counter of tables, figures or list
items, or a variable. Sections cannot be counted up in this way. -/
def increment (c : Context) (name : String) : Context :=
  let level := c.numbering.sections.level
  match CounterName.ofName? name with
  | some .sections => c
  | some .tables =>
    { c with numbering.tables := c.numbering.tables.advanceIn level }
  | some .figures =>
    { c with numbering.figures := c.numbering.figures.advanceIn level }
  | some .lists => { c with numbering := c.numbering.advanceList }
  | none => { c with assigned := (c.assigned.increment name).2 }

/-! ## Pieces of HTML -/

/-- The class attribute for a name. -/
def classAttribute (s : Settings) (name : String) : String :=
  " class=\"" ++ escapeHtml s.classPrefix ++ escapeHtml name ++ "\""

end Context

end Bracemark
