/-
Elements.

Every element is read in the same steps: the opening brace, a name that the form
accepts, arguments that it finds fit, perhaps a bar and content, and the closing
brace, for which the end of the source also stands. Any step may fail, and then
the next form of the catalogue is tried. Where none fits, the braces and what is
between them are read as unknown text, and the closing brace may be missing.

Content is read one nesting level deeper, by the parser `inner` that is given for
that level. So all parsers of this file are defined from the level below, and no
parser refers to itself.
-/
import Bracemark.Shape
import Bracemark.Grammar
import Bracemark.Arguments.Reading
import Bracemark.Parser.Lexical

set_option autoImplicit false

namespace Bracemark.Parser

open Reading

variable {m : Type → Type} [Reading m]

/-! ## Arguments -/

/-- The arguments of an element. -/
def arguments : m Arguments :=
  ofPlace fun place => some place.arguments

/-! ## One form -/

/-- Whether an element may be closed right here, white space apart. -/
def closesAt (place : Place) : Bool :=
  place.atEnd || place.startsWith '}'

/-- The content of an element: nothing without a bar before it. A form that takes
no content may still have the bar, but the closing brace must follow at once. -/
def content (inner : Grammar → m Node) (form : Form) : m (List Node) := do
  match ← optional (pattern .split) with
  | none => return []
  | some _ =>
    -- A form without content is refused before anything is read that could
    -- only be thrown away.
    let place ← here
    require (form.allowsContent || closesAt place)
    let read ← nested [] (inner form.content)
    require (form.allowsContent || read.children.isEmpty)
    return read.children

/-- An element of one form. -/
def ofForm (inner : Grammar → m Node) (form : Form) : m Node := do
  let start ← here
  exactly ['{']
  let named ← pattern .name
  let name := String.ofList named.word
  require (form.accepts name)
  let as ← arguments
  let shape ← ofOption (form.shape? name as)
  let nodes ← content inner form
  let _ ← pattern .close
  let stop ← here
  ofOption (shape.node? ⟨name, as, start.spanTo stop⟩ (form.keptContent nodes))

/-! ## Any element -/

/-- Text in braces that is no element. -/
def unknown (inner : Grammar → m Node) : m Node := do
  let start ← here
  exactly ['{']
  let read ← nested [] (inner .parts)
  let closing ← optional (exactly ['}'])
  let stop ← here
  return (Node.branch (start.spanTo stop) (.unknown closing.isSome) read.children).assemble

/-- The first form of a catalogue that fits. -/
def ofCatalog (inner : Grammar → m Node) : Catalog → m Node
  | [] => unknown inner
  | form :: forms => orElse (ofForm inner form) (ofCatalog inner forms)

/-- An element of any form in the catalogue in force, or else text in braces. An
element inside others is taken from memory if it has been read before, and kept
there when it has not. -/
def element (inner : Grammar → m Node) : m Node := do
  let start ← here
  let tooDeep ← exhausted
  require (start.startsWith '{' && !tooDeep)
  let forms ← catalog
  recalling (ofCatalog inner forms)

/-! ## Parts -/

/-- Any of the things that content consists of. -/
def part (inner : Grammar → m Node) : m Node :=
  orElse gap (orElse (element inner) (orElse verbatim (orElse escape (orElse text stray))))

/-- Content: as many parts as follow. -/
def parts (inner : Grammar → m Node) : m (List Node) :=
  many (part inner) 0 none

end Bracemark.Parser
