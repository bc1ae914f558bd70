/-
Writing a document.

A document is prepared and then written. The context starts over before each of
the two walks, so that what is written does not depend on what was written
before; only variables keep their values within one context.
-/
import Bracemark.Document
import Bracemark.Render.Preparation
import Bracemark.Render.Plain

set_option autoImplicit false

namespace Bracemark

namespace Context

/-- Writes a node as the context's target. -/
def write (c : Context) (n : Node) : String :=
  match c.target with
  | .html => n.html c
  | .plain => n.plain c

/-- Prepares a tree and writes it. Gives the text, the prepared tree, and the
context as it is afterwards. -/
def run (c : Context) (n : Node) : Except Fault (String × Node × Context) := do
  let (n, c) ← n.prepare c.reset
  let c := c.reset
  return (c.write n, n, c)

end Context

/-- Writes a document for a target; gives the text and the prepared document. -/
def Document.render (d : Document) (target : Target) (s : Settings) :
    Except Fault (String × Document) := do
  let (text, root, _) ← (Context.start target s).run d.root
  return (text, { d with root })

end Bracemark
