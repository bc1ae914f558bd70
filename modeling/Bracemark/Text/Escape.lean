/-
Character references.

The five characters that mean something in HTML text and attribute values are
written as references, every other character as itself, so that no text can
begin a tag or end an attribute value.
-/

set_option autoImplicit false

namespace Bracemark.Text

/-- How a character is written in HTML. -/
def reference (c : Char) : List Char :=
  match c with
  | '&' => ['&', 'a', 'm', 'p', ';']
  | '<' => ['&', 'l', 't', ';']
  | '>' => ['&', 'g', 't', ';']
  | '"' => ['&', 'q', 'u', 'o', 't', ';']
  | '\x27' => ['&', '#', 'x', '2', '7', ';']
  | c => [c]

/-- `escapeHtml s` writes `s` so that it reads as text in HTML. -/
def escapeHtml (s : String) : String :=
  String.ofList (s.toList.flatMap reference)

@[simp] theorem toList_escapeHtml (s : String) :
    (escapeHtml s).toList = s.toList.flatMap reference :=
  String.toList_ofList

/-- Escaping works character by character. -/
theorem escapeHtml_append (a b : String) :
    escapeHtml (a ++ b) = escapeHtml a ++ escapeHtml b := by
  apply String.toList_inj.1
  simp

end Bracemark.Text
