/-
Remembering changes nothing.

Whatever memory reading can come to, each recollection in it is what would be read in its place
(`Memory.Reached.holds_fresh`). So a document may be read with or without a memory. That this speaks
of the memories in the midst of a document, and not only of those that whole readings leave, is what
the log of the document says. It goes through every memory there is: the memory changes only when
an element is kept, and what is kept is what reading that element from an earlier memory has left
(`SearchLog.Orderly`).
-/
import Bracemark.Proofs.Searches

set_option autoImplicit false

namespace Bracemark

namespace Document

/-- In the midst of reading a document the memory is one that reading can come to. -/
theorem reached_of_suffix {forms : Catalog} {source : String} {earlier : SearchLog}
    (h : earlier <:+ searchLog forms source) :
    Memory.Reached source.toList forms (SearchLog.memory earlier) :=
  (watched_searchLog forms source).2.2.1.reached earlier h

/-- **Remembering changes nothing.** A document is the same whether elements are
recalled or read again each time, and at every point of reading it, each recollection
is what a fresh search of the catalogue would give at that offset and nesting. The
points of reading it are the stages of its log, the last of which has the memory that
reading ends with. -/
theorem read_eq_forgetful (forms : Catalog) (source : String) :
    Document.read forms source = Document.readWith .forgetful forms source ∧
      (∀ m, Memory.Reached source.toList forms m →
        ∀ r ∈ m.recollections, Recollection.Fresh source.toList forms r) ∧
      ((Grammar.parts.read : Parser Node) (scope forms) (.first source.toList) .empty).2 =
        (searchLog forms source).memory ∧
      ∀ earlier, earlier <:+ searchLog forms source →
        Memory.Reached source.toList forms (SearchLog.memory earlier) := by
  refine ⟨?_, fun m hm => hm.holds_fresh, (watched_searchLog forms source).2.1,
    fun earlier hearlier => reached_of_suffix hearlier⟩
  have hparts := readParts_eq_of_fresh (scope forms) (catalog_scope forms)
    ((Place.first source.toList).left + 1) (.first source.toList) .empty .forgetful
    (.first source.toList) .empty rfl
  rw [Document.read, readWith, readWith, hparts]

/-- Of three elements inside each other the innermost is kept first. Before the second one is
kept, too, the innermost is all that is in memory, and it is what reading it anew gives. -/
theorem read_eq_forgetful_nested :
    let source := "\x7b\x7b\x7b\x7d\x7d\x7d"
    let log := searchLog [] source
    let m := SearchLog.memory (log.drop 1)
    log.drop 1 <:+ log ∧ Memory.Reached source.toList [] m ∧
      m.recollections.map Recollection.key = [(2, 2)] ∧
      ∀ r ∈ m.recollections, Recollection.Fresh source.toList [] r := by
  intro source log m
  have hsuffix : log.drop 1 <:+ log := List.drop_suffix 1 log
  have hm : Memory.Reached source.toList [] m :=
    (read_eq_forgetful [] source).2.2.2 _ hsuffix
  exact ⟨hsuffix, hm, by decide +kernel, (read_eq_forgetful [] source).2.1 m hm⟩

end Document

end Bracemark
