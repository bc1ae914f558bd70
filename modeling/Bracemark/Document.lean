/-
Documents.

A document is a source text and the tree that was read from it. Any text can be
read: what no rule claims becomes text. Reading takes a memory to begin with, so
that a document can also be read without remembering anything.
-/
import Bracemark.Parser.Reading

set_option autoImplicit false

namespace Bracemark

/-- A source text and its tree. -/
structure Document where
  source : String
  root : Node

instance : Inhabited Document := ⟨⟨"", default⟩⟩

namespace Document

/-- The scope in which a document is read. -/
def scope (forms : Catalog) : Scope :=
  .ofFrame [(Key.catalog, .catalog forms), (Key.topLevel, .flag true)]

/-- Reads parts, and a character that none of them claims as text, until nothing
is left. Every round but the last takes a byte at least. -/
def readParts (scope : Scope) : Nat → Place → Memory → List Node
  | 0, _, _ => []
  | fuel + 1, place, memory =>
    match (Grammar.parts.read : Parser Node) scope place memory with
    | (none, _) => []
    | (some (read, place), memory) =>
      match place.step? with
      -- Nothing is left of the source.
      | none => read.children
      | some (c, span, next) =>
        read.children ++
          .text span (String.ofList [c]) :: readParts scope fuel next memory

/-- Reads a source, remembering the elements in it as `memory` does. -/
def readWith (memory : Memory) (forms : Catalog) (source : String) : Document :=
  let place := Place.first source.toList
  let parts := readParts (scope forms) (place.left + 1) place memory
  ⟨source, (Node.branch ⟨0, place.size⟩ .document parts).assemble⟩

/-- Reads a source with the forms of a catalogue. -/
def read (forms : Catalog) (source : String) : Document :=
  readWith .empty forms source

/-- The source text that a node comes from. -/
def raw (d : Document) (n : Node) : String :=
  String.ofList (sliceOf d.source.toList n.span)

end Document

end Bracemark
