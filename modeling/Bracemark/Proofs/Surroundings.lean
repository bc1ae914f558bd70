/-
What is around an element does not leak into it.

The text of a cell and the outermost text are read under flags of their own: a bar ends a
cell, a closing brace outside all elements is a character like any other. An element asks
the scope for the catalogue and the nesting before it enters its own frame, and the frame
hides every flag outside it. So two cursors at one place that agree on these two read the
same element there, whatever else their scopes hold.

Both cursors begin with nothing in memory, but each fills its own memory as it goes. They
are compared with a third reading that remembers nothing, which `agreeIn_element` allows
under different flags on the two sides.
-/
import Bracemark.Proofs.Backtracking

set_option autoImplicit false

namespace Bracemark

open Reading

namespace Parser

variable {source : List Char} {forms : Catalog}

/-- At every level the steps of an element come to the same in scopes that are akin. -/
theorem relatesElements_akin (source : List Char) (forms : Catalog) (levels : Nat) :
    RelatesElements (AgreeIn source forms Scope.Akin levels) (Grammar.inside levels)
      (Grammar.inside levels) :=
  relatesElements_agreeIn (agreeIn_nested (fun h => h) fun k _ g => agreeIn_readAt k g)

/-- Scopes that are akin leave room for one more element or do not, both alike. -/
theorem agreeIn_exhausted (levels : Nat) :
    AgreeIn source forms Scope.Akin levels exhausted exhausted := by
  have hsteps := relatesElements_akin source forms levels
  refine hsteps.bind ?_ fun n => hsteps.pure (decide (maxNesting ≤ n))
  intro s t place m m' hst _ _ _ hm hm'
  rw [nesting_apply, nesting_apply, hst.nesting]
  exact .of_some _ hm hm' (.refl place)

/-- With fresh recollections on one side and none on the other, an element comes to the same
in scopes that are akin. -/
theorem agreeIn_element (levels : Nat) :
    AgreeIn source forms Scope.Akin levels (element (Grammar.inside levels))
      (element (Grammar.inside levels)) := by
  have hsteps := relatesElements_akin source forms levels
  refine hsteps.bind hsteps.here fun start => ?_
  refine hsteps.bind (agreeIn_exhausted levels) fun tooDeep => ?_
  refine hsteps.bind (hsteps.require _) fun _ => ?_
  exact agreeIn_recalling hsteps.ofCatalog

theorem read_element_apply (s : Scope) (place : Place) (m : Memory) :
    (Grammar.read (.rule .element) : Parser Node) s place m =
      (element (Grammar.inside (maxNesting - s.nesting)) : Parser Node) s place m :=
  Grammar.read_apply (.rule .element) s place m

/-- An element that is read with nothing in memory is the same in scopes that are akin. -/
theorem read_element_congr {s t : Scope} (hst : s.Akin t) {place : Place}
    (hplace : place.In source) :
    ((Grammar.read (.rule .element) : Parser Node) s place .empty).1 =
      ((Grammar.read (.rule .element) : Parser Node) t place .empty).1 := by
  -- What remembers nothing is read in the second scope, so that only the first of the two
  -- comparisons is between different flags.
  have hleft := agreeIn_element (maxNesting - s.nesting) s t place .empty
    .forgetful hst rfl rfl hplace .empty rfl
  have hright := agreeIn_element (maxNesting - t.nesting) t t place .empty
    .forgetful ⟨rfl, rfl⟩ rfl rfl hplace .empty rfl
  rw [read_element_apply, read_element_apply, hleft.value, hright.value, hst.nesting]

end Parser

/-! ## Cursors -/

namespace Cursor

/-- What trying a grammar on a sound cursor does, told by what the parser gives. -/
theorem tryRead_eq {c : Cursor} (hc : c.Sound) (g : Grammar) :
    c.tryRead g =
      match (g.read : Parser Node) c.scope c.place c.memory with
      | (none, m) => (.error .noMatch, { c with memory := m })
      | (some (node, q), m) => (.ok node, { c with place := q, memory := m }) := by
  rw [tryRead]
  rcases (Action.follows_read g).attempt hc with ⟨node, q, m, -, -, hx, hy⟩ | ⟨m, -, hx, hy⟩
  · rw [hx, hy]
  · rw [hx, hy]

/-- A grammar is read on a sound cursor just if the parser for it matches there. -/
theorem tryRead_eq_ok_iff {c d : Cursor} (hc : c.Sound) {g : Grammar} {node : Node} :
    c.tryRead g = (.ok node, d) ↔
      ∃ q m, (g.read : Parser Node) c.scope c.place c.memory = (some (node, q), m) ∧
        d = { c with place := q, memory := m } := by
  rw [tryRead_eq hc]
  generalize (g.read : Parser Node) c.scope c.place c.memory = x
  obtain ⟨_ | ⟨n, q⟩, m⟩ := x
  · constructor
    · intro h
      cases h
    · rintro ⟨q, m, h, -⟩
      cases h
  · constructor
    · intro h
      cases h
      exact ⟨q, m, rfl, rfl⟩
    · rintro ⟨q', m', h, rfl⟩
      cases h
      rfl

/-- **An element does not depend on what is around it.** Two cursors that have read nothing
stand at one place of a source, in scopes with the same catalogue and as many elements
around. Whatever other settings and frames the scopes hold, either no element is read on
either of them, or the same one is, and it ends at the same offset. -/
theorem tryRead_element_congr (source : String) {place : Place}
    (hplace : place.In source.toList) {s t : Scope} (hcatalog : s.catalog = t.catalog)
    (hnesting : s.nesting = t.nesting) :
    let c := Cursor.tryRead ⟨source, place, s, .empty⟩ (.rule .element)
    let d := Cursor.tryRead ⟨source, place, t, .empty⟩ (.rule .element)
    (c.1 = .error .noMatch ∧ d.1 = .error .noMatch) ∨
      ∃ node stop, c.1 = .ok node ∧ d.1 = .ok node ∧
        c.2.place.offset = stop ∧ d.2.place.offset = stop := by
  intro c d
  have hsame := Parser.read_element_congr ⟨hcatalog, hnesting⟩ hplace
  have hc : c = _ := tryRead_eq (Sound.of_empty hplace s) (.rule .element)
  have hd : d = _ := tryRead_eq (Sound.of_empty hplace t) (.rule .element)
  rw [hc, hd]
  dsimp only
  generalize (Grammar.read (.rule .element) : Parser Node) s place .empty = x at *
  generalize (Grammar.read (.rule .element) : Parser Node) t place .empty = y at *
  obtain ⟨result, m⟩ := x
  obtain ⟨result', m'⟩ := y
  obtain rfl : result = result' := hsame
  cases result with
  | none => exact .inl ⟨rfl, rfl⟩
  | some nq =>
    obtain ⟨node, q⟩ := nq
    exact .inr ⟨node, q.offset, rfl, rfl, rfl, rfl⟩

/-- A bar and a closing brace inside an element mean the same in the outermost text as in a
cell three frames further in. -/
theorem tryRead_element_congr_cell :
    let source := "\x7bu|a|\x7bx|b\x7d|c\x7d|\x7d"
    let s := Document.scope .standard
    let t := ((s.push [(Key.depth, .number 7)]).push []).push Parser.cellFrame
    let c := Cursor.tryRead ⟨source, .first source.toList, s, .empty⟩ (.rule .element)
    let d := Cursor.tryRead ⟨source, .first source.toList, t, .empty⟩ (.rule .element)
    s.localFlag Key.topLevel ≠ t.localFlag Key.topLevel ∧
      s.localFlag Key.cellText ≠ t.localFlag Key.cellText ∧
      d.1.toOption.map (·.plainText) = some "a|\x7bx|b\x7d|c" ∧
      (Place.first source.toList).In source.toList ∧ s.catalog = t.catalog ∧
      s.nesting = t.nesting ∧
      ((c.1 = .error .noMatch ∧ d.1 = .error .noMatch) ∨
        ∃ node stop, c.1 = .ok node ∧ d.1 = .ok node ∧
          c.2.place.offset = stop ∧ d.2.place.offset = stop) := by
  intro source s t c d
  have hplace := Place.In.first source.toList
  have hcatalog : s.catalog = t.catalog := by decide +kernel
  have hnesting : s.nesting = t.nesting := by decide +kernel
  refine ⟨by decide +kernel, by decide +kernel, by decide +kernel, hplace, hcatalog, hnesting, ?_⟩
  exact tryRead_element_congr source hplace hcatalog hnesting

end Cursor

end Bracemark
