/-
The numbers of sections.

The number of a section can be read off the tree: a section has the number that it asks for,
or else goes on from the last section before it with the same section around it, or else is
the first (`read_sections_numbered`). Headings store the numbers of the sections around them.

Where no section asks for a number, sections beside each other have larger and larger numbers
(`GoesOn.number_lt`), so two sections never share a path of numbers, by induction on the length
of the paths (`eq_of_numbers_eq`).
-/
import Bracemark.Proofs.Making
import Bracemark.Proofs.SectionStack

set_option autoImplicit false

namespace Bracemark

open Text

/-! ## Paths are not shared -/

/-- No section goes on from the largest number. -/
def SectionsFit (visits : List Visit) : Prop :=
  ∀ (before : List Visit) (v : Visit) (after : List Visit) (b : Visit),
    visits = before ++ v :: after → v.isSection = true →
      (v.position.siblings before).getLast? = some b → b.number < maxNumber

theorem SectionsFit.of_small {visits : List Visit} (h : ∀ b ∈ visits, b.number < maxNumber) :
    SectionsFit visits := by
  intro before v after b hsplit _ hb
  exact h b (mem_of_mem_before hsplit (mem_siblings.mp (List.mem_of_getLast? hb)).1)

/-- Every section among the visits goes on from the one before it, which has not come to the
largest number. -/
structure GoesOn (visits : List Visit) : Prop where
  number (before : List Visit) (v : Visit) (after : List Visit) :
    visits = before ++ v :: after → v.isSection = true →
      v.number = Visit.following (v.position.siblings before).getLast?
  fits : SectionsFit visits

section

variable {visits : List Visit} (hgoes : GoesOn visits)
include hgoes

/-- No section has a number less than one. By induction on the number of visits before. -/
theorem GoesOn.one_le_number (count : Nat) :
    ∀ (before : List Visit) (v : Visit) (after : List Visit), before.length = count →
      visits = before ++ v :: after → v.isSection = true → 1 ≤ v.number := by
  induction count using Nat.strong_induction_on with
  | _ count ih =>
    intro before v after hcount hsplit hv
    rw [hgoes.number before v after hsplit hv]
    cases hlast : (v.position.siblings before).getLast? with
    | none => exact le_rfl
    | some b =>
      obtain ⟨hmem, hb, -⟩ := mem_siblings.mp (List.mem_of_getLast? hlast)
      obtain ⟨l₁, l₂, rfl⟩ := List.append_of_mem hmem
      have hlength : l₁.length < count := by
        rw [← hcount, List.length_append, List.length_cons]
        omega
      have hone : 1 ≤ b.number := by
        refine ih _ hlength l₁ b (l₂ ++ v :: after) rfl ?_ hb
        rw [hsplit, List.append_assoc, List.cons_append]
      rw [Visit.following, nextNumber_of_lt (hgoes.fits _ v after b hsplit hv hlast)]
      omega

/-- Beside each other, later sections have larger numbers. By induction on the number of
visits before the later one. -/
theorem GoesOn.number_lt (count : Nat) :
    ∀ (before : List Visit) (v : Visit) (after : List Visit), before.length = count →
      visits = before ++ v :: after → v.isSection = true →
        ∀ u ∈ v.position.siblings before, u.number < v.number := by
  induction count using Nat.strong_induction_on with
  | _ count ih =>
    intro before v after hcount hsplit hv u hu
    obtain ⟨last, hlast⟩ : ∃ last, (v.position.siblings before).getLast? = some last :=
      Option.isSome_iff_exists.mp (List.getLast?_isSome.mpr (List.ne_nil_of_mem hu))
    have hnumber : v.number = last.number + 1 := by
      rw [hgoes.number before v after hsplit hv, hlast]
      exact nextNumber_of_lt (hgoes.fits before v after last hsplit hv hlast)
    obtain ⟨ys, hys⟩ := List.getLast?_eq_some_iff.mp hlast
    obtain ⟨l₁, l₂, rfl, h₁, h₂⟩ := List.filter_eq_append_iff.mp hys
    obtain ⟨m₁, m₂, rfl, -, hsibling, -⟩ := List.filter_eq_cons_iff.mp h₂
    rw [Bool.and_eq_true, beq_iff_eq] at hsibling
    rw [hys, List.mem_append, List.mem_singleton] at hu
    rcases hu with hu | rfl
    · -- What is beside both comes before the last of them, too.
      have hbeside : u ∈ last.position.siblings (l₁ ++ m₁) := by
        rw [← h₁] at hu
        obtain ⟨hmem, hkind, hparent⟩ := mem_siblings.mp hu
        exact mem_siblings.mpr
          ⟨List.mem_append_left _ hmem, hkind, hparent.trans hsibling.2.symm⟩
      have hlength : (l₁ ++ m₁).length < count := by
        rw [← hcount]
        simp only [List.length_append, List.length_cons]
        omega
      have hsplit' : visits = (l₁ ++ m₁) ++ last :: (m₂ ++ v :: after) := by
        rw [hsplit]
        simp only [List.append_assoc, List.cons_append]
      have hlt := ih _ hlength (l₁ ++ m₁) last _ rfl hsplit' hsibling.1 u hbeside
      omega
    · omega

end

section

variable {c : Context} {root : Node} (hc : c.numbering.sections = .start)
include hc

theorem agree_of_split {before after : List Visit} {v : Visit}
    (h : root.visits .start c = before ++ v :: after) :
    Ordered before v.position ∧ SectionsAgree before v.position v.context :=
  stable_sectionsAgree.of_split (sectionsAgree_start hc) h

/-- Inside sections with the same numbers, the innermost one is the same if numbers tell the
sections with these numbers apart. -/
theorem getLast?_sections_eq {before after before' after' : List Visit} {u v : Visit}
    (hsplit : root.visits .start c = before ++ u :: after)
    (hsplit' : root.visits .start c = before' ++ v :: after')
    (houter : u.context.numbering.sections.numbers = v.context.numbering.sections.numbers)
    (hapart : ∀ a b, a ∈ root.visits .start c → b ∈ root.visits .start c →
      a.isSection = true → b.isSection = true →
      a.numbers = u.context.numbering.sections.numbers → a.numbers = b.numbers → a = b) :
    u.position.sections.getLast? = v.position.sections.getLast? := by
  obtain ⟨-, hagree⟩ := agree_of_split hc hsplit
  obtain ⟨-, hagree'⟩ := agree_of_split hc hsplit'
  have hlevel : u.position.sections.length = v.position.sections.length := by
    rw [← hagree.level, ← hagree'.level, ← Sections.length_numbers, ← Sections.length_numbers,
      houter]
  cases hj : u.position.sections.getLast? with
  | none =>
    rw [List.getLast?_eq_none_iff.mp hj, List.length_nil] at hlevel
    rw [List.eq_nil_of_length_eq_zero hlevel.symm, List.getLast?_nil]
  | some j =>
    -- As many sections are around `v`, so that there is an innermost one, too.
    have hne : v.position.sections ≠ [] := by
      intro hnil
      rw [hnil, List.length_nil] at hlevel
      rw [List.eq_nil_of_length_eq_zero hlevel] at hj
      cases hj
    obtain ⟨k, hk⟩ := Option.isSome_iff_exists.mp (List.getLast?_isSome.mpr hne)
    obtain ⟨a, ha, rfl, hsection, hnumbers⟩ := hagree.parent j hj
    obtain ⟨b, hb, rfl, hsection', hnumbers'⟩ := hagree'.parent k hk
    have hsame : a = b := hapart a b (mem_of_mem_before hsplit ha) (mem_of_mem_before hsplit' hb)
      hsection hsection' hnumbers (hnumbers.trans (houter.trans hnumbers'.symm))
    rw [hk, hsame]

/-- **Sections with the same path of numbers are the same.** By induction on the length of the
path: with the paths, the sections around agree. -/
theorem eq_of_numbers_eq (hgoes : GoesOn (root.visits .start c)) (length : Nat) :
    ∀ u v, u ∈ root.visits .start c → v ∈ root.visits .start c → u.isSection = true →
      v.isSection = true → u.numbers.length = length → u.numbers = v.numbers → u = v := by
  induction length with
  | zero =>
    intro u v _ _ hu _ hlength _
    rw [Visit.numbers_of_isSection hu, List.length_append, List.length_singleton] at hlength
    omega
  | succ length ih =>
    intro u v humem hvmem hu hv hlength heq
    obtain ⟨bu, au, hsplit⟩ := List.append_of_mem humem
    obtain ⟨bv, av, hsplit'⟩ := List.append_of_mem hvmem
    rw [Visit.numbers_of_isSection hu, List.length_append, List.length_singleton] at hlength
    rw [Visit.numbers_of_isSection hu, Visit.numbers_of_isSection hv] at heq
    obtain ⟨houter, hlast⟩ := List.append_inj' heq rfl
    have hnumber : u.number = v.number := List.singleton_inj.mp hlast
    -- The sections around them have one path, which is shorter.
    have hparent : u.position.sections.getLast? = v.position.sections.getLast? := by
      refine getLast?_sections_eq hc hsplit hsplit' houter ?_
      intro a b ha hb hsection hsection' hpath
      exact ih a b ha hb hsection hsection' (hpath ▸ Nat.succ.inj hlength)
    -- They are beside each other, so that the later one would have the larger number.
    have hlt := fun w before after => hgoes.number_lt before.length before w after rfl
    rcases mem_or_mem_of_split (hsplit.symm.trans hsplit') with hbefore | hsame | hbefore
    · have hsibling := mem_siblings.mpr ⟨hbefore, hu, hparent⟩
      exact absurd hnumber (hlt v bv av hsplit' hv u hsibling).ne
    · exact hsame
    · have hsibling := mem_siblings.mpr ⟨hbefore, hv, hparent.symm⟩
      exact absurd hnumber (hlt u bu au hsplit hu v hsibling).ne'

/-- **No path of numbers is given twice.** -/
theorem nodup_numbers (hgoes : GoesOn (root.visits .start c)) :
    (((root.visits .start c).filter Visit.isSection).map Visit.numbers).Nodup := by
  refine List.Nodup.map_on (fun u hu v hv heq => ?_) ((Node.nodup_visits c root).filter _)
  rw [List.mem_filter] at hu hv
  exact eq_of_numbers_eq hc hgoes _ u v hu.1 hv.1 hu.2 hv.2 rfl heq

end

/-! ## Outermost sections -/

section

variable {c : Context} {root : Node} {before after before' after' : List Visit} {u v : Visit}
  (hc : c.numbering.sections = .start)
  (hsplit : root.visits .start c = before ++ v :: after)
  (hsplit' : root.visits .start c = before' ++ u :: after')

include hsplit in
theorem head?_enclosing_eq_none_iff :
    (v.position.enclosing before).head? = none ↔ v.position.sections.head? = none := by
  obtain ⟨-, hindices⟩ := stable_enclosing.of_split (c := c) rfl hsplit
  rw [← hindices, List.head?_map, Option.map_eq_none_iff]

include hc hsplit in
/-- The outermost section around a visit has no other section around it. -/
theorem exists_outermost {s : Nat} (hs : v.position.sections.head? = some s) :
    ∃ b, (v.position.enclosing before).head? = some b ∧ b ∈ root.visits .start c ∧
      b.position.index = s ∧ b.isSection = true ∧ b.numbers = [b.number] := by
  obtain ⟨hordered, hindices⟩ := stable_enclosing.of_split (c := c) rfl hsplit
  obtain ⟨-, hnested⟩ := stable_nested.of_split (c := c) nested_start hsplit
  rw [← hindices, List.head?_map, Option.map_eq_some_iff] at hs
  obtain ⟨b, hb, rfl⟩ := hs
  obtain ⟨hbefore, hmem⟩ := mem_enclosing.mp (List.mem_of_head? hb)
  obtain ⟨hsection, js, hjs⟩ := hnested.sections b hbefore hmem
  have hvisited : b ∈ root.visits .start c := mem_of_mem_before hsplit hbefore
  -- A section around `b` would stand before it in the list.
  have houter : b.position.sections = [] := by
    cases hsections : b.position.sections with
    | nil => rfl
    | cons t ts =>
      have hhead : (v.position.sections).head? = some b.position.index := by
        rw [← hindices, List.head?_map, hb]
        rfl
      rw [hjs, hsections, List.cons_append, List.head?_cons, Option.some.injEq] at hhead
      have hlt := (hordered.earlier b hbefore).1.sections t (hsections ▸ List.mem_cons_self ..)
      exact absurd hhead hlt.ne
  obtain ⟨l₁, l₂, hl⟩ := List.append_of_mem hvisited
  obtain ⟨-, hnone⟩ := stable_enclosing.of_split (c := c) rfl hl
  rw [houter, List.map_eq_nil_iff] at hnone
  refine ⟨b, hb, hvisited, rfl, hsection, ?_⟩
  rw [Visit.numbers_of_isSection hsection, (agree_of_split hc hl).2.numbers, hnone]
  rfl

include hc hsplit hsplit' in
/-- Two visits are in the same outermost section if the outermost sections around them have
the same number. -/
theorem outermost_number_eq_iff (hgoes : GoesOn (root.visits .start c)) :
    (u.position.enclosing before').head?.map Visit.number =
        (v.position.enclosing before).head?.map Visit.number ↔
      u.position.sections.head? = v.position.sections.head? := by
  have hnone := head?_enclosing_eq_none_iff hsplit
  have hnone' := head?_enclosing_eq_none_iff hsplit'
  cases hu : u.position.sections.head? with
  | none =>
    rw [hnone'.mpr hu, Option.map_none, eq_comm, Option.map_eq_none_iff, hnone, eq_comm]
  | some s =>
    obtain ⟨b', hb', hmem', rfl, hsection', hnumbers'⟩ := exists_outermost hc hsplit' hu
    cases hv : v.position.sections.head? with
    | none =>
      rw [hnone.mpr hv, hb']
      simp only [Option.map_some, Option.map_none, reduceCtorEq]
    | some t =>
      obtain ⟨b, hb, hmem, rfl, hsection, hnumbers⟩ := exists_outermost hc hsplit hv
      rw [hb, hb', Option.map_some, Option.map_some, Option.some.injEq, Option.some.injEq]
      constructor
      · intro hnumber
        have heq : b'.numbers = b.numbers := by rw [hnumbers', hnumbers, hnumber]
        rw [eq_of_numbers_eq hc hgoes _ b' b hmem' hmem hsection' hsection rfl heq]
      · intro hindex
        rw [Node.eq_of_index_eq hmem' hmem hindex]

end

/-! ## Headings -/

/-- The heading as it is shown inside sections with the given numbers. -/
def Heading.withNumbers (h : Heading) (s : Settings) (numbers : List Int) : Heading :=
  let shownLevel := h.level.getD numbers.length
  { h with
    shownLevel
    label :=
      if 0 < shownLevel ∧ h.showNumber = true ∧ s.showHeadingNumbers = true ∧ numbers ≠ [] then
        joinNumbers s.sectionSeparator numbers ++ " "
      else "" }

/-- A heading stores the numbers on the stack. -/
theorem Visit.kind_of_heading {v : Visit} {e : Element} {h : Heading}
    (hkind : v.node.kind = .element e) (hfeature : e.feature = .heading h) :
    v.kind = .element ⟨e.name, e.arguments,
      .heading (h.withNumbers v.context.settings v.context.numbering.sections.numbers)⟩ := by
  have hopen : 0 < v.context.numbering.sections.level ↔
      v.context.numbering.sections.numbers ≠ [] := by
    rw [← Sections.length_numbers, List.length_pos_iff]
  have hentered : v.kind =
      .element ⟨e.name, e.arguments, (e.feature.enter v.context v.node.children).1⟩ := by
    rw [Visit.kind, Visit.entered, hkind]
    rfl
  rw [hentered, hfeature]
  simp only [Feature.enter, Feature.headingLabel, Heading.withNumbers, hopen,
    Sections.length_numbers]
  rfl

/-! ## Documents -/

/-- The number that a section asks for is the one that its arguments give. -/
def Kind.StartsAsAsked (k : Kind) : Prop :=
  ∀ e start, k = .element e → e.feature = .division start →
    (e.arguments.number "start" none).value? = start

theorem Feature.start_of_ofForm? {form : Form} {name : String} {as : Arguments}
    {start : Option Int} (h : ofForm? form name as = some (.division start)) :
    (as.number "start" none).value? = start := by
  cases form with
  | division =>
    cases h
    rfl
  | link | get | assign | increment | float | align | image | entity =>
    obtain ⟨_, -, hother⟩ := Option.map_eq_some_iff.mp h
    cases hother
  | _ => cases h

theorem Document.startsAsAsked_read (forms : Catalog) (source : String) :
    (read forms source).root.EveryKind Kind.StartsAsAsked := by
  have hasks : Kind.AsksOfElements Kind.StartsAsAsked :=
    fun k hk e start heq => absurd heq (hk e)
  refine everyKind_read hasks ?_ forms source
  intro form name as feature _ hfeature e start heq hdivision
  obtain rfl : _ = e := Kind.element.inj heq
  obtain rfl : feature = _ := hdivision
  exact Feature.start_of_ofForm? hfeature

section

variable {c : Context} {root : Node} {before after : List Visit} {v : Visit}
  (hc : c.numbering.sections = .start) (hsplit : root.visits .start c = before ++ v :: after)
include hc hsplit

/-- A section has the number that it asks for, or goes on from the last one beside it. -/
theorem number_of_split (hroot : root.EveryKind Kind.StartsAsAsked) (hv : v.isSection = true) :
    v.number = v.start?.getD (Visit.following (v.position.siblings before).getLast?) := by
  obtain ⟨-, hagree⟩ := agree_of_split hc hsplit
  obtain ⟨e, start, hkind, hfeature⟩ := Kind.isSection_iff.mp hv
  have hmem : v.node ∈ root.nodes := by
    rw [← Node.map_node_visits .start c root]
    exact List.mem_map_of_mem (mem_of_split hsplit)
  have hstart : v.start? = start := by
    rw [Visit.start?, hkind]
    exact hroot v.node hmem e start hkind hfeature
  rw [Visit.number_of_division hkind hfeature, hstart, hagree.next]

theorem numbers_of_split (hv : v.isSection = true) :
    v.numbers = (v.position.enclosing before).map Visit.number ++ [v.number] := by
  obtain ⟨-, hagree⟩ := agree_of_split hc hsplit
  rw [← hagree.numbers]
  exact Visit.numbers_of_isSection hv

/-- A heading stores the numbers of the sections around it. -/
theorem kind_of_split {e : Element} {h : Heading} (hkind : v.node.kind = .element e)
    (hfeature : e.feature = .heading h) :
    v.kind = .element ⟨e.name, e.arguments,
      .heading (h.withNumbers c.settings ((v.position.enclosing before).map Visit.number))⟩ := by
  obtain ⟨-, hagree⟩ := agree_of_split hc hsplit
  obtain ⟨-, hsettings⟩ := (stable_settings c.settings).of_split rfl hsplit
  rw [← hagree.numbers, ← hsettings]
  exact Visit.kind_of_heading hkind hfeature

end

/-- Where no section asks for a number, they all go on from each other. -/
theorem goesOn_of_no_start {c : Context} {root : Node} (hc : c.numbering.sections = .start)
    (hroot : root.EveryKind Kind.StartsAsAsked)
    (hstarts : ∀ v ∈ root.visits .start c, v.isSection = true → v.start? = none)
    (hfits : SectionsFit (root.visits .start c)) : GoesOn (root.visits .start c) := by
  refine ⟨fun before v after hsplit hv => ?_, hfits⟩
  rw [number_of_split hc hsplit hroot hv, hstarts v (mem_of_split hsplit) hv, Option.getD_none]

namespace Document

/-- **The number of a section can be read off the tree.** Preparing a document never fails, and
at each visit of the walk a section gets the number that its arguments ask for, or else goes on
from the last section before it with the same section around it, or else is the first. Headings
store the numbers of the sections around them, outermost first. Where no section asks for a
number and none goes on from the largest, no two sections share a path of numbers. -/
theorem read_sections_numbered (forms : Catalog) (source : String) (c : Context) :
    let root := (read forms source).root
    let visits := root.visits .start c.reset
    ∃ m d, root.prepare c.reset = .ok (m, d) ∧
      m.nodes.map Node.kind = visits.map Visit.kind ∧
      (∀ (before : List Visit) (v : Visit) (after : List Visit),
        visits = before ++ v :: after → v.isSection = true →
        v.number = v.start?.getD (Visit.following (v.position.siblings before).getLast?) ∧
        v.numbers = (v.position.enclosing before).map Visit.number ++ [v.number]) ∧
      (∀ (before : List Visit) (v : Visit) (after : List Visit) (e : Element) (h : Heading),
        visits = before ++ v :: after → v.node.kind = .element e → e.feature = .heading h →
        v.kind = .element ⟨e.name, e.arguments,
          .heading (h.withNumbers c.settings ((v.position.enclosing before).map Visit.number))⟩) ∧
      ((∀ v ∈ visits, v.isSection = true → v.start? = none) → SectionsFit visits →
        ((visits.filter Visit.isSection).map Visit.numbers).Nodup) := by
  intro root visits
  obtain ⟨m, d, hm, -⟩ := Node.prepare_restores c.reset root
  have hc : c.reset.numbering.sections = .start := rfl
  have hroot : root.EveryKind Kind.StartsAsAsked := startsAsAsked_read forms source
  refine ⟨m, d, hm, Node.map_kind_visits .start hm, ?_, ?_, ?_⟩
  · intro before v after hsplit hv
    exact ⟨number_of_split hc hsplit hroot hv, numbers_of_split hc hsplit hv⟩
  · intro before v after e h hsplit hkind hfeature
    exact kind_of_split hc hsplit hkind hfeature
  · intro hstarts hfits
    exact nodup_numbers hc (goesOn_of_no_start hc hroot hstarts hfits)

/-- Sections in a section, one of them in a float, and another section after it. -/
theorem read_sections_numbered_nested :
    let source := "\x7bs|\x7bh|A\x7d\x7bfloat|\x7bs|x\x7d\x7d\x7bs|y\x7d\x7d\x7bs|z\x7d"
    let visits := (read .standard source).root.visits .start (Context.start .plain .standard).reset
    (visits.filter Visit.isSection).map Visit.numbers = [[1], [1, 1], [1, 2], [2]] ∧
      ((visits.filter Visit.isSection).map Visit.numbers).Nodup := by
  intro source visits
  have hpaths : (visits.filter Visit.isSection).map Visit.numbers = [[1], [1, 1], [1, 2], [2]] := by
    decide +kernel
  have hstarts : ∀ v ∈ visits, v.isSection = true → v.start? = none := by
    decide +kernel
  have hsmall : ∀ b ∈ visits, b.number < maxNumber := by
    decide +kernel
  obtain ⟨m, d, -, -, -, -, hnodup⟩ :=
    read_sections_numbered .standard source (Context.start .plain .standard)
  exact ⟨hpaths, hnodup hstarts (.of_small hsmall)⟩

end Document

end Bracemark
