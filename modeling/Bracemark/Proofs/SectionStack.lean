/-
The stack of section numbers.

The walk counts sections on a stack, and other nodes may lie between a section and the
section around it. What the stack holds can still be said in terms of the visits before: the
numbers of the sections around, and the number that the next section goes on to, which is that
after the last section with the same section around it. `SectionsAgree` says this, and each step
of the walk keeps it (`stable_sectionsAgree`).
-/
import Bracemark.Proofs.Visits

set_option autoImplicit false

namespace Bracemark

open Text

/-! ## The stack -/

namespace Sections

theorem length_numbers (s : Sections) : s.numbers.length = s.level := by
  rw [numbers, List.length_map, List.length_reverse, level]

/-- What follows a section goes on from its number. -/
theorem next_of_leave? {s t : Sections} {outer : List Int} {number : Int}
    (hleave : s.leave? = some t) (h : s.numbers = outer ++ [number]) :
    t.next = nextNumber number := by
  obtain ⟨nextTop, _ | ⟨closed, _ | ⟨parent, opened⟩⟩⟩ := s
  · cases hleave
  · have hsplit : [] ++ [closed.number] = outer ++ [number] := h
    cases hleave
    rw [next, List.singleton_inj.mp (List.append_inj' hsplit rfl).2]
  · simp only [numbers, List.reverse_cons, List.map_append, List.map_singleton] at h
    cases hleave
    rw [next, List.singleton_inj.mp (List.append_inj' h rfl).2]

end Sections

namespace Kind

theorem isSection_iff {k : Kind} :
    k.isSection = true ↔ ∃ e start, k = .element e ∧ e.feature = .division start := by
  constructor
  · intro h
    unfold isSection at h
    split at h
    · next name as start => exact ⟨_, start, rfl, rfl⟩
    · cases h
  · rintro ⟨⟨name, as, feature⟩, start, rfl, hfeature⟩
    subst hfeature
    rfl

variable {c d e : Context} {k : Kind} {children : List Node}

/-- Coming to a node does not make a section of it, nor anything else. -/
theorem isSection_enter (c : Context) (children : List Node) (k : Kind) :
    (k.enter c children).1.isSection = k.isSection := by
  cases k with
  | element e =>
    obtain ⟨name, as, feature⟩ := e
    cases feature <;> rfl
  | _ => rfl

/-- Coming to a section opens it. -/
theorem sections_enter_division {el : Element} {start : Option Int}
    (h : el.feature = .division start) :
    ((element el).enter c children).2.numbering.sections = c.numbering.sections.enter start := by
  obtain ⟨name, as, feature⟩ := el
  obtain rfl : feature = _ := h
  rfl

/-- Coming to a node that is no section leaves the stack alone. -/
theorem sections_enter (h : k.isSection = false) :
    (k.enter c children).2.numbering.sections = c.numbering.sections := by
  cases k with
  | element e =>
    obtain ⟨name, as, feature⟩ := e
    cases feature with
    | division start => cases h
    | assign name =>
      show (c.assign name _).numbering.sections = _
      unfold Context.assign
      split <;> rfl
    | increment name =>
      show (c.increment name).numbering.sections = _
      unfold Context.increment
      split <;> rfl
    | _ => rfl
  | _ => rfl

/-- Going on after a node that is no section leaves the stack alone. -/
theorem sections_leave (h : k.isSection = false) (hleave : k.leave d = .ok e) :
    e.numbering.sections = d.numbering.sections := by
  cases k with
  | element el =>
    obtain ⟨name, as, feature⟩ := el
    cases feature with
    | division start => cases h
    | list l =>
      obtain ⟨lists, -, rfl⟩ := Feature.leave_list l hleave
      rfl
    | _ =>
      cases hleave
      rfl
  | _ =>
    cases hleave
    rfl

end Kind

namespace Context.Passes

variable {c d e : Context} {k : Kind} {children : List Node}

/-- What is passed and is no section leaves the stack as it is inside. -/
theorem sections_of_not_section (h : c.Passes k children d e) (hk : k.isSection = false) :
    e.numbering.sections = d.numbering.sections := by
  have hleave := Kind.sections_leave ((Kind.isSection_enter c children k).trans hk) h.leave
  exact hleave

/-- A section that is passed is closed. -/
theorem leave?_of_section (h : c.Passes k children d e) (hk : k.isSection = true) :
    d.numbering.sections.leave? = some e.numbering.sections := by
  obtain ⟨⟨name, as, feature⟩, start, rfl, hfeature⟩ := Kind.isSection_iff.mp hk
  subst hfeature
  obtain ⟨sections, hsections, rfl⟩ := Feature.leave_division start h.leave
  exact hsections

end Context.Passes

/-! ## Numbers of visits -/

namespace Visit

/-- The numbers of the sections that are open when the walk has come to the node, outermost
first. -/
def numbers (v : Visit) : List Int :=
  v.entered.2.numbering.sections.numbers

/-- The number of a section, the last of these. -/
def number (v : Visit) : Int :=
  v.numbers.getLast?.getD 0

/-- The number that the arguments of an element ask for. -/
def start? (v : Visit) : Option Int :=
  match v.node.kind with
  | .element e => (e.arguments.number "start" none).value?
  | _ => none

/-- The number after that of a section, and one where there is no section. -/
def following : Option Visit → Int
  | none => 1
  | some b => nextNumber b.number

variable {v : Visit}

/-- A section that asks for no number has the next one. -/
theorem number_of_division {e : Element} {start : Option Int} (h : v.node.kind = .element e)
    (hfeature : e.feature = .division start) :
    v.number = start.getD v.context.numbering.sections.next := by
  rw [number, numbers, entered, h, Kind.sections_enter_division hfeature, Sections.numbers_enter,
    List.getLast?_concat, Option.getD_some]

/-- A section adds its own number to those of the sections around it. -/
theorem numbers_of_isSection (h : v.isSection = true) :
    v.numbers = v.context.numbering.sections.numbers ++ [v.number] := by
  obtain ⟨e, start, hk, hfeature⟩ := Kind.isSection_iff.mp h
  rw [number_of_division hk hfeature, numbers, entered, hk,
    Kind.sections_enter_division hfeature, Sections.numbers_enter]

end Visit

/-! ## Sections around a position and beside it -/

namespace Position

/-- The sections around a position, outermost first, among the visits before. -/
def enclosing (p : Position) (h : List Visit) : List Visit :=
  h.filter fun b => p.sections.contains b.position.index

/-- The sections before a position that have the same section around them, or none like it. -/
def siblings (p : Position) (h : List Visit) : List Visit :=
  h.filter fun b => b.isSection && b.position.sections.getLast? == p.sections.getLast?

end Position

section

variable {h inner : List Visit} {p : Position} {c : Context} {n : Node}

theorem mem_enclosing {b : Visit} :
    b ∈ p.enclosing h ↔ b ∈ h ∧ b.position.index ∈ p.sections := by
  rw [Position.enclosing, List.mem_filter, List.contains_iff_mem]

theorem mem_siblings {b : Visit} :
    b ∈ p.siblings h ↔ b ∈ h ∧ b.isSection = true ∧
      b.position.sections.getLast? = p.sections.getLast? := by
  rw [Position.siblings, List.mem_filter, Bool.and_eq_true, beq_iff_eq]

theorem enclosing_congr {q : Position} (hq : q.sections = p.sections) :
    q.enclosing h = p.enclosing h := by
  rw [Position.enclosing, Position.enclosing, hq]

theorem siblings_congr {q : Position} (hq : q.sections = p.sections) :
    q.siblings h = p.siblings h := by
  rw [Position.siblings, Position.siblings, hq]

/-- What comes at a position or after it is not around the position. -/
theorem enclosing_append (ho : Ordered h p) {vs : List Visit}
    (hvs : ∀ b ∈ vs, p.index ≤ b.position.index) : p.enclosing (h ++ vs) = p.enclosing h := by
  have hnone : p.enclosing vs = [] := by
    rw [List.eq_nil_iff_forall_not_mem]
    intro b hb
    obtain ⟨hb, hmem⟩ := mem_enclosing.mp hb
    exact absurd (ho.valid.sections _ hmem) (Nat.not_lt.mpr (hvs b hb))
  rw [Position.enclosing, List.filter_append]
  show p.enclosing h ++ p.enclosing vs = _
  rw [hnone, List.append_nil]

/-- Inside a section, the section is around. -/
theorem enclosing_inside (ho : Ordered h p) (hn : n.kind.isSection = true) :
    (p.inside n.kind).enclosing (h ++ [⟨p, c, n⟩]) = p.enclosing h ++ [⟨p, c, n⟩] := by
  rw [Position.enclosing, Position.sections_inside_of_section p hn, List.filter_append]
  congr 1
  · refine List.filter_congr fun b hb => ?_
    rw [Bool.eq_iff_iff, List.contains_iff_mem, List.contains_iff_mem, List.mem_append,
      List.mem_singleton]
    exact or_iff_left fun heq => (ho.index_notMem hb).1 heq.symm
  · exact List.filter_eq_self.mpr fun b hb => by
      rw [List.mem_singleton.mp hb, List.contains_iff_mem]
      exact List.mem_append_right _ (List.mem_singleton_self _)

/-- Where a section begins, none has gone before in it. -/
theorem siblings_inside (ho : Ordered h p) (hn : n.kind.isSection = true) :
    (p.inside n.kind).siblings (h ++ [⟨p, c, n⟩]) = [] := by
  rw [List.eq_nil_iff_forall_not_mem]
  intro b hb
  obtain ⟨hb, -, hlast⟩ := mem_siblings.mp hb
  rw [Position.sections_inside_of_section p hn, List.getLast?_concat] at hlast
  have hmem : p.index ∈ b.position.sections := List.mem_of_getLast? hlast
  rcases List.mem_append.mp hb with hb | hb
  · exact (ho.index_notMem hb).2.2 hmem
  · rw [List.mem_singleton.mp hb] at hmem
    exact absurd (ho.valid.sections _ hmem) (Nat.lt_irrefl _)

/-- A node that is no section changes nothing for those inside it. -/
theorem siblings_inside_of_not_section (hn : n.kind.isSection = false) :
    (p.inside n.kind).siblings (h ++ [⟨p, c, n⟩]) = p.siblings h := by
  have hnone : p.siblings [⟨p, c, n⟩] = [] := by
    rw [List.eq_nil_iff_forall_not_mem]
    intro b hb
    obtain ⟨hb, hsection, -⟩ := mem_siblings.mp hb
    rw [List.mem_singleton.mp hb] at hsection
    exact absurd (hn.symm.trans hsection) Bool.false_ne_true
  rw [siblings_congr (Position.sections_inside_of_not_section p hn), Position.siblings,
    List.filter_append]
  show p.siblings h ++ p.siblings [⟨p, c, n⟩] = _
  rw [hnone, List.append_nil]

/-- What is inside a section is not beside it. -/
theorem siblings_past (ho : Ordered h p) (hn : n.kind.isSection = true)
    (hinner : ∀ b ∈ inner, (p.inside n.kind).LeadsTo b.position) :
    p.siblings (h ++ ⟨p, c, n⟩ :: inner) = p.siblings h ++ [⟨p, c, n⟩] := by
  have hnone : p.siblings inner = [] := by
    rw [List.eq_nil_iff_forall_not_mem]
    intro b hb
    obtain ⟨hb, -, hlast⟩ := mem_siblings.mp hb
    obtain ⟨js, hjs, hle⟩ := (hinner b hb).sections
    rw [Position.sections_inside_of_section p hn, List.append_assoc] at hjs
    -- The innermost section around `b` is the section itself or one in it.
    obtain ⟨j, hj⟩ : ∃ j, ([p.index] ++ js).getLast? = some j :=
      Option.isSome_iff_exists.mp (by simp)
    have hge : p.index ≤ j := by
      rcases List.mem_append.mp (List.mem_of_getLast? hj) with hmem | hmem
      · exact (List.mem_singleton.mp hmem).ge
      · exact (Nat.le_succ _).trans (hle j hmem)
    rw [hjs, List.getLast?_append, hj, Option.some_or] at hlast
    exact absurd (ho.valid.sections j (List.mem_of_getLast? hlast.symm)) (Nat.not_lt.mpr hge)
  rw [Position.siblings, List.filter_append, List.filter_cons_of_pos]
  · show p.siblings h ++ _ :: p.siblings inner = _
    rw [hnone]
  · rw [Bool.and_eq_true, beq_iff_eq]
    exact ⟨hn, rfl⟩

/-! ## What the stack holds -/

/-- What the stack of sections holds at a position, in terms of the visits before. -/
structure SectionsAgree (h : List Visit) (p : Position) (c : Context) : Prop where
  numbers : c.numbering.sections.numbers = (p.enclosing h).map Visit.number
  next : c.numbering.sections.next = Visit.following (p.siblings h).getLast?
  level : c.numbering.sections.level = p.sections.length
  /-- The innermost section around has been visited and has the numbers on the stack. -/
  parent : ∀ j, p.sections.getLast? = some j →
    ∃ b ∈ h, b.position.index = j ∧ b.isSection = true ∧
      b.numbers = c.numbering.sections.numbers

theorem sectionsAgree_start {c : Context} (hc : c.numbering.sections = .start) :
    SectionsAgree [] .start c := by
  refine ⟨?_, ?_, ?_, fun j hj => by cases hj⟩ <;> rw [hc] <;> rfl

theorem SectionsAgree.enter (ho : Ordered h p) (hi : SectionsAgree h p c) (n : Node) :
    SectionsAgree (h ++ [⟨p, c, n⟩]) (p.inside n.kind) (c.inside n.kind n.children) := by
  by_cases hn : n.kind.isSection = true
  · obtain ⟨e, start, hk, hfeature⟩ := Kind.isSection_iff.mp hn
    let v : Visit := ⟨p, c, n⟩
    have hnumbers : v.numbers = c.numbering.sections.numbers ++ [v.number] :=
      Visit.numbers_of_isSection hn
    have hopened : (c.inside n.kind n.children).numbering.sections =
        c.numbering.sections.enter start := by
      rw [hk]
      exact Kind.sections_enter_division hfeature
    refine ⟨?_, ?_, ?_, fun j hj => ?_⟩
    · rw [enclosing_inside ho hn, List.map_append, ← hi.numbers]
      exact hnumbers
    · rw [siblings_inside ho hn, hopened]
      rfl
    · rw [hopened, Sections.level_enter, hi.level, Position.sections_inside_of_section p hn,
        List.length_append, List.length_singleton]
    · rw [Position.sections_inside_of_section p hn, List.getLast?_concat, Option.some.injEq] at hj
      exact ⟨v, List.mem_append_right _ (List.mem_singleton_self v), hj, hn, rfl⟩
  · rw [Bool.not_eq_true] at hn
    have hsections := Position.sections_inside_of_not_section p hn
    have hsame : (c.inside n.kind n.children).numbering.sections = c.numbering.sections :=
      Kind.sections_enter hn
    refine ⟨?_, ?_, ?_, fun j hj => ?_⟩
    · rw [hsame, hi.numbers, enclosing_congr hsections, enclosing_append ho fun b hb => ?_]
      exact (congrArg (·.position.index) (List.mem_singleton.mp hb)).ge
    · rw [hsame, hi.next, siblings_inside_of_not_section hn]
    · rw [hsame, hi.level, hsections]
    · rw [hsections] at hj
      obtain ⟨b, hb, hindex⟩ := hi.parent j hj
      rw [hsame]
      exact ⟨b, List.mem_append_left _ hb, hindex⟩

theorem SectionsAgree.leave {d e : Context} (ho : Ordered h p) (hi : SectionsAgree h p c)
    (hinner : ∀ b ∈ inner, (p.inside n.kind).LeadsTo b.position)
    (hd : SectionsAgree (h ++ ⟨p, c, n⟩ :: inner) ((p.inside n.kind).past inner.length) d)
    (hpasses : c.Passes n.kind n.children d e) :
    SectionsAgree (h ++ ⟨p, c, n⟩ :: inner) (p.past (inner.length + 1)) e := by
  have hnumbers : e.numbering.sections.numbers = c.numbering.sections.numbers :=
    hpasses.around.sections
  refine ⟨?_, ?_, ?_, fun j hj => ?_⟩
  · rw [hnumbers, hi.numbers]
    exact congrArg _ (enclosing_append ho (index_le_of_mem_cons c hinner)).symm
  · by_cases hn : n.kind.isSection = true
    · -- The next section goes on from the one that has been closed.
      let v : Visit := ⟨p, c, n⟩
      have hinside : d.numbering.sections.numbers = c.numbering.sections.numbers ++ [v.number] :=
        hpasses.inside.sections.trans (Visit.numbers_of_isSection (v := v) hn)
      rw [siblings_congr (Position.sections_past p _), siblings_past ho hn hinner,
        List.getLast?_concat]
      exact Sections.next_of_leave? (hpasses.leave?_of_section hn) hinside
    · rw [Bool.not_eq_true] at hn
      rw [hpasses.sections_of_not_section hn, hd.next]
      refine congrArg (fun bs => Visit.following bs.getLast?) (siblings_congr ?_)
      exact Position.sections_inside_of_not_section p hn
  · rw [← Sections.length_numbers, hnumbers, Sections.length_numbers, hi.level,
      Position.sections_past]
  · obtain ⟨b, hb, hindex, hsection, hsame⟩ := hi.parent j hj
    exact ⟨b, List.mem_append_left _ hb, hindex, hsection, hsame.trans hnumbers.symm⟩

end

/-- **The stack agrees with the visits all along.** -/
theorem stable_sectionsAgree : Stable SectionsAgree where
  enter n ho hi := hi.enter ho n
  leave ho hi hinner hd hpasses := hi.leave ho hinner hd hpasses

/-- The sections around a position are those that it lists. -/
theorem stable_enclosing :
    Stable fun h p _ => (p.enclosing h).map (·.position.index) = p.sections where
  enter {h p c} n ho hi := by
    by_cases hn : n.kind.isSection = true
    · rw [enclosing_inside ho hn, List.map_append, hi, Position.sections_inside_of_section p hn]
      rfl
    · have hsections := Position.sections_inside_of_not_section p (Bool.not_eq_true _ ▸ hn)
      rw [enclosing_congr hsections, enclosing_append ho, hi, hsections]
      exact fun b hb => (congrArg (·.position.index) (List.mem_singleton.mp hb)).ge
  leave {h inner p c d e n} ho hi hinner _ _ := by
    rw [enclosing_congr (Position.sections_past p _), Position.sections_past,
      enclosing_append ho (index_le_of_mem_cons c hinner), hi]

end Bracemark
