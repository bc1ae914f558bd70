/-
The walk that prepares a document.

Whatever a node is, the walk leaves it with the frames, the open sections and the open
lists that it came with. Only what has been counted and assigned goes on, and with it the
item number of the innermost list. That is the invariant which shows that a frame, a
section or a list is there whenever one is left, so that preparation never fails.

`Context.Restored` says what is the same afterwards, `Kind.leave_enter` is the step for
one node between whose ends the same holds, and `Node.prepare_mk` is what later proofs use:
the walk over a node in terms of the walk over its children.
-/
import Bracemark.Proofs.Kinds
import Bracemark.Render.Preparation

set_option autoImplicit false

namespace Bracemark

/-! ## Counters -/

/-- Closing a section drops its number. -/
theorem Sections.leave?_of_numbers {s : Sections} {outer : List Int} {number : Int}
    (h : s.numbers = outer ++ [number]) : ∃ t, s.leave? = some t ∧ t.numbers = outer := by
  -- What the parent section is told does not change its number.
  obtain ⟨next, _ | ⟨closed, _ | ⟨parent, opened⟩⟩⟩ := s
  · simp [numbers] at h
  · refine ⟨_, rfl, ?_⟩
    have hsplit : [] ++ [closed.number] = outer ++ [number] := h
    exact (List.append_inj' hsplit rfl).1
  · refine ⟨_, rfl, ?_⟩
    simp only [numbers, List.reverse_cons, List.map_append, List.map_singleton] at h ⊢
    exact (List.append_inj' h rfl).1

/-- Closing a list that is open leaves the lists around it. -/
theorem Lists.leave?_of_tail {l : Lists} {outer : List OpenList}
    (hlevel : l.level = outer.length + 1) (htail : l.opened.tail = outer) :
    l.leave? = some ⟨outer⟩ := by
  obtain ⟨_ | ⟨top, opened⟩⟩ := l
  · simp [level] at hlevel
  · subst htail
    rfl

@[simp] theorem Lists.tail_opened_advance (l : Lists) : l.advance.opened.tail = l.opened.tail := by
  obtain ⟨_ | ⟨top, outer⟩⟩ := l <;> rfl

/-! ## What is the same afterwards -/

/-- The context `d` has the frames, the open sections and the open lists of `c`; of the
lists the innermost may have come to another item. -/
structure Context.Restored (c d : Context) : Prop where
  target : d.target = c.target
  settings : d.settings = c.settings
  scope : d.scope = c.scope
  sections : d.numbering.sections.numbers = c.numbering.sections.numbers
  listLevel : d.numbering.lists.level = c.numbering.lists.level
  outerLists : d.numbering.lists.opened.tail = c.numbering.lists.opened.tail

namespace Context

variable {c d e : Context}

theorem Restored.refl (c : Context) : c.Restored c :=
  ⟨rfl, rfl, rfl, rfl, rfl, rfl⟩

theorem Restored.trans (h : c.Restored d) (h' : d.Restored e) : c.Restored e :=
  ⟨h'.target.trans h.target, h'.settings.trans h.settings, h'.scope.trans h.scope,
    h'.sections.trans h.sections, h'.listLevel.trans h.listLevel,
    h'.outerLists.trans h.outerLists⟩

theorem restored_assign (c : Context) (name value : String) :
    c.Restored (c.assign name value) := by
  unfold assign
  split
  · exact .refl c
  · exact ⟨rfl, rfl, rfl, rfl, rfl, rfl⟩

theorem restored_increment (c : Context) (name : String) : c.Restored (c.increment name) := by
  unfold increment
  split
  · exact .refl c
  · exact ⟨rfl, rfl, rfl, rfl, rfl, rfl⟩
  · exact ⟨rfl, rfl, rfl, rfl, rfl, rfl⟩
  · exact ⟨rfl, rfl, rfl, rfl, Lists.level_advance _, Lists.tail_opened_advance _⟩
  · exact ⟨rfl, rfl, rfl, rfl, rfl, rfl⟩

/-- The context for the children of a node. -/
def within (c : Context) (k : Kind) : Context :=
  { c with scope := c.scope.push (c.frameFor k) }

/-- The context that the walk has inside a node once it has come to it. -/
def inside (c : Context) (k : Kind) (children : List Node) : Context :=
  (k.enter c children).2.within (k.enter c children).1

/-- The walk comes to a node with `c`, has `d` after the children of the node, and goes on
with `e`. -/
structure Passes (c : Context) (k : Kind) (children : List Node) (d e : Context) : Prop where
  inside : (c.inside k children).Restored d
  leave : (k.enter c children).1.leave { d with scope := (k.enter c children).2.scope } = .ok e
  around : c.Restored e

end Context

/-! ## Entering and leaving -/

/-- A list is left by closing it. -/
theorem Feature.leave_list {d e : Context} (l : ItemList)
    (h : (Feature.list l).leave d = .ok e) : ∃ lists, d.numbering.lists.leave? = some lists ∧
      e = { d with numbering := { d.numbering with lists } } := by
  simp only [leave, Numbering.leaveList] at h
  cases hlists : d.numbering.lists.leave? with
  | none =>
    rw [hlists] at h
    cases h
  | some lists =>
    rw [hlists] at h
    cases h
    exact ⟨lists, rfl, rfl⟩

/-- A section is left by closing it, and the counters of tables and figures follow. -/
theorem Feature.leave_division {d e : Context} (start : Option Int)
    (h : (Feature.division start).leave d = .ok e) :
    ∃ sections, d.numbering.sections.leave? = some sections ∧
      e = { d with numbering := ({ d.numbering with sections : Numbering }).align } := by
  simp only [leave, Numbering.leaveSection] at h
  cases hsections : d.numbering.sections.leave? with
  | none =>
    rw [hsections] at h
    cases h
  | some sections =>
    rw [hsections] at h
    cases h
    exact ⟨sections, rfl, rfl⟩

/-- An element is left wherever it may have been entered. -/
theorem Feature.leave_enter {c d : Context} {children : List Node} {f : Feature}
    (h : (f.enter c children).2.Restored d) :
    ∃ e, (f.enter c children).1.leave d = .ok e ∧ c.Restored e := by
  -- Sections and lists are closed again; whatever else has been counted goes on.
  cases f with
  | division start =>
    obtain ⟨sections, hleave, hnumbers⟩ := Sections.leave?_of_numbers
      (h.sections.trans (Sections.numbers_enter _ start))
    refine ⟨{ d with numbering := ({ d.numbering with sections : Numbering }).align }, ?_, ?_⟩
    · simp only [enter, leave, Numbering.leaveSection, hleave]
      rfl
    · exact ⟨h.target, h.settings, h.scope, hnumbers, h.listLevel, h.outerLists⟩
  | list l =>
    have hleave : d.numbering.lists.leave? = some c.numbering.lists :=
      Lists.leave?_of_tail h.listLevel h.outerLists
    refine ⟨{ d with numbering := { d.numbering with lists := c.numbering.lists } }, ?_, ?_⟩
    · simp only [enter, leave, Numbering.leaveList, hleave]
      rfl
    · exact ⟨h.target, h.settings, h.scope, h.sections, rfl, rfl⟩
  | item i =>
    have hadvance : d.Restored { d with numbering := d.numbering.advanceList } :=
      ⟨rfl, rfl, rfl, rfl, Lists.level_advance _, Lists.tail_opened_advance _⟩
    exact ⟨_, rfl, h.trans hadvance⟩
  | assign name => exact ⟨d, rfl, (c.restored_assign _ _).trans h⟩
  | increment name => exact ⟨d, rfl, (c.restored_increment _).trans h⟩
  | image f =>
    refine ⟨{ d with numbering := d.numbering.leaveFigure }, rfl, ?_⟩
    exact ⟨h.target, h.settings, h.scope, h.sections, h.listLevel, h.outerLists⟩
  | _ => exact ⟨d, rfl, h⟩

/-- **A node is left wherever it may have been entered**, and what was entered with it is
left, too. -/
theorem Kind.leave_enter {c d : Context} {children : List Node} {k : Kind}
    (h : (k.enter c children).2.Restored d) :
    ∃ e, (k.enter c children).1.leave d = .ok e ∧ c.Restored e := by
  cases k with
  | element e => exact Feature.leave_enter h
  | table t =>
    refine ⟨{ d with numbering := d.numbering.leaveTable }, rfl, ?_⟩
    exact ⟨h.target, h.settings, h.scope, h.sections, h.listLevel, h.outerLists⟩
  | _ => exact ⟨d, rfl, h⟩

theorem Feature.settings_enter (c : Context) (children : List Node) (f : Feature) :
    (f.enter c children).2.settings = c.settings := by
  cases f with
  | assign name => exact (c.restored_assign _ _).settings
  | increment name => exact (c.restored_increment _).settings
  | _ => rfl

/-- Coming to a node changes no settings. -/
theorem Kind.settings_enter (c : Context) (children : List Node) (k : Kind) :
    (k.enter c children).2.settings = c.settings := by
  cases k with
  | element e => exact Feature.settings_enter c children e.feature
  | _ => rfl

/-! ## The walk -/

namespace Node

/-- The walk over a node, when the walk over its children succeeds and gives back what it
came with. -/
theorem prepare_of_children {c d : Context} {k : Kind} {children ns : List Node} (span : Span)
    (l : Layout) (h : prepareAll (c.inside k children) children = .ok (ns, d))
    (hd : (c.inside k children).Restored d) :
    ∃ e, prepare c (.mk span k children l) =
      .ok (.mk span (k.enter c children).1 ns c.layout, e) ∧ c.Passes k children d e := by
  have hframe : d.leaveFrame = .ok { d with scope := (k.enter c children).2.scope } := by
    rw [Context.leaveFrame, hd.scope]
    simp only [Context.inside, Context.within, Scope.pop?_push]
  have hinside : (k.enter c children).2.Restored { d with scope := (k.enter c children).2.scope } :=
    ⟨hd.target, hd.settings, rfl, hd.sections, hd.listLevel, hd.outerLists⟩
  obtain ⟨e, hleave, he⟩ := Kind.leave_enter hinside
  refine ⟨e, ?_, hd, hleave, he⟩
  have h' : prepareAll { (k.enter c children).2 with
      scope := (k.enter c children).2.scope.push
        ((k.enter c children).2.frameFor (k.enter c children).1) } children = .ok (ns, d) := h
  simp only [prepare, h', hframe, hleave, bind, Except.bind, pure, Except.pure]

mutual

/-- **Preparation never fails**, and it gives back the frames, sections and lists that it
came with. -/
theorem prepare_restores (c : Context) : ∀ n : Node, ∃ m d, n.prepare c = .ok (m, d) ∧ c.Restored d
  | .mk span k children l => by
    obtain ⟨ns, d, h, hd⟩ := prepareAll_restores (c.inside k children) children
    obtain ⟨e, he, hpasses⟩ := prepare_of_children span l h hd
    exact ⟨_, e, he, hpasses.around⟩

theorem prepareAll_restores (c : Context) :
    ∀ ns : List Node, ∃ ms d, prepareAll c ns = .ok (ms, d) ∧ c.Restored d
  | [] => ⟨[], c, rfl, .refl c⟩
  | n :: ns => by
    obtain ⟨m, d, hn, hd⟩ := prepare_restores c n
    obtain ⟨ms, e, hns, he⟩ := prepareAll_restores d ns
    refine ⟨m :: ms, e, ?_, hd.trans he⟩
    simp only [prepareAll, hn, hns, bind, Except.bind, pure, Except.pure]

end

/-- **The walk is balanced.** Over any tree and from any context it comes to an end. The frames
and their settings, the numbers of the open sections, the number of open lists and all of these
but the innermost are then what they were, whatever has been entered and left on the way. -/
theorem prepare_balanced (c : Context) (n : Node) : ∃ m d, n.prepare c = .ok (m, d) ∧
    d.scope = c.scope ∧ d.numbering.sections.numbers = c.numbering.sections.numbers ∧
    d.numbering.lists.level = c.numbering.lists.level ∧
    d.numbering.lists.opened.tail = c.numbering.lists.opened.tail := by
  obtain ⟨m, d, hprepare, hd⟩ := prepare_restores c n
  exact ⟨m, d, hprepare, hd.scope, hd.sections, hd.listLevel, hd.outerLists⟩

/-- What the walk makes of a node: it keeps the span, says what the node is in the course
of the document, and has walked over the children in between. -/
theorem prepare_mk {c e : Context} {span : Span} {k : Kind} {children : List Node} {l : Layout}
    {m : Node} (h : prepare c (.mk span k children l) = .ok (m, e)) :
    ∃ ns d, prepareAll (c.inside k children) children = .ok (ns, d) ∧
      m = .mk span (k.enter c children).1 ns c.layout ∧ c.Passes k children d e := by
  obtain ⟨ns, d, hns, hd⟩ := prepareAll_restores (c.inside k children) children
  obtain ⟨e', he, hpasses⟩ := prepare_of_children span l hns hd
  rw [h] at he
  cases he
  exact ⟨ns, d, hns, rfl, hpasses⟩

theorem prepareAll_cons {c e : Context} {n : Node} {ns ms : List Node}
    (h : prepareAll c (n :: ns) = .ok (ms, e)) :
    ∃ m ms' d, n.prepare c = .ok (m, d) ∧ prepareAll d ns = .ok (ms', e) ∧ ms = m :: ms' ∧
      c.Restored d := by
  obtain ⟨m, d, hn, hd⟩ := prepare_restores c n
  obtain ⟨ms', e', hns, he⟩ := prepareAll_restores d ns
  simp only [prepareAll, hn, hns, bind, Except.bind, pure, Except.pure] at h
  cases h
  exact ⟨m, ms', d, hn, hns, rfl, hd⟩

/-! ## What the walk makes of kinds -/

section

variable {K L : Kind → Prop} {s : Settings}

mutual

/-- What coming to any node makes of its kind, the walk makes of the kinds of a tree. The
settings are the same all along. -/
theorem everyKind_prepare (h : ∀ (c : Context) (children : List Node) (k : Kind),
    c.settings = s → K k → L (k.enter c children).1) {c d : Context} (hc : c.settings = s) :
    ∀ {n m : Node}, n.EveryKind K → n.prepare c = .ok (m, d) → m.EveryKind L
  | .mk span k children l, m, hn, hm => by
    obtain ⟨ns, e, hns, rfl, -⟩ := prepare_mk hm
    have hwithin : (c.inside k children).settings = s :=
      (Kind.settings_enter c children k).trans hc
    exact everyKind_mk.mpr ⟨h c children k hc hn.kind,
      allKinds_prepareAll h hwithin hn.children hns⟩

theorem allKinds_prepareAll (h : ∀ (c : Context) (children : List Node) (k : Kind),
    c.settings = s → K k → L (k.enter c children).1) {c d : Context} (hc : c.settings = s) :
    ∀ {ns ms : List Node}, AllKinds K ns → prepareAll c ns = .ok (ms, d) → AllKinds L ms
  | [], ms, _, hms => by
    cases hms
    exact allKinds_nil
  | n :: ns, ms, hns, hms => by
    obtain ⟨m, ms', e, hm, hms', rfl, hrestored⟩ := prepareAll_cons hms
    obtain ⟨hn, hns⟩ := allKinds_cons.mp hns
    exact allKinds_cons.mpr ⟨everyKind_prepare h hc hn hm,
      allKinds_prepareAll h (hrestored.settings.trans hc) hns hms'⟩

end

end

end Node

end Bracemark
