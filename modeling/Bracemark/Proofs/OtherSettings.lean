/-
Preparing a document with other settings.

The walk that prepares a document uses the settings for little: they give the separators of the
numbers that it writes into the nodes and keeps in variables. So with other settings it comes to
the same numbering and the same layout, and to nodes that differ in some texts only
(`Node.alike_prepare`).

One thing about these texts can be told later, whether there is anything but white space. A
number has digits, so it is never white space, but the marker of a list of bullets consists of
separators alone. Therefore the separator of lists must be white space with both settings or
with neither (`Settings.Alike`). All that a document makes of variables keeps this apart, the
steps of counting included.
-/
import Bracemark.Proofs.HtmlNesting
import Bracemark.Proofs.Tags
import Bracemark.Proofs.VariableOrder

set_option autoImplicit false

namespace Bracemark

open Text Html

/-! ## Settings -/

/-- The settings agree in whether figures are numbered and in the indentation, which is white
space. The texts that they give may differ, but for two things. The separators of lists are both
white space, or neither is. And where figures are numbered, nothing that the label and the
separator of figures bring into a caption begins a tag. -/
structure Settings.Alike (s t : Settings) : Prop where
  indent : t.indent = s.indent
  blankIndent : isBlankText s.indent = true
  showFigureNumbers : t.showFigureNumbers = s.showFigureNumbers
  listSeparator : isBlankText s.listSeparator = isBlankText t.listSeparator
  figureTexts : s.showFigureNumbers = true →
    ∀ u ∈ [s.figureLabel, s.figureSeparator, t.figureLabel, t.figureSeparator], '<' ∉ u.toList

/-! ## Numbers and markers -/

theorem isBlank_of_isDigit {c : Char} (h : c.isDigit = true) : isBlank c = false := by
  have hrange : 48 ≤ c.toNat ∧ c.toNat ≤ 57 := Char.isDigit_iff_toNat.mp h
  simp only [isBlank, Bool.or_eq_false_iff, Bool.and_eq_false_iff, decide_eq_false_iff_not,
    beq_eq_false_iff_ne]
  omega

theorem isBlankText_toString (n : Int) : isBlankText (toString n) = false := by
  have hne : (toString n).toList ≠ [] := by
    rw [ne_eq, String.toList_eq_nil_iff]
    cases n with
    | ofNat n => exact Nat.repr_ne_empty
    | negSucc n =>
      intro hempty
      exact absurd (String.append_eq_empty_iff.mp hempty).1 (by decide)
  obtain ⟨c, cs, hcons⟩ := List.exists_cons_of_ne_nil hne
  have hmem : c ∈ (toString n).toList := by
    rw [hcons]
    exact List.mem_cons_self
  have hc : isBlank c = false := by
    rcases isDigit_or_eq_of_mem_toString n c hmem with hdigit | rfl
    · exact isBlank_of_isDigit hdigit
    · rfl
  rw [isBlankText, Text.allBlank, hcons, List.all_cons, hc, Bool.false_and]

/-- Texts with separators between them are white space if all of it is. -/
theorem isBlankText_intercalate {s t : String} {l : List String}
    (h : isBlankText s = isBlankText t ∨ ∀ u ∈ l, isBlankText u = false) :
    isBlankText (s.intercalate l) = isBlankText (t.intercalate l) := by
  induction l with
  | nil => rfl
  | cons u l ih =>
    by_cases hnil : l = []
    · subst hnil
      rfl
    · rw [String.intercalate_cons_of_ne_nil hnil, String.intercalate_cons_of_ne_nil hnil]
      simp only [isBlankText_append]
      rcases h with hseparator | hsolid
      · rw [hseparator, ih (.inl hseparator)]
      · rw [hsolid u List.mem_cons_self, Bool.false_and, Bool.false_and, Bool.false_and,
          Bool.false_and]

/-- A number has digits, whatever separates them. -/
theorem isBlankText_joinNumbers (s t : String) (numbers : List Int) :
    isBlankText (joinNumbers s numbers) = isBlankText (joinNumbers t numbers) := by
  refine isBlankText_intercalate (.inr fun u hu => ?_)
  obtain ⟨n, -, rfl⟩ := List.mem_map.mp hu
  exact isBlankText_toString n

/-- Numbers begin no tag if their separator does not. -/
theorem less_not_mem_joinNumbers {s : String} (h : '<' ∉ s.toList) (numbers : List Int) :
    '<' ∉ (joinNumbers s numbers).toList := by
  unfold joinNumbers
  induction numbers with
  | nil => exact List.not_mem_nil
  | cons n numbers ih =>
    have hn := (IsText.toString_int n).less_not_mem
    by_cases hnil : numbers = []
    · subst hnil
      exact hn
    · rw [List.map_cons, String.intercalate_cons_of_ne_nil (mt List.map_eq_nil_iff.mp hnil)]
      simp only [String.toList_append, List.mem_append, not_or]
      exact ⟨⟨hn, h⟩, ih⟩

/-! ## Variables -/

/-- The same variables have values, and for each of them both values are white space or neither
is. -/
def Variables.Alike (v w : Variables) : Prop :=
  ∀ name, (v.get? name).map isBlankText = (w.get? name).map isBlankText

/-- Only a number can be counted up, and that gives a number. -/
theorem Values.map_countedUp (value : Option String) :
    (countedUp value).map isBlankText = some ((value.map isBlankText).getD false) := by
  cases value with
  | none => rfl
  | some value =>
    rw [countedUp]
    cases hread : readNumber? (trim value) with
    | none => rfl
    | some n =>
      have hsolid : isBlankText value = false := by
        by_contra hblank
        rw [Bool.not_eq_false] at hblank
        rw [trim_eq_empty_iff.mpr hblank] at hread
        cases hread
      dsimp only
      split
      · rw [Option.map_some, isBlankText_toString, Option.map_some, hsolid]
        rfl
      · rfl

namespace Variables

variable {v w : Variables}

theorem Alike.insert (h : v.Alike w) (name : String) {value other : String}
    (hvalue : isBlankText value = isBlankText other) :
    (v.insert name value).Alike (w.insert name other) := by
  intro asked
  rw [get?_insert, get?_insert]
  split
  · exact congrArg some hvalue
  · exact h asked

theorem Alike.increment (h : v.Alike w) (name : String) :
    (v.increment name).2.Alike (w.increment name).2 := by
  intro asked
  rw [get?_increment, get?_increment]
  split
  · rw [Values.map_countedUp, Values.map_countedUp, h name]
  · exact h asked

end Variables

/-! ## Contexts -/

/-- Two contexts that have come to the same place of a document with different settings. -/
structure Context.Alike (s t : Settings) (c d : Context) : Prop where
  left : c.settings = s
  right : d.settings = t
  scope : c.scope = d.scope
  numbering : c.numbering = d.numbering
  assigned : c.assigned.Alike d.assigned

namespace Context

variable {s t : Settings} {c d : Context}

theorem Alike.layout (h : c.Alike s t d) : c.layout = d.layout := by
  simp only [Context.layout, depth, h.scope]

theorem Alike.withNumbering (h : c.Alike s t d) (n : Numbering) :
    { c with numbering := n }.Alike s t { d with numbering := n } :=
  ⟨h.left, h.right, h.scope, rfl, h.assigned⟩

theorem Alike.withScope (h : c.Alike s t d) (scope : Scope) :
    { c with scope }.Alike s t { d with scope } :=
  ⟨h.left, h.right, rfl, h.numbering, h.assigned⟩

/-- What a name shows is white space with both settings or with neither. -/
theorem Alike.isBlankText_valueOf (hs : s.Alike t) (h : c.Alike s t d) (name : String) :
    isBlankText (c.valueOf name) = isBlankText (d.valueOf name) := by
  unfold valueOf
  cases CounterName.ofName? name with
  | some counter =>
    cases counter with
    | sections | tables | figures =>
      simp only [sectionText, tableText, figureText, h.numbering]
      exact isBlankText_joinNumbers _ _ _
    | lists =>
      -- For bullets there are no numbers between the separators.
      simp only [listText, h.numbering, h.left, h.right]
      exact isBlankText_intercalate (.inl hs.listSeparator)
  | none =>
    -- A variable without a value shows an empty text, with both settings.
    have hvalue := congrArg (fun blank => blank.getD (isBlankText "")) (h.assigned name)
    simpa only [Option.getD_map] using hvalue

theorem Alike.assign (h : c.Alike s t d) (name : String) {value other : String}
    (hvalue : isBlankText value = isBlankText other) :
    (c.assign name value).Alike s t (d.assign name other) := by
  unfold Context.assign
  cases CounterName.ofName? name with
  | some counter => exact h
  | none => exact ⟨h.left, h.right, h.scope, h.numbering, h.assigned.insert name hvalue⟩

theorem Alike.increment (h : c.Alike s t d) (name : String) :
    (c.increment name).Alike s t (d.increment name) := by
  unfold Context.increment
  cases CounterName.ofName? name with
  | some counter =>
    cases counter with
    | sections => exact h
    | tables | figures | lists =>
      simp only [h.numbering]
      exact h.withNumbering _
  | none => exact ⟨h.left, h.right, h.scope, h.numbering, h.assigned.increment name⟩

end Context

/-! ## Nodes -/

/-- Whether the walk writes a text into an element. -/
def Feature.takesText : Feature → Bool
  | .heading _ | .item _ | .get _ _ | .image _ => true
  | _ => false

/-- Two features that the same element may have with different settings. Where figures are
numbered, their numbers begin no tag. -/
inductive Feature.Alike (numbered : Bool) : Feature → Feature → Prop
  | same {f : Feature} : f.Harmless → f.takesText = false → Alike numbered f f
  | heading {h h' : Heading} : h.shownLevel = h'.shownLevel →
      Alike numbered (.heading h) (.heading h')
  | item (i i' : Item) : Alike numbered (.item i) (.item i')
  | get (name : String) {value value' : String} : isBlankText value = isBlankText value' →
      Alike numbered (.get name (some value)) (.get name (some value'))
  | image (f : Figure) {number number' : String} :
      (numbered = true → '<' ∉ number.toList ∧ '<' ∉ number'.toList) →
      Alike numbered (.image { f with number }) (.image { f with number := number' })

/-- Whether the walk may write a text into a node. -/
def Kind.takesText : Kind → Bool
  | .element _ | .table _ => true
  | _ => false

/-- Two kinds that the same node may have with different settings. -/
inductive Kind.Alike (numbered : Bool) : Kind → Kind → Prop
  | same {k : Kind} : k.takesText = false → Alike numbered k k
  | element (name : String) (as : Arguments) {f f' : Feature} : f.Alike numbered f' →
      Alike numbered (.element ⟨name, as, f⟩) (.element ⟨name, as, f'⟩)
  | table (t : Table) (number number' : String) :
      Alike numbered (.table { t with number }) (.table { t with number := number' })

mutual

/-- Two trees that a document may be prepared to with different settings. -/
inductive Node.Alike (numbered : Bool) : Node → Node → Prop
  | mk {span : Span} {k k' : Kind} {ns ns' : List Node} {l : Layout} :
    k.Alike numbered k' → AllAlike numbered ns ns' →
      Alike numbered (.mk span k ns l) (.mk span k' ns' l)

/-- Two lists of such trees. -/
inductive Node.AllAlike (numbered : Bool) : List Node → List Node → Prop
  | nil : AllAlike numbered [] []
  | cons {n n' : Node} {ns ns' : List Node} : Alike numbered n n' → AllAlike numbered ns ns' →
      AllAlike numbered (n :: ns) (n' :: ns')

end

/-! ## Values -/

namespace Node

variable {s t : Settings} {c d : Context}

mutual

/-- What a node adds to a value is white space with both settings or with neither. -/
theorem isBlankText_spelled (hs : s.Alike t) (h : c.Alike s t d) :
    ∀ n : Node, isBlankText (n.spelled c) = isBlankText (n.spelled d)
  | .mk span k children l => by
    have hinside := isBlankText_spelledAll hs h children
    cases k with
    | text s => rfl
    | element e =>
      simp only [spelled]
      cases e.arguments.get? "var" (some 0) with
      | none => rfl
      | some name => exact h.isBlankText_valueOf hs name
    | _ => exact hinside

theorem isBlankText_spelledAll (hs : s.Alike t) (h : c.Alike s t d) :
    ∀ ns : List Node, isBlankText (spelledAll c ns) = isBlankText (spelledAll d ns)
  | [] => rfl
  | n :: ns => by
    rw [spelledAll, spelledAll, isBlankText_append, isBlankText_append,
      isBlankText_spelled hs h n, isBlankText_spelledAll hs h ns]

end

end Node

/-! ## Coming to a node -/

section

variable {s t : Settings} {c d : Context}

theorem Feature.alike_enter (hs : s.Alike t) (h : c.Alike s t d) (children : List Node)
    {f : Feature} (hf : f.Harmless) :
    (f.enter c children).1.Alike s.showFigureNumbers (f.enter d children).1 ∧
      (f.enter c children).2.Alike s t (f.enter d children).2 := by
  cases f with
  | division start =>
    simp only [enter, h.numbering]
    exact ⟨.same trivial rfl, h.withNumbering _⟩
  | heading heading =>
    simp only [enter, h.numbering]
    exact ⟨.heading rfl, h⟩
  | list l =>
    simp only [enter, h.numbering]
    exact ⟨.same trivial rfl, h.withNumbering _⟩
  | item i => exact ⟨.item _ _, h⟩
  | get name value => exact ⟨.get name (h.isBlankText_valueOf hs name), h⟩
  | assign name =>
    exact ⟨.same trivial rfl,
      h.assign name (Node.isBlankText_spelledAll hs h children)⟩
  | increment name => exact ⟨.same trivial rfl, h.increment name⟩
  | image f =>
    simp only [enter, h.numbering]
    refine ⟨.image f fun hnumbered => ?_, h.withNumbering _⟩
    have hplain := hs.figureTexts hnumbered
    constructor
    · exact less_not_mem_joinNumbers (h.left ▸ hplain s.figureSeparator (by simp)) _
    · exact less_not_mem_joinNumbers (h.right ▸ hplain t.figureSeparator (by simp)) _
  | _ => exact ⟨.same hf rfl, h⟩

theorem Kind.alike_enter (hs : s.Alike t) (h : c.Alike s t d) (children : List Node)
    {k : Kind} (hk : k.Harmless) :
    (k.enter c children).1.Alike s.showFigureNumbers (k.enter d children).1 ∧
      (k.enter c children).2.Alike s t (k.enter d children).2 := by
  cases k with
  | element e =>
    obtain ⟨name, as, f⟩ := e
    obtain ⟨hfeature, hcontext⟩ := Feature.alike_enter hs h children hk
    exact ⟨.element name as hfeature, hcontext⟩
  | table t =>
    simp only [enter, h.numbering]
    exact ⟨.table t _ _, h.withNumbering _⟩
  | _ => exact ⟨.same rfl, h⟩

theorem Context.Alike.frameFor (h : c.Alike s t d) {numbered : Bool} {k k' : Kind}
    (hk : k.Alike numbered k') : c.frameFor k = d.frameFor k' := by
  simp only [Context.frameFor, depth, h.scope]
  cases hk <;> rfl

theorem Context.Alike.inside (hs : s.Alike t) (h : c.Alike s t d) (children : List Node)
    {k : Kind} (hk : k.Harmless) : (c.inside k children).Alike s t (d.inside k children) := by
  obtain ⟨hkind, hentered⟩ := Kind.alike_enter hs h children hk
  unfold Context.inside within
  rw [hentered.frameFor hkind, hentered.scope]
  exact hentered.withScope _

/-! ## Leaving a node -/

/-- Leaving an element changes the numbering and looks at nothing else. -/
theorem Feature.leave_eq {f : Feature} {c' : Context} (h : f.leave c = .ok c')
    (hd : c.numbering = d.numbering) :
    c' = { c with numbering := c'.numbering } ∧
      f.leave d = .ok { d with numbering := c'.numbering } := by
  cases f with
  | division start =>
    simp only [leave, bind, Except.bind, ← hd] at h ⊢
    cases hleave : c.numbering.leaveSection with
    | error fault =>
      rw [hleave] at h
      cases h
    | ok n =>
      rw [hleave] at h
      cases h
      exact ⟨rfl, rfl⟩
  | list l =>
    simp only [leave, bind, Except.bind, ← hd] at h ⊢
    cases hleave : c.numbering.leaveList with
    | error fault =>
      rw [hleave] at h
      cases h
    | ok n =>
      rw [hleave] at h
      cases h
      exact ⟨rfl, rfl⟩
  | _ =>
    cases h
    exact ⟨rfl, by rw [hd]; rfl⟩

theorem Kind.leave_eq {k : Kind} {c' : Context} (h : k.leave c = .ok c')
    (hd : c.numbering = d.numbering) :
    c' = { c with numbering := c'.numbering } ∧
      k.leave d = .ok { d with numbering := c'.numbering } := by
  cases k with
  | element e => exact Feature.leave_eq h hd
  | _ =>
    cases h
    exact ⟨rfl, by rw [hd]; rfl⟩

theorem Kind.alike_leave {numbered : Bool} {k k' : Kind} {c' d' : Context}
    (hk : k.Alike numbered k') (h : c.Alike s t d) (hc : k.leave c = .ok c')
    (hd : k'.leave d = .ok d') : c'.Alike s t d' := by
  have hsame : k'.leave d = k.leave d := by
    cases hk with
    | same | table => rfl
    | element name as hf => cases hf <;> rfl
  obtain ⟨hleft, hright⟩ := Kind.leave_eq hc h.numbering
  rw [hsame, hright] at hd
  cases hd
  rw [hleft]
  exact h.withNumbering _

/-! ## The walk -/

namespace Node

mutual

/-- **Settings do not choose the tree that is prepared.** With different settings the walk comes
to nodes that differ in the texts it writes into them, and goes on in the same way. -/
theorem alike_prepare (hs : s.Alike t) {c d c' d' : Context} (h : c.Alike s t d) :
    ∀ {n m m' : Node}, n.EveryKind Kind.Harmless → n.prepare c = .ok (m, c') →
      n.prepare d = .ok (m', d') → m.Alike s.showFigureNumbers m' ∧ c'.Alike s t d'
  | .mk span k children l, m, m', hn, hm, hm' => by
    obtain ⟨ns, e, hns, rfl, hpasses⟩ := prepare_mk hm
    obtain ⟨ns', e', hns', rfl, hpasses'⟩ := prepare_mk hm'
    have hharmless : k.Harmless := hn.kind
    obtain ⟨hkind, hentered⟩ := Kind.alike_enter hs h children hharmless
    obtain ⟨hchildren, hafter⟩ :=
      allAlike_prepareAll hs (h.inside hs children hharmless) hn.children hns hns'
    rw [h.layout]
    refine ⟨.mk hkind hchildren, ?_⟩
    -- After the children both walks go back to the scope in which they have come to the node.
    have hscope := hafter.withScope (k.enter c children).2.scope
    have hleave := hpasses'.leave
    rw [← hentered.scope] at hleave
    exact Kind.alike_leave hkind hscope hpasses.leave hleave

theorem allAlike_prepareAll (hs : s.Alike t) {c d c' d' : Context} (h : c.Alike s t d) :
    ∀ {ns ms ms' : List Node}, AllKinds Kind.Harmless ns → prepareAll c ns = .ok (ms, c') →
      prepareAll d ns = .ok (ms', d') → AllAlike s.showFigureNumbers ms ms' ∧ c'.Alike s t d'
  | [], ms, ms', _, hms, hms' => by
    cases hms
    cases hms'
    exact ⟨.nil, h⟩
  | n :: ns, ms, ms', hns, hms, hms' => by
    obtain ⟨m, rest, e, hm, hrest, rfl, -⟩ := prepareAll_cons hms
    obtain ⟨m', rest', e', hm', hrest', rfl, -⟩ := prepareAll_cons hms'
    obtain ⟨hn, hns⟩ := allKinds_cons.mp hns
    obtain ⟨halike, he⟩ := alike_prepare hs h hn hm hm'
    obtain ⟨hall, hafter⟩ := allAlike_prepareAll hs he hns hrest hrest'
    exact ⟨.cons halike hall, hafter⟩

end

end Node

end

end Bracemark
