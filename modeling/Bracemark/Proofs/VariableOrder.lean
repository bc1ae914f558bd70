/-
Variables follow the order of the document.

What a get shows is found out while the document is prepared and written out later, when
the walk has long gone on. It is nevertheless what the assignments and steps of counting
before it in the tree come to, one after another (`Document.read_gets_follow_order`). The
values are followed here in a way of their own (`Values.after`), which knows of the walk
only the order of the nodes and the text of the four counters.

Two things carry this. Nothing but coming to an element changes a variable, so the values
after some visits depend on these visits alone (`stable_values`). And whatever else a
document may hold, nothing but text and gets is read inside an assignment
(`Document.gets_in_assignments`), so what is stored is literal text and shown values.
-/
import Bracemark.Proofs.CaptionNumbers
import Bracemark.Proofs.DocumentShape

set_option autoImplicit false

namespace Bracemark

open Text

/-! ## Values -/

/-- The text of a counter. -/
def Context.counterText (c : Context) : CounterName → String
  | .sections => c.sectionText
  | .tables => c.tableText
  | .figures => c.figureText
  | .lists => c.listText

/-- The values of all variables by name; a variable may have none. -/
abbrev Values := String → Option String

namespace Values

/-- No variable has a value. -/
def start : Values := fun _ => none

/-- What a name shows: a counter, which is as the walk has it in `c`, or the value of the
variable, which is empty where there is none. -/
def shown (values : Values) (c : Context) (name : String) : String :=
  match CounterName.ofName? name with
  | some counter => c.counterText counter
  | none => (values name).getD ""

/-- Gives a variable a value; a name that shows a counter is left alone. -/
def set (values : Values) (name : String) (value : Option String) : Values :=
  if (CounterName.ofName? name).isSome then values
  else fun other => if other = name then value else values other

/-- A value counted up: one where there was none, and one more where there was a number
below the largest. Anything else stays as it is. -/
def countedUp : Option String → Option String
  | none => some "1"
  | some value =>
    match readNumber? (trim value) with
    | some n => if n < maxNumber then some (toString (n + 1)) else some value
    | none => some value

end Values

namespace Node

mutual

/-- What a node inside an assignment adds to the value that is stored: literal text, and
what the variable of a get shows. -/
def assignedText (shown : String → String) : Node → String
  | .mk _ (.text s) _ _ => s
  | .mk _ (.element e) _ _ =>
    match e.feature with
    | .get name _ => shown name
    | _ => ""
  | .mk _ _ children _ => assignedTextAll shown children

/-- What some nodes inside an assignment add to the value, one after another. -/
def assignedTextAll (shown : String → String) : List Node → String
  | [] => ""
  | n :: ns => n.assignedText shown ++ assignedTextAll shown ns

end

end Node

namespace Values

/-- The values after the walk has come to a node. An assignment stores its text with the
values as they were before; a step counts the variable up; no other node does anything. -/
def next (values : Values) (v : Visit) : Values :=
  match v.node.kind with
  | .element e =>
    match e.feature with
    | .assign name =>
      values.set name (some (Node.assignedTextAll (values.shown v.context) v.node.children))
    | .increment name => values.set name (countedUp (values name))
    | _ => values
  | _ => values

/-- The values after some visits. -/
def after (visits : List Visit) : Values :=
  visits.foldl next start

theorem after_append (us vs : List Visit) : after (us ++ vs) = vs.foldl next (after us) :=
  List.foldl_append

end Values

/-! ## The body of an assignment -/

/-- If it is an element, it is a get of the variable that its arguments name. -/
def Kind.ReadsVariable (k : Kind) : Prop :=
  ∀ e, k = .element e → ∃ name value,
    e.feature = .get name value ∧ e.arguments.get? "var" (some 0) = some name

theorem Kind.asksOfElements_readsVariable : AsksOfElements ReadsVariable :=
  fun _ hk e heq => absurd heq (hk e)

/-- An assignment has no other elements inside it than gets. -/
def Node.HoldsGets (n : Node) : Prop :=
  ∀ e name, n.kind = .element e → e.feature = .assign name →
    Node.AllKinds Kind.ReadsVariable n.children

theorem Feature.get_of_required? {as : Arguments} {name : String}
    (h : required? as "var" = some name) : as.get? "var" (some 0) = some name :=
  (Option.filter_eq_some_iff.mp h).1

/-- A get has no content, and its name is the one that its arguments give. -/
theorem Made.everyKind_get {forms : Catalog} {level : Nat} {n : Node}
    (h : Made forms (.element .get) level n) : n.EveryKind Kind.ReadsVariable := by
  cases h with
  | @element _ _ header shape ns n _ hshape _ hempty hn =>
    obtain rfl : ns = [] := by simpa [Form.allowsContent] using hempty
    obtain ⟨feature, hfeature, rfl⟩ := Option.map_eq_some_iff.mp hshape
    obtain ⟨name, hname, rfl⟩ := Option.map_eq_some_iff.mp hfeature
    cases hn
    refine Node.everyKind_iff.mpr ⟨?_, Node.allKinds_nil⟩
    rintro e he
    cases he
    exact ⟨name, none, rfl, Feature.get_of_required? hname⟩

/-- The content of an assignment is gets and text. -/
theorem Made.everyKind_assigned {forms : Catalog} {level : Nat} {n : Node}
    (h : Made forms (.content .assign) level n) : n.EveryKind Kind.ReadsVariable := by
  cases h with
  | ofParts hparts _ => simp [Form.content, Grammar.parts, Grammar.repeated] at hparts
  | get hget => exact hget.everyKind_get
  | assigned =>
    have hasks := Node.asksOfElements_kind Kind.asksOfElements_readsVariable
    exact hasks.allows.kept.text _ _

theorem Node.asksOfElements_holdsGets : AsksOfElements HoldsGets :=
  fun _ hn e _ hkind => absurd hkind (hn e)

/-- Nothing but text and gets is inside an assignment, in any document. -/
theorem Document.gets_in_assignments (forms : Catalog) (source : String) :
    (read forms source).root.Every Node.HoldsGets := by
  refine every_read Node.asksOfElements_holdsGets forms ?_ source
  intro form header feature level ns _ hfeature hns e name hkind hassign
  rw [Node.kind_assemble] at hkind
  obtain rfl : _ = e := Kind.element.inj hkind
  obtain rfl : feature = _ := hassign
  obtain rfl : _ = form := Feature.form_of_ofForm? hfeature
  have hkinds : Node.AllKinds Kind.ReadsVariable ns := fun n hn => (hns n hn).everyKind_assigned
  exact Node.AllEvery.assemble
    (Node.asksOfElements_kind Kind.asksOfElements_readsVariable).allows hkinds

namespace Node

mutual

/-- Where nothing but text and gets is inside an assignment, the walk stores literal text and
shown values. -/
theorem spelled_eq (c : Context) : ∀ {n : Node}, n.EveryKind Kind.ReadsVariable →
    n.spelled c = n.assignedText c.valueOf
  | .mk span k children l, h => by
    have hinside := spelledAll_eq c h.children
    cases k with
    | text s => rw [spelled, assignedText]
    | element e =>
      obtain ⟨name, value, hfeature, hname⟩ := h.kind e rfl
      rw [spelled, assignedText, hfeature, hname]
      rfl
    | _ => exact hinside

theorem spelledAll_eq (c : Context) : ∀ {ns : List Node}, AllKinds Kind.ReadsVariable ns →
    spelledAll c ns = assignedTextAll c.valueOf ns
  | [], _ => rfl
  | n :: ns, h => by
    obtain ⟨hn, hns⟩ := allKinds_cons.mp h
    rw [spelledAll, assignedTextAll, spelled_eq c hn, spelledAll_eq c hns]

end

end Node

/-! ## The walk and the values -/

namespace Variables

theorem get?_insert (v : Variables) (name value other : String) :
    (v.insert name value).get? other = if other = name then some value else v.get? other := by
  by_cases hother : other = name
  · subst hother
    rw [get?_insert_self, if_pos rfl]
  · rw [get?_insert_of_ne v value hother, if_neg hother]

theorem countedUp_eq (value : Option String) :
    Values.countedUp value = ((counted? value).map toString).or value := by
  unfold Values.countedUp counted?
  cases value with
  | none => rfl
  | some value =>
    dsimp only
    cases readNumber? (trim value) with
    | none => rfl
    | some n =>
      by_cases hlt : n < maxNumber
      · simp [hlt]
      · simp [hlt]

theorem get?_increment (v : Variables) (name other : String) :
    (v.increment name).2.get? other =
      if other = name then Values.countedUp (v.get? name) else v.get? other := by
  rw [countedUp_eq, increment]
  cases counted? (v.get? name) with
  | some n => exact get?_insert v name (toString n) other
  | none =>
    by_cases hother : other = name
    · rw [if_pos hother, hother]
      rfl
    · rw [if_neg hother]

end Variables

namespace Context

variable {c : Context} {values : Values}

theorem valueOf_eq_shown (h : c.assigned.get? = values) : c.valueOf = values.shown c := by
  funext name
  subst h
  unfold valueOf Values.shown counterText
  cases CounterName.ofName? name with
  | none => rfl
  | some counter => cases counter <;> rfl

theorem get?_assign (h : c.assigned.get? = values) (name value : String) :
    (c.assign name value).assigned.get? = values.set name (some value) := by
  subst h
  unfold assign Values.set
  cases CounterName.ofName? name with
  | some counter => rfl
  | none => exact funext (Variables.get?_insert c.assigned name value)

theorem get?_increment (h : c.assigned.get? = values) (name : String) :
    (c.increment name).assigned.get? = values.set name (Values.countedUp (values name)) := by
  subst h
  unfold increment Values.set
  cases CounterName.ofName? name with
  | some counter => cases counter <;> rfl
  | none => exact funext (Variables.get?_increment c.assigned name)

end Context

/-- Coming to a node does to the variables what `Values.next` says. -/
theorem Visit.get?_entered {v : Visit} {values : Values} (hgets : v.node.HoldsGets)
    (h : v.context.assigned.get? = values) :
    v.entered.2.assigned.get? = values.next v := by
  obtain ⟨p, c, ⟨span, kind, children, l⟩⟩ := v
  cases kind with
  | element e =>
    obtain ⟨elementName, as, feature⟩ := e
    cases feature with
    | assign name =>
      have hkinds : Node.AllKinds Kind.ReadsVariable children := hgets _ name rfl rfl
      have htext : Node.spelledAll c children =
          Node.assignedTextAll (values.shown c) children := by
        rw [Node.spelledAll_eq c hkinds, Context.valueOf_eq_shown h]
      show (c.assign name (Node.spelledAll c children)).assigned.get? = _
      rw [htext]
      exact Context.get?_assign h name _
    | increment name => exact Context.get?_increment h name
    | _ => exact h
  | _ => exact h

/-- Leaving a node does nothing to the variables. -/
theorem Feature.assigned_leave {f : Feature} {c d : Context} (h : f.leave c = .ok d) :
    d.assigned = c.assigned := by
  cases f with
  | division start =>
    simp only [leave, bind, Except.bind] at h
    split at h
    · cases h
    · cases h
      rfl
  | list l =>
    simp only [leave, bind, Except.bind] at h
    split at h
    · cases h
    · cases h
      rfl
  | _ =>
    cases h
    rfl

theorem Kind.assigned_leave {k : Kind} {c d : Context} (h : k.leave c = .ok d) :
    d.assigned = c.assigned := by
  cases k with
  | element e => exact Feature.assigned_leave h
  | _ =>
    cases h
    rfl

/-- **The values are those that the visits so far come to**, as long as nothing but text and gets
has been inside an assignment. -/
theorem stable_values : Stable fun h _ c =>
    (∀ b ∈ h, b.node.HoldsGets) → c.assigned.get? = Values.after h where
  enter {h p c} n _ hi hgets := by
    obtain ⟨hh, hn⟩ := List.forall_mem_append.mp hgets
    rw [Values.after_append]
    exact Visit.get?_entered (v := ⟨p, c, n⟩) (hn _ (List.mem_singleton_self _)) (hi hh)
  leave {h inner p c d e n} _ _ _ hafter hpasses hgets := by
    have hleft := Kind.assigned_leave hpasses.leave
    rw [hleft]
    exact hafter hgets

/-! ## Documents -/

theorem Node.plain_of_get {m : Node} {e : Element} {name value : String}
    (hkind : m.kind = .element e) (hfeature : e.feature = .get name (some value)) (c : Context) :
    m.plain c = value ∧ m.html c = escapeHtml value := by
  obtain ⟨span, kind, children, l⟩ := m
  obtain ⟨elementName, as, feature⟩ := e
  obtain rfl : kind = _ := hkind
  obtain rfl : feature = _ := hfeature
  constructor
  · rw [plain]
    rfl
  · rw [html]
    rfl

namespace Document

/-- **Variables follow the order of the document.** Any document can be written. Its nodes are
visited in the order of the tree, and a get of a variable shows, in plain text and in HTML, what
the assignments and steps before it come to, beginning with no value. An assignment stores the
literal text inside it and the values that the gets inside it show at that moment; to one of the
four names that show a counter it does nothing at all. -/
theorem read_gets_follow_order (forms : Catalog) (source : String) (target : Target)
    (s : Settings) :
    let root := (read forms source).root
    let visits := root.visits .start (Context.start target s).reset
    ∃ text d, (read forms source).render target s = .ok (text, d) ∧
      visits.map Visit.node = root.nodes ∧ d.root.nodes.map Node.kind = visits.map Visit.kind ∧
      (∀ (before : List Visit) (v : Visit) (after : List Visit) (e : Element) (name : String)
          (old : Option String),
        visits = before ++ v :: after → v.node.kind = .element e → e.feature = .get name old →
        CounterName.ofName? name = none →
        ∃ m, d.root.nodes[before.length]? = some m ∧
          ∀ c, m.plain c = (Values.after before name).getD "" ∧
            m.html c = escapeHtml ((Values.after before name).getD "")) ∧
      ∀ v ∈ visits, ∀ (e : Element) (name : String), v.node.kind = .element e →
        e.feature = .assign name → (CounterName.ofName? name).isSome = true →
        v.entered.2 = v.context := by
  intro root visits
  obtain ⟨m, d, hm, -⟩ := Node.prepare_restores (Context.start target s).reset root
  obtain ⟨text, htext⟩ := render_of_prepare hm
  have hnodes : visits.map Visit.node = root.nodes := Node.map_node_visits _ _ root
  have hkinds : m.nodes.map Node.kind = visits.map Visit.kind := Node.map_kind_visits .start hm
  have hgets : ∀ b ∈ visits, b.node.HoldsGets := by
    intro b hb
    refine gets_in_assignments forms source b.node ?_
    rw [← hnodes]
    exact List.mem_map_of_mem hb
  refine ⟨text, _, htext, hnodes, hkinds, ?_, ?_⟩
  · intro before v after e name old hsplit hkind hfeature hname
    obtain ⟨-, hvalues⟩ := stable_values.of_split (fun _ => rfl) hsplit
    have hshown := Context.valueOf_eq_shown
      (hvalues fun b hb => hgets b (mem_of_mem_before hsplit hb))
    -- The node in the prepared tree has the place of the visit.
    have hplace : (m.nodes.map Node.kind)[before.length]? = some v.kind := by
      rw [hkinds, hsplit]
      simp
    obtain ⟨n, hn, hnkind⟩ := Option.map_eq_some_iff.mp (List.getElem?_map ▸ hplace)
    refine ⟨n, hn, fun c => ?_⟩
    have hentered : n.kind =
        .element { e with feature := .get name (some (v.context.valueOf name)) } := by
      rw [hnkind, Visit.kind, Visit.entered, hkind]
      simp only [Kind.enter, hfeature, Feature.enter]
    have hvalue : v.context.valueOf name = (Values.after before name).getD "" := by
      rw [hshown, Values.shown, hname]
    rw [hvalue] at hentered
    exact Node.plain_of_get hentered rfl c
  · intro v _ e name hkind hfeature hname
    obtain ⟨counter, hcounter⟩ := Option.isSome_iff_exists.mp hname
    rw [Visit.entered, hkind]
    simp only [Kind.enter, hfeature, Feature.enter, Context.assign, hcounter]

/-- A variable that counts is stored while it is one, and shown when it has become two. -/
theorem read_gets_follow_order_stored :
    let source := "\x7binc x\x7d\x7bset y|[\x7bget x\x7d]\x7d\x7binc x\x7d\x7bget y\x7d\x7bget x\x7d"
    ∃ text d m, (read .standard source).render .plain .standard = .ok (text, d) ∧
      m ∈ d.root.nodes ∧ ∀ c, m.plain c = "[1]" ∧ m.html c = "[1]" := by
  intro source
  let visits := (read .standard source).root.visits .start (Context.start .plain .standard).reset
  obtain ⟨text, d, htext, -, -, hgets, -⟩ :=
    read_gets_follow_order .standard source .plain .standard
  let e : Element := ⟨"get", ⟨[⟨none, "y"⟩]⟩, .get "y" none⟩
  have hget : visits[9]?.map (fun v => v.node.kind) = some (.element e) := by decide +kernel
  have hvalue : Values.after (visits.take 9) "y" = some "[1]" := by decide +kernel
  obtain ⟨v, hv, hkind⟩ := Option.map_eq_some_iff.mp hget
  obtain ⟨hlt, rfl⟩ := List.getElem?_eq_some_iff.mp hv
  have hsplit : visits = visits.take 9 ++ visits[9] :: visits.drop 10 := by
    rw [← List.drop_eq_getElem_cons hlt, List.take_append_drop]
  obtain ⟨m, hm, hshown⟩ := hgets _ _ _ e "y" none hsplit hkind rfl rfl
  rw [hvalue] at hshown
  exact ⟨text, d, m, htext, List.mem_of_getElem? hm, hshown⟩

end Document

end Bracemark
