/-
What reading makes nodes of.

Reading makes nodes in a few ways, and nowhere else: pieces of text and blank lines,
elements of some form, text in braces, cells and rows. `Made` lists these ways, with the place
in a document that each of them belongs to and the number of elements around it. Whatever is
read, and whatever is in memory, each part of a document is made in these ways
(`Document.exists_made`), so a property of documents is an induction over the ways alone.

The first such property is that every element of a document was made by a form that
accepts its name, from its name and arguments (`Document.everyKind_read`).
-/
import Bracemark.Proofs.Delimiters
import Bracemark.Proofs.Kinds

set_option autoImplicit false

namespace Bracemark

open Reading

/-! ## Ways of making a node -/

/-- What a node is read as. -/
inductive Slot where
  /-- Any of the things that content consists of. -/
  | part
  /-- An element of one form. -/
  | element (form : Form)
  /-- A cell of a row. -/
  | cell
  /-- One of the things inside an element of some form. -/
  | content (form : Form)

/-- The nodes that are read with the forms of a catalogue inside so many elements. What is in
an element is inside one more than the element is. -/
inductive Made (forms : Catalog) : Slot → Nat → Node → Prop
  | text {level : Nat} (span : Span) (s : String) : Made forms .part level (.text span s)
  | gap {level : Nat} (span : Span) : Made forms .part level (.leaf span .gap)
  | known {level : Nat} {form : Form} {n : Node} :
    form ∈ forms → level < maxNesting → Made forms (.element form) level n →
      Made forms .part level n
  | unknown {level : Nat} (span : Span) (closed : Bool) {ns : List Node} :
    level < maxNesting → (∀ n ∈ ns, Made forms .part (level + 1) n) →
      Made forms .part level (Node.branch span (.unknown closed) ns).assemble
  | element {level : Nat} {form : Form} (header : Header) {shape : Shape} {ns : List Node}
      {n : Node} :
    form.accepts header.name = true → form.shape? header.name header.arguments = some shape →
      (∀ n ∈ ns, Made forms (.content form) (level + 1) n) →
      (ns = [] ∨ form.allowsContent = true ∧ level < maxNesting) →
      shape.node? header (form.keptContent ns) = some n → Made forms (.element form) level n
  -- The content of an element is parts, but for four forms.
  | ofParts {level : Nat} {form : Form} {n : Node} :
    form.content = .parts → Made forms .part level n → Made forms (.content form) level n
  | item {level : Nat} {n : Node} :
    Made forms (.element .item) level n → Made forms (.content .list) level n
  | blank {level : Nat} (span : Span) (groups : List Span) :
    Made forms (.content .list) level (.leaf span (.capture groups))
  | get {level : Nat} {n : Node} :
    Made forms (.element .get) level n → Made forms (.content .assign) level n
  | assigned {level : Nat} (span : Span) (s : String) :
    Made forms (.content .assign) level (.text span s)
  | code {level : Nat} (span : Span) (s : String) :
    Made forms (.content .code) level (.text span s)
  | caption {level : Nat} {n : Node} :
    Made forms (.element .caption) level n → Made forms (.content .table) level n
  | breakLine {level : Nat} (span : Span) (g : RowGroup) :
    Made forms (.content .table) level (.leaf span (.rowGroup g))
  | blankRows {level : Nat} (offset : Nat) : Made forms (.content .table) level (.null offset)
  | row {level : Nat} (span : Span) {ns : List Node} :
    (∀ n ∈ ns, Made forms .cell level n) →
      Made forms (.content .table) level (.branch span .row ns)
  | explicitCell {level : Nat} {n : Node} :
    Made forms (.element .cell) level n → Made forms .cell level n
  | contentCell {level : Nat} (span : Span) {ns : List Node} :
    (∀ n ∈ ns, Made forms .part level n) → Made forms .cell level (cellNode span .plain ns)

/-- What is remembered ends in the source, as reading needs it to, and was made where it was
read. -/
def Recollection.WasMade (source : List Char) (forms : Catalog) (r : Recollection) : Prop :=
  r.EndsIn source ∧ Made forms .part r.nesting r.node

namespace Parser

section

variable (source : List Char) (forms : Catalog) (slot : Slot) (s : Scope) (place : Place)

/-- A parser for a node that is made as the scope has it. -/
def MakesNode (p : Parser Node) : Prop :=
  Yields source (Recollection.WasMade source forms) s place p
    fun n _ => Made forms slot s.nesting n

/-- A parser for nodes that are made as the scope has it. -/
def MakesNodes (p : Parser (List Node)) : Prop :=
  Yields source (Recollection.WasMade source forms) s place p
    fun ns _ => ∀ n ∈ ns, Made forms slot s.nesting n

/-- A parser for a node whose children are made as the scope has it. -/
def MakesChildren (p : Parser Node) : Prop :=
  Yields source (Recollection.WasMade source forms) s place p
    fun n _ => ∀ c ∈ n.children, Made forms slot s.nesting c

/-- What is read one level deeper, with the catalogue in force. -/
structure InnerMakes (inner : Grammar → Parser Node) : Prop where
  parts (s : Scope) (place : Place) : s.catalog = forms →
    MakesChildren source forms .part s place (inner .parts)
  content (s : Scope) (place : Place) (form : Form) : s.catalog = forms →
    MakesChildren source forms (.content form) s place (inner form.content)

end

variable {source : List Char} {forms : Catalog} {slot : Slot} {s : Scope} {place : Place}
  {inner : Grammar → Parser Node}

/-! ## Pieces of text -/

theorem makesNode_text (htext : ∀ span t, Made forms slot s.nesting (.text span t)) :
    MakesNode source forms slot s place text := by
  unfold Parser.text
  exact .here (.localFlag (.bind .pattern fun _ _ _ _ => .here (.pure (htext _ _))))

theorem makesNode_escape (htext : ∀ span t, Made forms slot s.nesting (.text span t)) :
    MakesNode source forms slot s place escape := by
  unfold Parser.escape
  exact .here (.bind .pattern fun _ _ _ _ => .here (.pure (htext _ _)))

theorem makesNode_verbatim (htext : ∀ span t, Made forms slot s.nesting (.text span t)) :
    MakesNode source forms slot s place verbatim := by
  unfold Parser.verbatim
  refine .here (.bind .pattern fun _ _ _ _ => ?_)
  exact .bind (.ofPlace (advances_upToFence _)) fun _ _ _ _ => .here (.pure (htext _ _))

theorem makesNode_gap : MakesNode source forms .part s place gap := by
  unfold Parser.gap
  refine .localFlag (.bind .require fun _ _ _ _ => ?_)
  exact .here (.bind .pattern fun _ _ _ _ => .here (.pure (.gap _)))

theorem makesNode_stray : MakesNode source forms .part s place stray := by
  unfold Parser.stray
  refine .here (.localFlag (.exhausted (.bind (.ofPlace advances_nextChar) fun _ _ _ _ => ?_)))
  exact .bind .require fun _ _ _ _ => .here (.pure (.text _ _))

/-! ## Elements -/

/-- Reading deeper goes one level down and keeps the catalogue. -/
theorem makesChildren_nested {g : Grammar}
    (h : MakesChildren source forms slot (s.push (s.deeper [])) place (inner g)) :
    Yields source (Recollection.WasMade source forms) s place (nested [] (inner g)) fun n _ =>
      s.nesting < maxNesting ∧ ∀ c ∈ n.children, Made forms slot (s.nesting + 1) c := by
  refine .nested fun hfits => Yields.imp h fun n q _ hn => ⟨?_, ?_⟩
  · simpa [Scope.exhausted] using hfits
  · rwa [Scope.nesting_push_deeper] at hn

theorem makes_content (hinner : InnerMakes source forms inner) (hforms : s.catalog = forms)
    (form : Form) :
    Yields source (Recollection.WasMade source forms) s place (content inner form) fun ns _ =>
      (∀ n ∈ ns, Made forms (.content form) (s.nesting + 1) n) ∧
        (ns = [] ∨ form.allowsContent = true ∧ s.nesting < maxNesting) := by
  have hdeeper : (s.push (s.deeper [])).catalog = forms :=
    (Scope.catalog_push_deeper s).trans hforms
  unfold Parser.content
  refine .bind (.optional .pattern) fun bar q _ _ => ?_
  cases bar with
  | none => exact .pure ⟨by simp, .inl rfl⟩
  | some c =>
    refine .here (.bind .require fun _ _ _ _ => ?_)
    refine .bind (makesChildren_nested (hinner.content _ _ form hdeeper)) fun read _ _ hread => ?_
    refine .bind .require fun _ _ _ hkept => .pure ⟨hread.2, ?_⟩
    rcases Bool.or_eq_true_iff.mp hkept.1 with hallows | hempty
    · exact .inr ⟨hallows, hread.1⟩
    · exact .inl (List.isEmpty_iff.mp hempty)

theorem makesNode_ofForm (hinner : InnerMakes source forms inner) (hforms : s.catalog = forms)
    (form : Form) : MakesNode source forms (.element form) s place (ofForm inner form) := by
  unfold Parser.ofForm
  refine .here (.bind .exactly fun _ _ _ _ => .bind .pattern fun named _ _ _ => ?_)
  refine .bind .require fun _ _ _ haccepts => .bind .arguments fun as _ _ _ => ?_
  refine .bind .ofOption fun shape _ _ hshape => ?_
  refine .bind (makes_content hinner hforms form) fun nodes _ _ hnodes => ?_
  refine .bind .pattern fun _ _ _ _ => .here (Yields.imp .ofOption ?_)
  rintro n _ - ⟨hn, -⟩
  exact .element ⟨_, as, _⟩ haccepts.1 hshape.1 hnodes.1 hnodes.2 hn

theorem makesNode_unknown (hinner : InnerMakes source forms inner) (hforms : s.catalog = forms) :
    MakesNode source forms .part s place (unknown inner) := by
  have hdeeper : (s.push (s.deeper [])).catalog = forms :=
    (Scope.catalog_push_deeper s).trans hforms
  unfold Parser.unknown
  refine .here (.bind .exactly fun _ _ _ _ => ?_)
  refine .bind (makesChildren_nested (hinner.parts _ _ hdeeper)) fun read _ _ hread => ?_
  refine .bind (.optional .exactly) fun closing _ _ _ => .here (.pure ?_)
  exact .unknown _ _ hread.1 hread.2

theorem makesNode_ofCatalog (hinner : InnerMakes source forms inner) (hforms : s.catalog = forms)
    (hlevel : s.nesting < maxNesting) {tried : Catalog} (htried : ∀ form ∈ tried, form ∈ forms) :
    MakesNode source forms .part s place (ofCatalog inner tried) := by
  induction tried with
  | nil => exact makesNode_unknown hinner hforms
  | cons form tried ih =>
    obtain ⟨hform, hrest⟩ := List.forall_mem_cons.mp htried
    refine .orElse (Yields.imp (makesNode_ofForm hinner hforms form) fun n _ _ hn => ?_) (ih hrest)
    exact .known hform hlevel hn

theorem makesNode_element (hinner : InnerMakes source forms inner) (hforms : s.catalog = forms) :
    MakesNode source forms .part s place (element inner) := by
  refine .of_in fun hplace => ?_
  unfold Parser.element
  refine .here (.exhausted (.bind .require fun _ q _ hstay => ?_))
  obtain ⟨hopens, rfl⟩ := hstay
  have hlevel : s.nesting < maxNesting := by
    have hfits := (Bool.and_eq_true_iff.mp hopens).2
    simpa [Scope.exhausted] using hfits
  refine .catalog (.recalling ?_ ?_ ?_)
  · rintro r ⟨⟨hin, hle⟩, hnode⟩ hstart hnesting
    exact ⟨hplace.before_of_le hin (hstart ▸ hle), hnesting ▸ hnode⟩
  · exact makesNode_ofCatalog hinner hforms hlevel (by simp [hforms])
  · exact fun node r hr hnode => ⟨⟨hplace.of_before hr, hr.offset_le⟩, hnode⟩

theorem makesNode_part (hinner : InnerMakes source forms inner) (hforms : s.catalog = forms) :
    MakesNode source forms .part s place (part inner) :=
  .orElse makesNode_gap (.orElse (makesNode_element hinner hforms)
    (.orElse (makesNode_verbatim .text) (.orElse (makesNode_escape .text)
      (.orElse (makesNode_text .text) makesNode_stray))))

theorem makesNodes_many {p : Parser Node} (hp : ∀ q, MakesNode source forms slot s q p)
    (least : Nat) (most : Option Nat) : MakesNodes source forms slot s place (many p least most) :=
  Yields.many (J := fun _ ns _ => ∀ n ∈ ns, Made forms slot s.nesting n) (fun _ => by simp)
    (fun _ _ _ _ _ hn _ hns => List.forall_mem_cons.mpr ⟨hn, hns⟩) hp least most

/-! ## Rows -/

theorem makesNode_breakLine : MakesNode source forms (.content .table) s place breakLine := by
  unfold Parser.breakLine
  refine .here (.bind .pattern fun _ _ _ _ => .bind .ofOption fun _ _ _ _ => ?_)
  exact .bind .ofOption fun _ _ _ _ => .here (.pure (.breakLine _ _))

theorem makesNode_blankRows : MakesNode source forms (.content .table) s place blankRows := by
  unfold Parser.blankRows
  exact .here (.bind .pattern fun _ _ _ _ => .pure (.blankRows _))

theorem makesNode_explicitCell (hinner : InnerMakes source forms inner)
    (hforms : s.catalog = forms) : MakesNode source forms .cell s place (explicitCell inner) := by
  unfold Parser.explicitCell
  refine .bind .pattern fun _ _ _ _ => ?_
  refine .bind (makesNode_ofForm hinner hforms .cell) fun node _ _ hnode => ?_
  exact .bind .pattern fun _ _ _ _ => .here (.bind .require fun _ _ _ _ =>
    .pure (.explicitCell hnode))

theorem makesNode_contentCell (hinner : InnerMakes source forms inner)
    (hforms : s.catalog = forms) : MakesNode source forms .cell s place (contentCell inner) := by
  have hparts : ∀ q, Yields source (Recollection.WasMade source forms) s q
      (inFrame cellFrame (parts inner)) fun ns _ => ∀ n ∈ ns, Made forms .part s.nesting n := by
    intro q
    -- The frame of a cell sets no catalogue and no nesting.
    have hpart : ∀ r, MakesNode source forms .part (s.push cellFrame) r (part inner) := fun _ =>
      makesNode_part hinner ((Scope.catalog_push_cell s).trans hforms)
    have hmany : MakesNodes source forms .part (s.push cellFrame) q (parts inner) :=
      makesNodes_many hpart 0 none
    rw [MakesNodes, Scope.nesting_push_cell] at hmany
    exact .inFrame hmany
  unfold Parser.contentCell
  exact .here (.bind (hparts _) fun nodes _ _ hnodes => .here (.pure (.contentCell _ hnodes)))

theorem makesNode_cell (hinner : InnerMakes source forms inner) (hforms : s.catalog = forms) :
    MakesNode source forms .cell s place (cell inner) :=
  .orElse (makesNode_explicitCell hinner hforms) (makesNode_contentCell hinner hforms)

theorem makesNode_row (hinner : InnerMakes source forms inner) (hforms : s.catalog = forms) :
    MakesNode source forms (.content .table) s place (row inner) := by
  have hnext : ∀ q, MakesNode source forms .cell s q (nextCell inner) := fun _ =>
    .bind .exactly fun _ _ _ _ => makesNode_cell hinner hforms
  unfold Parser.row
  refine .here (.bind (makesNode_cell hinner hforms) fun head _ _ hhead => ?_)
  refine .bind (makesNodes_many hnext 0 none) fun tail _ _ htail => ?_
  refine .here (.bind .require fun _ _ _ _ => .bind (.optional .pattern) fun _ _ _ _ => ?_)
  refine .here (.bind .require fun _ _ _ _ => .pure ?_)
  exact .row _ (List.forall_mem_cons.mpr ⟨hhead, htail⟩)

/-! ## Grammars of content -/

/-- What is read with a repetition stands in the children of one node. -/
theorem makesChildren_repeated {g : Grammar}
    (h : ∀ q, MakesNode source forms slot s q (g.readAbove inner)) :
    MakesChildren source forms slot s place (Grammar.readAbove inner (.repeated g)) := by
  show Yields _ _ _ _ (Grammar.readSequence (many (g.readAbove inner) 0 none)) _
  unfold Grammar.readSequence
  exact .here (.bind (makesNodes_many h 0 none) fun _ _ _ hnodes => .here (.pure hnodes))

theorem makesChildren_content (hinner : InnerMakes source forms inner)
    (hforms : s.catalog = forms) (form : Form) :
    MakesChildren source forms (.content form) s place (form.content.readAbove inner) := by
  have hparts : ∀ f : Form, f.content = .parts →
      MakesChildren source forms (.content f) s place (f.content.readAbove inner) := by
    intro f hf
    rw [hf]
    exact makesChildren_repeated fun _ =>
      Yields.imp (makesNode_part hinner hforms) fun _ _ _ hn => .ofParts hf hn
  have hblank : ∀ q, MakesNode source forms (.content .list) s q
      (Grammar.readAbove inner (.pattern .blank)) := fun _ =>
    .here (.bind .pattern fun _ _ _ _ => .here (.pure (.blank _ _)))
  cases form with
  | list =>
    refine makesChildren_repeated fun _ => .orElse ?_ (.orElse (hblank _) .fail)
    exact Yields.imp (makesNode_ofForm hinner hforms .item) fun _ _ _ hn => .item hn
  | assign =>
    refine makesChildren_repeated fun _ => .orElse ?_
      (.orElse (makesNode_escape .assigned) (.orElse (makesNode_text .assigned) .fail))
    exact Yields.imp (makesNode_ofForm hinner hforms .get) fun _ _ _ hn => .get hn
  | code =>
    exact makesChildren_repeated fun _ => .orElse (makesNode_verbatim .code)
      (.orElse (makesNode_escape .code) (.orElse (makesNode_text .code) .fail))
  | table =>
    refine makesChildren_repeated fun _ => .orElse ?_ (.orElse makesNode_breakLine
      (.orElse makesNode_blankRows (.orElse (makesNode_row hinner hforms) .fail)))
    exact Yields.imp (makesNode_ofForm hinner hforms .caption) fun _ _ _ hn => .caption hn
  | _ => exact hparts _ rfl

/-- By induction over the levels, from the one at which no element may begin. -/
theorem innerMakes_inside (levels : Nat) : InnerMakes source forms (Grammar.inside levels) := by
  induction levels with
  | zero => exact ⟨fun _ _ _ => .fail, fun _ _ _ _ => .fail⟩
  | succ levels ih =>
    refine ⟨fun s place hforms => ?_, fun s place form hforms => ?_⟩
    · show MakesChildren source forms .part s place (Grammar.readAt levels .parts)
      rw [Grammar.readAt_eq]
      exact makesChildren_repeated fun _ => makesNode_part ih hforms
    · show MakesChildren source forms _ s place (Grammar.readAt levels form.content)
      rw [Grammar.readAt_eq]
      exact makesChildren_content ih hforms form

theorem makesChildren_parts (hforms : s.catalog = forms) :
    MakesChildren source forms .part s place Grammar.parts.read :=
  .nesting ((innerMakes_inside (maxNesting - s.nesting + 1)).parts s place hforms)

end Parser

/-! ## Documents -/

namespace Document

theorem nesting_scope (forms : Catalog) : (scope forms).nesting = 0 := by
  simp [scope, Scope.nesting, Scope.get?, Scope.ofFrame, Scope.newest?, Key.catalog, Key.topLevel,
    Key.nesting]

/-- **A document is put together from parts**, each of them made in one of the ways. -/
theorem exists_made (forms : Catalog) (source : String) :
    ∃ ns, (∀ n ∈ ns, Made forms .part 0 n) ∧ (read forms source).root =
      (Node.branch ⟨0, source.utf8ByteSize⟩ .document ns).assemble := by
  obtain ⟨node, q, m, -, hx, -, -, hroot⟩ := Cursor.read_document forms source
  obtain ⟨-, hmade⟩ := Parser.makesChildren_parts (catalog_scope forms)
    (.first source.toList) .empty .empty
  obtain ⟨-, hchildren⟩ := hmade node q (by rw [hx])
  rw [nesting_scope] at hchildren
  exact ⟨node.children, hchildren, hroot⟩

end Document

/-! ## Elements that were made by a form -/

/-- Tables, cells and captions have shapes of their own; the shape of any other form is its
feature. -/
theorem Form.ofForm?_of_shape? {form : Form} {name : String} {as : Arguments}
    {feature : Feature} (h : form.shape? name as = some (.element feature)) :
    Feature.ofForm? form name as = some feature := by
  cases form <;> simp_all [Form.shape?]

section

variable {P : Node → Prop} (hP : Node.AsksOfElements P) (forms : Catalog)
  (hmade : ∀ (form : Form) (header : Header) (feature : Feature) (level : Nat) (ns : List Node),
    form.accepts header.name = true →
    Feature.ofForm? form header.name header.arguments = some feature →
    (∀ n ∈ ns, Made forms (.content form) level n) →
      P (Node.branch header.span (.element ⟨header.name, header.arguments, feature⟩)
        (form.keptContent ns)).assemble)
include hP hmade

theorem Made.every {slot : Slot} {level : Nat} {n : Node} (h : Made forms slot level n) :
    n.Every P := by
  have hkept := hP.transparent
  induction h with
  | text | assigned | code => exact hkept.keptInAssembly.text _ _
  | gap | blank | breakLine | blankRows => exact hkept.leaf (by simp)
  | known _ _ _ ih => exact ih
  | unknown _ _ _ _ ih => exact hkept.assemble (by simp [Node.branch]) ih
  | @element level form header shape ns n haccepts hshape hcontent _ hn ih =>
    have hcontents := hkept.keptContent form ih
    refine hkept.node? (fun feature hfeature => Node.every_iff.mpr ⟨?_, ?_⟩) hcontents hn
    · subst hfeature
      exact hmade form header feature _ ns haccepts (Form.ofForm?_of_shape? hshape) hcontent
    · exact Node.AllEvery.assemble hP.allows hcontents
  | ofParts _ _ ih => exact ih
  | item _ ih | get _ ih | caption _ ih | explicitCell _ ih => exact ih
  | row _ _ ih => exact hkept.branch (by simp) ih
  | contentCell _ _ ih => exact hkept.cellNode _ _ ih

/-- **Every element of a document was made by a form that accepts its name**, from its name,
its arguments and what was read inside it. So what a form says of its elements holds in any
document. -/
theorem Document.every_read (source : String) : (read forms source).root.Every P := by
  obtain ⟨ns, hns, hroot⟩ := exists_made forms source
  rw [hroot]
  exact hP.transparent.assemble (by simp [Node.branch]) fun n hn => (hns n hn).every hP forms hmade

end

/-- What a form says of the names and arguments of its elements holds in any document. -/
theorem Document.everyKind_read {K : Kind → Prop} (hK : Kind.AsksOfElements K)
    (hmade : ∀ (form : Form) (name : String) (as : Arguments) (feature : Feature),
      form.accepts name = true → Feature.ofForm? form name as = some feature →
        K (.element ⟨name, as, feature⟩))
    (forms : Catalog) (source : String) : (read forms source).root.EveryKind K := by
  refine every_read (Node.asksOfElements_kind hK) forms ?_ source
  intro form header feature _ ns haccepts hfeature _
  rw [Node.kind_assemble]
  exact hmade form _ _ feature haccepts hfeature

end Bracemark
