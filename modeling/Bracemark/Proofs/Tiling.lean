/-
Parts tile the text.

A repetition keeps a round that gets further and looks at nothing else, so that its
nodes follow each other without a gap is a property of what is repeated: a part must
have as its span exactly what was read of it. For text in all its forms the span is
made where the text is read. For an element it is made before the content is put in
order, and neither assembly nor the layout of a table touches it
(`Shape.span_node?`). An element that comes from memory has the span that it was read
with, and moves reading on to the end of that span (`Recollection.Exact`).

Rows and break lines of tables do not tile, and captions may be read over and over;
all that is needed of them is that they keep the memory as it should be, which every
grammar does because every step does (`Keeps`).
-/
import Bracemark.Proofs.Outcomes
import Bracemark.Proofs.Backtracking

set_option autoImplicit false

namespace Bracemark

open Reading Text

/-! ## Tilings -/

/-- The spans of some nodes follow each other without a gap from one offset to another,
and none of them is empty. -/
def Tiles : Nat → Nat → List Node → Prop
  | lo, hi, [] => lo = hi
  | lo, hi, n :: ns => n.span.start = lo ∧ lo < n.span.stop ∧ Tiles n.span.stop hi ns

namespace Tiles

variable {lo mid hi : Nat} {n : Node} {ns : List Node}

theorem singleton_iff : Tiles lo hi [n] ↔ n.span = ⟨lo, hi⟩ ∧ lo < hi := by
  obtain ⟨⟨start, stop⟩, kind, children, layout⟩ := n
  simp only [Tiles, Node.span_mk, Span.mk.injEq]
  constructor
  · rintro ⟨rfl, h, rfl⟩
    exact ⟨⟨rfl, rfl⟩, h⟩
  · rintro ⟨⟨rfl, rfl⟩, h⟩
    exact ⟨rfl, h, rfl⟩

theorem cons (hn : Tiles lo mid [n]) (hns : Tiles mid hi ns) : Tiles lo hi (n :: ns) := by
  obtain ⟨hstart, hmoves, rfl⟩ := hn
  exact ⟨hstart, hmoves, hns⟩

/-- No tiling takes no room, except the one without nodes. -/
theorem eq_nil_iff (h : Tiles lo hi ns) : ns = [] ↔ hi = lo := by
  have hle : ∀ {lo : Nat} {ns : List Node}, Tiles lo hi ns → lo ≤ hi := by
    intro lo ns h
    induction ns generalizing lo with
    | nil => exact Nat.le_of_eq h
    | cons n ns ih => exact (Nat.le_of_lt h.2.1).trans (ih h.2.2)
  constructor
  · rintro rfl
    exact h.symm
  · intro heq
    cases ns with
    | nil => rfl
    | cons n ns =>
      have hrest := hle h.2.2
      have hmoves := h.2.1
      omega

end Tiles

/-! ## What an element becomes -/

theorem Table.span_layout? {t : Table} {span : Span} {ns : List Node} {n : Node}
    (h : t.layout? span ns = some n) : n.span = span := by
  simp only [Table.layout?] at h
  split at h
  · cases h
  · cases h
    rfl

/-- Whatever an element becomes, its span is what was read of it. -/
theorem Shape.span_node? {shape : Shape} {header : Header} {ns : List Node} {n : Node}
    (h : shape.node? header ns = some n) : n.span = header.span := by
  cases shape with
  | element feature =>
    cases h
    exact Node.span_assemble _
  | table t => exact Table.span_layout? h
  | cell c =>
    cases h
    exact Node.span_assemble _
  | caption =>
    cases h
    exact Node.span_assemble _

/-! ## Patterns that take something -/

/-- Whether a pattern may match without taking a character. -/
def Pattern.mayBeEmpty : Pattern → Bool
  | .close | .spaces | .rowEnd => true
  | _ => false

theorem runOf?_ne_nil {inClass : Char → Bool} {cs : List Char} {c : Capture}
    (h : runOf? inClass cs = some c) : c.text ≠ [] := by
  simp only [runOf?] at h
  split at h
  · cases h
  · next hne =>
    cases h
    simpa using hne

theorem spacedName?_ne_nil {cs : List Char} {c : Capture} (h : spacedName? cs = some c) :
    c.text ≠ [] := by
  simp only [spacedName?] at h
  split at h
  · cases h
  · next hne =>
    cases h
    simp only [Capture.text, Option.getD_some, List.append_nil]
    intro hnil
    exact hne (by simpa using (List.append_eq_nil_iff.mp hnil).2)

theorem quoted?_ne_nil {quote : Char} {cs : List Char} {c : Capture}
    (h : quoted? quote cs = some c) : c.text ≠ [] := by
  simp only [quoted?] at h
  split at h
  · cases h
  · split at h
    · simp only [Option.map_eq_some_iff] at h
      obtain ⟨⟨body, rest⟩, -, h⟩ := h
      cases h
      simp [Capture.text]
    · cases h

/-- All patterns but three take a character at least. -/
theorem Pattern.text_ne_nil {p : Pattern} (hp : p.mayBeEmpty = false) {cs : List Char}
    {c : Capture} (h : p.capture? cs = some c) : c.text ≠ [] := by
  cases p with
  | close => cases hp
  | spaces => cases hp
  | rowEnd => cases hp
  | name => exact spacedName?_ne_nil h
  | split =>
    simp only [Pattern.capture?] at h
    split at h <;> cases h
    simp
  | textRun =>
    simp only [Pattern.capture?] at h
    split at h
    · cases h
      simp
    · exact runOf?_ne_nil h
  | cellTextRun => exact runOf?_ne_nil h
  | escape =>
    simp only [Pattern.capture?] at h
    split at h
    · split at h <;> cases h <;> simp [Capture.text]
    · cases h
      simp [Capture.text]
    · cases h
  | blockBreak =>
    simp only [Pattern.capture?] at h
    unfold blockBreak? at h
    split at h
    · dsimp only at h
      split at h <;> cases h
      simp
    · cases h
  | backticks => exact runOf?_ne_nil h
  | groupBreak =>
    simp only [Pattern.capture?] at h
    split at h
    · cases h
    · next hdashes =>
      -- Three dashes are taken at least, whatever stands around them.
      have hne : ((cs.dropWhile isLineSpace).takeWhile (· == '-')) ≠ [] := by
        intro hnil
        simp [hnil] at hdashes
      split at h <;> cases h <;> simp [Capture.text, hne]
  | blank => exact runOf?_ne_nil h
  | argumentName =>
    simp only [Pattern.capture?, Option.bind_eq_some_iff] at h
    obtain ⟨d, -, h⟩ := h
    split at h <;> cases h
    simp [Capture.text]
  | doubleQuoted => exact quoted?_ne_nil h
  | singleQuoted => exact quoted?_ne_nil h
  | bare =>
    simp only [Pattern.capture?] at h
    split at h
    · cases h
    · next hne =>
      cases h
      simp only [Capture.text, Option.getD_some, List.append_nil]
      intro hnil
      exact hne (by simpa using (List.append_eq_nil_iff.mp hnil).2)

theorem width_pos {cs : List Char} (h : cs ≠ []) : 0 < width cs := by
  have hne : width cs ≠ 0 := fun hz => h ((width_eq_zero_iff cs).mp hz)
  omega

/-! ## Memories -/

section

variable (source : List Char)

/-- The span of the element is what was read of it, which is not nothing. -/
def Recollection.Exact (r : Recollection) : Prop :=
  Tiles r.start r.after.offset [r.node] ∧ r.after.In source

namespace Parser

/-- Whatever `p` matches, every element in memory keeps to its span. -/
def Keeps ⦃α : Type⦄ (p : Parser α) : Prop :=
  ∀ (s : Scope) (place : Place), Yields source (Recollection.Exact source) s place p
    fun _ _ => True

section

variable (s : Scope) (place : Place)

/-- A parser for a node that is exactly what is read. -/
def YieldsTile (p : Parser Node) : Prop :=
  Yields source (Recollection.Exact source) s place p
    fun n q => Tiles place.offset q.offset [n]

/-- A parser for nodes that tile what is read. -/
def YieldsTiles (p : Parser (List Node)) : Prop :=
  Yields source (Recollection.Exact source) s place p
    fun ns q => Tiles place.offset q.offset ns

end

end Parser

end

namespace Parser

variable {source : List Char} {s : Scope} {place : Place} {inner : Grammar → Parser Node}

/-! ## Steps that take something -/

theorem Yields.patternTakes {K : Recollection → Prop} {p : Pattern} (hp : p.mayBeEmpty = false) :
    Yields source K s place (Reading.pattern p) fun _ q => place.offset < q.offset := by
  refine (Yields.ofPlace (advances_pattern p)).imp fun c q _ h => ?_
  simp only [Option.map_eq_some_iff] at h
  obtain ⟨d, hd, h⟩ := h
  cases h
  have hwidth := width_pos (Pattern.text_ne_nil hp hd)
  rw [Place.skip_offset]
  omega

theorem Yields.nextChar {K : Recollection → Prop} :
    Yields source K s place (Reading.ofPlace nextChar) fun _ q => place.offset < q.offset := by
  refine (Yields.ofPlace advances_nextChar).imp fun c q _ h => ?_
  simp only [Parser.nextChar, Place.step?] at h
  split at h
  · cases h
  · next c rest hrest =>
    cases h
    have hwidth := width_pos (List.cons_ne_nil c [])
    rw [Place.skip_offset]
    omega

/-- A node without children from one place to a later one. -/
theorem tiles_leaf {kind : Kind} {q : Place} (h : place.offset < q.offset) :
    Tiles place.offset q.offset [Node.leaf (place.spanTo q) kind] :=
  Tiles.singleton_iff.mpr ⟨rfl, h⟩

/-! ## Pieces of text -/

theorem yieldsTile_text : YieldsTile source s place text := by
  unfold Parser.text
  refine .here (.localFlag (.bind (.patternTakes ?_) fun run q _ hq => .here (.pure ?_)))
  · cases s.localFlag Key.cellText <;> rfl
  · exact tiles_leaf hq

theorem yieldsTile_escape : YieldsTile source s place escape := by
  unfold Parser.escape
  refine .here (.bind (.patternTakes rfl) fun c q _ hq => .here (.pure ?_))
  exact tiles_leaf hq

theorem yieldsTile_verbatim : YieldsTile source s place verbatim := by
  unfold Parser.verbatim
  refine .here (.bind (.patternTakes rfl) fun opening q _ hq => ?_)
  refine .bind (.ofPlace (advances_upToFence _)) fun content r hr _ => .here (.pure ?_)
  exact tiles_leaf (Nat.lt_of_lt_of_le hq hr.offset_le)

theorem yieldsTile_gap : YieldsTile source s place gap := by
  unfold Parser.gap
  refine .localFlag (.bind .require fun _ q _ hstay => ?_)
  obtain rfl := hstay.2
  refine .here (.bind (.patternTakes rfl) fun _ r _ hr => .here (.pure ?_))
  exact tiles_leaf hr

theorem yieldsTile_stray : YieldsTile source s place stray := by
  unfold Parser.stray
  refine .here (.localFlag (.exhausted (.bind .nextChar fun c q _ hq => ?_)))
  refine .bind .require fun _ r _ hstay => ?_
  obtain rfl := hstay.2
  exact .here (.pure (tiles_leaf hq))

/-! ## Elements -/

/-- The steps of an element keep to their spans what is in memory, because they keep
nothing there themselves. -/
theorem relatesElements_keeps (hinner : ∀ g, Keeps source (inner g)) :
    RelatesElements (fun ⦃α : Type⦄ (p _ : Parser α) => Keeps source p) inner inner where
  pure _ := fun _ _ => .pure trivial
  bind hp hf := fun s place => (hp s place).bind fun a q _ _ => hf a s q
  fail := fun _ _ => .fail
  here := fun _ place _ _ hm => ⟨hm, fun _ _ h => by cases h; exact ⟨.refl place, trivial⟩⟩
  ofPlace hstep := fun _ _ => (Yields.ofPlace hstep).imp fun _ _ _ _ => trivial
  orElse hp hq := fun s place => (hp s place).orElse (hq s place)
  nested g := fun _ place => .nested fun _ => hinner g _ place

theorem yieldsTile_ofForm (hinner : ∀ g, Keeps source (inner g)) (form : Form) :
    YieldsTile source s place (ofForm inner form) := by
  have hcontent := (relatesElements_keeps hinner).content form
  unfold Parser.ofForm
  refine .here (.bind .exactly fun _ p1 h1 hbrace => .bind .pattern fun named p2 h2 _ => ?_)
  refine .bind .require fun _ p3 h3 _ => .bind .arguments fun as p4 h4 _ => ?_
  refine .bind .ofOption fun shape p5 h5 _ => .bind (hcontent s p5) fun nodes p6 h6 _ => ?_
  refine .bind .pattern fun _ p7 h7 _ => .here (Yields.imp .ofOption ?_)
  rintro n stop - ⟨hn, rfl⟩
  have hopen : p1.offset = place.offset + 1 := hbrace
  have hle : p1.offset ≤ stop.offset :=
    (h2.trans (h3.trans (h4.trans (h5.trans (h6.trans h7))))).offset_le
  exact Tiles.singleton_iff.mpr ⟨Shape.span_node? hn, by omega⟩

theorem yieldsTile_unknown (hinner : ∀ g, Keeps source (inner g)) :
    YieldsTile source s place (unknown inner) := by
  unfold Parser.unknown
  refine .here (.bind .exactly fun _ p1 h1 hbrace => ?_)
  refine .bind (.nested fun _ => hinner _ _ _) fun read p2 h2 _ => ?_
  refine .bind (.optional .exactly) fun closing stop h3 _ => .here (.pure ?_)
  have hopen : p1.offset = place.offset + 1 := hbrace
  have hle : p1.offset ≤ stop.offset := (h2.trans h3).offset_le
  exact Tiles.singleton_iff.mpr ⟨Node.span_assemble _, by omega⟩

theorem yieldsTile_ofCatalog (hinner : ∀ g, Keeps source (inner g)) (forms : Catalog) :
    YieldsTile source s place (ofCatalog inner forms) := by
  induction forms with
  | nil => exact yieldsTile_unknown hinner
  | cons form forms ih => exact .orElse (yieldsTile_ofForm hinner form) ih

/-- What is taken from memory is as exact as what is read, and what is read is kept. -/
theorem yieldsTile_recalling (hinner : ∀ g, Keeps source (inner g)) (forms : Catalog) :
    YieldsTile source s place (recalling (ofCatalog inner forms)) := by
  refine .of_in fun hplace => .recalling ?_ (yieldsTile_ofCatalog hinner forms) ?_
  · rintro r ⟨htile, hafter⟩ hstart -
    rw [hstart] at htile
    have hmoves := (Tiles.singleton_iff.mp htile).2
    exact ⟨hplace.before_of_le hafter (Nat.le_of_lt hmoves), htile⟩
  · exact fun node q hq htile => ⟨htile, hplace.of_before hq⟩

theorem yieldsTile_element (hinner : ∀ g, Keeps source (inner g)) :
    YieldsTile source s place (element inner) := by
  unfold Parser.element
  refine .here (.exhausted (.bind .require fun _ q _ hstay => ?_))
  obtain rfl := hstay.2
  exact .catalog (yieldsTile_recalling hinner _)

/-! ## Parts -/

/-- **A part is exactly what is read.** -/
theorem yieldsTile_part (hinner : ∀ g, Keeps source (inner g)) :
    YieldsTile source s place (part inner) :=
  .orElse yieldsTile_gap (.orElse (yieldsTile_element hinner) (.orElse yieldsTile_verbatim
    (.orElse yieldsTile_escape (.orElse yieldsTile_text yieldsTile_stray))))

/-- Repetition strings together what its rounds yield. -/
theorem yieldsTiles_many {p : Parser Node} (hp : ∀ q, YieldsTile source s q p) (least : Nat)
    (most : Option Nat) : YieldsTiles source s place (many p least most) :=
  Yields.many (J := fun q ns r => Tiles q.offset r.offset ns) (fun _ => rfl)
    (fun _ _ _ _ _ hn _ hns => hn.cons hns) hp least most

/-! ## Grammars -/

theorem relates_keeps (hinner : ∀ g, Keeps source (inner g)) :
    Relates (fun ⦃α : Type⦄ (p _ : Parser α) => Keeps source p) inner inner :=
  { relatesElements_keeps hinner with
    many := fun least most hp s _ => Yields.many (J := fun _ _ _ => True) (fun _ => trivial)
      (fun _ _ _ _ _ _ _ _ => trivial) (fun q => hp s q) least most
    localFlag := fun _ _ place _ _ hm =>
      ⟨hm, fun _ _ h => by cases h; exact ⟨.refl place, trivial⟩⟩
    nesting := fun _ place _ _ hm =>
      ⟨hm, fun _ _ h => by cases h; exact ⟨.refl place, trivial⟩⟩
    inCell := fun hp s place => .inFrame (hp _ place)
    recalling := fun _ _ _ =>
      .catalog ((yieldsTile_recalling hinner _).imp fun _ _ _ _ => trivial) }

/-- Every grammar keeps memory exact, by induction from the level at which no element
may begin. -/
theorem keeps_inside (levels : Nat) (g : Grammar) : Keeps source (Grammar.inside levels g) := by
  induction levels generalizing g with
  | zero => exact fun _ _ => .fail
  | succ levels ih =>
    show Keeps source (Grammar.readAt levels g)
    rw [Grammar.readAt_eq]
    exact (relates_keeps ih).readAbove g

theorem keeps_read (g : Grammar) : Keeps source (g.read : Parser Node) :=
  fun s place => .nesting (keeps_inside (maxNesting - s.nesting + 1) g s place)

/-- The parts that are read from a place tile what is read. -/
theorem yields_parts_tiles : Yields source (Recollection.Exact source) s place Grammar.parts.read
    fun n q => Tiles place.offset q.offset n.children := by
  refine .nesting ?_
  rw [Grammar.readAt_eq]
  have hparts : YieldsTiles source s place
      (many (part (Grammar.inside (maxNesting - s.nesting))) 0 none) :=
    yieldsTiles_many (fun q => yieldsTile_part (keeps_inside _)) 0 none
  exact .here (.bind hparts fun nodes stop _ hnodes => .here (.pure hnodes))

end Parser

/-! ## Cursors -/

namespace Cursor

/-- The cursors that reading a source can come to: one at any place and in any scope, that
has read nothing; a cursor that has gone to any other place and any other scope; and a
cursor that has read any grammar, whether it matched or not. What is read in the midst of
something else is read by such a cursor, too. -/
inductive Reached (source : String) : Cursor → Prop
  | start {place : Place} (hplace : place.In source.toList) (scope : Scope) :
    Reached source ⟨source, place, scope, .empty⟩
  | turn {c : Cursor} (h : Reached source c) {place : Place} (hplace : place.In source.toList)
    (scope : Scope) : Reached source { c with place, scope }
  | read {c : Cursor} (h : Reached source c) (g : Grammar) : Reached source (c.read g).2

variable {source : String} {c : Cursor}

theorem Reached.first (source : String) (scope : Scope) : Reached source (first source scope) :=
  .start (.first source.toList) scope

/-- A cursor in its source with an exact memory is sound. -/
theorem sound_of_exact (hplace : c.place.In c.source.toList)
    (hm : c.memory.Holds (Recollection.Exact c.source.toList)) : c.Sound := by
  refine ⟨hplace, fun r hr => ?_⟩
  obtain ⟨htile, hafter⟩ := hm r hr
  exact ⟨hafter, Nat.le_of_lt (Tiles.singleton_iff.mp htile).2⟩

theorem memory_run {α : Type} (c : Cursor) (p : Parser α) :
    (c.run p).2.memory = (p c.scope c.place c.memory).2 := by
  rw [run]
  rcases p c.scope c.place c.memory with ⟨_ | ⟨a, q⟩, m⟩ <;> rfl

/-- Wherever reading comes to, it is in the source and its memory is exact. -/
theorem Reached.exact (h : Reached source c) :
    c.source = source ∧ c.place.In c.source.toList ∧
      c.memory.Holds (Recollection.Exact c.source.toList) := by
  induction h with
  | start hplace scope => exact ⟨rfl, hplace, .empty⟩
  | turn h hplace scope ih =>
    obtain ⟨hsource, -, hm⟩ := ih
    subst hsource
    exact ⟨rfl, hplace, hm⟩
  | @read c h g ih =>
    obtain ⟨hsource, hplace, hm⟩ := ih
    have hsound := sound_of_exact hplace hm
    have hkept : (c.read g).2.source = c.source := source_tryRead hsound g
    have hread : (c.read g).2.Sound := hsound.tryRead g
    refine ⟨hkept.trans hsource, hread.place, ?_⟩
    rw [hkept, read_eq_run hsound g, memory_run]
    exact (Parser.keeps_read g c.scope c.place hplace c.memory hm).1

theorem Reached.sound (h : Reached source c) : c.Sound :=
  sound_of_exact h.exact.2.1 h.exact.2.2

/-- **Parts tile the text.** From any place of any source, in any scope and with any memory
that reading can come to, the nodes that are read as parts follow each other without a gap
from the place before to the place after, and none of them is empty. There are none exactly
when reading has not moved. -/
theorem readParts_tile (source : String) (c : Cursor) (h : Reached source c) :
    Tiles c.place.offset c.readParts.2.place.offset c.readParts.1 ∧
      (c.readParts.1 = [] ↔ c.readParts.2.place.offset = c.place.offset) := by
  have htiles : Tiles c.place.offset c.readParts.2.place.offset c.readParts.1 := by
    obtain ⟨-, hplace, hm⟩ := h.exact
    obtain ⟨-, hmatched⟩ := Parser.yields_parts_tiles (s := c.scope) hplace c.memory hm
    rw [readParts, read_eq_run h.sound, run]
    generalize (Grammar.parts.read : Parser Node) c.scope c.place c.memory = x at *
    obtain ⟨_ | ⟨n, q⟩, m⟩ := x
    · exact rfl
    · exact (hmatched n q rfl).2
  exact ⟨htiles, htiles.eq_nil_iff⟩

/-- In the text of a cell, an element and a table that have been read before, as the content
of another element, are taken from memory and stand where they stood. -/
theorem readParts_tile_replayed :
    let scope := Scope.ofFrame [(Key.catalog, .catalog .standard), (Key.nesting, .number 1)]
    let source := "é\x7bb|x\x7d\x7btable|a|c\x7d"
    let c : Cursor := { ((first source scope).read .parts).2 with
      place := .first source.toList, scope := scope.push Parser.cellFrame }
    Reached source c ∧ c.memory.recollections.map (·.start) = [7, 2] ∧
      c.readParts.1.map (·.span) = [⟨0, 2⟩, ⟨2, 7⟩, ⟨7, 18⟩] ∧
      Tiles c.place.offset c.readParts.2.place.offset c.readParts.1 := by
  intro scope source c
  have h : Reached source c :=
    .turn (.read (.first source scope) .parts) (.first source.toList) _
  obtain ⟨htiles, -⟩ := readParts_tile source c h
  refine And.intro h (And.intro ?_ (And.intro ?_ ?_))
  · decide +kernel
  · decide +kernel
  · assumption

end Cursor

end Bracemark
