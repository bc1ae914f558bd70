/-
Tables fail only for lack of rows.

After the bar of a table its items are read one after another. Since something can be read as an
item anywhere else, they go on up to a closing brace or the end of the source, and there the table
is closed. Laying it out needs a row and nothing else. So a table is read unless the text up to
there is captions, break lines and white space (`Cursor.tryRead_table`).

`Cursor.RowFree` says that a text can be taken apart in this way, by reading captions, break lines
and white space in any order. The items are read in one order only, in which a break line comes
before white space. The two differ in one case: white space that is taken before a break line is
the margin of that line, and both ways meet again after it.
-/
import Bracemark.Proofs.TableLines

set_option autoImplicit false

namespace Bracemark

open Reading Text

namespace Cursor

variable {source : String} {c d : Cursor} {node : Node} {g : Grammar}

theorem Reached.of_tryRead (h : Reached source c) (hread : c.tryRead g = (.ok node, d)) :
    Reached source d := by
  have hnext := Reached.read h g
  rw [Cursor.read, hread] at hnext
  exact hnext

/-! ## Text without rows -/

/-- From the cursor to a place there is nothing but captions, break lines and white space, one
after another. -/
inductive RowFree (stop : Place) : Cursor → Prop where
  | done {c : Cursor} : c.place = stop → RowFree stop c
  | read {c d : Cursor} {g : Grammar} {node : Node} :
    g ∈ Parser.besidesRows → c.tryRead g = (.ok node, d) → RowFree stop d → RowFree stop c

/-- The items of a table that are read from a cursor on, and the place after them. -/
def items (c : Cursor) (fuel : Nat) : List Node × Place :=
  (Parser.collect (Parser.tableItem (Grammar.inside (maxNesting - c.scope.nesting))) c.scope fuel
    none c.place c.memory).1

/-- An item that is read is the first of the items, and it moves on. -/
theorem items_succ {q : Place} {m : Memory} {n : Node} (h : Reached source c)
    (hx : Parser.tableItem (Grammar.inside (maxNesting - c.scope.nesting)) c.scope c.place c.memory =
      (some (n, q), m)) (fuel : Nat) :
    let d : Cursor := { c with place := q, memory := m }
    q.left < c.place.left ∧ c.items (fuel + 1) = (n :: (d.items fuel).1, (d.items fuel).2) := by
  obtain ⟨hbefore, hmoves⟩ := (Parser.yields_tableItem h.exact.2.1 c.memory h.exact.2.2).2 n q
    (congrArg Prod.fst hx)
  exact ⟨hbefore.left_lt h.exact.2.1.fits hmoves, Parser.collect_cons hx hmoves fuel⟩

/-- Where none of the items is a row, all of them are something else. -/
theorem rowFree_of_items (fuel : Nat) : ∀ c, Reached source c → c.place.left < fuel →
    (∀ n ∈ (c.items fuel).1, n.kind ≠ .row) → RowFree (c.items fuel).2 c := by
  induction fuel with
  | zero => exact fun c _ hfuel => absurd hfuel (Nat.not_lt_zero _)
  | succ fuel ih =>
    intro c h hfuel hrows
    cases hx : Parser.tableItem (Grammar.inside (maxNesting - c.scope.nesting)) c.scope c.place
        c.memory with
    | mk result m =>
      cases result with
      | none =>
        refine .done ?_
        rw [items, Parser.collect_succ _ _ _ _ _ (by simp), hx]
      | some found =>
        obtain ⟨n, q⟩ := found
        obtain ⟨hleft, hitems⟩ := items_succ h hx fuel
        rw [hitems] at hrows ⊢
        obtain ⟨hn, hrows⟩ := List.forall_mem_cons.mp hrows
        obtain ⟨g, hg, hitem⟩ := Parser.tableItem_cases h.exact.2.1 h.exact.2.2 hx hn
        have hread : c.tryRead g = (.ok n, { c with place := q, memory := m }) :=
          (tryRead_eq_ok_iff h.sound).mpr ⟨q, m, hitem, rfl⟩
        refine .read hg hread (ih _ (h.of_tryRead hread) ?_ hrows)
        exact Nat.lt_of_lt_of_le hleft (Nat.le_of_lt_succ hfuel)

/-- **White space before a break line is its margin**: the items are the same whether they are
read with it or after it, but for the span of the break line. -/
theorem Reached.items_margin {blanks : Capture} {n : Node} {q : Place} (h : Reached source c)
    (hd : Reached source { c with place := c.place.skip blanks.text blanks.rest })
    (hbreak : Parser.breakLine? c.place = some (n, q))
    (hblank : Pattern.blank.capture? c.place.rest = some blanks) (fuel : Nat) :
    let d : Cursor := { c with place := c.place.skip blanks.text blanks.rest }
    ∃ n' rest stop, c.items (fuel + 1) = (n :: rest, stop) ∧
      d.items (fuel + 1) = (n' :: rest, stop) := by
  obtain ⟨n', hbreak'⟩ := Parser.breakLine?_of_blank hbreak hblank
  exact ⟨n', _, _, (items_succ h (Parser.tableItem_of_breakLine hbreak) fuel).2,
    (items_succ hd (Parser.tableItem_of_breakLine hbreak') fuel).2⟩

/-- **Where the text up to the end of the items can be read without rows, none of the items is a
row**, in whichever way it can be read. -/
theorem RowFree.items {stop : Place} (hfree : RowFree stop c) (h : Reached source c) :
    ∀ fuel, c.place.left < fuel → (c.items fuel).2 = stop →
      ∀ n ∈ (c.items fuel).1, n.kind ≠ .row := by
  induction hfree with
  | @done c hdone =>
    intro fuel _ hstop
    have hnil : (c.items fuel).1 = [] := Parser.collect_eq_nil
      (fun q => Parser.yields_tableItem) h.exact.2.1 h.exact.2.2 (hstop.trans hdone.symm)
    rw [hnil]
    exact List.forall_mem_nil _
  | @read c d g node hg hread hfree ih =>
    intro fuel hfuel hstop
    have hd := h.of_tryRead hread
    obtain ⟨q, m, hitem, rfl⟩ := (tryRead_eq_ok_iff h.sound).mp hread
    rw [Grammar.read_apply] at hitem
    obtain ⟨fuel, rfl⟩ := Nat.exists_eq_succ_of_ne_zero (Nat.ne_zero_of_lt hfuel)
    -- Whatever is read next is the first of the items, but for the margin of a break line.
    have hnext : Parser.tableItem (Grammar.inside (maxNesting - c.scope.nesting)) c.scope c.place
        c.memory = (some (node, q), m) → node.kind ≠ .row → ∀ n ∈ (c.items (fuel + 1)).1,
          n.kind ≠ .row := by
      intro hx hnode
      obtain ⟨hleft, hitems⟩ := items_succ h hx fuel
      rw [hitems] at hstop ⊢
      exact List.forall_mem_cons.mpr
        ⟨hnode, ih hd fuel (Nat.lt_of_lt_of_le hleft (Nat.le_of_lt_succ hfuel)) hstop⟩
    simp only [Parser.besidesRows, List.mem_cons, List.not_mem_nil, or_false] at hg
    rcases hg with rfl | rfl | rfl
    · have hcaption := (Parser.yields_caption (Parser.keeps_inside _) h.exact.2.1 c.memory
        h.exact.2.2).2 node q (congrArg Prod.fst hitem)
      exact hnext (Parser.tableItem_of_caption hitem) hcaption.2.1
    · obtain ⟨hbreak, rfl⟩ :=
        Prod.mk.inj ((Parser.breakLine_apply c.scope c.place c.memory).symm.trans hitem)
      exact hnext (Parser.tableItem_of_breakLine hbreak) (Parser.kind_breakLine? hbreak)
    · obtain ⟨hspace, rfl⟩ :=
        Prod.mk.inj ((Parser.blankRows_apply c.scope c.place c.memory).symm.trans hitem)
      obtain ⟨blanks, hblank, hnode⟩ := Option.map_eq_some_iff.mp hspace
      cases hnode
      cases hbreak : Parser.breakLine? c.place with
      | none =>
        exact hnext (Parser.tableItem_of_blank hbreak hblank) fun hkind => by cases hkind
      | some found =>
        obtain ⟨n', rest, last, hwith, hwithout⟩ := h.items_margin hd hbreak hblank fuel
        have hleft : (c.place.skip blanks.text blanks.rest).left < fuel + 1 := by
          have hbefore : c.place.Before (c.place.skip blanks.text blanks.rest) :=
            Place.before_skip (Pattern.text_append_rest hblank)
          exact Nat.lt_of_le_of_lt hbefore.left_le hfuel
        have hrest := ih hd (fuel + 1) hleft (by rw [hwithout]; rwa [hwith] at hstop)
        rw [hwithout] at hrest
        rw [hwith]
        exact List.forall_mem_cons.mpr
          ⟨Parser.kind_breakLine? hbreak, (List.forall_mem_cons.mp hrest).2⟩

end Cursor

/-! ## Elements up to their content -/

/-- An element of a form begins at a place, and it has content: there are an opening brace, a name
that the form accepts, arguments that it finds fit, and a bar. -/
structure Opening (form : Form) (place : Place) where
  chars : List Char
  name : Capture
  arguments : Arguments
  /-- The place after the arguments. -/
  start : Place
  shape : Shape
  bar : Capture
  brace : place.rest = '{' :: chars
  named : Pattern.name.capture? chars = some name
  accepted : form.accepts (String.ofList name.word) = true
  read : ((place.skip ['{'] chars).skip name.text name.rest).arguments = (arguments, start)
  fit : form.shape? (String.ofList name.word) arguments = some shape
  split : Pattern.split.capture? start.rest = some bar

namespace Opening

variable {form : Form} {place : Place}

/-- The place after the bar. -/
def body (o : Opening form place) : Place :=
  o.start.skip o.bar.text o.bar.rest

/-- What stands before the content, where the element ends at a place. -/
def header (o : Opening form place) (stop : Place) : Header :=
  ⟨String.ofList o.name.word, o.arguments, place.spanTo stop⟩

theorem before_body (o : Opening form place) : place.Before o.body := by
  have harguments := advances_arguments
    ((place.skip ['{'] o.chars).skip o.name.text o.name.rest) o.arguments o.start
    (congrArg some o.read)
  exact (Place.before_skip o.brace.symm).trans ((Place.before_skip
    (Pattern.text_append_rest o.named)).trans (harguments.trans
      (Place.before_skip (Pattern.text_append_rest o.split))))

end Opening

namespace Parser

variable {form : Form} {place : Place} {s : Scope} {m m' : Memory} {inner : Grammar → Parser Node}

/-- After the bar the content is read, one level deeper. -/
theorem content_of_opening (o : Opening form place) (hallows : form.allowsContent = true)
    (hfits : s.exhausted = false) {n : Node} {q : Place}
    (hread : inner form.content (s.push (s.deeper [])) o.body m = (some (n, q), m')) :
    content inner form s o.start m = (some (n.children, q), m') := by
  have hbar : (Reading.optional (Reading.pattern .split) : Parser (Option Capture)) s o.start m =
      (some (some o.bar, o.body), m) := by
    rw [Reading.optional, orElse_apply, bind_apply, pattern_apply, o.split]
    rfl
  rw [content, bind_apply, hbar]
  dsimp only
  rw [bind_apply, here_apply]
  dsimp only
  rw [bind_apply, require_apply (by rw [hallows]; rfl)]
  dsimp only
  rw [bind_apply, nested_apply, if_neg (by simp [hfits]), hread]
  dsimp only
  rw [bind_apply, require_apply (by rw [hallows]; rfl)]
  rfl

/-- Where the content of an element ends before a closing brace, the element is read if its shape
takes the content. -/
theorem ofForm_of_opening (o : Opening form place) {ns : List Node} {q : Place} {close : Capture}
    (hcontent : content inner form s o.start m = (some (ns, q), m'))
    (hclose : Pattern.close.capture? q.rest = some close) :
    let stop := q.skip close.text close.rest
    ofForm inner form s place m =
      ((o.shape.node? (o.header stop) (form.keptContent ns)).map fun n => (n, stop), m') := by
  intro stop
  rw [ofForm, bind_apply, here_apply]
  dsimp only
  rw [bind_apply, exactly_apply (show place.rest = ['{'] ++ _ from o.brace)]
  dsimp only
  rw [bind_apply, pattern_apply, Place.skip_rest, o.named]
  dsimp only [Option.map_some]
  rw [bind_apply, require_apply o.accepted]
  dsimp only
  rw [bind_apply, arguments, ofPlace_apply, o.read]
  dsimp only
  rw [bind_apply, ofOption_apply, o.fit]
  dsimp only [Option.map_some]
  rw [bind_apply, hcontent]
  dsimp only
  rw [bind_apply, pattern_apply, hclose]
  dsimp only [Option.map_some]
  rw [bind_apply, here_apply]
  dsimp only
  rw [ofOption_apply]
  rfl

/-- What is read one level deeper is read as anywhere else. -/
theorem inside_apply (hfits : s.nesting < maxNesting) (g : Grammar) (place : Place) (m : Memory) :
    (Grammar.inside (maxNesting - s.nesting) g : Parser Node) (s.push (s.deeper [])) place m =
      (g.read : Parser Node) (s.push (s.deeper [])) place m := by
  obtain ⟨levels, hlevels⟩ : ∃ n, maxNesting - s.nesting = n + 1 :=
    ⟨maxNesting - s.nesting - 1, by omega⟩
  have hdeeper : maxNesting - (s.push (s.deeper [])).nesting = levels := by
    rw [Scope.nesting_push_deeper]
    omega
  rw [Grammar.read_apply, hdeeper, ← Grammar.readAt_eq, hlevels]
  rfl

/-- An element may be closed by a brace or by the end of the source. -/
theorem exists_close (h : place.rest = [] ∨ place.startsWith '}' = true) :
    ∃ close, Pattern.close.capture? place.rest = some close := by
  rcases h with hend | hbrace
  · exact ⟨.plain [] [], by rw [hend]; rfl⟩
  · obtain ⟨rest, hrest⟩ := List.head?_eq_some_iff.mp (beq_iff_eq.mp hbrace)
    exact ⟨.plain ['}'] rest, by rw [hrest]; rfl⟩

end Parser

/-! ## Tables -/

/-- There are groups of rows just if there are rows. -/
theorem Block.ofItems_eq_nil_iff (items : List Node) :
    (ofItems items).2 = [] ↔ ∀ n ∈ items, n.kind ≠ .row := by
  have hrows : allRows (ofItems items).2 = [] ↔ ∀ n ∈ items, n.kind ≠ .row := by
    rw [ofItems_rows, List.filter_eq_nil_iff]
    simp only [Node.isRow_iff, ne_eq]
  rw [← hrows]
  constructor
  · intro hnone
    rw [hnone]
    rfl
  · intro hnone
    -- A group that has been kept has rows.
    refine List.eq_nil_iff_forall_not_mem.mpr fun b hb => ?_
    have hkept : (!b.rows.isEmpty) = true := (List.mem_filter.mp hb).2
    have hempty : b.rows = [] := List.flatMap_eq_nil_iff.mp hnone b hb
    rw [hempty] at hkept
    cases hkept

/-- **A table can be laid out just if it has a row.** -/
theorem Table.isSome_layout?_iff (t : Table) (span : Span) (items : List Node) :
    (t.layout? span items).isSome = true ↔ ∃ n ∈ items, n.kind = .row := by
  have hgroups := Block.ofItems_eq_nil_iff items
  rw [layout?]
  dsimp only
  split
  · next hempty =>
    have hnone := hgroups.mp (List.isEmpty_iff.mp hempty)
    constructor
    · intro h
      cases h
    · rintro ⟨n, hn, hrow⟩
      exact absurd hrow (hnone n hn)
  · next hsome =>
    refine ⟨fun _ => ?_, fun _ => rfl⟩
    by_contra hnone
    push Not at hnone
    exact hsome (List.isEmpty_iff.mpr (hgroups.mpr hnone))

namespace Cursor

variable {source : String} {c : Cursor}

/-- The items of a table are read one after another until none is left. -/
theorem read_tableContent (c : Cursor) :
    let items := c.items (c.place.left + 1)
    ∃ m, (Form.table.content.read : Parser Node) c.scope c.place c.memory =
      (some (.branch (c.place.spanTo items.2) .sequence items.1, items.2), m) := by
  intro items
  refine ⟨(Parser.collect (Parser.tableItem (Grammar.inside (maxNesting - c.scope.nesting))) c.scope
    (c.place.left + 1) none c.place c.memory).2, ?_⟩
  rw [Grammar.read_apply, Parser.readAbove_content, Grammar.readSequence, Parser.bind_apply,
    Parser.here_apply]
  dsimp only
  rw [Parser.bind_apply, Parser.many_apply]
  rfl

/-- **The items of a table go on up to a closing brace or the end.** -/
theorem Reached.items_stop (h : Reached source c) :
    let stop := (c.items (c.place.left + 1)).2
    stop.rest = [] ∨ stop.startsWith '}' = true := by
  intro stop
  have hends : ¬ Parser.Attains c.source.toList (Recollection.Exact c.source.toList) c.scope stop
      (Parser.tableItem (Grammar.inside (maxNesting - c.scope.nesting))) fun _ _ => True :=
    Parser.collect_exhausts (fun q => Parser.yields_tableItem) (c.place.left + 1) c.place c.memory
      h.exact.2.1 h.exact.2.2 (Nat.lt_succ_self _)
  by_contra hmore
  rw [not_or, Bool.not_eq_true] at hmore
  exact hends (Parser.attains_tableItem hmore.1 hmore.2)

/-- There is a row among the items just if the text cannot be read without one. -/
theorem Reached.exists_row_iff (h : Reached source c) :
    let items := c.items (c.place.left + 1)
    (∃ n ∈ items.1, n.kind = .row) ↔ ¬ RowFree items.2 c := by
  intro items
  constructor
  · rintro ⟨n, hn, hrow⟩ hfree
    exact hfree.items h (c.place.left + 1) (Nat.lt_succ_self _) rfl n hn hrow
  · intro hfree
    by_contra hnone
    push Not at hnone
    exact hfree (rowFree_of_items _ c h (Nat.lt_succ_self _) hnone)

/-- The cursor that reads the content of an element which begins at `c`. -/
def inBody {form : Form} (c : Cursor) (o : Opening form c.place) : Cursor :=
  { c with place := o.body, scope := c.scope.push (c.scope.deeper []) }

theorem Reached.inBody {form : Form} (h : Reached source c) (o : Opening form c.place) :
    Reached source (c.inBody o) := by
  obtain ⟨rfl, hplace, -⟩ := h.exact
  exact h.turn (hplace.of_before o.before_body) _

/-- What a table is read as, told by its items. -/
theorem tryRead_table_eq (h : Reached source c) (hfits : c.scope.nesting < maxNesting)
    (o : Opening .table c.place) {items : Node} {q : Place} {m : Memory}
    (hitems : (Form.table.content.read : Parser Node) (c.inBody o).scope (c.inBody o).place
      (c.inBody o).memory = (some (items, q), m))
    (hstop : q.rest = [] ∨ q.startsWith '}' = true) :
    (∃ n ∈ items.children, n.kind = .row) ∧ (∃ node, (c.tryRead (.form .table)).1 = .ok node) ∨
      (∀ n ∈ items.children, n.kind ≠ .row) ∧
        c.tryRead (.form .table) = (.error .noMatch, { c with memory := m }) := by
  have hfits' : c.scope.exhausted = false := by
    simpa [Scope.exhausted] using hfits
  have hcontent := Parser.content_of_opening o rfl hfits'
    ((Parser.inside_apply hfits _ o.body c.memory).trans hitems)
  obtain ⟨close, hclose⟩ := Parser.exists_close hstop
  obtain ⟨t, -, hshape⟩ := Option.map_eq_some_iff.mp o.fit
  have hread := Parser.ofForm_of_opening o hcontent hclose
  have hnode : ∀ stop, o.shape.node? (o.header stop) (Form.table.keptContent items.children) =
      t.layout? (c.place.spanTo stop) items.children := by
    intro stop
    rw [← hshape]
    rfl
  dsimp only at hread
  rw [hnode] at hread
  have htry := tryRead_eq h.sound (.form .table)
  rw [Grammar.read_apply] at htry
  rw [htry, show (Grammar.readAbove (Grammar.inside (maxNesting - c.scope.nesting)) (.form .table) :
    Parser Node) c.scope c.place c.memory = _ from hread]
  have hrows := Table.isSome_layout?_iff t (c.place.spanTo (q.skip close.text close.rest))
    items.children
  cases hlaid : t.layout? (c.place.spanTo (q.skip close.text close.rest)) items.children with
  | some n => exact .inl ⟨hrows.mp (by rw [hlaid]; rfl), n, rfl⟩
  | none =>
    refine .inr ⟨fun n hn hrow => ?_, rfl⟩
    have hsome := hrows.mpr ⟨n, hn, hrow⟩
    rw [hlaid] at hsome
    cases hsome

/-- **A table fails only for lack of rows.** A cursor that reading can come to, inside fewer
elements than there may be, stands before a table with content. Then its items are read up to a
closing brace or the end of the source, and the table is read just if one of them is a row. There
is a row among them unless the text up to there is captions, break lines and white space. A cursor
on which no table is read stays as it is, but for its memory. -/
theorem tryRead_table (h : Reached source c) (hfits : c.scope.nesting < maxNesting)
    (o : Opening .table c.place) :
    ∃ items d, (c.inBody o).tryRead Form.table.content = (.ok items, d) ∧
      (d.place.rest = [] ∨ d.place.startsWith '}' = true) ∧
      ((∃ node, (c.tryRead (.form .table)).1 = .ok node) ↔ ∃ n ∈ items.children, n.kind = .row) ∧
      ((∃ n ∈ items.children, n.kind = .row) ↔ ¬ RowFree d.place (c.inBody o)) ∧
      ∀ miss, (c.tryRead (.form .table)).1 = .error miss →
        ∃ m, c.tryRead (.form .table) = (.error .noMatch, { c with memory := m }) := by
  have hbody := h.inBody o
  obtain ⟨m, hitems⟩ := read_tableContent (c.inBody o)
  have hstop := hbody.items_stop
  refine ⟨_, _, (tryRead_eq_ok_iff hbody.sound).mpr ⟨_, m, hitems, rfl⟩, hstop, ?_,
    hbody.exists_row_iff, ?_⟩
  · rcases tryRead_table_eq h hfits o hitems hstop with ⟨hrow, hread⟩ | ⟨hnone, hread⟩
    · exact ⟨fun _ => hrow, fun _ => hread⟩
    · constructor
      · rintro ⟨node, hnode⟩
        rw [hread] at hnode
        cases hnode
      · rintro ⟨n, hn, hrow⟩
        exact absurd hrow (hnone n hn)
  · intro miss hmiss
    rcases tryRead_table_eq h hfits o hitems hstop with ⟨-, node, hread⟩ | ⟨-, hread⟩
    · rw [hread] at hmiss
      cases hmiss
    · exact ⟨m, hread⟩

/-- A caption, a break line with its margin and white space are no table. -/
theorem tryRead_table_besides :
    let source := "\x7btable|\x7bcaption|c\x7d\n --- head\n\x7d"
    let c := first source (Document.scope .standard)
    Reached source c ∧ c.scope.nesting < maxNesting ∧ ∃ o : Opening .table c.place,
      let d := ((c.inBody o).tryRead Form.table.content).2
      d.place.rest = ['}'] ∧ RowFree d.place (c.inBody o) ∧
        ∃ m, c.tryRead (.form .table) = (.error .noMatch, { c with memory := m }) := by
  intro source c
  have h : Reached source c := .first source _
  have hfits : c.scope.nesting < maxNesting := by decide +kernel
  let o : Opening .table c.place :=
    { chars := c.place.rest.tail
      name := ⟨[], some "table".toList, [], c.place.rest.drop 6⟩
      arguments := .empty
      start := c.place.skip (c.place.rest.take 6) (c.place.rest.drop 6)
      shape := .table ⟨.empty, 0, 0, true, 0, 0, .blank 0 0, ""⟩
      bar := .plain ['|'] (c.place.rest.drop 7)
      brace := by decide +kernel
      named := by decide +kernel
      accepted := by decide +kernel
      read := by decide +kernel
      fit := by decide +kernel
      split := by decide +kernel }
  obtain ⟨items, d, hread, -, hrow, hfree, hmiss⟩ := tryRead_table h hfits o
  have hplace : ((c.inBody o).tryRead Form.table.content).2.place.rest = ['}'] := by decide +kernel
  have hnone : (c.tryRead (.form .table)).1.toOption.isNone = true := by decide +kernel
  have hd : ((c.inBody o).tryRead Form.table.content).2 = d := congrArg Prod.snd hread
  refine ⟨h, hfits, o, hplace, ?_, ?_⟩
  · rw [hd]
    by_contra hrows
    obtain ⟨node, hnode⟩ := hrow.mpr (hfree.mpr hrows)
    rw [hnode] at hnone
    cases hnone
  · cases hresult : (c.tryRead (.form .table)).1 with
    | ok node =>
      rw [hresult] at hnone
      cases hnone
    | error miss => exact hmiss miss hresult

end Cursor

end Bracemark
