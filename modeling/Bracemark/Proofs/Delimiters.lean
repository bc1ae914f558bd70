/-
Where parts end.

Reading content never fails and never gives up in the middle of the text: each
character that may stand where a part begins is claimed by one of the six kinds of
part, except for the delimiters of the frame. This has two sides. What a part claims is
a matter of its first character (`matches_part`); the hard case is an opening brace,
where every form of the catalogue may fail and the text in braces that is tried last
never does, because content can be read at any place (`matches_parts`). And a repetition
ends nowhere but where its rounds no longer match (`collect_exhausts`), since each part
moves on and the rounds are not used up before the text is.
-/
import Bracemark.Proofs.Tiling

set_option autoImplicit false

namespace Bracemark

open Reading Text

/-! ## Delimiters -/

/-- Where parts may end in a scope: at the end of the text, at a closing brace unless
the frame is that of the outermost text, and in the frame of a cell at a bar or a
newline. -/
def Scope.StopsAt (s : Scope) (p : Place) : Prop :=
  p.rest = [] ∨ (p.startsWith '}' = true ∧ s.localFlag Key.topLevel = false) ∨
    (s.localFlag Key.cellText = true ∧ (p.startsWith '|' = true ∨ p.startsWith '\n' = true))

instance (s : Scope) (p : Place) : Decidable (s.StopsAt p) :=
  inferInstanceAs (Decidable (_ ∨ _ ∨ _))

theorem Place.In.offset_eq_width {source : List Char} {p : Place} (h : p.In source)
    (hend : p.rest = []) : p.offset = width source := by
  obtain ⟨passed, rfl, hoffset, -⟩ := h
  rw [hend, List.append_nil, hoffset]

/-! ## Parsers that match -/

namespace Parser

/-- `p` matches at `place`, whatever is in memory. -/
def Matches {α : Type} (s : Scope) (place : Place) (p : Parser α) : Prop :=
  ∀ m, ∃ a q m', p s place m = (some (a, q), m')

section

variable {α β : Type} {s : Scope} {place : Place}

namespace Matches

theorem pure (a : α) : Matches s place (Pure.pure a) :=
  fun m => ⟨a, place, m, rfl⟩

theorem bind {p : Parser α} {f : α → Parser β} (hp : Matches s place p)
    (hf : ∀ a q, Matches s q (f a)) : Matches s place (p >>= f) := by
  intro m
  obtain ⟨a, q, m', hx⟩ := hp m
  rw [bind_apply, hx]
  exact hf a q m'

/-- A step that looks at the place alone leads to one value and one place only. -/
theorem ofPlace_bind {step : Place → Option (α × Place)} {f : α → Parser β} {a : α} {q : Place}
    (hstep : step place = some (a, q)) (hf : Matches s q (f a)) :
    Matches s place (Reading.ofPlace step >>= f) := by
  intro m
  rw [bind_apply, ofPlace_apply, hstep]
  exact hf m

theorem require_bind {condition : Bool} {f : Unit → Parser β} (h : condition = true)
    (hf : Matches s place (f ())) : Matches s place (Reading.require condition >>= f) := by
  subst h
  exact hf

theorem exactly_bind {cs rest : List Char} {f : Unit → Parser β} (hrest : place.rest = cs ++ rest)
    (hf : Matches s (place.skip cs rest) (f ())) : Matches s place (Reading.exactly cs >>= f) := by
  refine ofPlace_bind ?_ hf
  rw [if_pos (by simp [hrest]), hrest, List.drop_left]

/-- A pattern matches in one way, so what follows may be read from wherever it ends. -/
theorem pattern_bind {p : Pattern} {f : Capture → Parser β}
    (hp : (p.capture? place.rest).isSome = true) (hf : ∀ c q, Matches s q (f c)) :
    Matches s place (Reading.pattern p >>= f) := by
  obtain ⟨c, hc⟩ := Option.isSome_iff_exists.mp hp
  exact ofPlace_bind (by rw [hc]; rfl) (hf _ _)

/-! ## Questions -/

theorem here {f : Place → Parser α} (h : Matches s place (f place)) :
    Matches s place (Reading.here >>= f) := h

theorem localFlag {key : String} {f : Bool → Parser α} (h : Matches s place (f (s.localFlag key))) :
    Matches s place (Reading.localFlag key >>= f) := h

theorem catalog {f : Catalog → Parser α} (h : Matches s place (f s.catalog)) :
    Matches s place (Reading.catalog >>= f) := h

theorem exhausted {f : Bool → Parser α} (h : Matches s place (f s.exhausted)) :
    Matches s place (Reading.exhausted >>= f) := h

/-! ## Alternatives and repetitions -/

theorem orElse_left {p q : Parser α} (hp : Matches s place p) :
    Matches s place (Reading.orElse p q) := by
  intro m
  obtain ⟨a, r, m', hx⟩ := hp m
  rw [orElse_apply, hx]
  exact ⟨a, r, m', rfl⟩

/-- Whatever the first alternative leaves in memory, the second one matches. -/
theorem orElse_right {p q : Parser α} (hq : Matches s place q) :
    Matches s place (Reading.orElse p q) := by
  intro m
  rw [orElse_apply]
  rcases p s place m with ⟨_ | ⟨a, r⟩, m'⟩
  · exact hq m'
  · exact ⟨a, r, m', rfl⟩

theorem optional (p : Parser α) : Matches s place (Reading.optional p) :=
  orElse_right (pure none)

theorem many (p : Parser α) (most : Option Nat) : Matches s place (Reading.many p 0 most) := by
  intro m
  rw [many_apply]
  exact ⟨_, _, _, rfl⟩

/-! ## Frames and memory -/

theorem nested {frame : Frame} {p : Parser α} (hfits : s.exhausted = false)
    (hp : Matches (s.push (s.deeper frame)) place p) :
    Matches s place (Reading.nested frame p) := by
  intro m
  rw [nested_apply, if_neg (by simp [hfits])]
  exact hp m

theorem recalling {p : Parser Node} (hp : Matches s place p) :
    Matches s place (Reading.recalling p) := by
  intro m
  rw [recalling_apply]
  cases m.find? place.offset s.nesting with
  | some r => exact ⟨r.node, r.after, m, rfl⟩
  | none =>
    obtain ⟨node, q, m', hx⟩ := hp m
    dsimp only
    rw [hx]
    dsimp only
    split
    · exact ⟨node, q, m', rfl⟩
    · exact ⟨node, q, _, rfl⟩

end Matches

end

/-! ## Pieces of text -/

section

variable {s : Scope} {place : Place} {c : Char} {cs : List Char}

theorem isSome_runOf? {inClass : Char → Bool} (hc : inClass c = true) :
    (runOf? inClass (c :: cs)).isSome = true := by
  simp [runOf?, hc]

/-- Plain text claims what is no markup, and a newline where it does not end a cell. -/
theorem matches_text (hrest : place.rest = c :: cs)
    (hc : (isMarkup c = false ∧ (s.localFlag Key.cellText = true → c ≠ '|')) ∨
      (c = '\n' ∧ s.localFlag Key.cellText = false)) : Matches s place text := by
  have hrun : ((if s.localFlag Key.cellText then Pattern.cellTextRun else .textRun).capture?
      place.rest).isSome = true := by
    rw [hrest]
    rcases hc with ⟨hplain, hbar⟩ | ⟨rfl, hcell⟩
    · cases hcell : s.localFlag Key.cellText with
      | true => exact isSome_runOf? (by simp [hplain, hbar hcell])
      | false =>
        -- A newline would be markup, so the run of plain text is what is matched.
        have hline : c ≠ '\n' := fun h => by simp [h, isMarkup] at hplain
        simp only [Bool.false_eq_true, if_false, Pattern.capture?]
        split
        · rfl
        · exact isSome_runOf? (by simp [hplain])
    · rw [hcell]
      rfl
  unfold Parser.text
  exact .here (.localFlag (.pattern_bind hrun fun _ _ => .here (.pure _)))

/-- A backslash is always claimed, with a character that it protects or alone. -/
theorem matches_escape (hrest : place.rest = '\\' :: cs) : Matches s place escape := by
  have hrun : (Pattern.escape.capture? place.rest).isSome = true := by
    rw [hrest]
    cases cs with
    | nil => rfl
    | cons d cs =>
      simp only [Pattern.capture?]
      split <;> rfl
  unfold Parser.escape
  exact .here (.pattern_bind hrun fun _ _ => .here (.pure _))

theorem matches_stray (hrest : place.rest = c :: cs)
    (hc : isStray (s.localFlag Key.topLevel) s.exhausted c = true) : Matches s place stray := by
  have hstep : nextChar place = some (c, place.skip [c] cs) := by
    simp [nextChar, Place.step?, hrest]
  unfold Parser.stray
  refine .here (.localFlag (.exhausted (.ofPlace_bind hstep ?_)))
  exact .require_bind hc (.here (.pure _))

/-! ## Braces -/

variable {inner : Grammar → Parser Node}

/-- Text in braces is claimed wherever an element may begin: what is inside is content,
which can be read at any place, and the closing brace may be missing. -/
theorem matches_unknown (hrest : place.rest = '{' :: cs) (hfits : s.exhausted = false)
    (hinner : ∀ q, Matches (s.push (s.deeper [])) q (inner .parts)) :
    Matches s place (unknown inner) := by
  unfold Parser.unknown
  refine .here (.exactly_bind hrest (.bind (.nested hfits (hinner _)) fun read _ => ?_))
  exact .bind (.optional _) fun _ _ => .here (.pure _)

/-- The forms may all fail; text in braces comes after them. -/
theorem matches_ofCatalog (h : Matches s place (unknown inner)) (forms : Catalog) :
    Matches s place (ofCatalog inner forms) := by
  induction forms with
  | nil => exact h
  | cons form forms ih => exact .orElse_right ih

theorem matches_element (hrest : place.rest = '{' :: cs) (hfits : s.exhausted = false)
    (hinner : ∀ q, Matches (s.push (s.deeper [])) q (inner .parts)) :
    Matches s place (element inner) := by
  have hbrace : (place.startsWith '{' && !s.exhausted) = true := by
    simp [Place.startsWith, hrest, hfits]
  unfold Parser.element
  refine .here (.exhausted (.require_bind hbrace (.catalog (.recalling ?_))))
  exact matches_ofCatalog (matches_unknown hrest hfits hinner) _

/-! ## Parts -/

/-- **Every character but a delimiter is claimed by some part.** The cases follow the
first character; where an opening brace may not begin an element any more, it is a
character like any other. -/
theorem matches_part (hstop : ¬ s.StopsAt place)
    (hinner : s.exhausted = false → ∀ q, Matches (s.push (s.deeper [])) q (inner .parts)) :
    Matches s place (part inner) := by
  simp only [Scope.StopsAt, Place.startsWith, not_or, not_and] at hstop
  obtain ⟨hmore, hclose, hcell⟩ := hstop
  obtain ⟨c, cs, hrest⟩ := List.exists_cons_of_ne_nil hmore
  rw [hrest] at hclose hcell
  unfold part
  by_cases hopen : c = '{'
  · subst hopen
    cases hdeep : s.exhausted with
    | false => exact .orElse_right (.orElse_left (matches_element hrest hdeep (hinner hdeep)))
    | true =>
      refine .orElse_right (.orElse_right (.orElse_right (.orElse_right (.orElse_right ?_))))
      exact matches_stray hrest (by simp [isStray, hdeep])
  refine .orElse_right (.orElse_right (.orElse_right ?_))
  by_cases hslash : c = '\\'
  · subst hslash
    exact .orElse_left (matches_escape hrest)
  refine .orElse_right ?_
  by_cases hstray : c = '\x60' ∨ c = '}'
  · refine .orElse_right (matches_stray hrest ?_)
    rcases hstray with rfl | rfl
    · rfl
    · simpa [isStray] using hclose rfl
  · refine .orElse_left (matches_text hrest ?_)
    rw [not_or] at hstray
    by_cases hline : c = '\n'
    · subst hline
      exact .inr ⟨rfl, Bool.eq_false_iff.mpr fun h => (hcell h).2 rfl⟩
    · refine .inl ⟨by simp [isMarkup, hstray, hopen, hslash, hline], fun h hbar => ?_⟩
      subst hbar
      exact (hcell h).1 rfl

/-- Content can be read at any place. -/
theorem matches_parts : Matches s place (Grammar.parts.readAbove inner) :=
  .here (.bind (.many _ none) fun _ _ => .here (.pure _))

/-- Where an element may begin, its content can be read one level deeper. -/
theorem matches_inside (hfits : s.exhausted = false) (t : Scope) :
    Matches t place (Grammar.inside (maxNesting - s.nesting) .parts) := by
  have hlevels : 0 < maxNesting - s.nesting := by
    simp only [Scope.exhausted, decide_eq_false_iff_not] at hfits
    omega
  obtain ⟨levels, hsucc⟩ := Nat.exists_eq_succ_of_ne_zero hlevels.ne'
  rw [hsucc]
  show Matches t place (Grammar.readAt levels .parts)
  rw [Grammar.readAt_eq]
  exact matches_parts

end

/-! ## Repetitions -/

variable {source : List Char} {s : Scope} {place : Place}

/-- What is yielded is attained where the parser matches, whatever is in memory. -/
theorem Attains.of_matches {α : Type} {K : Recollection → Prop} {p : Parser α}
    {Q : α → Place → Prop} (h : Matches s place p) (hy : Yields source K s place p Q) :
    Attains source K s place p Q := by
  intro hplace m hm
  obtain ⟨a, q, m', hx⟩ := h m
  obtain ⟨hm', hmatched⟩ := hy hplace m hm
  rw [hx] at hm' hmatched
  exact ⟨a, q, m', hx, hm', hmatched a q rfl⟩

/-- A round that moves on is kept. -/
theorem collect_cons {α : Type} {p : Parser α} {q : Place} {m m' : Memory} {a : α}
    (hx : p s place m = (some (a, q), m')) (hmoves : place.offset < q.offset) (fuel : Nat) :
    (collect p s (fuel + 1) none place m).1 =
      (a :: (collect p s fuel none q m').1.1, (collect p s fuel none q m').1.2) := by
  rw [collect_succ _ _ _ _ _ (by simp), hx]
  dsimp only
  rw [if_neg (by omega)]
  rfl

/-- A repetition that ends where it begins has had no round. -/
theorem collect_eq_nil {α : Type} {K : Recollection → Prop} {p : Parser α}
    (hp : ∀ q, Yields source K s q p fun _ r => q.offset < r.offset) {fuel : Nat} {m : Memory}
    (hplace : place.In source) (hm : m.Holds K)
    (hstay : (collect p s fuel none place m).1.2 = place) :
    (collect p s fuel none place m).1.1 = [] := by
  have hle := Yields.collect (J := fun q as t => q.offset ≤ t.offset ∧
    (as ≠ [] → q.offset < t.offset)) (fun q => ⟨Nat.le_refl _, fun h => absurd rfl h⟩)
    (fun q a r as t hR _ hJ => ⟨by omega, fun _ => by omega⟩) hp fuel none place m hplace hm
  obtain ⟨-, -, -, hmoved⟩ := hle
  by_contra hne
  have := hmoved hne
  rw [hstay] at this
  exact Nat.lt_irrefl _ this

/-- A repetition of something that always moves on ends where it does not match. There
are enough rounds, because each of them takes a byte at least. -/
theorem collect_exhausts {α : Type} {K : Recollection → Prop} {p : Parser α}
    (hp : ∀ q, Yields source K s q p fun _ r => q.offset < r.offset) (fuel : Nat) :
    ∀ (place : Place) (m : Memory), place.In source → m.Holds K → place.left < fuel →
      ¬ Attains source K s (Parser.collect p s fuel none place m).1.2 p fun _ _ => True := by
  induction fuel with
  | zero => exact fun _ _ _ _ hfuel => by omega
  | succ fuel ih =>
    intro place m hplace hm hfuel
    obtain ⟨hkept, hmatched⟩ := hp place hplace m hm
    rw [collect_succ _ _ _ _ _ (by simp)]
    cases hx : p s place m with
    | mk result m' =>
      rw [hx] at hkept hmatched
      cases result with
      | none =>
        intro hattains
        obtain ⟨a, q, m'', hy, -⟩ := hattains hplace m hm
        rw [hx] at hy
        cases hy
      | some aq =>
        obtain ⟨a, q⟩ := aq
        obtain ⟨hq, hmoves⟩ := hmatched a q rfl
        have hin := hplace.of_before hq
        have hleft : q.left < fuel := by
          have hend := hin.offset_le
          obtain ⟨-, -, -, hsize⟩ := hplace
          obtain ⟨-, -, -, hsize'⟩ := hin
          simp only [Place.left] at hfuel ⊢
          omega
        dsimp only
        rw [if_neg (by omega)]
        exact ih q m' hin hkept hleft

/-- A repetition attains what its rounds yield, and comes to a place where no other round is. -/
theorem Attains.many {α : Type} {K : Recollection → Prop} {p : Parser α}
    {R : Place → α → Place → Prop} {J : Place → List α → Place → Prop} (hnil : ∀ q, J q [] q)
    (hcons : ∀ q a r as t, R q a r → J r as t → J q (a :: as) t)
    (hmoves : ∀ q a r, R q a r → q.offset < r.offset)
    (hp : ∀ q, Yields source K s q p (R q)) :
    Attains source K s place (Reading.many p 0 none) fun as t =>
      J place as t ∧ ¬ Attains source K s t p fun _ _ => True := by
  intro hplace m hm
  obtain ⟨hkept, hbefore, hJ⟩ :=
    Yields.collect hnil (fun q a r as t hR _ => hcons q a r as t hR) hp (place.left + 1) none place
      m hplace hm
  have hends := collect_exhausts (fun q => (hp q).imp fun a r _ => hmoves q a r)
    (place.left + 1) place m hplace hm (Nat.lt_succ_self _)
  rw [many_apply]
  exact ⟨_, _, _, rfl, hkept, hbefore, hJ, hends⟩

/-- **Reading parts matches, and it ends at a delimiter.** -/
theorem parts_stop {m : Memory} (hplace : place.In source)
    (hm : m.Holds (Recollection.Exact source)) :
    ∃ node q m', (Grammar.parts.read : Parser Node) s place m = (some (node, q), m') ∧
      s.StopsAt q := by
  have hinner : ∀ g, Keeps source (Grammar.inside (maxNesting - s.nesting) g) := keeps_inside _
  have hmoves : ∀ q, Yields source (Recollection.Exact source) s q
      (part (Grammar.inside (maxNesting - s.nesting))) fun _ r => q.offset < r.offset :=
    fun q => (yieldsTile_part hinner).imp fun n r _ h => (Tiles.singleton_iff.mp h).2
  -- Where the repetition ends no part matches, and only a delimiter is no part.
  have hends := collect_exhausts hmoves (place.left + 1) place m hplace hm (Nat.lt_succ_self _)
  have hread : (Grammar.parts.read : Parser Node) s place m =
      (Grammar.parts.readAbove (Grammar.inside (maxNesting - s.nesting)) : Parser Node)
        s place m := by
    rw [← Grammar.readAt_eq]
    rfl
  refine ⟨_, _, _, hread, ?_⟩
  by_contra hstop
  exact hends (.of_matches (matches_part hstop fun hfits q => matches_inside hfits _)
    ((hmoves _).imp fun _ _ _ _ => trivial))

end Parser

/-! ## Cursors and documents -/

namespace Cursor

variable {source : String}

/-- Reading parts gives a node on every cursor that reading can come to, and stops. -/
theorem Reached.parts_stop {c : Cursor} (h : Reached source c) :
    ∃ node q m, c.tryRead .parts = (.ok node, { c with place := q, memory := m }) ∧
      (Grammar.parts.read : Parser Node) c.scope c.place c.memory = (some (node, q), m) ∧
      c.scope.StopsAt q := by
  obtain ⟨-, hplace, hm⟩ := h.exact
  obtain ⟨node, q, m, hx, hstop⟩ := Parser.parts_stop (s := c.scope) hplace hm
  rcases (Action.follows_read .parts).attempt h.sound with
    ⟨node', q', m', -, -, htry, hy⟩ | ⟨m', -, -, hy⟩
  · rw [hx] at hy
    cases hy
    exact ⟨node, q, m, htry, hx, hstop⟩
  · rw [hx] at hy
    cases hy

/-- The outermost text has no delimiter but its end. -/
theorem stopsAt_scope_iff (forms : Catalog) (p : Place) :
    (Document.scope forms).StopsAt p ↔ p.rest = [] := by
  have htop : (Document.scope forms).localFlag Key.topLevel = true := rfl
  have hcell : (Document.scope forms).localFlag Key.cellText = false := rfl
  simp [Scope.StopsAt, htop, hcell]

/-- At the beginning of a document all of the source is read as parts, and the document is
put together from these parts alone. -/
theorem read_document (forms : Catalog) (source : String) :
    ∃ node q m, (first source (Document.scope forms)).tryRead .parts =
        (.ok node, { first source (Document.scope forms) with place := q, memory := m }) ∧
      (Grammar.parts.read : Parser Node) (Document.scope forms) (.first source.toList) .empty =
        (some (node, q), m) ∧
      q.rest = [] ∧ q.offset = source.utf8ByteSize ∧
      (Document.read forms source).root =
        (Node.branch ⟨0, source.utf8ByteSize⟩ .document node.children).assemble := by
  have h : Reached source (first source (Document.scope forms)) := .first source _
  obtain ⟨node, q, m, htry, hx, hstop⟩ := h.parts_stop
  have hend : q.rest = [] := (stopsAt_scope_iff forms q).mp hstop
  have hlast : q.offset = source.utf8ByteSize := by
    have hin := (Reached.read h .parts).exact.2.1
    have hread : ((first source (Document.scope forms)).read .parts).2 =
        { first source (Document.scope forms) with place := q, memory := m } := by
      rw [read, htry]
    rw [hread] at hin
    rw [← width_toList]
    exact hin.offset_eq_width hend
  have hparts : Document.readParts (Document.scope forms)
      ((Place.first source.toList).left + 1) (.first source.toList) .empty = node.children := by
    rw [Document.readParts, show (Grammar.parts.read : Parser Node) (Document.scope forms)
      (.first source.toList) .empty = (some (node, q), m) from hx]
    simp only [Place.step?, hend]
  refine ⟨node, q, m, htry, hx, hend, hlast, ?_⟩
  rw [Document.read, Document.readWith, hparts, ← width_toList]
  rfl

/-- **Reading parts is total and stops at delimiters only.** On every cursor that reading
can come to there are parts to be read, be they none, and what is left afterwards is nothing
or begins with a delimiter of the frame. So at the beginning of a document, with any
catalogue, the whole source is read, and these parts alone are what the document is put
together from. -/
theorem readParts_stop (source : String) :
    (∀ c, Reached source c → (∃ node, (c.tryRead .parts).1 = .ok node) ∧
      c.scope.StopsAt c.readParts.2.place) ∧
    ∀ forms, let c := first source (Document.scope forms)
      c.readParts.2.place.rest = [] ∧
        c.readParts.2.place.offset = source.utf8ByteSize ∧
        (Document.read forms source).root =
          (Node.branch ⟨0, source.utf8ByteSize⟩ .document c.readParts.1).assemble := by
  constructor
  · intro c h
    obtain ⟨node, q, m, htry, -, hstop⟩ := h.parts_stop
    rw [readParts, read, htry]
    exact ⟨⟨node, rfl⟩, hstop⟩
  · intro forms c
    obtain ⟨node, q, m, htry, -, hend, hlast, hroot⟩ := read_document forms source
    rw [readParts, read, htry]
    exact ⟨hend, hlast, hroot⟩

/-- In the text of a cell and inside as many elements as there may be, an opening brace, a
backtick without another and a backslash without a character to protect are parts, and
reading ends before the bar. In a document with the same text it does not. -/
theorem readParts_stop_bar :
    let scope := (Scope.ofFrame [(Key.catalog, .catalog .standard),
      (Key.nesting, .number maxNesting)]).push Parser.cellFrame
    let source := "é\x7b\x60\\x|b\x7d"
    let c := first source scope
    Reached source c ∧ c.readParts.2.place.rest = ['|', 'b', '}'] ∧
      c.readParts.1.map (·.span) = [⟨0, 2⟩, ⟨2, 3⟩, ⟨3, 4⟩, ⟨4, 5⟩, ⟨5, 6⟩] ∧
      c.scope.StopsAt c.readParts.2.place ∧
      (first source (Document.scope .standard)).readParts.2.place.rest = [] := by
  intro scope source c
  have h : Reached source c := .first source scope
  obtain ⟨hcursor, hdocument⟩ := readParts_stop source
  obtain ⟨-, hstop⟩ := hcursor c h
  obtain ⟨hend, -⟩ := hdocument .standard
  refine And.intro h (And.intro ?_ (And.intro ?_ (And.intro ?_ ?_)))
  · decide +kernel
  · decide +kernel
  · assumption
  · assumption

end Cursor

end Bracemark
