/-
Reading on a cursor leaves no trace of what did not match.

An action changes the cursor in the middle of a match: it moves on, pushes a frame
and pops it, and keeps elements in memory. `Follows` compares an action with the
parser for the same thing, which has no frames to pop and no place to restore. The
invariant is that a frame is popped exactly where it was pushed: an action hands
back the scope that it was given, matched or not (`follows_inFrame`). What is left
to undo after a failure is the place, and every alternative and every round of a
repetition does that (`Follows.attempt`).

`Cursor.Sound` is what a cursor must satisfy for this: it stands between two
characters of its source, and so does the end of every element in its memory, not
before the element begins. Reading keeps it.
-/
import Bracemark.Proofs.Memory
import Bracemark.Cursor

set_option autoImplicit false

namespace Bracemark

open Reading

/-! ## Sound cursors -/

/-- The element ends at a place in the source, not before it begins. -/
def Recollection.EndsIn (source : List Char) (r : Recollection) : Prop :=
  r.after.In source ∧ r.start ≤ r.after.offset

namespace Cursor

/-- A cursor that stands in its source, with a memory of elements that end in it. -/
structure Sound (c : Cursor) : Prop where
  place : c.place.In c.source.toList
  memory : c.memory.Holds (Recollection.EndsIn c.source.toList)

/-- A cursor that has read nothing is sound wherever it stands in its source. -/
theorem Sound.of_empty {source : String} {place : Place} (h : place.In source.toList)
    (scope : Scope) : Sound ⟨source, place, scope, .empty⟩ :=
  ⟨h, .empty⟩

theorem Sound.moveTo {c : Cursor} (h : c.Sound) {q : Place} {m : Memory}
    (hq : c.place.Before q) (hm : m.Holds (Recollection.EndsIn c.source.toList)) :
    Sound { c with place := q, memory := m } :=
  ⟨h.place.of_before hq, hm⟩

theorem Sound.withScope {c : Cursor} (h : c.Sound) (s : Scope) : Sound { c with scope := s } :=
  ⟨h.place, h.memory⟩

end Cursor

/-! ## Actions and parsers -/

namespace Action

variable {α β : Type}

/-- What the action does on a cursor is what the parser gives there: both match, with
one value and one place, or both do not, and the scope is as it was. An action that
does not match may have moved on. -/
def Follows ⦃α : Type⦄ (p : Action α) (p' : Parser α) : Prop :=
  ∀ c : Cursor, c.Sound →
    (∃ a q m, c.place.Before q ∧ m.Holds (Recollection.EndsIn c.source.toList) ∧
      p c = (.ok a, { c with place := q, memory := m }) ∧
      p' c.scope c.place c.memory = (some (a, q), m)) ∨
    ∃ q m, c.place.Before q ∧ m.Holds (Recollection.EndsIn c.source.toList) ∧
      p c = (.error .noMatch, { c with place := q, memory := m }) ∧
      p' c.scope c.place c.memory = (none, m)

/-- Where the action does not match, trying it restores the place; only the memory may
have grown. -/
theorem Follows.attempt {p : Action α} {p' : Parser α} (h : Follows p p') {c : Cursor}
    (hc : c.Sound) :
    (∃ a q m, c.place.Before q ∧ m.Holds (Recollection.EndsIn c.source.toList) ∧
      c.attempt p = (.ok a, { c with place := q, memory := m }) ∧
      p' c.scope c.place c.memory = (some (a, q), m)) ∨
    ∃ m, m.Holds (Recollection.EndsIn c.source.toList) ∧
      c.attempt p = (.error .noMatch, { c with memory := m }) ∧
      p' c.scope c.place c.memory = (none, m) := by
  rcases h c hc with ⟨a, q, m, hq, hm, hx, hy⟩ | ⟨q, m, hq, hm, hx, hy⟩
  · exact .inl ⟨a, q, m, hq, hm, by simp only [Cursor.attempt, hx], hy⟩
  · refine .inr ⟨m, hm, ?_, hy⟩
    simp only [Cursor.attempt, hx, Cursor.goBack, Cursor.bookmark, Scope.rewind_mark]

/-! ## Each step -/

theorem follows_pure (a : α) : Follows (pure a) (pure a) :=
  fun c hc => .inl ⟨a, c.place, c.memory, .refl c.place, hc.memory, rfl, rfl⟩

theorem follows_fail : Follows (fail : Action α) fail :=
  fun c hc => .inr ⟨c.place, c.memory, .refl c.place, hc.memory, rfl, rfl⟩

theorem follows_bind {p : Action α} {p' : Parser α} {f : α → Action β} {f' : α → Parser β}
    (hp : Follows p p') (hf : ∀ a, Follows (f a) (f' a)) : Follows (p >>= f) (p' >>= f') := by
  intro c hc
  rw [bind_apply, Parser.bind_apply]
  rcases hp c hc with ⟨a, q, m, hq, hm, hx, hy⟩ | ⟨q, m, hq, hm, hx, hy⟩
  · rw [hx, hy]
    rcases hf a _ (hc.moveTo hq hm) with ⟨b, r, m', hr, hm', hx', hy'⟩ | ⟨r, m', hr, hm', hx', hy'⟩
    · exact .inl ⟨b, r, m', hq.trans hr, hm', hx', hy'⟩
    · exact .inr ⟨r, m', hq.trans hr, hm', hx', hy'⟩
  · rw [hx, hy]
    exact .inr ⟨q, m, hq, hm, rfl, rfl⟩

theorem follows_ofPlace {step : Place → Option (α × Place)} (hstep : Advances step) :
    Follows (ofPlace step) (ofPlace step) := by
  intro c hc
  rw [ofPlace_apply, Parser.ofPlace_apply]
  cases h : step c.place with
  | none => exact .inr ⟨c.place, c.memory, .refl c.place, hc.memory, rfl, rfl⟩
  | some aq => exact .inl ⟨aq.1, aq.2, c.memory, hstep _ _ _ h, hc.memory, rfl, rfl⟩

theorem follows_orElse {p q : Action α} {p' q' : Parser α} (hp : Follows p p')
    (hq : Follows q q') : Follows (orElse p q) (orElse p' q') := by
  intro c hc
  rw [orElse_apply, Parser.orElse_apply]
  rcases hp.attempt hc with ⟨a, r, m, hr, hm, hx, hy⟩ | ⟨m, hm, hx, hy⟩
  · rw [hx, hy]
    exact .inl ⟨a, r, m, hr, hm, rfl, rfl⟩
  · rw [hx, hy]
    -- The place is restored, so the second action starts where the second parser does.
    rcases hq.attempt (hc.moveTo (.refl c.place) hm) with
      ⟨a, r, m', hr, hm', hx', hy'⟩ | ⟨m', hm', hx', hy'⟩
    · exact .inl ⟨a, r, m', hr, hm', hx', hy'⟩
    · exact .inr ⟨c.place, m', .refl c.place, hm', hx', hy'⟩

/-- Repetition takes back its last round, so it ends in a place that the parser's
repetition ends in, and never without a match. -/
theorem follows_collect {p : Action α} {p' : Parser α} (hp : Follows p p') (fuel : Nat) :
    ∀ (limit : Option Nat) (c : Cursor), c.Sound →
      ∃ as q m, c.place.Before q ∧ m.Holds (Recollection.EndsIn c.source.toList) ∧
        collect p fuel limit c = (.ok as, { c with place := q, memory := m }) ∧
        Parser.collect p' c.scope fuel limit c.place c.memory = ((as, q), m) := by
  induction fuel with
  | zero => exact fun limit c hc => ⟨[], c.place, c.memory, .refl c.place, hc.memory, rfl, rfl⟩
  | succ fuel ih =>
    intro limit c hc
    by_cases hlimit : limit = some 0
    · subst hlimit
      exact ⟨[], c.place, c.memory, .refl c.place, hc.memory, rfl, rfl⟩
    rw [collect_succ _ _ _ hlimit, Parser.collect_succ _ _ _ _ _ hlimit]
    rcases hp.attempt hc with ⟨a, q, m, hq, hm, hx, hy⟩ | ⟨m, hm, hx, hy⟩
    · rw [hx, hy]
      by_cases hstay : q.offset = c.place.offset
      · -- The match took nothing, so the place is the one before it.
        obtain rfl := hq.eq_of_offset hstay
        refine ⟨[], c.place, m, .refl c.place, hm, ?_, ?_⟩
        · dsimp only
          rw [if_pos rfl]
        · dsimp only
          rw [if_pos rfl]
      · obtain ⟨as, r, m', hr, hm', hx', hy'⟩ :=
          ih (limit.map (· - 1)) _ (hc.moveTo hq hm)
        refine ⟨a :: as, r, m', hq.trans hr, hm', ?_, ?_⟩
        · dsimp only
          rw [if_neg hstay, hx']
        · dsimp only at hy' ⊢
          rw [if_neg hstay, hy']
    · rw [hx, hy]
      exact ⟨[], c.place, m, .refl c.place, hm, rfl, rfl⟩

theorem follows_many {p : Action α} {p' : Parser α} (least : Nat) (most : Option Nat)
    (hp : Follows p p') : Follows (many p least most) (many p' least most) := by
  intro c hc
  obtain ⟨as, q, m, hq, hm, hx, hy⟩ := follows_collect hp (c.place.left + 1) most c hc
  rw [many_apply, Parser.many_apply, hx, hy]
  dsimp only
  split
  · exact .inr ⟨q, m, hq, hm, rfl, rfl⟩
  · exact .inl ⟨as, q, m, hq, hm, rfl, rfl⟩

/-! ## Frames -/

/-- A frame is popped where it was pushed, whatever comes of what is read inside. -/
theorem withFrame_eq {p : Action α} {p' : Parser α} (hp : Follows p p') (frame : Frame)
    {c : Cursor} (hc : c.Sound) :
    (∃ a q m, c.place.Before q ∧ m.Holds (Recollection.EndsIn c.source.toList) ∧
      c.withFrame frame p = .ok (.ok a, { c with place := q, memory := m }) ∧
      p' (c.scope.push frame) c.place c.memory = (some (a, q), m)) ∨
    ∃ q m, c.place.Before q ∧ m.Holds (Recollection.EndsIn c.source.toList) ∧
      c.withFrame frame p = .ok (.error .noMatch, { c with place := q, memory := m }) ∧
      p' (c.scope.push frame) c.place c.memory = (none, m) := by
  rcases hp _ (hc.withScope (c.scope.push frame)) with
    ⟨a, q, m, hq, hm, hx, hy⟩ | ⟨q, m, hq, hm, hx, hy⟩
  · exact .inl ⟨a, q, m, hq, hm, by simp only [Cursor.withFrame, hx, Scope.pop?_push], hy⟩
  · exact .inr ⟨q, m, hq, hm, by simp only [Cursor.withFrame, hx, Scope.pop?_push], hy⟩

theorem follows_inFrame {p : Action α} {p' : Parser α} (frame : Frame) (hp : Follows p p') :
    Follows (inFrame frame p) (inFrame frame p') := by
  intro c hc
  rw [inFrame_apply, Parser.inFrame_apply]
  rcases withFrame_eq hp frame hc with ⟨a, q, m, hq, hm, hx, hy⟩ | ⟨q, m, hq, hm, hx, hy⟩
  · exact .inl ⟨a, q, m, hq, hm, by rw [hx], hy⟩
  · exact .inr ⟨q, m, hq, hm, by rw [hx], hy⟩

theorem follows_nested {p : Action α} {p' : Parser α} (frame : Frame) (hp : Follows p p') :
    Follows (nested frame p) (nested frame p') := by
  intro c hc
  rw [nested_apply, Parser.nested_apply]
  by_cases hdeep : c.scope.exhausted
  · rw [if_pos hdeep]
    refine .inr ⟨c.place, c.memory, .refl c.place, hc.memory, ?_, rfl⟩
    simp [Cursor.withNestedFrame, Cursor.exhausted, hdeep]
  · rw [if_neg hdeep]
    have hframe : c.withNestedFrame frame p =
        (c.withFrame (c.scope.deeper frame) p).map fun (result, d) => (some result, d) := by
      simp [Cursor.withNestedFrame, Cursor.exhausted, hdeep]
    rcases withFrame_eq hp (c.scope.deeper frame) hc with
      ⟨a, q, m, hq, hm, hx, hy⟩ | ⟨q, m, hq, hm, hx, hy⟩
    · exact .inl ⟨a, q, m, hq, hm, by rw [hframe, hx]; rfl, hy⟩
    · exact .inr ⟨q, m, hq, hm, by rw [hframe, hx]; rfl, hy⟩

/-! ## Memory -/

theorem follows_recalling {p : Action Node} {p' : Parser Node} (hp : Follows p p') :
    Follows (recalling p) (recalling p') := by
  intro c hc
  rw [recalling_apply, Parser.recalling_apply, Cursor.remembered]
  cases hfound : c.memory.find? c.place.offset c.scope.nesting with
  | some r =>
    -- The element begins at this place, so its end can be reached from here.
    obtain ⟨⟨hin, hle⟩, hstart, -⟩ := hc.memory.find? hfound
    exact .inl ⟨r.node, r.after, c.memory, hc.place.before_of_le hin (hstart ▸ hle), hc.memory,
      rfl, rfl⟩
  | none =>
    dsimp only
    rcases hp c hc with ⟨node, q, m, hq, hm, hx, hy⟩ | ⟨q, m, hq, hm, hx, hy⟩
    · rw [hx, hy]
      dsimp only
      split
      · exact .inl ⟨node, q, m, hq, hm, rfl, rfl⟩
      · exact .inl ⟨node, q, _, hq, hm.remember ⟨hc.place.of_before hq, hq.offset_le⟩, rfl, rfl⟩
    · rw [hx, hy]
      exact .inr ⟨q, m, hq, hm, rfl, rfl⟩

/-! ## Grammars -/

theorem relates_follows {inner : Grammar → Action Node} {inner' : Grammar → Parser Node}
    (hinner : ∀ g, Follows (inner g) (inner' g)) : Relates Follows inner inner' where
  pure := follows_pure
  bind := follows_bind
  fail := follows_fail
  here := fun c hc => .inl ⟨c.place, c.place, c.memory, .refl c.place, hc.memory, rfl, rfl⟩
  ofPlace := follows_ofPlace
  orElse := follows_orElse
  nested g := follows_nested [] (hinner g)
  many := follows_many
  localFlag key := fun c hc => .inl ⟨c.scope.localFlag key, c.place, c.memory, .refl c.place,
    hc.memory, rfl, rfl⟩
  nesting := fun c hc => .inl ⟨c.scope.nesting, c.place, c.memory, .refl c.place,
    hc.memory, rfl, rfl⟩
  inCell := follows_inFrame Parser.cellFrame
  recalling h := follows_bind
    (fun c hc => .inl ⟨c.scope.catalog, c.place, c.memory, .refl c.place, hc.memory, rfl, rfl⟩)
    fun forms => follows_recalling (h forms)

theorem follows_readAt (levels : Nat) (g : Grammar) :
    Follows (Grammar.readAt levels g) (Grammar.readAt levels g) := by
  induction levels generalizing g with
  | zero => exact (relates_follows fun _ => follows_fail).readAbove g
  | succ levels ih => exact (relates_follows ih).readAbove g

/-- Reading a grammar on a cursor follows reading it with scopes and places as values. -/
theorem follows_read (g : Grammar) : Follows (g.read : Action Node) g.read :=
  fun c hc => follows_readAt (maxNesting - c.scope.nesting) g c hc

end Action

/-! ## Cursors -/

namespace Cursor

/-- The two ways of reading a grammar come to the same on a sound cursor. -/
theorem read_eq_run {c : Cursor} (hc : c.Sound) (g : Grammar) : c.read g = c.run g.read := by
  rw [Cursor.read, Cursor.tryRead, Cursor.run]
  rcases (Action.follows_read g).attempt hc with ⟨a, q, m, -, -, hx, hy⟩ | ⟨m, -, hx, hy⟩
  · rw [hx, hy]; rfl
  · rw [hx, hy]; rfl

/-- Trying to read a grammar on a sound cursor changes the place and the memory alone, and the
place only where the grammar matches. -/
theorem tryRead_cases {c : Cursor} (hc : c.Sound) (g : Grammar) :
    (∃ node q m, c.place.Before q ∧ m.Holds (Recollection.EndsIn c.source.toList) ∧
      c.tryRead g = (.ok node, { c with place := q, memory := m })) ∨
    ∃ m, m.Holds (Recollection.EndsIn c.source.toList) ∧
      c.tryRead g = (.error .noMatch, { c with memory := m }) := by
  rcases (Action.follows_read g).attempt hc with ⟨node, q, m, hq, hm, hx, -⟩ | ⟨m, hm, hx, -⟩
  · exact .inl ⟨node, q, m, hq, hm, hx⟩
  · exact .inr ⟨m, hm, hx⟩

theorem source_tryRead {c : Cursor} (hc : c.Sound) (g : Grammar) :
    (c.tryRead g).2.source = c.source := by
  rcases tryRead_cases hc g with ⟨node, q, m, -, -, hx⟩ | ⟨m, -, hx⟩
  · rw [hx]
  · rw [hx]

theorem scope_tryRead {c : Cursor} (hc : c.Sound) (g : Grammar) :
    (c.tryRead g).2.scope = c.scope := by
  rcases tryRead_cases hc g with ⟨node, q, m, -, -, hx⟩ | ⟨m, -, hx⟩
  · rw [hx]
  · rw [hx]

theorem Sound.tryRead {c : Cursor} (hc : c.Sound) (g : Grammar) : (c.tryRead g).2.Sound := by
  rcases tryRead_cases hc g with ⟨node, q, m, hq, hm, hx⟩ | ⟨m, hm, hx⟩
  · rw [hx]
    exact hc.moveTo hq hm
  · rw [hx]
    exact hc.moveTo (.refl c.place) hm

/-- **Backtracking is pure.** Reading any grammar on a sound cursor never pops a frame
that was not pushed and hands back the scope entry for entry and frame for frame. What
does not match leaves the place, and what matches goes on to a boundary of the source
that is not before the old place. The cursor stays sound. -/
theorem tryRead_restores (c : Cursor) (g : Grammar) (hc : c.Sound) :
    (c.tryRead g).2.source = c.source ∧ (c.tryRead g).2.scope = c.scope ∧
      (c.tryRead g).2.Sound ∧
      (((c.tryRead g).1 = .error .noMatch ∧ (c.tryRead g).2.place = c.place) ∨
        ∃ node, (c.tryRead g).1 = .ok node ∧
          IsBoundary c.source.toList (c.tryRead g).2.place.offset ∧
          c.place.offset ≤ (c.tryRead g).2.place.offset ∧
          (c.tryRead g).2.place.offset ≤ c.source.utf8ByteSize) := by
  refine ⟨source_tryRead hc g, scope_tryRead hc g, hc.tryRead g, ?_⟩
  rcases tryRead_cases hc g with ⟨node, q, m, hq, -, hx⟩ | ⟨m, -, hx⟩
  · have hin := hc.place.of_before hq
    rw [hx]
    refine .inr ⟨node, rfl, hin.boundary, hq.offset_le, ?_⟩
    rw [← width_toList]
    exact hin.offset_le
  · rw [hx]
    exact .inl ⟨rfl, rfl⟩

/-- A sequence that fails after an element has been read, which pushed a frame and went
past a character of two bytes, leaves the cursor as it found it. -/
theorem tryRead_restores_sequence :
    let c : Cursor := ⟨"ü{é}c", ⟨2, 7, ['{', 'é', '}', 'c']⟩, Scope.empty.push Parser.cellFrame,
      .empty⟩
    let g : Grammar := .sequence [.rule .element, .literal "b"]
    c.Sound ∧ (c.tryRead g).2.scope = c.scope ∧ (c.tryRead g).2.Sound ∧
      (c.tryRead g).2.place = c.place := by
  intro c g
  have hc : c.Sound := Sound.of_empty ⟨['ü'], by decide, by decide, by decide⟩ _
  have h := tryRead_restores c g hc
  exact ⟨hc, h.2.1, h.2.2.1, by decide +kernel⟩

end Cursor

end Bracemark
