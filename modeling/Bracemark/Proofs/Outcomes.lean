/-
What reading yields.

`Yields K s place p Q` is the triple that reading is reasoned with: started at a place
of the source in the scope `s`, the parser `p` goes on to a place of the source where
`Q` holds of the value and the place, or it does not match. Memory is under an invariant
`K` on recollections, which what is recalled brings in and what is kept must satisfy, so
a value that comes from memory is as good as one that has been read.

There is one rule for each step of reading. A property of a parser is derived by
following its text with these rules. `Attains` is the same triple with the promise that the
parser does match.
-/
import Bracemark.Proofs.Memory

set_option autoImplicit false

namespace Bracemark

open Reading

namespace Parser

section

variable (source : List Char) (K : Recollection → Prop)

/-- What `p` matches at `place` goes on in the source and satisfies `Q`, and the memory
keeps to `K`. -/
def Yields {α : Type} (s : Scope) (place : Place) (p : Parser α) (Q : α → Place → Prop) : Prop :=
  place.In source → ∀ m, m.Holds K → (p s place m).2.Holds K ∧
    ∀ a q, (p s place m).1 = some (a, q) → place.Before q ∧ Q a q

end

namespace Yields

variable {source : List Char} {K : Recollection → Prop} {α β : Type} {s : Scope} {place : Place}

/-! ## Rules of the triple -/

/-- The place that reading starts at may be taken to stand in the source. -/
theorem of_in {p : Parser α} {Q : α → Place → Prop}
    (h : place.In source → Yields source K s place p Q) : Yields source K s place p Q :=
  fun hplace => h hplace hplace

theorem imp {p : Parser α} {P Q : α → Place → Prop} (h : Yields source K s place p P)
    (hPQ : ∀ a q, place.Before q → P a q → Q a q) : Yields source K s place p Q := by
  intro hplace m hm
  obtain ⟨hkept, hmatched⟩ := h hplace m hm
  refine ⟨hkept, fun a q hq => ?_⟩
  obtain ⟨hbefore, hP⟩ := hmatched a q hq
  exact ⟨hbefore, hPQ a q hbefore hP⟩

theorem pure {a : α} {Q : α → Place → Prop} (h : Q a place) :
    Yields source K s place (Pure.pure a) Q := by
  intro _ m hm
  refine ⟨hm, fun b q hq => ?_⟩
  cases hq
  exact ⟨.refl place, h⟩

theorem fail {Q : α → Place → Prop} : Yields source K s place Reading.fail Q :=
  fun _ _ hm => ⟨hm, fun _ _ h => by cases h⟩

/-- Reading on from wherever the first part may have come to. -/
theorem bind {p : Parser α} {f : α → Parser β} {P : α → Place → Prop} {Q : β → Place → Prop}
    (hp : Yields source K s place p P)
    (hf : ∀ a q, place.Before q → P a q → Yields source K s q (f a) Q) :
    Yields source K s place (p >>= f) Q := by
  intro hplace m hm
  obtain ⟨hkept, hmatched⟩ := hp hplace m hm
  rw [bind_apply]
  generalize p s place m = x at *
  obtain ⟨result, m'⟩ := x
  cases result with
  | none => exact ⟨hkept, fun _ _ h => by cases h⟩
  | some aq =>
    obtain ⟨a, q⟩ := aq
    obtain ⟨hq, hP⟩ := hmatched a q rfl
    obtain ⟨hkept', hmatched'⟩ := hf a q hq hP (hplace.of_before hq) m' hkept
    refine ⟨hkept', fun b r hr => ?_⟩
    obtain ⟨hqr, hQ⟩ := hmatched' b r hr
    exact ⟨hq.trans hqr, hQ⟩

/-! ## Steps -/

theorem ofPlace {step : Place → Option (α × Place)} (hstep : Advances step) :
    Yields source K s place (Reading.ofPlace step) fun a q => step place = some (a, q) :=
  fun _ _ hm => ⟨hm, fun a q h => ⟨hstep place a q h, h⟩⟩

theorem pattern {p : Pattern} : Yields source K s place (Reading.pattern p) fun _ _ => True :=
  (ofPlace (advances_pattern p)).imp fun _ _ _ _ => trivial

/-- Characters that are matched as they stand are taken, and no others. -/
theorem exactly {cs : List Char} : Yields source K s place (Reading.exactly cs)
    fun _ q => q.offset = place.offset + width cs := by
  refine (ofPlace (advances_exactly cs)).imp fun _ q _ h => ?_
  split at h <;> cases h
  rfl

theorem arguments : Yields source K s place (Parser.arguments : Parser Arguments)
    fun _ _ => True :=
  (ofPlace advances_arguments).imp fun _ _ _ _ => trivial

theorem require {condition : Bool} : Yields source K s place (Reading.require condition)
    fun _ q => condition = true ∧ q = place := by
  unfold Reading.require
  split
  · next h => exact pure ⟨h, rfl⟩
  · exact fail

theorem ofOption {o : Option α} : Yields source K s place (Reading.ofOption o)
    fun a q => o = some a ∧ q = place := by
  cases o with
  | none => exact fail
  | some a => exact pure ⟨rfl, rfl⟩

/-! ## Questions

What is asked of place and scope takes nothing, so the answer is put in its place. -/

theorem here {f : Place → Parser α} {Q : α → Place → Prop}
    (h : Yields source K s place (f place) Q) :
    Yields source K s place (Reading.here >>= f) Q := h

theorem localFlag {key : String} {f : Bool → Parser α} {Q : α → Place → Prop}
    (h : Yields source K s place (f (s.localFlag key)) Q) :
    Yields source K s place (Reading.localFlag key >>= f) Q := h

theorem catalog {f : Catalog → Parser α} {Q : α → Place → Prop}
    (h : Yields source K s place (f s.catalog) Q) :
    Yields source K s place (Reading.catalog >>= f) Q := h

theorem nesting {f : Nat → Parser α} {Q : α → Place → Prop}
    (h : Yields source K s place (f s.nesting) Q) :
    Yields source K s place (Reading.nesting >>= f) Q := h

theorem exhausted {f : Bool → Parser α} {Q : α → Place → Prop}
    (h : Yields source K s place (f s.exhausted) Q) :
    Yields source K s place (Reading.exhausted >>= f) Q := h

/-! ## Alternatives and repetitions -/

theorem orElse {p q : Parser α} {Q : α → Place → Prop} (hp : Yields source K s place p Q)
    (hq : Yields source K s place q Q) : Yields source K s place (Reading.orElse p q) Q := by
  intro hplace m hm
  have h := hp hplace m hm
  rw [orElse_apply]
  generalize p s place m = x at *
  obtain ⟨result, m'⟩ := x
  cases result with
  | none => exact hq hplace m' h.1
  | some aq => exact h

theorem optional {p : Parser α} {P : α → Place → Prop} (hp : Yields source K s place p P) :
    Yields source K s place (Reading.optional p) fun o q =>
      match o with
      | some a => P a q
      | none => q = place :=
  orElse (hp.bind fun _ _ _ h => pure h) (pure rfl)

/-- What one round yields, from any place that repetition may have come to, is put
together by an induction over the rounds. A round that takes nothing is not kept. -/
theorem collect {p : Parser α} {R : Place → α → Place → Prop}
    {J : Place → List α → Place → Prop} (hnil : ∀ q, J q [] q)
    (hcons : ∀ q a r as t, R q a r → r.offset ≠ q.offset → J r as t → J q (a :: as) t)
    (hp : ∀ q, Yields source K s q p (R q)) (fuel : Nat) :
    ∀ (limit : Option Nat) (place : Place) (m : Memory), place.In source → m.Holds K →
      (Parser.collect p s fuel limit place m).2.Holds K ∧
        place.Before (Parser.collect p s fuel limit place m).1.2 ∧
        J place (Parser.collect p s fuel limit place m).1.1
          (Parser.collect p s fuel limit place m).1.2 := by
  induction fuel with
  | zero => exact fun _ place m _ hm => ⟨hm, .refl place, hnil place⟩
  | succ fuel ih =>
    intro limit place m hplace hm
    by_cases hlimit : limit = some 0
    · subst hlimit
      exact ⟨hm, .refl place, hnil place⟩
    obtain ⟨hkept, hmatched⟩ := hp place hplace m hm
    rw [collect_succ _ _ _ _ _ hlimit]
    generalize p s place m = x at *
    obtain ⟨result, m'⟩ := x
    cases result with
    | none => exact ⟨hkept, .refl place, hnil place⟩
    | some aq =>
      obtain ⟨a, q⟩ := aq
      obtain ⟨hq, hR⟩ := hmatched a q rfl
      dsimp only
      split
      · -- The round that stays is thrown away, but what it kept in memory stays.
        exact ⟨hkept, .refl place, hnil place⟩
      · next hmoves =>
        obtain ⟨h1, h2, h3⟩ := ih (limit.map (· - 1)) q m' (hplace.of_before hq) hkept
        exact ⟨h1, hq.trans h2, hcons place a q _ _ hR hmoves h3⟩

theorem many {p : Parser α} {R : Place → α → Place → Prop} {J : Place → List α → Place → Prop}
    (hnil : ∀ q, J q [] q)
    (hcons : ∀ q a r as t, R q a r → r.offset ≠ q.offset → J r as t → J q (a :: as) t)
    (hp : ∀ q, Yields source K s q p (R q)) (least : Nat) (most : Option Nat) :
    Yields source K s place (Reading.many p least most) (J place) := by
  intro hplace m hm
  obtain ⟨h1, h2, h3⟩ := collect hnil hcons hp (place.left + 1) most place m hplace hm
  rw [many_apply]
  generalize Parser.collect p s (place.left + 1) most place m = x at *
  obtain ⟨⟨as, q⟩, m'⟩ := x
  dsimp only
  split
  · exact ⟨h1, fun _ _ h => by cases h⟩
  · refine ⟨h1, fun as' q' h => ?_⟩
    cases h
    exact ⟨h2, h3⟩

/-! ## Frames and memory -/

theorem inFrame {frame : Frame} {p : Parser α} {Q : α → Place → Prop}
    (h : Yields source K (s.push frame) place p Q) :
    Yields source K s place (Reading.inFrame frame p) Q := h

theorem nested {frame : Frame} {p : Parser α} {Q : α → Place → Prop}
    (h : s.exhausted = false → Yields source K (s.push (s.deeper frame)) place p Q) :
    Yields source K s place (Reading.nested frame p) Q := by
  intro hplace m hm
  rw [nested_apply]
  split
  · exact ⟨hm, fun _ _ h => by cases h⟩
  · next hfits => exact h (by simpa using hfits) hplace m hm

/-- An element from memory is what the invariant says of it; one that is read is kept
under the invariant. -/
theorem recalling {p : Parser Node} {Q : Node → Place → Prop}
    (hrecalled : ∀ r, K r → r.start = place.offset → r.nesting = s.nesting →
      place.Before r.after ∧ Q r.node r.after)
    (hp : Yields source K s place p Q)
    (hkept : ∀ node q, place.Before q → Q node q → K ⟨place.offset, s.nesting, node, q⟩) :
    Yields source K s place (Reading.recalling p) Q := by
  intro hplace m hm
  rw [recalling_apply]
  cases hfound : m.find? place.offset s.nesting with
  | some r =>
    obtain ⟨hK, hstart, hnesting⟩ := hm.find? hfound
    refine ⟨hm, fun a q h => ?_⟩
    cases h
    exact hrecalled r hK hstart hnesting
  | none =>
    obtain ⟨hm', hmatched⟩ := hp hplace m hm
    dsimp only
    generalize p s place m = x at *
    obtain ⟨result, m'⟩ := x
    cases result with
    | none => exact ⟨hm', fun _ _ h => by cases h⟩
    | some aq =>
      obtain ⟨node, q⟩ := aq
      obtain ⟨hq, hQ⟩ := hmatched node q rfl
      have hend : ∀ a r, some (node, q) = some (a, r) → place.Before r ∧ Q a r := by
        intro a r h
        cases h
        exact ⟨hq, hQ⟩
      dsimp only
      split
      · exact ⟨hm', hend⟩
      · exact ⟨hm'.remember (hkept node q hq hQ), hend⟩

end Yields

/-! ## Reading that matches -/

section

variable (source : List Char) (K : Recollection → Prop)

/-- `p` matches at `place` whenever the memory keeps to `K`, goes on in the source and satisfies
`Q`, and the memory keeps to `K`. -/
def Attains {α : Type} (s : Scope) (place : Place) (p : Parser α) (Q : α → Place → Prop) : Prop :=
  place.In source → ∀ m, m.Holds K → ∃ a q m', p s place m = (some (a, q), m') ∧ m'.Holds K ∧
    place.Before q ∧ Q a q

end

namespace Attains

variable {source : List Char} {K : Recollection → Prop} {α β : Type} {s : Scope} {place : Place}
  {p : Parser α} {P Q : α → Place → Prop} {R : β → Place → Prop}

/-- What is attained is what is yielded, there being one outcome only. -/
theorem yields (h : Attains source K s place p Q) : Yields source K s place p Q := by
  intro hplace m hm
  obtain ⟨a, q, m', hx, hm', hq, hQ⟩ := h hplace m hm
  rw [hx]
  refine ⟨hm', ?_⟩
  rintro _ _ ⟨⟩
  exact ⟨hq, hQ⟩

theorem imp (h : Attains source K s place p P)
    (hPQ : ∀ a q, place.Before q → P a q → Q a q) : Attains source K s place p Q := by
  intro hplace m hm
  obtain ⟨a, q, m', hx, hm', hq, hP⟩ := h hplace m hm
  exact ⟨a, q, m', hx, hm', hq, hPQ a q hq hP⟩

theorem pure {a : α} (h : Q a place) : Attains source K s place (Pure.pure a) Q :=
  fun _ m hm => ⟨a, place, m, rfl, hm, .refl place, h⟩

theorem bind {f : α → Parser β} (hp : Attains source K s place p P)
    (hf : ∀ a q, place.Before q → P a q → Attains source K s q (f a) R) :
    Attains source K s place (p >>= f) R := by
  intro hplace m hm
  obtain ⟨a, q, m', hx, hm', hq, hP⟩ := hp hplace m hm
  obtain ⟨b, r, m'', hy, hm'', hr, hR⟩ := hf a q hq hP (hplace.of_before hq) m' hm'
  refine ⟨b, r, m'', ?_, hm'', hq.trans hr, hR⟩
  rw [bind_apply, hx]
  exact hy

theorem pattern {p : Pattern} {c : Capture} (hp : p.capture? place.rest = some c) :
    Attains source K s place (Reading.pattern p) fun d q =>
      d = c ∧ q = place.skip c.text c.rest := by
  refine fun _ m hm => ⟨c, place.skip c.text c.rest, m, ?_, hm, ?_, rfl, rfl⟩
  · rw [Reading.pattern, ofPlace_apply, hp]
    rfl
  · exact Place.before_skip (Pattern.text_append_rest hp)

theorem exactly_bind {cs rest : List Char} {f : Unit → Parser β} (hrest : place.rest = cs ++ rest)
    (hf : Attains source K s (place.skip cs rest) (f ()) R) :
    Attains source K s place (Reading.exactly cs >>= f) R := by
  refine bind (P := fun _ q => q = place.skip cs rest) ?_ ?_
  · refine fun _ m hm => ⟨(), _, m, ?_, hm, Place.before_skip hrest.symm, rfl⟩
    rw [Reading.exactly, ofPlace_apply, if_pos (by simp [hrest]), hrest, List.drop_left]
  · rintro _ _ - rfl
    exact hf

theorem require_bind {condition : Bool} {f : Unit → Parser β} (h : condition = true)
    (hf : Attains source K s place (f ()) R) :
    Attains source K s place (Reading.require condition >>= f) R := by
  subst h
  exact hf

theorem here {f : Place → Parser β} (h : Attains source K s place (f place) R) :
    Attains source K s place (Reading.here >>= f) R := h

theorem inFrame {frame : Frame} (h : Attains source K (s.push frame) place p Q) :
    Attains source K s place (Reading.inFrame frame p) Q := h

theorem orElse_left {q : Parser α} (h : Attains source K s place p Q) :
    Attains source K s place (Reading.orElse p q) Q := by
  intro hplace m hm
  obtain ⟨a, r, m', hx, hend⟩ := h hplace m hm
  exact ⟨a, r, m', by rw [orElse_apply, hx], hend⟩

/-- Where the first alternative may match or not, the second one does. -/
theorem orElse_right {q : Parser α} (hp : Yields source K s place p Q)
    (hq : Attains source K s place q Q) : Attains source K s place (Reading.orElse p q) Q := by
  intro hplace m hm
  obtain ⟨hm', hmatched⟩ := hp hplace m hm
  rw [orElse_apply]
  generalize p s place m = x at *
  obtain ⟨_ | ⟨a, r⟩, m'⟩ := x
  · exact hq hplace m' hm'
  · exact ⟨a, r, m', rfl, hm', hmatched a r rfl⟩

end Attains

end Parser

end Bracemark
