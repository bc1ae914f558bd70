/-
What reading comes to.

`Reads s place p Q` says that a parser matches at a place and that its value and the place
after it satisfy `Q`; `Refuses s place p` says that it does not match there. Both speak of
reading without memory. That is enough to know what a document is, since remembering changes
nothing (`Document.root_of_reads`), and it makes one of each outcome: whatever has been tried
before, the same text is read in the same way.

There is one rule for each step that parsers are built from. Repetition has two: it ends where
what is repeated is refused, and where that is read and moves on, it goes on from there
(`Collects.stop`, `Collects.cons`).
-/
import Bracemark.Proofs.Memory

set_option autoImplicit false

namespace Bracemark

/-! ## The size of a place -/

namespace Place

/-- What is left of the source is what has not been read yet. -/
def Fits (p : Place) : Prop :=
  p.size = p.offset + width p.rest

variable {p q : Place}

theorem fits_first (source : List Char) : (first source).Fits :=
  (Nat.zero_add _).symm

theorem In.fits {source : List Char} (h : p.In source) : p.Fits := by
  obtain ⟨passed, rfl, hoffset, hsize⟩ := h
  rw [Fits, hsize, width_append, hoffset]

theorem Fits.of_before (h : p.Fits) (hpq : p.Before q) : q.Fits := by
  obtain ⟨taken, hrest, hq⟩ := hpq
  have hsize : p.size = p.offset + (width taken + width q.rest) := by
    rw [h, hrest, width_append]
  rw [hq, Fits, skip_size, skip_offset, skip_rest]
  omega

theorem skip_skip (p : Place) (taken more rest rest' : List Char) :
    (p.skip taken rest).skip more rest' = p.skip (taken ++ more) rest' := by
  simp only [skip, width_append, Nat.add_assoc]

theorem skip_nil (p : Place) : p.skip [] p.rest = p := rfl

theorem Fits.left (h : p.Fits) : p.left = width p.rest := by
  rw [Place.left, h]
  omega

theorem Before.left_lt (hpq : p.Before q) (h : p.Fits) (hlt : p.offset < q.offset) :
    q.left < p.left := by
  have hq := h.of_before hpq
  obtain ⟨taken, hrest, hskip⟩ := hpq
  have hoffset : q.offset = p.offset + width taken := congrArg Place.offset hskip
  rw [h.left, hq.left, hrest, width_append]
  omega

end Place

namespace Parser

variable {α β : Type} {s : Scope} {place : Place}

/-- At `place` the parser matches, with a value and a place that satisfy `Q`. -/
def Reads (s : Scope) (place : Place) (p : Parser α) (Q : α → Place → Prop) : Prop :=
  ∀ m : Memory, m.recalls = false →
    ∃ a q m', p s place m = (some (a, q), m') ∧ m'.recalls = false ∧ Q a q

/-- At `place` the parser does not match. -/
def Refuses (s : Scope) (place : Place) (p : Parser α) : Prop :=
  ∀ m : Memory, m.recalls = false → ∃ m', p s place m = (none, m') ∧ m'.recalls = false

/-- Repeated from `place` on for as long as it matches and moves on, the parser gives values and
comes to a place that satisfy `J`. -/
def Collects (s : Scope) (place : Place) (p : Parser α) (J : List α → Place → Prop) : Prop :=
  ∀ (fuel : Nat) (m : Memory), place.left < fuel → m.recalls = false →
    ∃ as q m', collect p s fuel none place m = ((as, q), m') ∧ m'.recalls = false ∧ J as q

/-! ## Steps -/

namespace Reads

variable {p : Parser α} {f : α → Parser β} {P Q : α → Place → Prop} {R : β → Place → Prop}

theorem imp (h : Reads s place p P) (hPQ : ∀ a q, P a q → Q a q) : Reads s place p Q := by
  intro m hm
  obtain ⟨a, q, m', hx, hm', ha⟩ := h m hm
  exact ⟨a, q, m', hx, hm', hPQ a q ha⟩

theorem pure {a : α} (h : Q a place) : Reads s place (Pure.pure a) Q :=
  fun m hm => ⟨a, place, m, rfl, hm, h⟩

theorem bind (hp : Reads s place p P) (hf : ∀ a q, P a q → Reads s q (f a) R) :
    Reads s place (p >>= f) R := by
  intro m hm
  obtain ⟨a, q, m', hx, hm', ha⟩ := hp m hm
  rw [bind_apply, hx]
  exact hf a q ha m' hm'

theorem ofPlace {step : Place → Option (α × Place)} {a : α} {q : Place}
    (hstep : step place = some (a, q)) :
    Reads s place (Reading.ofPlace step) fun b r => b = a ∧ r = q :=
  fun m hm => ⟨a, q, m, by rw [ofPlace_apply, hstep], hm, rfl, rfl⟩

theorem ofPlace_bind {step : Place → Option (α × Place)} {a : α} {q : Place}
    (hstep : step place = some (a, q)) (hf : Reads s q (f a) R) :
    Reads s place (Reading.ofPlace step >>= f) R := by
  refine (ofPlace hstep).bind ?_
  rintro _ _ ⟨rfl, rfl⟩
  exact hf

theorem pattern {p : Pattern} {c : Capture} (hp : p.capture? place.rest = some c) :
    Reads s place (Reading.pattern p) fun d q => d = c ∧ q = place.skip c.text c.rest :=
  ofPlace (by rw [hp]; rfl)

theorem pattern_bind {p : Pattern} {c : Capture} {f : Capture → Parser β}
    (hp : p.capture? place.rest = some c) (hf : Reads s (place.skip c.text c.rest) (f c) R) :
    Reads s place (Reading.pattern p >>= f) R :=
  ofPlace_bind (by rw [hp]; rfl) hf

theorem exactly_bind {cs rest : List Char} {f : Unit → Parser β}
    (hrest : place.rest = cs ++ rest) (hf : Reads s (place.skip cs rest) (f ()) R) :
    Reads s place (Reading.exactly cs >>= f) R := by
  refine ofPlace_bind ?_ hf
  rw [if_pos (by simp [hrest]), hrest, List.drop_left]

theorem require_bind {condition : Bool} {f : Unit → Parser β} (h : condition = true)
    (hf : Reads s place (f ()) R) : Reads s place (Reading.require condition >>= f) R := by
  subst h
  exact hf

theorem ofOption_bind {o : Option α} {a : α} (ho : o = some a) (hf : Reads s place (f a) R) :
    Reads s place (Reading.ofOption o >>= f) R := by
  subst ho
  exact hf

theorem here_bind {f : Place → Parser β} (h : Reads s place (f place) R) :
    Reads s place (Reading.here >>= f) R := h

theorem localFlag_bind {key : String} {f : Bool → Parser β}
    (h : Reads s place (f (s.localFlag key)) R) :
    Reads s place (Reading.localFlag key >>= f) R := h

theorem catalog_bind {f : Catalog → Parser β} (h : Reads s place (f s.catalog) R) :
    Reads s place (Reading.catalog >>= f) R := h

theorem exhausted_bind {f : Bool → Parser β} (h : Reads s place (f s.exhausted) R) :
    Reads s place (Reading.exhausted >>= f) R := h

/-! ## Alternatives -/

theorem orElse_left {q : Parser α} (h : Reads s place p Q) :
    Reads s place (Reading.orElse p q) Q := by
  intro m hm
  obtain ⟨a, r, m', hx, hm', ha⟩ := h m hm
  exact ⟨a, r, m', by rw [orElse_apply, hx], hm', ha⟩

theorem orElse_right {q : Parser α} (hp : Refuses s place p) (h : Reads s place q Q) :
    Reads s place (Reading.orElse p q) Q := by
  intro m hm
  obtain ⟨m', hx, hm'⟩ := hp m hm
  rw [orElse_apply, hx]
  exact h m' hm'

theorem optional_some (h : Reads s place p Q) :
    Reads s place (Reading.optional p) fun o q => ∃ a, o = some a ∧ Q a q :=
  orElse_left (h.bind fun a _ ha => pure ⟨a, rfl, ha⟩)

theorem optional_none (h : Refuses s place p) :
    Reads s place (Reading.optional p) fun o q => o = none ∧ q = place := by
  refine orElse_right (fun m hm => ?_) (pure ⟨rfl, rfl⟩)
  obtain ⟨m', hx, hm'⟩ := h m hm
  exact ⟨m', by rw [bind_apply, hx], hm'⟩

/-! ## Frames, memory and repetition -/

theorem inFrame {frame : Frame} (h : Reads (s.push frame) place p Q) :
    Reads s place (Reading.inFrame frame p) Q := h

theorem nested {frame : Frame} (hfits : s.exhausted = false)
    (h : Reads (s.push (s.deeper frame)) place p Q) :
    Reads s place (Reading.nested frame p) Q := by
  intro m hm
  rw [nested_apply, if_neg (by simp [hfits])]
  exact h m hm

theorem recalling {p : Parser Node} {Q : Node → Place → Prop} (h : Reads s place p Q) :
    Reads s place (Reading.recalling p) Q := by
  intro m hm
  obtain ⟨n, q, m', hx, hm', hn⟩ := h m hm
  rw [recalling_apply, Memory.find?_of_forgetful hm]
  dsimp only
  rw [hx]
  dsimp only
  by_cases hnone : s.nesting = 0
  · rw [if_pos hnone]
    exact ⟨n, q, m', rfl, hm', hn⟩
  · rw [if_neg hnone]
    exact ⟨n, q, _, rfl, hm', hn⟩

theorem many {J : List α → Place → Prop} (h : Collects s place p J) :
    Reads s place (Reading.many p 0 none) J := by
  intro m hm
  obtain ⟨as, q, m', hx, hm', has⟩ := h (place.left + 1) m (Nat.lt_succ_self _) hm
  exact ⟨as, q, m', by rw [many_apply, hx]; rfl, hm', has⟩

end Reads

namespace Refuses

variable {p : Parser α} {f : α → Parser β} {P : α → Place → Prop}

theorem fail : Refuses s place (Reading.fail : Parser α) :=
  fun m hm => ⟨m, rfl, hm⟩

theorem bind_left (h : Refuses s place p) : Refuses s place (p >>= f) := by
  intro m hm
  obtain ⟨m', hx, hm'⟩ := h m hm
  exact ⟨m', by rw [bind_apply, hx], hm'⟩

theorem bind_right (hp : Reads s place p P) (hf : ∀ a q, P a q → Refuses s q (f a)) :
    Refuses s place (p >>= f) := by
  intro m hm
  obtain ⟨a, q, m', hx, hm', ha⟩ := hp m hm
  rw [bind_apply, hx]
  exact hf a q ha m' hm'

theorem ofPlace {step : Place → Option (α × Place)} (hstep : step place = none) :
    Refuses s place (Reading.ofPlace step) :=
  fun m hm => ⟨m, by rw [ofPlace_apply, hstep], hm⟩

theorem ofPlace_bind {step : Place → Option (α × Place)} {a : α} {q : Place}
    (hstep : step place = some (a, q)) (hf : Refuses s q (f a)) :
    Refuses s place (Reading.ofPlace step >>= f) := by
  refine bind_right (Reads.ofPlace hstep) ?_
  rintro _ _ ⟨rfl, rfl⟩
  exact hf

theorem pattern {p : Pattern} (hp : p.capture? place.rest = none) :
    Refuses s place (Reading.pattern p) :=
  ofPlace (by rw [hp]; rfl)

theorem pattern_bind {p : Pattern} {c : Capture} {f : Capture → Parser β}
    (hp : p.capture? place.rest = some c) (hf : Refuses s (place.skip c.text c.rest) (f c)) :
    Refuses s place (Reading.pattern p >>= f) :=
  ofPlace_bind (by rw [hp]; rfl) hf

theorem exactly {cs : List Char} (hrest : ¬ cs <+: place.rest) :
    Refuses s place (Reading.exactly cs) :=
  ofPlace (if_neg (by rwa [List.isPrefixOf_iff_prefix]))

theorem require {condition : Bool} (h : condition = false) :
    Refuses s place (Reading.require condition) := by
  subst h
  exact fail

/-- What comes after a condition need only be refused where the condition holds. -/
theorem require_bind {condition : Bool} {f : Unit → Parser β}
    (h : condition = true → Refuses s place (f ())) :
    Refuses s place (Reading.require condition >>= f) := by
  cases condition with
  | true => exact h rfl
  | false => exact bind_left (require rfl)

theorem here_bind {f : Place → Parser β} (h : Refuses s place (f place)) :
    Refuses s place (Reading.here >>= f) := h

theorem localFlag_bind {key : String} {f : Bool → Parser β}
    (h : Refuses s place (f (s.localFlag key))) :
    Refuses s place (Reading.localFlag key >>= f) := h

theorem exhausted_bind {f : Bool → Parser β} (h : Refuses s place (f s.exhausted)) :
    Refuses s place (Reading.exhausted >>= f) := h

theorem orElse {q : Parser α} (hp : Refuses s place p) (hq : Refuses s place q) :
    Refuses s place (Reading.orElse p q) := by
  intro m hm
  obtain ⟨m', hx, hm'⟩ := hp m hm
  rw [orElse_apply, hx]
  exact hq m' hm'

end Refuses

namespace Collects

variable {p : Parser α} {J K : List α → Place → Prop}

theorem imp (h : Collects s place p J) (hJK : ∀ as q, J as q → K as q) :
    Collects s place p K := by
  intro fuel m hfuel hm
  obtain ⟨as, q, m', hx, hm', has⟩ := h fuel m hfuel hm
  exact ⟨as, q, m', hx, hm', hJK as q has⟩

theorem stop (hp : Refuses s place p) (h : J [] place) : Collects s place p J := by
  intro fuel m hfuel hm
  obtain ⟨fuel, rfl⟩ := Nat.exists_eq_succ_of_ne_zero (Nat.ne_zero_of_lt hfuel)
  obtain ⟨m', hx, hm'⟩ := hp m hm
  refine ⟨[], place, m', ?_, hm', h⟩
  rw [collect_succ _ _ _ _ _ (by simp), hx]

/-- A round that moves on leaves less of the source for the next one. -/
theorem cons (hplace : place.Fits)
    (h : Reads s place p fun a q => place.Before q ∧ place.offset < q.offset ∧
      Collects s q p fun as r => J (a :: as) r) : Collects s place p J := by
  intro fuel m hfuel hm
  obtain ⟨fuel, rfl⟩ := Nat.exists_eq_succ_of_ne_zero (Nat.ne_zero_of_lt hfuel)
  obtain ⟨a, q, m', hx, hm', hq, hlt, hrest⟩ := h m hm
  have hleft := hq.left_lt hplace hlt
  obtain ⟨as, r, m'', hy, hm'', has⟩ := hrest fuel m' (by omega) hm'
  refine ⟨a :: as, r, m'', ?_, hm'', has⟩
  rw [collect_succ _ _ _ _ _ (by simp), hx]
  dsimp only
  rw [if_neg (by omega), Option.map_none, hy]

end Collects

/-! ## Parts -/

/-- Content is read by repeating parts. -/
theorem Reads.parts {levels : Nat} {J : List Node → Place → Prop}
    (h : Collects s place (part (Grammar.inside levels)) J) :
    Reads s place (Grammar.readAt levels .parts) fun n q => J n.children q := by
  rw [Grammar.readAt_eq]
  exact here_bind ((many h).bind fun ns q hns => here_bind (pure hns))

end Parser

namespace Document

/-- **What parts are read from a source is what its document is made of**, if they come to its
end. -/
theorem root_of_reads {forms : Catalog} {source : String} {J : List Node → Prop}
    (h : Parser.Collects (scope forms) (.first source.toList)
      (Parser.part (Grammar.inside maxNesting)) fun ns q => q.rest = [] ∧ J ns) :
    ∃ ns, J ns ∧ (read forms source).root =
      (Node.branch ⟨0, source.utf8ByteSize⟩ .document ns).assemble := by
  have hread : Parser.Reads (scope forms) (.first source.toList) Grammar.parts.read
      fun n q => q.rest = [] ∧ J n.children := .parts h
  obtain ⟨n, q, m, hx, -, hend, hns⟩ := hread .forgetful rfl
  have hparts := readParts_eq_of_fresh (scope forms) (catalog_scope forms)
    ((Place.first source.toList).left + 1) (.first source.toList) .empty .forgetful
    (.first source.toList) .empty rfl
  have hchildren : readParts (scope forms) ((Place.first source.toList).left + 1)
      (.first source.toList) .forgetful = n.children := by
    have hstep : q.step? = none := by rw [Place.step?, hend]
    rw [readParts, hx]
    dsimp only
    rw [hstep]
  refine ⟨n.children, hns, ?_⟩
  rw [read, readWith, hparts, hchildren, ← width_toList]
  rfl

end Document

end Bracemark
