/-
Places in a source, and going on from one to another.

A place holds three things that could disagree: the offset, the size of the
source, and the characters that are left. `Place.In source p` says that they
agree, because `p` cuts the source in two. From then on the offset alone
determines the place (`In.eq_of_offset`), which is what a memory keyed by offsets
rests on.

`p.Before q` says that `q` is reached from `p` by taking characters. All that
reading ever does with a place is to go on in this sense, so being a place in the
source is kept.
-/
import Mathlib
import Bracemark.Arguments.Reading
import Bracemark.Document

set_option autoImplicit false

namespace Bracemark

/-! ## Widths -/

/-- Texts of one width that begin the same text are the same text: the width
grows with every character. -/
theorem eq_of_width_eq {a b c d : List Char} (h : a ++ b = c ++ d)
    (hw : width a = width c) : a = c ∧ b = d := by
  induction a generalizing c with
  | nil =>
    have hc : c = [] := (width_eq_zero_iff c).mp (by simpa using hw.symm)
    subst hc
    exact ⟨rfl, by simpa using h⟩
  | cons x a ih =>
    cases c with
    | nil => exact absurd ((width_eq_zero_iff _).mp hw) (by simp)
    | cons y c =>
      simp only [List.cons_append, List.cons.injEq] at h
      obtain ⟨rfl, h⟩ := h
      obtain ⟨rfl, rfl⟩ := ih h (by simpa using hw)
      exact ⟨rfl, rfl⟩

/-- The width of some characters is the size in bytes of the string that they make
up. -/
theorem width_ofList (cs : List Char) : (String.ofList cs).utf8ByteSize = width cs := by
  induction cs with
  | nil => simp
  | cons c cs ih =>
    have hsplit : String.ofList (c :: cs) = String.singleton c ++ String.ofList cs := by
      rw [String.singleton_eq_ofList, ← String.ofList_append, List.singleton_append]
    rw [hsplit, String.utf8ByteSize_append, String.utf8ByteSize_singleton, ih, width_cons]

theorem width_toList (s : String) : width s.toList = s.utf8ByteSize := by
  rw [← width_ofList, String.ofList_toList]

/-! ## Boundaries -/

/-- An offset between two characters of a source, or at one of its ends. -/
def IsBoundary (source : List Char) (n : Nat) : Prop :=
  ∃ passed left, passed ++ left = source ∧ width passed = n

theorem IsBoundary.zero (source : List Char) : IsBoundary source 0 :=
  ⟨[], source, rfl, rfl⟩

theorem IsBoundary.width (source : List Char) : IsBoundary source (width source) :=
  ⟨source, [], by simp, rfl⟩

theorem IsBoundary.le {source : List Char} {n : Nat} (h : IsBoundary source n) :
    n ≤ Bracemark.width source := by
  obtain ⟨passed, left, rfl, rfl⟩ := h
  rw [width_append]
  exact Nat.le_add_right _ _

namespace Place

/-! ## Going on -/

/-- `q` is reached from `p` by taking some characters. -/
def Before (p q : Place) : Prop :=
  ∃ taken, p.rest = taken ++ q.rest ∧ q = p.skip taken q.rest

theorem Before.refl (p : Place) : p.Before p :=
  ⟨[], by simp, by simp [skip]⟩

theorem Before.trans {p q r : Place} (h : p.Before q) (h' : q.Before r) : p.Before r := by
  obtain ⟨a, ha, hq⟩ := h
  obtain ⟨b, hb, hr⟩ := h'
  refine ⟨a ++ b, by rw [ha, hb, List.append_assoc], ?_⟩
  rw [hr, hq]
  simp only [skip, width_append, Nat.add_assoc]

theorem Before.offset_le {p q : Place} (h : p.Before q) : p.offset ≤ q.offset := by
  obtain ⟨taken, -, hq⟩ := h
  rw [hq]
  exact Nat.le_add_right _ _

theorem Before.left_le {p q : Place} (h : p.Before q) : q.left ≤ p.left := by
  obtain ⟨taken, -, hq⟩ := h
  rw [hq, left, left, skip_size, skip_offset]
  omega

/-- Going on without getting further is staying where one is. -/
theorem Before.eq_of_offset {p q : Place} (h : p.Before q) (ho : q.offset = p.offset) :
    q = p := by
  obtain ⟨taken, hrest, hq⟩ := h
  have hw : width taken = 0 := by
    have := congrArg Place.offset hq
    simp only [skip_offset] at this
    omega
  obtain rfl := (width_eq_zero_iff taken).mp hw
  rw [hq, show q.rest = p.rest from hrest.symm]
  rfl

/-- The pieces of a match put together are the text that was read. -/
theorem before_skip {p : Place} {taken rest : List Char} (h : taken ++ rest = p.rest) :
    p.Before (p.skip taken rest) :=
  ⟨taken, h.symm, rfl⟩

/-! ## Places in a source -/

/-- The place cuts the source in two. -/
def In (source : List Char) (p : Place) : Prop :=
  ∃ passed, passed ++ p.rest = source ∧ width passed = p.offset ∧ p.size = width source

theorem In.first (source : List Char) : (Place.first source).In source :=
  ⟨[], rfl, rfl, rfl⟩

theorem In.boundary {source : List Char} {p : Place} (h : p.In source) :
    IsBoundary source p.offset :=
  let ⟨passed, hs, ho, _⟩ := h
  ⟨passed, p.rest, hs, ho⟩

theorem In.offset_le {source : List Char} {p : Place} (h : p.In source) :
    p.offset ≤ width source :=
  h.boundary.le

/-- A place that is gone on to is a place in the same source. -/
theorem In.of_before {source : List Char} {p q : Place} (h : p.In source) (hpq : p.Before q) :
    q.In source := by
  obtain ⟨passed, hs, ho, hsize⟩ := h
  obtain ⟨taken, hrest, hq⟩ := hpq
  refine ⟨passed ++ taken, by rw [List.append_assoc, ← hrest, hs], ?_, ?_⟩
  · rw [hq, width_append, ho]; rfl
  · rw [hq]; exact hsize

/-- The offset determines the place. -/
theorem In.eq_of_offset {source : List Char} {p q : Place} (hp : p.In source)
    (hq : q.In source) (h : p.offset = q.offset) : p = q := by
  obtain ⟨a, ha, hao, has⟩ := hp
  obtain ⟨b, hb, hbo, hbs⟩ := hq
  obtain ⟨-, hrest⟩ := eq_of_width_eq (ha.trans hb.symm) (by omega)
  cases p; cases q
  simp_all

/-- Of two places in a source the one with the smaller offset comes first. -/
theorem In.before_of_le {source : List Char} {p q : Place} (hp : p.In source)
    (hq : q.In source) (h : p.offset ≤ q.offset) : p.Before q := by
  obtain ⟨a, ha, hao, has⟩ := hp
  obtain ⟨b, hb, hbo, hbs⟩ := id hq
  rcases List.append_eq_append_iff.mp (ha.trans hb.symm) with ⟨c, hc, hrest⟩ | ⟨c, hc, hrest⟩
  · refine ⟨c, hrest, ?_⟩
    have hw : q.offset = p.offset + width c := by rw [← hbo, ← hao, hc, width_append]
    rw [skip, ← hw, has, ← hbs]
  · -- `p` lies past `q` only by characters without width, so by none.
    have hw : width a = width b + width c := by rw [hc, width_append]
    obtain rfl : c = [] := (width_eq_zero_iff c).mp (by omega)
    have hpq : p = q := In.eq_of_offset ⟨a, ha, hao, has⟩ hq (by simp at hc; omega)
    exact hpq ▸ Before.refl p

end Place

end Bracemark
