/-
Sections that are opened and closed again.

Steps that close all the sections they open, and no others, leave the numbers of the open sections
as they were. What they leave behind is the number that the next section gets: it goes on from the
last section that was opened where the steps began (`Sections.run_balanced`). Where no section asks
for a number of its own, that is one more for each of them, until the largest number is reached.

The induction is on the steps. Its invariant, `Sections.Since`, tells the sections that were open
before, which stay as they are, from those that the steps have opened. Of these only the outermost
one matters, because the others are forgotten when it is closed.
-/
import Bracemark.Proofs.SectionStack

set_option autoImplicit false

namespace Bracemark

open Text

namespace Sections

/-! ## Steps -/

/-- A step of the counter of sections. -/
inductive Step where
  /-- Opens a section with a number of its own or the next one. -/
  | enter (number : Option Int)
  | leave
  | reset
deriving DecidableEq, Repr

/-- The counter after a step; outside all sections there is none to leave. -/
def Step.after? (s : Sections) : Step → Option Sections
  | .enter number => some (s.enter number)
  | .leave => s.leave?
  | .reset => some .start

/-- The counter after some steps, if all of them have a meaning. -/
def run? (s : Sections) : List Step → Option Sections
  | [] => some s
  | x :: xs => (x.after? s).bind fun t => t.run? xs

/-- The number that a step asks for, if it does, is one of the numbers. -/
def Step.Fits (x : Step) : Prop :=
  ∀ n, x = .enter (some n) → isNumber n = true

/-- The counter can be reached from the beginning of a document. -/
def Reachable (s : Sections) : Prop :=
  ∃ steps, (∀ x ∈ steps, x.Fits) ∧ start.run? steps = some s

/-- How many sections are open after some steps, of `depth` sections and those that the steps
open; none if the steps close another one, or all at once. -/
def depthAfter? : Nat → List Step → Option Nat
  | depth, [] => some depth
  | depth, .enter _ :: xs => depthAfter? (depth + 1) xs
  | depth + 1, .leave :: xs => depthAfter? depth xs
  | 0, .leave :: _ => none
  | _, .reset :: _ => none

/-- The steps close all sections that they open, and no others. -/
def Balanced (steps : List Step) : Prop :=
  depthAfter? 0 steps = some 0

instance (steps : List Step) : Decidable (Balanced steps) :=
  inferInstanceAs (Decidable (_ = _))

/-- How many sections the steps open where no other is open than those before; `depth` sections
have been opened since. -/
def outerCount : Nat → List Step → Nat
  | _, [] => 0
  | depth, .enter _ :: xs => (if depth = 0 then 1 else 0) + outerCount (depth + 1) xs
  | depth, .leave :: xs => outerCount (depth - 1) xs
  | depth, .reset :: xs => outerCount depth xs

/-- The numbers that these sections are given. -/
def outerNumbers (s : Sections) : Nat → List Step → List Int
  | _, [] => []
  | depth, .enter number :: xs =>
    (if depth = 0 then [number.getD s.next] else []) ++
      outerNumbers (s.enter number) (depth + 1) xs
  | depth, .leave :: xs =>
    match s.leave? with
    | none => []
    | some t => outerNumbers t (depth - 1) xs
  | _, .reset :: _ => []

/-! ## Numbers -/

/-- No number of the counter is too large. -/
structure Bounded (s : Sections) : Prop where
  top : s.nextTop ≤ maxNumber
  opened : ∀ o ∈ s.opened, o.number ≤ maxNumber ∧ o.nextChild ≤ maxNumber

theorem Bounded.next_le {s : Sections} (h : s.Bounded) : s.next ≤ maxNumber := by
  obtain ⟨nextTop, _ | ⟨top, outer⟩⟩ := s
  · exact h.top
  · exact (h.opened top (List.mem_cons_self ..)).2

theorem Bounded.after? {s t : Sections} {x : Step} (h : s.Bounded) (hx : x.Fits)
    (ht : x.after? s = some t) : t.Bounded := by
  cases x with
  | enter number =>
    cases ht
    have hnumber : number.getD s.next ≤ maxNumber := by
      cases number with
      | none => exact h.next_le
      | some n => exact le_maxNumber_of_isNumber (hx n rfl)
    exact ⟨h.top, List.forall_mem_cons.mpr ⟨⟨hnumber, one_le_maxNumber⟩, h.opened⟩⟩
  | leave =>
    obtain ⟨nextTop, _ | ⟨closed, _ | ⟨parent, outer⟩⟩⟩ := s
    · cases ht
    · cases ht
      exact ⟨nextNumber_le (h.opened closed (List.mem_cons_self ..)).1, by simp⟩
    · cases ht
      obtain ⟨hclosed, hopened⟩ := List.forall_mem_cons.mp h.opened
      obtain ⟨hparent, houter⟩ := List.forall_mem_cons.mp hopened
      exact ⟨h.top, List.forall_mem_cons.mpr ⟨⟨hparent.1, nextNumber_le hclosed.1⟩, houter⟩⟩
  | reset =>
    cases ht
    exact ⟨one_le_maxNumber, by simp [start]⟩

theorem Bounded.run? (steps : List Step) : ∀ {s t : Sections}, s.Bounded →
    (∀ x ∈ steps, x.Fits) → s.run? steps = some t → t.Bounded := by
  induction steps with
  | nil =>
    rintro s t hs - ⟨⟩
    exact hs
  | cons x xs ih =>
    intro s t hs hfits ht
    obtain ⟨hx, hxs⟩ := List.forall_mem_cons.mp hfits
    obtain ⟨u, hu, hrun⟩ := Option.bind_eq_some_iff.mp ht
    exact ih (hs.after? hx hu) hxs hrun

/-- Counting never passes the largest number. -/
theorem Reachable.bounded {s : Sections} (h : s.Reachable) : s.Bounded := by
  obtain ⟨steps, hsteps, hrun⟩ := h
  have hstart : start.Bounded := ⟨one_le_maxNumber, by simp [start]⟩
  exact hstart.run? steps hsteps hrun

/-! ## One step after another -/

/-- The counter `t` has come from `s` by opening sections and closing them. The sections with the
numbers `given` were opened while only those of `s` were open, and `depth` sections have been
opened and not closed. -/
structure Since (s : Sections) (depth : Nat) (given : List Int) (t : Sections) : Prop where
  /-- The sections of `s` are open still, and the outermost of the others is the last one. -/
  numbers : ∃ inner, inner.length = depth ∧ t.numbers = s.numbers ++ inner ∧
    ∀ n ∈ inner.head?, given.getLast? = some n
  next : depth = 0 → t.next = (given.getLast?.map nextNumber).getD s.next

variable {s t : Sections} {depth : Nat} {given : List Int}

theorem Since.refl (s : Sections) : s.Since 0 [] s :=
  ⟨⟨[], rfl, (List.append_nil _).symm, by simp⟩, fun _ => rfl⟩

theorem Since.enter (h : s.Since depth given t) (number : Option Int) :
    s.Since (depth + 1) (given ++ if depth = 0 then [number.getD t.next] else [])
      (t.enter number) := by
  obtain ⟨inner, hlength, hnumbers, hlast⟩ := h.numbers
  refine ⟨⟨inner ++ [number.getD t.next], ?_, ?_, ?_⟩, fun hzero => by cases hzero⟩
  · rw [List.length_append, hlength, List.length_singleton]
  · rw [numbers_enter, hnumbers, List.append_assoc]
  · -- Only the first section that is opened is an outermost one.
    cases inner with
    | nil =>
      obtain rfl : 0 = depth := hlength
      rintro n ⟨⟩
      rw [if_pos rfl, List.getLast?_concat]
    | cons m ms =>
      have hdepth : depth ≠ 0 := by
        rw [← hlength]
        exact Nat.succ_ne_zero _
      rw [if_neg hdepth, List.append_nil]
      exact hlast

theorem Since.leave (h : s.Since (depth + 1) given t) :
    ∃ u, t.leave? = some u ∧ s.Since depth given u := by
  obtain ⟨inner, hlength, hnumbers, hlast⟩ := h.numbers
  obtain ⟨init, last, rfl⟩ : ∃ init last, inner = init ++ [last] := by
    refine (List.eq_nil_or_concat' inner).resolve_left ?_
    rintro rfl
    cases hlength
  have hinit : init.length = depth := by
    simpa using hlength
  rw [← List.append_assoc] at hnumbers
  obtain ⟨u, hu, hnumbersu⟩ := leave?_of_numbers hnumbers
  refine ⟨u, hu, ⟨init, hinit, hnumbersu, fun n hn => hlast n ?_⟩, fun hzero => ?_⟩
  · rw [List.head?_append, hn]
    rfl
  · obtain rfl : init = [] := List.eq_nil_of_length_eq_zero (hinit.trans hzero)
    rw [next_of_leave? hu hnumbers, hlast last rfl]
    rfl

/-- **What some steps come to.** Where they close no other sections than they open, all of them
have a meaning, and the sections that they open at the level where they begin are numbered one
after another. -/
theorem Since.run? (steps : List Step) : ∀ {depth rest : Nat} {given : List Int} {t : Sections},
    s.Since depth given t → depthAfter? depth steps = some rest →
      ∃ u, t.run? steps = some u ∧ s.Since rest (given ++ t.outerNumbers depth steps) u ∧
        (t.outerNumbers depth steps).length = outerCount depth steps := by
  induction steps with
  | nil =>
    intro depth rest given t h hdepth
    cases hdepth
    exact ⟨t, rfl, by rwa [outerNumbers, List.append_nil], rfl⟩
  | cons x xs ih =>
    intro depth rest given t h hdepth
    cases x with
    | enter number =>
      obtain ⟨u, hu, hafter, hlength⟩ := ih (h.enter number) hdepth
      refine ⟨u, hu, ?_, ?_⟩
      · rwa [outerNumbers, ← List.append_assoc]
      · rw [outerNumbers, outerCount, List.length_append, hlength]
        split <;> rfl
    | leave =>
      cases depth with
      | zero => cases hdepth
      | succ depth =>
        obtain ⟨u, hu, hsince⟩ := h.leave
        obtain ⟨v, hv, hafter⟩ := ih hsince hdepth
        refine ⟨v, ?_, ?_⟩
        · rw [Sections.run?, Step.after?, hu]
          exact hv
        · rw [outerNumbers, hu]
          exact hafter
    | reset => cases depth <;> cases hdepth

/-! ## Sections that ask for no number -/

/-- So many numbers one after another, which stay at the largest number. -/
def countedFrom (n : Int) (count : Nat) : List Int :=
  (List.range count).map fun i => min (n + (i : Nat)) maxNumber

theorem countedFrom_succ (n : Int) (count : Nat) :
    countedFrom n (count + 1) = countedFrom n count ++ [min (n + count) maxNumber] := by
  rw [countedFrom, List.range_succ, List.map_append]
  rfl

/-- What follows some numbers is the next one. -/
theorem next_countedFrom {n : Int} (hn : n ≤ maxNumber) (count : Nat) :
    ((countedFrom n count).getLast?.map nextNumber).getD n = min (n + count) maxNumber := by
  cases count with
  | zero =>
    show n = min (n + 0) maxNumber
    rw [Int.add_zero, min_eq_left hn]
  | succ count =>
    rw [countedFrom_succ, List.getLast?_concat]
    exact nextNumber_min n count

/-- Sections that ask for no number are numbered one after another. -/
theorem Since.outerNumbers (hs : s.next ≤ maxNumber) (steps : List Step) :
    ∀ {depth rest count : Nat} {t : Sections}, s.Since depth (countedFrom s.next count) t →
      depthAfter? depth steps = some rest → (∀ n, Step.enter (some n) ∉ steps) →
        countedFrom s.next count ++ t.outerNumbers depth steps =
          countedFrom s.next (count + outerCount depth steps) := by
  induction steps with
  | nil => exact fun _ _ _ => List.append_nil _
  | cons x xs ih =>
    intro depth rest count t h hdepth hnone
    have hnone' : ∀ n, Step.enter (some n) ∉ xs := fun n hn =>
      hnone n (List.mem_cons_of_mem _ hn)
    cases x with
    | enter number =>
      obtain rfl : number = none := by
        rw [Option.eq_none_iff_forall_not_mem]
        rintro n rfl
        exact hnone n (List.mem_cons_self ..)
      have hentered := h.enter none
      by_cases hzero : depth = 0
      · subst hzero
        rw [Option.getD_none, if_pos rfl, h.next rfl, next_countedFrom hs, ← countedFrom_succ]
          at hentered
        rw [Sections.outerNumbers, outerCount, if_pos rfl, if_pos rfl, Option.getD_none, h.next rfl,
          next_countedFrom hs, ← List.append_assoc, ← countedFrom_succ, ih hentered hdepth hnone',
          Nat.add_assoc]
      · rw [if_neg hzero, List.append_nil] at hentered
        rw [Sections.outerNumbers, outerCount, if_neg hzero, if_neg hzero, List.nil_append,
          Nat.zero_add, ih hentered hdepth hnone']
    | leave =>
      cases depth with
      | zero => cases hdepth
      | succ depth =>
        obtain ⟨u, hu, hsince⟩ := h.leave
        rw [Sections.outerNumbers, hu, outerCount]
        exact ih hsince hdepth hnone'
    | reset => cases depth <;> cases hdepth

/-! ## Round trips -/

/-- **Sections that are opened and closed again leave nothing behind but the next number.** From
any counter that can be reached, steps that close all the sections they open, and no others, have
a meaning. The same sections with the same numbers are open afterwards. The next section goes on
from the last of those that the steps opened at the level where they began, or has the number that
it would have had if there is none. Where no section asks for a number, it has one more for each
of these sections, until the largest number is reached. -/
theorem run_balanced {s : Sections} (hs : s.Reachable) {steps : List Step} (h : Balanced steps) :
    ∃ t, s.run? steps = some t ∧ t.level = s.level ∧ t.numbers = s.numbers ∧
      (∀ separator, joinNumbers separator t.numbers = joinNumbers separator s.numbers) ∧
      (s.outerNumbers 0 steps).length = outerCount 0 steps ∧
      t.next = ((s.outerNumbers 0 steps).getLast?.map nextNumber).getD s.next ∧
      ((∀ n, Step.enter (some n) ∉ steps) →
        t.next = min (s.next + outerCount 0 steps) maxNumber) := by
  obtain ⟨t, ht, hsince, hlength⟩ := (Since.refl s).run? steps h
  obtain ⟨inner, hinner, hnumbers, -⟩ := hsince.numbers
  rw [List.eq_nil_of_length_eq_zero hinner, List.append_nil] at hnumbers
  have hlevel : t.level = s.level := by
    rw [← length_numbers, hnumbers, length_numbers]
  have hnext := hsince.next rfl
  rw [List.nil_append] at hnext
  refine ⟨t, ht, hlevel, hnumbers, fun _ => by rw [hnumbers], hlength, hnext, fun hnone => ?_⟩
  have hbound : s.next ≤ maxNumber := hs.bounded.next_le
  have hstart : s.Since 0 (countedFrom s.next 0) s := .refl s
  have hcounted := Since.outerNumbers hbound steps hstart h hnone
  rw [Nat.zero_add] at hcounted
  rw [hnext, ← next_countedFrom hbound, ← hcounted]
  rfl

/-- Three sections are opened and closed again, one of them with another one inside, when two
numbers are left. -/
theorem run_balanced_saturated :
    let s : Sections := ⟨1, [⟨3, maxNumber - 1⟩]⟩
    let steps : List Step :=
      [.enter none, .enter none, .leave, .leave, .enter none, .leave, .enter none, .leave]
    s.Reachable ∧ Balanced steps ∧ outerCount 0 steps = 3 ∧ (∀ n, Step.enter (some n) ∉ steps) ∧
      ∃ t, s.run? steps = some t ∧ t.numbers = [3] ∧ t.next = maxNumber := by
  intro s steps
  have hs : s.Reachable := by
    refine ⟨[.enter (some 3), .enter (some (maxNumber - 2)), .leave], ?_, by decide⟩
    rintro x hx n rfl
    simp only [List.mem_cons, Step.enter.injEq, Option.some.injEq, reduceCtorEq, List.not_mem_nil,
      or_false] at hx
    rcases hx with rfl | rfl <;> decide
  have hsteps : Balanced steps := by decide
  have hnone : ∀ n, Step.enter (some n) ∉ steps := by
    intro n hn
    simp [steps] at hn
  obtain ⟨t, ht, -, hnumbers, -, -, -, hnext⟩ := run_balanced hs hsteps
  exact ⟨hs, hsteps, by decide, hnone, t, ht, hnumbers, hnext hnone⟩

end Sections

end Bracemark
