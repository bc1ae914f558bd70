/-
The counters of tables and figures in step with the sections.

Any of the operations may come at any time: sections are opened and closed, tables and figures are
come to and passed, and a variable counts one of them up. Which slot a step counts in depends on
how many slots there are at that moment. So the invariant is their number, which goes with the
level of the sections up to the largest number of slots (`Captioned.InStep`). Every step keeps it
(`CounterStep.inStep`).

Two things follow for the numbers. Between levels that have equally many slots nothing is resized
and the current number stays. And the first slot, which counts outside all sections, is the last
one there only. What is counted inside a section is counted in a later slot and leaves it alone
(`CounterStep.head?_after`).
-/
import Bracemark.Proofs.CaptionCounts

set_option autoImplicit false

namespace Bracemark

open Text

/-! ## Slots -/

namespace Captions

variable {c : Captions}

theorem one_le_resize (h : ∀ n ∈ c.slots, 1 ≤ n) (level : Nat) :
    ∀ n ∈ (c.resize level).slots, 1 ≤ n := by
  intro n hn
  rcases List.mem_append.mp hn with hkept | hnew
  · exact h n (List.mem_of_mem_take hkept)
  · exact (List.eq_of_mem_replicate hnew).ge

theorem one_le_advance (h : ∀ n ∈ c.slots, 1 ≤ n) : ∀ n ∈ c.advance.slots, 1 ≤ n := by
  intro n hn
  obtain ⟨i, hi, hget⟩ := List.mem_iff_getElem.mp hn
  have hi' : i < c.slots.length := by rwa [length_slots_advance] at hi
  have hslot : 1 ≤ c.slots[i] := h _ (List.getElem_mem hi')
  rw [← hget]
  simp only [advance, List.getElem_modify]
  split
  · unfold nextNumber
    split <;> omega
  · exact hslot

/-- Slots are added and taken away at the end, so the first one stays. -/
theorem head?_resize (hne : c.slots ≠ []) (hmax : 1 ≤ c.maxLevel) (level : Nat) :
    (c.resize level).slots.head? = c.slots.head? := by
  obtain ⟨first, rest, hcons⟩ := List.exists_cons_of_ne_nil hne
  obtain ⟨l, hl⟩ : ∃ l, c.levelFor level = l + 1 := by
    apply Nat.exists_eq_add_of_le'
    rw [levelFor]
    omega
  rw [resize]
  dsimp only
  rw [hcons, hl, List.take_succ_cons]
  rfl

/-- Counting goes on in the last slot, which is not the first if there are two. -/
theorem head?_advance (h : 2 ≤ c.slots.length) : c.advance.slots.head? = c.slots.head? := by
  have hlast : c.slots.length - 1 ≠ 0 := by omega
  rw [List.head?_eq_getElem?, List.head?_eq_getElem?, advance]
  dsimp only
  rw [List.getElem?_modify]
  simp only [if_neg hlast, id_map']

/-- A slot that is added counts from one. -/
theorem current_resize_of_lt {level : Nat} (h : c.slots.length < c.levelFor level) :
    (c.resize level).current = 1 := by
  obtain ⟨k, hk⟩ : ∃ k, c.levelFor level - c.slots.length = k + 1 :=
    Nat.exists_eq_add_of_le' (by omega)
  rw [current, resize]
  dsimp only
  rw [hk, List.replicate_succ', ← List.append_assoc, List.getLast?_concat, Option.getD_some]

end Captions

/-! ## Steps -/

theorem Sections.level_leave? {s t : Sections} (h : s.leave? = some t) : s.level = t.level + 1 := by
  obtain ⟨nextTop, _ | ⟨closed, _ | ⟨parent, outer⟩⟩⟩ := s
  · cases h
  · cases h
    rfl
  · cases h
    rfl

namespace Context

/-- How many sections are open. -/
def level (c : Context) : Nat :=
  c.numbering.sections.level

end Context

/-- A step of the counters that has to do with sections, tables or figures. -/
inductive CounterStep where
  /-- Opens a section with a number of its own or the next one. -/
  | enterSection (number : Option Int)
  | leaveSection
  /-- Comes to a table or a figure. -/
  | enter (x : Captioned)
  /-- Passes a table or a figure. -/
  | leave (x : Captioned)
  /-- Counts up the variable that shows the counter. -/
  | increment (x : Captioned)
  | reset
deriving DecidableEq, Repr

namespace CounterStep

/-- The context after a step; outside all sections there is none to leave. -/
def after? (c : Context) : CounterStep → Option Context
  | .enterSection number => some { c with numbering := c.numbering.enterSection number }
  | .leaveSection =>
    match c.numbering.leaveSection with
    | .error _ => none
    | .ok numbering => some { c with numbering }
  | .enter .table => some { c with numbering := c.numbering.enterTable }
  | .enter .figure => some { c with numbering := c.numbering.enterFigure }
  | .leave .table => some { c with numbering := c.numbering.leaveTable }
  | .leave .figure => some { c with numbering := c.numbering.leaveFigure }
  | .increment x => some (c.increment x.word)
  | .reset => some { c with numbering := c.numbering.reset }

/-- Whether a step is about these things. -/
def concerns (x : Captioned) : CounterStep → Bool
  | .enter y | .leave y | .increment y => y == x
  | _ => false

end CounterStep

namespace Context

/-- The context after some steps, if all of them have a meaning. -/
def run? (c : Context) : List CounterStep → Option Context
  | [] => some c
  | s :: steps => (s.after? c).bind fun d => d.run? steps

/-- The counters can be reached from the beginning of a document. -/
def Reachable (c : Context) : Prop :=
  ∃ (first : Context) (steps : List CounterStep),
    first.numbering = .start ∧ first.run? steps = some c

/-- All steps about these things are taken where a section is open. -/
def ActsInside (x : Captioned) : Context → List CounterStep → Prop
  | _, [] => True
  | c, s :: steps =>
    (s.concerns x = true → 1 ≤ c.level) ∧ ∀ d ∈ s.after? c, ActsInside x d steps

instance decidableActsInside (x : Captioned) :
    ∀ (c : Context) (steps : List CounterStep), Decidable (ActsInside x c steps)
  | _, [] => .isTrue trivial
  | c, s :: steps =>
    have := fun d => decidableActsInside x d steps
    inferInstanceAs (Decidable ((s.concerns x = true → 1 ≤ c.level) ∧
      ∀ d ∈ s.after? c, ActsInside x d steps))

end Context

/-! ### What a step does -/

namespace CounterStep

/-- What a step does to the sections and to one of the two counters. -/
inductive Effect (x : Captioned) (c d : Context) : CounterStep → Prop
  | enterSection {number : Option Int} (hlevel : d.level = c.level + 1)
    (hcounter : x.counter d.numbering = (x.counter c.numbering).resize d.level) :
    Effect x c d (.enterSection number)
  | leaveSection (hlevel : c.level = d.level + 1)
    (hcounter : x.counter d.numbering = (x.counter c.numbering).resize d.level) :
    Effect x c d .leaveSection
  | enter (hlevel : d.level = c.level)
    (hcounter : x.counter d.numbering = (x.counter c.numbering).resize c.level) :
    Effect x c d (.enter x)
  | leave (hlevel : d.level = c.level)
    (hcounter : x.counter d.numbering = (x.counter c.numbering).advance) : Effect x c d (.leave x)
  | increment (hlevel : d.level = c.level)
    (hcounter : x.counter d.numbering = (x.counter c.numbering).advanceIn c.level) :
    Effect x c d (.increment x)
  | other {s : CounterStep} {y : Captioned} (hother : y ≠ x) (hs : s.concerns y = true)
    (hlevel : d.level = c.level)
    (hcounter : x.counter d.numbering = x.counter c.numbering) : Effect x c d s
  | reset (hlevel : d.level = 0)
    (hcounter : x.counter d.numbering = (x.counter c.numbering).reset) : Effect x c d .reset

theorem effect {s : CounterStep} {c d : Context} (x : Captioned) (h : s.after? c = some d) :
    Effect x c d s := by
  cases s with
  | enterSection number =>
    cases h
    refine .enterSection rfl ?_
    cases x <;> rfl
  | leaveSection =>
    rw [after?, Numbering.leaveSection] at h
    cases hleave : c.numbering.sections.leave? with
    | none =>
      rw [hleave] at h
      cases h
    | some sections =>
      rw [hleave] at h
      cases h
      refine .leaveSection (Sections.level_leave? hleave) ?_
      cases x <;> rfl
  | enter y =>
    cases x <;> cases y <;> cases h
    · exact .enter rfl rfl
    · exact .other (by decide) (beq_self_eq_true _) rfl rfl
    · exact .other (by decide) (beq_self_eq_true _) rfl rfl
    · exact .enter rfl rfl
  | leave y =>
    cases x <;> cases y <;> cases h
    · exact .leave rfl rfl
    · exact .other (by decide) (beq_self_eq_true _) rfl rfl
    · exact .other (by decide) (beq_self_eq_true _) rfl rfl
    · exact .leave rfl rfl
  | increment y =>
    cases x <;> cases y <;> cases h
    · exact .increment rfl rfl
    · exact .other (by decide) (beq_self_eq_true _) rfl rfl
    · exact .other (by decide) (beq_self_eq_true _) rfl rfl
    · exact .increment rfl rfl
  | reset =>
    cases h
    refine .reset rfl ?_
    cases x <;> rfl

end CounterStep

/-! ## In step -/

/-- The counter has one slot more than there are sections open, up to the largest number of slots,
and none of them is below one. -/
structure Captioned.InStep (x : Captioned) (c : Context) : Prop where
  limit : (x.counter c.numbering).maxLevel = captionLevels
  length : (x.counter c.numbering).slots.length = min (c.level + 1) captionLevels
  positive : ∀ n ∈ (x.counter c.numbering).slots, 1 ≤ n

namespace Captioned.InStep

variable {x : Captioned} {c d : Context}

theorem of_start (h : c.numbering = .start) : x.InStep c := by
  have hlevel : c.level = 0 := by
    rw [Context.level, h]
    rfl
  constructor
  · rw [h]
    cases x <;> rfl
  · rw [hlevel, h]
    cases x <;> rfl
  · rw [h]
    cases x <;> decide

theorem levelFor_eq (h : x.InStep c) (level : Nat) :
    (x.counter c.numbering).levelFor level = min (level + 1) captionLevels := by
  rw [Captions.levelFor, h.limit]

theorem slots_ne_nil (h : x.InStep c) : (x.counter c.numbering).slots ≠ [] := by
  have hlength := h.length
  have hlimit : captionLevels = 2 := rfl
  apply List.ne_nil_of_length_pos
  omega

theorem of_resize (h : x.InStep c)
    (hcounter : x.counter d.numbering = (x.counter c.numbering).resize d.level) : x.InStep d := by
  constructor
  · rw [hcounter]
    exact h.limit
  · rw [hcounter, Captions.length_slots_resize, h.levelFor_eq]
  · rw [hcounter]
    exact Captions.one_le_resize h.positive _

theorem of_advance (h : x.InStep c) (hlevel : d.level = c.level)
    (hcounter : x.counter d.numbering = (x.counter c.numbering).advance) : x.InStep d := by
  constructor
  · rw [hcounter]
    exact h.limit
  · rw [hcounter, Captions.length_slots_advance, hlevel, h.length]
  · rw [hcounter]
    exact Captions.one_le_advance h.positive

/-- On levels with equally many slots the counter is the same. -/
theorem resize_eq (h : x.InStep c) {level : Nat}
    (hlevel : min (level + 1) captionLevels = min (c.level + 1) captionLevels) :
    (x.counter c.numbering).resize level = x.counter c.numbering := by
  apply Captions.resize_eq_self
  rw [h.length, h.levelFor_eq, hlevel]

theorem advanceIn_eq (h : x.InStep c) :
    (x.counter c.numbering).advanceIn c.level = (x.counter c.numbering).advance := by
  rw [Captions.advanceIn, h.resize_eq rfl]

/-- Outside all sections there is one slot. -/
theorem slots_eq (h : x.InStep c) (hlevel : c.level = 0) :
    ∃ n, (x.counter c.numbering).slots = [n] := by
  apply List.length_eq_one_iff.mp
  rw [h.length, hlevel]
  rfl

end Captioned.InStep

namespace CounterStep

variable {x : Captioned} {s : CounterStep} {c d : Context}

/-- **Every step keeps the counters in step with the sections.** -/
theorem inStep (h : s.after? c = some d) (hc : x.InStep c) : x.InStep d := by
  cases effect x h with
  | enterSection hlevel hcounter => exact hc.of_resize hcounter
  | leaveSection hlevel hcounter => exact hc.of_resize hcounter
  | enter hlevel hcounter =>
    rw [← hlevel] at hcounter
    exact hc.of_resize hcounter
  | leave hlevel hcounter => exact hc.of_advance hlevel hcounter
  | increment hlevel hcounter =>
    rw [hc.advanceIn_eq] at hcounter
    exact hc.of_advance hlevel hcounter
  | other hother hs hlevel hcounter =>
    constructor
    · rw [hcounter]
      exact hc.limit
    · rw [hcounter, hlevel]
      exact hc.length
    · rw [hcounter]
      exact hc.positive
  | reset hlevel hcounter =>
    constructor
    · rw [hcounter]
      exact hc.limit
    · rw [hcounter, hlevel]
      rfl
    · rw [hcounter]
      exact fun n hn => (List.mem_singleton.mp hn).ge

/-- A step leaves the first slot alone, unless it counts outside all sections. -/
theorem head?_after (h : s.after? c = some d) (hc : x.InStep c) (hreset : s ≠ .reset)
    (hinside : s.concerns x = true → 1 ≤ c.level) :
    (x.counter d.numbering).slots.head? = (x.counter c.numbering).slots.head? := by
  have hlimit : 1 ≤ (x.counter c.numbering).maxLevel := by
    rw [hc.limit]
    decide
  -- Inside a section the last slot is not the first.
  have hlater : 1 ≤ c.level → 2 ≤ (x.counter c.numbering).slots.length := by
    intro hlevel
    rw [hc.length, captionLevels]
    omega
  have hself : (x == x) = true := beq_self_eq_true x
  cases effect x h with
  | enterSection hlevel hcounter =>
    rw [hcounter, Captions.head?_resize hc.slots_ne_nil hlimit]
  | leaveSection hlevel hcounter =>
    rw [hcounter, Captions.head?_resize hc.slots_ne_nil hlimit]
  | enter hlevel hcounter =>
    rw [hcounter, Captions.head?_resize hc.slots_ne_nil hlimit]
  | leave hlevel hcounter =>
    rw [hcounter, Captions.head?_advance (hlater (hinside hself))]
  | increment hlevel hcounter =>
    rw [hcounter, hc.advanceIn_eq, Captions.head?_advance (hlater (hinside hself))]
  | other hother hs hlevel hcounter => rw [hcounter]
  | reset => exact absurd rfl hreset

end CounterStep

/-! ## Runs -/

namespace Context

variable {x : Captioned} {c d : Context}

theorem inStep_run? (steps : List CounterStep) : ∀ {c d : Context}, x.InStep c →
    c.run? steps = some d → x.InStep d := by
  induction steps with
  | nil =>
    intro c d hc h
    cases h
    exact hc
  | cons s steps ih =>
    intro c d hc h
    obtain ⟨e, he, hrun⟩ := Option.bind_eq_some_iff.mp h
    exact ih (CounterStep.inStep he hc) hrun

theorem Reachable.inStep (h : c.Reachable) (x : Captioned) : x.InStep c := by
  obtain ⟨first, steps, hfirst, hrun⟩ := h
  exact inStep_run? steps (.of_start hfirst) hrun

/-- Steps that act inside sections leave the first slot alone. -/
theorem head?_run? (steps : List CounterStep) : ∀ {c d : Context}, x.InStep c →
    c.run? steps = some d → .reset ∉ steps → ActsInside x c steps →
      (x.counter d.numbering).slots.head? = (x.counter c.numbering).slots.head? := by
  induction steps with
  | nil =>
    intro c d _ h _ _
    cases h
    rfl
  | cons s steps ih =>
    intro c d hc h hreset hinside
    obtain ⟨e, he, hrun⟩ := Option.bind_eq_some_iff.mp h
    rw [List.mem_cons, not_or] at hreset
    rw [ih (CounterStep.inStep he hc) hrun hreset.2 (hinside.2 e he),
      CounterStep.head?_after he hc (Ne.symm hreset.1) hinside.1]

/-- From outside all sections and back, such steps leave the whole counter as it was. -/
theorem counter_run? {steps : List CounterStep} (hc : x.InStep c) (h : c.run? steps = some d)
    (hreset : .reset ∉ steps) (hinside : ActsInside x c steps) (hfirst : c.level = 0)
    (hlast : d.level = 0) : x.counter d.numbering = x.counter c.numbering := by
  have hd := inStep_run? steps hc h
  have hhead := head?_run? steps hc h hreset hinside
  obtain ⟨m, hm⟩ := hd.slots_eq hlast
  obtain ⟨n, hn⟩ := hc.slots_eq hfirst
  rw [hm, hn, List.head?_cons, List.head?_cons, Option.some.injEq] at hhead
  rw [hhead, ← hn] at hm
  have hlimit := hd.limit.trans hc.limit.symm
  generalize x.counter d.numbering = later at hm hlimit ⊢
  cases later
  cases hm
  cases hlimit
  rfl

/-- Opening a section brings the counter to the level inside. -/
theorem counter_enterSection {number : Option Int}
    (h : (CounterStep.enterSection number).after? c = some d) :
    d.level = c.level + 1 ∧
      x.counter d.numbering = (x.counter c.numbering).resize (c.level + 1) := by
  cases CounterStep.effect x h with
  | enterSection hlevel hcounter => exact ⟨hlevel, hlevel ▸ hcounter⟩
  | other _ hs => exact absurd hs Bool.false_ne_true

/-- Closing one brings it to the level outside. -/
theorem counter_leaveSection (h : CounterStep.leaveSection.after? c = some d) :
    c.level = d.level + 1 ∧
      x.counter d.numbering = (x.counter c.numbering).resize d.level := by
  cases CounterStep.effect x h with
  | leaveSection hlevel hcounter => exact ⟨hlevel, hcounter⟩
  | other _ hs => exact absurd hs Bool.false_ne_true

theorem exists_leaveSection (h : 1 ≤ c.level) :
    ∃ d, CounterStep.leaveSection.after? c = some d := by
  cases hleave : c.numbering.sections.leave? with
  | none =>
    have hlevel : c.level = 0 := (Sections.leave?_eq_none_iff _).mp hleave
    omega
  | some sections =>
    simp only [CounterStep.after?, Numbering.leaveSection, hleave]
    exact ⟨_, rfl⟩

/-- **The counters of tables and figures follow the sections.** Whatever the steps from the
beginning of a document were, a counter has one slot more than there are sections open, up to the
largest number of slots, and no slot is below one. Steps from outside all sections and back, none
of which starts over, leave it as it was if they come to tables, pass them and count them up inside
sections only. Opening a section outside all others makes the counter begin at one. Between two
levels inside a section, opening and closing sections does not change the current number. -/
theorem captions_follow_sections (h : c.Reachable) (x : Captioned) :
    (x.counter c.numbering).slots.length = min (c.level + 1) captionLevels ∧
      (∀ n ∈ (x.counter c.numbering).slots, 1 ≤ n) ∧
      (∀ steps d, c.run? steps = some d → .reset ∉ steps → ActsInside x c steps →
        c.level = 0 → d.level = 0 → x.counter d.numbering = x.counter c.numbering) ∧
      (∀ number, ∃ d, (CounterStep.enterSection number).after? c = some d ∧
        d.level = c.level + 1 ∧
        (x.counter d.numbering).current =
          if c.level = 0 then 1 else (x.counter c.numbering).current) ∧
      (1 ≤ c.level → ∃ d, CounterStep.leaveSection.after? c = some d ∧ c.level = d.level + 1 ∧
        (1 ≤ d.level → (x.counter d.numbering).current = (x.counter c.numbering).current)) := by
  have hc := h.inStep x
  refine ⟨hc.length, hc.positive, ?_, ?_, ?_⟩
  · intro steps d hrun hreset hinside hfirst hlast
    exact counter_run? hc hrun hreset hinside hfirst hlast
  · intro number
    have hstep : (CounterStep.enterSection number).after? c =
        some { c with numbering := c.numbering.enterSection number } := rfl
    obtain ⟨hlevel, hcounter⟩ := counter_enterSection (x := x) hstep
    refine ⟨_, hstep, hlevel, ?_⟩
    rw [hcounter]
    by_cases hzero : c.level = 0
    · rw [if_pos hzero, Captions.current_resize_of_lt]
      rw [hc.length, hc.levelFor_eq, hzero]
      decide
    · rw [if_neg hzero, hc.resize_eq]
      rw [captionLevels]
      omega
  · intro hlevel
    obtain ⟨d, hstep⟩ := exists_leaveSection hlevel
    obtain ⟨hdeeper, hcounter⟩ := counter_leaveSection (x := x) hstep
    refine ⟨d, hstep, hdeeper, ?_⟩
    intro hinside
    rw [hcounter, hc.resize_eq]
    rw [captionLevels]
    omega

/-- After one table outside all sections, tables are counted in a section and in another one inside
it. The counter goes on at two when both are closed, and begins at one in the next section. -/
theorem captions_follow_sections_nested :
    let first := Context.start .html .standard
    let c : Context := { first with numbering := first.numbering.leaveTable }
    let steps : List CounterStep :=
      [.enterSection (some 7), .enter .table, .leave .table, .enterSection none,
        .increment .table, .leave .table, .leaveSection, .leaveSection]
    let d : Context := { c with numbering.sections := ⟨8, []⟩ }
    c.Reachable ∧ c.run? steps = some d ∧ .reset ∉ steps ∧ ActsInside .table c steps ∧
      c.level = 0 ∧ d.level = 0 ∧ d.numbering.tables = c.numbering.tables ∧
      c.numbering.tables.current = 2 ∧ c.numbering.tables.slots.length = 1 ∧
      ∃ e, (CounterStep.enterSection none).after? c = some e ∧ e.numbering.tables.current = 1 := by
  intro first c steps d
  have hreachable : c.Reachable := ⟨first, [.enter .table, .leave .table], rfl, rfl⟩
  have hrun : c.run? steps = some d := by decide
  have hreset : .reset ∉ steps := by decide
  have hinside : ActsInside .table c steps := by decide
  have hlevel : c.level = 0 := rfl
  obtain ⟨hlength, -, hstretch, hopens, -⟩ := captions_follow_sections hreachable .table
  obtain ⟨e, hstep, -, hcurrent⟩ := hopens none
  rw [if_pos hlevel] at hcurrent
  exact ⟨hreachable, hrun, hreset, hinside, hlevel, rfl,
    hstretch steps d hrun hreset hinside hlevel rfl, rfl, hlength, e, hstep, hcurrent⟩

end Context

end Bracemark
