/-
The counters of tables and figures.

The counter for tables has a slot for those outside all sections and, inside a section, one for
those inside the same outermost section; sections that lie deeper share it. The counter shows a
table its number when the walk comes to it, but it goes on only when the walk has passed the
table. So what the slots hold is how often the counter has been counted up under each outermost
section (`CaptionsAgree`), and each step of the walk keeps that (`stable_captionsAgree`). The
counter for figures is no different.
-/
import Bracemark.Proofs.SectionStack

set_option autoImplicit false

namespace Bracemark

open Text

/-! ## Tables and figures -/

/-- The things that are numbered within sections. -/
inductive Captioned where
  | table
  | figure
deriving DecidableEq, Repr

namespace Captioned

/-- The counter of these things. -/
def counter : Captioned → Numbering → Captions
  | .table, n => n.tables
  | .figure, n => n.figures

/-- The variable that shows the counter. -/
def word : Captioned → String
  | .table => "table"
  | .figure => "figure"

/-- What stands between the numbers of sections and the number of the thing. -/
def separator : Captioned → Settings → String
  | .table, s => s.tableSeparator
  | .figure, s => s.figureSeparator

@[simp] theorem separator_standard (x : Captioned) : x.separator .standard = "-" := by
  cases x <;> rfl

/-- The number that a node has been given. -/
def number? : Captioned → Kind → Option String
  | .table, .table t => some t.number
  | .figure, .element ⟨_, _, .image f⟩ => some f.number
  | _, _ => none

/-- Whether a node is one of these things. -/
def isItem (x : Captioned) (k : Kind) : Bool :=
  (x.number? k).isSome

/-- Whether a node counts up the variable. -/
def isStep (x : Captioned) : Kind → Bool
  | .element ⟨_, _, .increment name⟩ => name == x.word
  | _ => false

/-! ### What the walk does to the counter -/

/-- The name of the counter among the names that show one. -/
def counterName : Captioned → CounterName
  | .table => .tables
  | .figure => .figures

theorem ofName?_eq_counterName_iff {x : Captioned} {name : String} :
    CounterName.ofName? name = some x.counterName ↔ name = x.word := by
  constructor
  · intro h
    unfold CounterName.ofName? at h
    split at h <;> cases x <;> first | rfl | cases h
  · rintro rfl
    cases x <;> rfl

variable {x : Captioned} {c d e : Context} {k : Kind} {children : List Node}

theorem isItem_enter : x.isItem (k.enter c children).1 = x.isItem k := by
  cases k with
  | element e =>
    obtain ⟨name, as, feature⟩ := e
    cases x <;> cases feature <;> rfl
  | _ => cases x <;> rfl

/-- A section is no table and no figure, and it counts none up. -/
theorem isItem_of_isSection (h : k.isSection = true) : x.isItem k = false := by
  obtain ⟨⟨name, as, feature⟩, start, rfl, hfeature⟩ := Kind.isSection_iff.mp h
  subst hfeature
  cases x <;> rfl

theorem isStep_of_isSection (h : k.isSection = true) : x.isStep k = false := by
  obtain ⟨⟨name, as, feature⟩, start, rfl, hfeature⟩ := Kind.isSection_iff.mp h
  subst hfeature
  rfl

theorem isStep_of_isItem (h : x.isItem k = true) : x.isStep k = false := by
  cases k with
  | element e =>
    obtain ⟨name, as, feature⟩ := e
    cases feature with
    | increment name =>
      cases x <;> cases h
    | _ => rfl
  | _ => rfl

theorem counter_enter_section (h : k.isSection = true) :
    x.counter (k.enter c children).2.numbering =
      (x.counter c.numbering).resize (c.numbering.sections.level + 1) := by
  obtain ⟨⟨name, as, feature⟩, start, rfl, hfeature⟩ := Kind.isSection_iff.mp h
  subst hfeature
  cases x <;> rfl

theorem counter_enter_item (h : x.isItem k = true) :
    x.counter (k.enter c children).2.numbering =
      (x.counter c.numbering).resize c.numbering.sections.level := by
  cases k with
  | element e =>
    obtain ⟨name, as, feature⟩ := e
    cases feature with
    | image f =>
      cases x with
      | table => cases h
      | figure => rfl
    | _ => cases x <;> cases h
  | table t =>
    cases x with
    | table => rfl
    | figure => cases h
  | _ => cases x <;> cases h

theorem counter_enter_step (h : x.isStep k = true) :
    x.counter (k.enter c children).2.numbering =
      (x.counter c.numbering).advanceIn c.numbering.sections.level := by
  unfold isStep at h
  split at h
  · next name as word =>
    obtain rfl := eq_of_beq h
    cases x <;> rfl
  · cases h

theorem counter_increment {name : String} (h : name ≠ x.word) :
    x.counter (c.increment name).numbering = x.counter c.numbering := by
  have hother : CounterName.ofName? name ≠ some x.counterName :=
    fun hname => h (ofName?_eq_counterName_iff.mp hname)
  unfold Context.increment
  split <;> cases x <;> first | rfl | exact absurd ‹_› hother

theorem counter_enter (hsection : k.isSection = false) (hitem : x.isItem k = false)
    (hstep : x.isStep k = false) :
    x.counter (k.enter c children).2.numbering = x.counter c.numbering := by
  cases k with
  | element e =>
    obtain ⟨name, as, feature⟩ := e
    cases feature with
    | division start => cases hsection
    | image f =>
      cases x with
      | table => rfl
      | figure => cases hitem
    | assign name =>
      show x.counter (c.assign name _).numbering = _
      unfold Context.assign
      split <;> rfl
    | increment name => exact counter_increment (ne_of_beq_false hstep)
    | _ => cases x <;> rfl
  | table t =>
    cases x with
    | table => cases hitem
    | figure => rfl
  | _ => rfl

/-- What is written into an item is what the counter shows on the level of the sections. -/
theorem number?_enter (h : x.isItem k = true) :
    x.number? (k.enter c children).1 =
      some (((x.counter c.numbering).resize c.numbering.sections.level).text
        c.numbering.sections.numbers (x.separator c.settings)) := by
  cases k with
  | element e =>
    obtain ⟨name, as, feature⟩ := e
    cases feature with
    | image f =>
      cases x with
      | table => cases h
      | figure => rfl
    | _ => cases x <;> cases h
  | table t =>
    cases x with
    | table => rfl
    | figure => cases h
  | _ => cases x <;> cases h

theorem counter_leave_item (h : x.isItem k = true) (hleave : k.leave d = .ok e) :
    x.counter e.numbering = (x.counter d.numbering).advance := by
  cases k with
  | element el =>
    obtain ⟨name, as, feature⟩ := el
    cases feature with
    | image f =>
      cases x with
      | table => cases h
      | figure =>
        cases hleave
        rfl
    | _ => cases x <;> cases h
  | table t =>
    cases x with
    | table =>
      cases hleave
      rfl
    | figure => cases h
  | _ => cases x <;> cases h

theorem counter_leave_section (h : k.isSection = true) (hleave : k.leave d = .ok e) :
    x.counter e.numbering = (x.counter d.numbering).resize e.numbering.sections.level := by
  obtain ⟨⟨name, as, feature⟩, start, rfl, hfeature⟩ := Kind.isSection_iff.mp h
  subst hfeature
  obtain ⟨sections, -, rfl⟩ := Feature.leave_division start hleave
  cases x <;> rfl

theorem counter_leave (hsection : k.isSection = false) (hitem : x.isItem k = false)
    (hleave : k.leave d = .ok e) : x.counter e.numbering = x.counter d.numbering := by
  cases k with
  | element el =>
    obtain ⟨name, as, feature⟩ := el
    cases feature with
    | division start => cases hsection
    | list l =>
      obtain ⟨lists, -, rfl⟩ := Feature.leave_list l hleave
      cases x <;> rfl
    | image f =>
      cases x with
      | table =>
        cases hleave
        rfl
      | figure => cases hitem
    | _ =>
      cases hleave
      cases x <;> rfl
  | table t =>
    cases x with
    | table => cases hitem
    | figure =>
      cases hleave
      rfl
  | _ =>
    cases hleave
    rfl

end Captioned

namespace Context.Passes

variable {x : Captioned} {c d e : Context} {k : Kind} {children : List Node}

/-- Closing a section brings the counter to the level outside. -/
theorem counter_of_section (h : c.Passes k children d e) (hk : k.isSection = true) :
    x.counter e.numbering = (x.counter d.numbering).resize e.numbering.sections.level := by
  have hleft := (Kind.isSection_enter c children k).trans hk
  have hleave := Captioned.counter_leave_section (x := x) hleft h.leave
  exact hleave

/-- An item is counted when the walk goes on after it. -/
theorem counter_of_item (h : c.Passes k children d e) (hk : x.isItem k = true) :
    x.counter e.numbering = (x.counter d.numbering).advance := by
  have hleave := Captioned.counter_leave_item (Captioned.isItem_enter.trans hk) h.leave
  exact hleave

theorem counter_of_other (h : c.Passes k children d e) (hsection : k.isSection = false)
    (hitem : x.isItem k = false) : x.counter e.numbering = x.counter d.numbering := by
  have hleft := (Kind.isSection_enter c children k).trans hsection
  have hleave := Captioned.counter_leave hleft (Captioned.isItem_enter.trans hitem) h.leave
  exact hleave

end Context.Passes

/-! ## What has been counted -/

/-- The number that a counter shows after so many steps from one. -/
def reached (count : Nat) : Int :=
  min (1 + count) maxNumber

@[simp] theorem reached_zero : reached 0 = 1 := rfl

theorem nextNumber_reached (count : Nat) : nextNumber (reached count) = reached (count + 1) :=
  nextNumber_min 1 count

/-- Where the counter has the right number of slots already, nothing is resized. -/
theorem Captions.resize_eq_self {c : Captions} {level : Nat}
    (h : c.slots.length = c.levelFor level) : c.resize level = c := by
  have hslots : c.slots.take (c.levelFor level) ++
      List.replicate (c.levelFor level - c.slots.length) 1 = c.slots := by
    rw [h, Nat.sub_self, List.replicate_zero, List.append_nil, ← h, List.take_length]
  rw [Captions.resize, hslots]

namespace Captioned

variable {x : Captioned} {h inner : List Visit} {p : Position} {c : Context} {n : Node}

/-- Whether the counter has been counted up for a visit when the walk has come to a position.
A table is counted when the walk has left it. -/
def isCounted (x : Captioned) (p : Position) (b : Visit) : Bool :=
  x.isStep b.node.kind || (x.isItem b.node.kind && !p.above.contains b.position.index)

/-- How often the counter has been counted up under one outermost section, or outside all
sections. -/
def count (x : Captioned) (p : Position) (outermost : Option Nat) (h : List Visit) : Nat :=
  h.countP fun b => x.isCounted p b && b.position.sections.head? == outermost

theorem count_append (p : Position) (outermost : Option Nat) (us vs : List Visit) :
    x.count p outermost (us ++ vs) = x.count p outermost us + x.count p outermost vs :=
  List.countP_append

theorem count_past (p : Position) (outermost : Option Nat) (vs : List Visit) (m : Nat) :
    x.count (p.past m) outermost vs = x.count p outermost vs := rfl

theorem count_cons (p : Position) (outermost : Option Nat) (b : Visit) (vs : List Visit) :
    x.count p outermost (b :: vs) = x.count p outermost vs +
      if (x.isCounted p b && b.position.sections.head? == outermost) = true then 1 else 0 :=
  List.countP_cons

/-- Whether a node is around makes no difference for other visits. -/
theorem count_congr {q : Position} (hq : q.above = p.above ++ [p.index]) (outermost : Option Nat)
    {vs : List Visit} (hvs : ∀ b ∈ vs, b.position.index ≠ p.index) :
    x.count q outermost vs = x.count p outermost vs := by
  refine List.countP_congr fun b hb => ?_
  have hsame : q.above.contains b.position.index = p.above.contains b.position.index := by
    rw [Bool.eq_iff_iff, List.contains_iff_mem, List.contains_iff_mem, hq, List.mem_append,
      List.mem_singleton]
    exact or_iff_left (hvs b hb)
  rw [isCounted, isCounted, hsame]

/-- Inside a node, the node is counted only if it counts up the variable. -/
theorem isCounted_inside {q : Position} (hq : q.above = p.above ++ [p.index]) :
    x.isCounted q ⟨p, c, n⟩ = x.isStep n.kind := by
  have haround : q.above.contains p.index = true := by
    rw [List.contains_iff_mem, hq]
    exact List.mem_append_right _ (List.mem_singleton_self _)
  rw [isCounted]
  show (x.isStep n.kind || (x.isItem n.kind && !q.above.contains p.index)) = _
  rw [haround, Bool.not_true, Bool.and_false, Bool.or_false]

/-- After a node, it is counted if it is an item, too. -/
theorem isCounted_past (ho : Ordered h p) (m : Nat) :
    x.isCounted (p.past m) ⟨p, c, n⟩ = (x.isStep n.kind || x.isItem n.kind) := by
  have hnot : p.above.contains p.index = false := by
    rw [← Bool.not_eq_true, List.contains_iff_mem]
    exact fun hmem => Nat.lt_irrefl _ (ho.valid.above _ hmem)
  rw [isCounted]
  show (x.isStep n.kind || (x.isItem n.kind && !p.above.contains p.index)) = _
  rw [hnot, Bool.not_false, Bool.and_true]

theorem count_enter (ho : Ordered h p) (outermost : Option Nat) :
    x.count (p.inside n.kind) outermost (h ++ [⟨p, c, n⟩]) = x.count p outermost h +
      if (x.isStep n.kind && p.sections.head? == outermost) = true then 1 else 0 := by
  have hearlier : ∀ b ∈ h, b.position.index ≠ p.index := fun b hb => (ho.earlier b hb).2.ne
  rw [count_append, count_congr (Position.above_inside p _) outermost hearlier, count_cons,
    isCounted_inside (Position.above_inside p _)]
  exact congrArg _ (Nat.zero_add _)

theorem count_leave (ho : Ordered h p)
    (hinner : ∀ b ∈ inner, (p.inside n.kind).LeadsTo b.position) (m m' : Nat)
    (outermost : Option Nat) :
    x.count (p.past m) outermost (h ++ ⟨p, c, n⟩ :: inner) =
      x.count ((p.inside n.kind).past m') outermost (h ++ ⟨p, c, n⟩ :: inner) +
        if (x.isItem n.kind && p.sections.head? == outermost) = true then 1 else 0 := by
  have hearlier : ∀ b ∈ h, b.position.index ≠ p.index := fun b hb => (ho.earlier b hb).2.ne
  have hlater : ∀ b ∈ inner, b.position.index ≠ p.index :=
    fun b hb => (Nat.lt_of_succ_le (hinner b hb).index_le).ne'
  have habove : ((p.inside n.kind).past m').above = p.above ++ [p.index] := rfl
  rw [count_append, count_append, count_cons, count_cons, isCounted_inside habove,
    isCounted_past ho, count_congr habove outermost hearlier, count_congr habove outermost hlater,
    count_past, count_past, Nat.add_assoc, Nat.add_assoc]
  -- What is left is the node itself, which is no item if it counts up the variable.
  by_cases hitem : x.isItem n.kind = true
  · rw [isStep_of_isItem hitem, hitem, Bool.false_or, Bool.false_and, if_neg Bool.false_ne_true,
      Nat.zero_add]
  · rw [Bool.not_eq_true] at hitem
    rw [hitem, Bool.or_false, Bool.false_and, if_neg Bool.false_ne_true, Nat.add_zero]

/-- No section that is yet to come is around an earlier visit. -/
theorem count_eq_zero (ho : Ordered h p) (q : Position) : x.count q (some p.index) h = 0 := by
  refine List.countP_eq_zero.mpr fun b hb => ?_
  rw [Bool.and_eq_true, beq_iff_eq]
  rintro ⟨-, houtermost⟩
  exact (ho.index_notMem hb).2.2 (List.mem_of_head? houtermost)

/-! ### The slots -/

/-- The slots of the counter at a position. -/
def slots (x : Captioned) (p : Position) (h : List Visit) : List Int :=
  match p.sections.head? with
  | none => [reached (x.count p none h)]
  | some s => [reached (x.count p none h), reached (x.count p (some s) h)]

theorem slots_of_none (hp : p.sections.head? = none) :
    x.slots p h = [reached (x.count p none h)] := by
  rw [slots, hp]

theorem slots_of_some {s : Nat} (hp : p.sections.head? = some s) :
    x.slots p h = [reached (x.count p none h), reached (x.count p (some s) h)] := by
  rw [slots, hp]

theorem length_slots : (x.slots p h).length = min (p.sections.length + 1) captionLevels := by
  rw [slots]
  cases p.sections with
  | nil => rfl
  | cons s rest =>
    rw [List.head?_cons, List.length_cons, captionLevels]
    show 2 = min (rest.length + 1 + 1) 2
    omega

theorem slots_congr {q : Position} {h' : List Visit}
    (hq : q.sections.head? = p.sections.head?)
    (hcount : ∀ o, x.count q o h' = x.count p o h) : x.slots q h' = x.slots p h := by
  cases hp : p.sections.head? with
  | none => rw [slots_of_none (hq.trans hp), slots_of_none hp, hcount]
  | some s => rw [slots_of_some (hq.trans hp), slots_of_some hp, hcount, hcount]

/-- Counting up is one step under the outermost section around. -/
theorem advance_slots {q : Position} {h' : List Visit}
    (hq : q.sections.head? = p.sections.head?)
    (hcount : ∀ o, x.count q o h' =
      x.count p o h + if (p.sections.head? == o) = true then 1 else 0)
    (m : Nat) : (Captions.mk (x.slots p h) m).advance = ⟨x.slots q h', m⟩ := by
  cases hp : p.sections.head? with
  | none =>
    rw [hp] at hcount
    rw [slots_of_none (hq.trans hp), slots_of_none hp, hcount none,
      if_pos (beq_self_eq_true _), ← nextNumber_reached]
    rfl
  | some s =>
    rw [hp] at hcount
    rw [slots_of_some (hq.trans hp), slots_of_some hp, hcount none, hcount (some s),
      if_pos (beq_self_eq_true _), if_neg (by simp), Nat.add_zero, ← nextNumber_reached]
    rfl

/-- Bringing the counter to a level for which it has the slots already changes nothing. -/
theorem resize_slots {level : Nat}
    (hlevel : min (level + 1) captionLevels = min (p.sections.length + 1) captionLevels) :
    (Captions.mk (x.slots p h) captionLevels).resize level = ⟨x.slots p h, captionLevels⟩ :=
  Captions.resize_eq_self (length_slots.trans hlevel.symm)

/-- Where a section begins, the counter has the slots for those inside it. -/
theorem resize_slots_inside (ho : Ordered h p) (hn : n.kind.isSection = true) :
    (Captions.mk (x.slots p h) captionLevels).resize (p.sections.length + 1) =
      ⟨x.slots (p.inside n.kind) (h ++ [⟨p, c, n⟩]), captionLevels⟩ := by
  have hsections := Position.sections_inside_of_section p hn
  have hcount : ∀ o, x.count (p.inside n.kind) o (h ++ [⟨p, c, n⟩]) = x.count p o h := by
    intro o
    rw [count_enter ho, isStep_of_isSection hn]
    exact Nat.add_zero _
  cases hp : p.sections with
  | nil =>
    -- Outside all sections, a slot is added for those inside this one.
    have hhead : (p.inside n.kind).sections.head? = some p.index := by
      rw [hsections, hp]
      rfl
    have hslots : x.slots p h = [reached (x.count p none h)] :=
      slots_of_none (by rw [hp]; rfl)
    rw [hslots, slots_of_some hhead, hcount none, hcount (some p.index), count_eq_zero ho]
    rfl
  | cons s rest =>
    have hhead : (p.inside n.kind).sections.head? = p.sections.head? := by
      rw [hsections, hp]
      rfl
    rw [slots_congr hhead hcount, resize_slots]
    rw [hp, List.length_cons, captionLevels]
    omega

/-- After a section, the counter has the slots that it had before. -/
theorem resize_slots_past (ho : Ordered h p) (hn : n.kind.isSection = true)
    (hinner : ∀ b ∈ inner, (p.inside n.kind).LeadsTo b.position) (m m' : Nat) :
    (Captions.mk (x.slots ((p.inside n.kind).past m') (h ++ ⟨p, c, n⟩ :: inner))
        captionLevels).resize p.sections.length =
      ⟨x.slots (p.past m) (h ++ ⟨p, c, n⟩ :: inner), captionLevels⟩ := by
  have hsections : ((p.inside n.kind).past m').sections = p.sections ++ [p.index] :=
    Position.sections_inside_of_section p hn
  have hcount : ∀ o, x.count (p.past m) o (h ++ ⟨p, c, n⟩ :: inner) =
      x.count ((p.inside n.kind).past m') o (h ++ ⟨p, c, n⟩ :: inner) := by
    intro o
    rw [count_leave ho hinner m m', isItem_of_isSection hn]
    exact Nat.add_zero _
  cases hp : p.sections with
  | nil =>
    -- The slot for those inside the section is dropped.
    have hhead : ((p.inside n.kind).past m').sections.head? = some p.index := by
      rw [hsections, hp]
      rfl
    have hnone : (p.past m).sections.head? = none := by
      rw [Position.sections_past, hp]
      rfl
    rw [slots_of_some hhead, slots_of_none hnone, hcount none]
    rfl
  | cons s rest =>
    have hhead : (p.past m).sections.head? = ((p.inside n.kind).past m').sections.head? := by
      rw [hsections, Position.sections_past, hp]
      rfl
    rw [slots_congr hhead hcount, resize_slots]
    rw [hsections, hp, List.length_append, List.length_cons, List.length_singleton, captionLevels]
    omega

end Captioned

/-! ## What the counter shows -/

/-- What the counter of tables or figures holds at a position, in terms of the visits
before. -/
structure CaptionsAgree (x : Captioned) (h : List Visit) (p : Position) (c : Context) : Prop where
  sections : SectionsAgree h p c
  counter : x.counter c.numbering = ⟨x.slots p h, captionLevels⟩

namespace CaptionsAgree

variable {x : Captioned} {h inner : List Visit} {p : Position} {c d e : Context} {n : Node}

/-- The counter is at the level of the sections. -/
theorem resize (hi : CaptionsAgree x h p c) :
    (x.counter c.numbering).resize c.numbering.sections.level = x.counter c.numbering := by
  rw [hi.counter, hi.sections.level]
  exact Captioned.resize_slots rfl

theorem enter (ho : Ordered h p) (hi : CaptionsAgree x h p c) (n : Node) :
    CaptionsAgree x (h ++ [⟨p, c, n⟩]) (p.inside n.kind) (c.inside n.kind n.children) := by
  refine ⟨hi.sections.enter ho n, ?_⟩
  by_cases hsection : n.kind.isSection = true
  · have hresize : x.counter (c.inside n.kind n.children).numbering =
        (x.counter c.numbering).resize (c.numbering.sections.level + 1) :=
      Captioned.counter_enter_section hsection
    rw [hresize, hi.counter, hi.sections.level]
    exact Captioned.resize_slots_inside ho hsection
  · rw [Bool.not_eq_true] at hsection
    have hhead : (p.inside n.kind).sections.head? = p.sections.head? := by
      rw [Position.sections_inside_of_not_section p hsection]
    have hcount := fun o => Captioned.count_enter (x := x) (c := c) (n := n) ho o
    by_cases hstep : x.isStep n.kind = true
    · have hadvance : x.counter (c.inside n.kind n.children).numbering =
          (x.counter c.numbering).advance := by
        refine (Captioned.counter_enter_step hstep).trans ?_
        rw [Captions.advanceIn, hi.resize]
      rw [hadvance, hi.counter]
      refine Captioned.advance_slots hhead (fun o => ?_) _
      rw [hcount o, hstep, Bool.true_and]
    · rw [Bool.not_eq_true] at hstep
      have hsame : x.counter (c.inside n.kind n.children).numbering = x.counter c.numbering := by
        by_cases hitem : x.isItem n.kind = true
        · exact (Captioned.counter_enter_item hitem).trans hi.resize
        · rw [Bool.not_eq_true] at hitem
          exact Captioned.counter_enter hsection hitem hstep
      rw [hsame, hi.counter, Captioned.slots_congr hhead fun o => ?_]
      rw [hcount o, hstep, Bool.false_and, if_neg Bool.false_ne_true, Nat.add_zero]

theorem leave (ho : Ordered h p) (hi : CaptionsAgree x h p c)
    (hinner : ∀ b ∈ inner, (p.inside n.kind).LeadsTo b.position)
    (hd : CaptionsAgree x (h ++ ⟨p, c, n⟩ :: inner) ((p.inside n.kind).past inner.length) d)
    (hpasses : c.Passes n.kind n.children d e) :
    CaptionsAgree x (h ++ ⟨p, c, n⟩ :: inner) (p.past (inner.length + 1)) e := by
  have hagree := hi.sections.leave ho hinner hd.sections hpasses
  refine ⟨hagree, ?_⟩
  by_cases hsection : n.kind.isSection = true
  · have hresize : x.counter e.numbering =
        (x.counter d.numbering).resize e.numbering.sections.level :=
      hpasses.counter_of_section hsection
    rw [hresize, hd.counter, hagree.level, Position.sections_past]
    exact Captioned.resize_slots_past ho hsection hinner _ _
  · rw [Bool.not_eq_true] at hsection
    have hhead : (p.past (inner.length + 1)).sections.head? =
        ((p.inside n.kind).past inner.length).sections.head? :=
      congrArg List.head? (Position.sections_inside_of_not_section p hsection).symm
    have hcount := fun o => Captioned.count_leave (x := x) (c := c) ho hinner (inner.length + 1)
      inner.length o
    by_cases hitem : x.isItem n.kind = true
    · have hadvance : x.counter e.numbering = (x.counter d.numbering).advance :=
        hpasses.counter_of_item hitem
      rw [hadvance, hd.counter]
      refine Captioned.advance_slots hhead (fun o => ?_) _
      rw [hcount o, hitem, Bool.true_and, ← hhead, Position.sections_past]
    · rw [Bool.not_eq_true] at hitem
      have hsame : x.counter e.numbering = x.counter d.numbering :=
        hpasses.counter_of_other hsection hitem
      rw [hsame, hd.counter, Captioned.slots_congr hhead fun o => ?_]
      rw [hcount o, hitem, Bool.false_and, if_neg Bool.false_ne_true, Nat.add_zero]

end CaptionsAgree

/-- **The counter agrees with the visits all along.** -/
theorem stable_captionsAgree (x : Captioned) : Stable (CaptionsAgree x) where
  enter n ho hi := hi.enter ho n
  leave ho hi hinner hd hpasses := hi.leave ho hinner hd hpasses

end Bracemark
