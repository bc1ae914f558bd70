/-
A scope is a stack of frames.

Each frame of the stack holds the settings made in it, in order (`FrameStack`). A scope keeps all
of them in one log and knows only where each frame begins. `FrameStack.scope` writes a stack as
such a log, and every change of the stack is the same change of its log. So whatever has been
entered, set and left since the outermost frame, a scope answers as the stack would.

A mark is no more than two lengths. What makes going back to it exact is that nothing touches the
log below the mark as long as the frame that was on top is not left: `Scope.Extends` is kept by
every step, also by going back to marks that were taken later.
-/
import Bracemark.Scope

set_option autoImplicit false

namespace Bracemark

/-! ## Stacks -/

/-- A stack of frames, each with its settings in the order in which they were made. -/
structure FrameStack where
  top : Frame
  /-- The frames around the top frame, the nearest one first. -/
  outer : List Frame
deriving DecidableEq, Repr

/-- The value that was set last for a key in a frame. -/
def Frame.last? (frame : Frame) (key : String) : Option Setting :=
  (frame.filter fun e => e.1 == key).getLast?.map (·.2)

namespace FrameStack

/-- A stack of one frame. -/
def ofFrame (frame : Frame) : FrameStack := ⟨frame, []⟩

/-- The number of frames. -/
def depth (f : FrameStack) : Nat := f.outer.length + 1

/-- Puts a frame on top. -/
def push (f : FrameStack) (frame : Frame) : FrameStack := ⟨frame, f.top :: f.outer⟩

/-- Makes a setting in the top frame. -/
def insert (f : FrameStack) (key : String) (value : Setting) : FrameStack :=
  { f with top := f.top ++ [(key, value)] }

/-- Removes the top frame; the last frame stays. -/
def pop? : FrameStack → Option FrameStack
  | ⟨_, []⟩ => none
  | ⟨_, frame :: outer⟩ => some ⟨frame, outer⟩

/-- What was set last for a key in the topmost frame that has it. -/
def get? (f : FrameStack) (key : String) : Option Setting :=
  (f.top :: f.outer).findSome? fun frame => frame.last? key

/-- What was set last for a key in the top frame. -/
def getLocal? (f : FrameStack) (key : String) : Option Setting :=
  f.top.last? key

/-! ## Stacks as logs -/

/-- The settings of some frames, the nearest of which comes first, in the order in which they were
made. -/
def log (frames : List Frame) : Frame :=
  frames.reverse.flatten

/-- Where each frame on top of others begins: after all settings around it. -/
def starts : List Frame → List Nat
  | [] => []
  | frame :: outer => starts outer ++ [(log (frame :: outer)).length]

/-- The scope that holds the frames of a stack. -/
def scope (f : FrameStack) : Scope :=
  ⟨log (f.top :: f.outer), starts f.outer⟩

theorem log_cons (frame : Frame) (outer : List Frame) :
    log (frame :: outer) = log outer ++ frame := by
  rw [log, List.reverse_cons, List.flatten_concat, log]

theorem length_starts (frames : List Frame) : (starts frames).length = frames.length := by
  induction frames with
  | nil => rfl
  | cons frame outer ih =>
    rw [starts, List.length_append, ih, List.length_singleton, List.length_cons]

/-- The top frame begins where the settings around it end. -/
theorem topStart_scope (f : FrameStack) : f.scope.topStart = (log f.outer).length := by
  obtain ⟨top, _ | ⟨frame, outer⟩⟩ := f
  · rfl
  · rw [Scope.topStart, scope, starts, List.getLast?_concat, Option.getD_some]

theorem scope_ofFrame (frame : Frame) : (ofFrame frame).scope = Scope.ofFrame frame := by
  rw [scope, ofFrame, log_cons]
  rfl

theorem scope_push (f : FrameStack) (frame : Frame) :
    (f.push frame).scope = f.scope.push frame := by
  rw [scope, push, log_cons]
  rfl

theorem scope_insert (f : FrameStack) (key : String) (value : Setting) :
    (f.insert key value).scope = f.scope.insert key value := by
  rw [Scope.insert, scope, scope, insert, log_cons, log_cons, List.append_assoc]

/-- Leaving a frame cuts off exactly the settings made in it. -/
theorem scope_pop? (f : FrameStack) : f.scope.pop? = f.pop?.map scope := by
  obtain ⟨top, _ | ⟨frame, outer⟩⟩ := f
  · rfl
  · have hentries : (log (top :: frame :: outer)).take (log (frame :: outer)).length =
        log (frame :: outer) := by
      rw [log_cons top, List.take_left]
    have hstarts : starts (frame :: outer) ≠ [] := List.concat_ne_nil _ _
    have hdrop : (starts (frame :: outer)).dropLast = starts outer := by
      rw [starts, List.dropLast_concat]
    rw [Scope.pop?, topStart_scope]
    show (if (starts (frame :: outer)).isEmpty then none else
      some (Scope.mk _ (starts (frame :: outer)).dropLast)) = some (scope ⟨frame, outer⟩)
    rw [if_neg (by rwa [List.isEmpty_iff]), hdrop]
    exact congrArg some (congrArg (Scope.mk · _) hentries)

theorem depth_scope (f : FrameStack) : f.scope.depth = f.depth := by
  rw [Scope.depth, scope, length_starts, depth]

/-! ### Looking up -/

theorem newest?_eq_last? (frame : Frame) (key : String) :
    Scope.newest? frame key = frame.last? key := by
  rw [Scope.newest?, Frame.last?, List.getLast?_filter]

/-- What is newest in the log is what was set last in the topmost frame that has it. -/
theorem newest?_log (frames : List Frame) (key : String) :
    Scope.newest? (log frames) key = frames.findSome? fun frame => frame.last? key := by
  induction frames with
  | nil => rfl
  | cons frame outer ih =>
    rw [log_cons, Scope.newest?_append, newest?_eq_last?, ih, List.findSome?_cons]
    cases frame.last? key <;> rfl

theorem get?_scope (f : FrameStack) (key : String) : f.scope.get? key = f.get? key :=
  newest?_log (f.top :: f.outer) key

theorem getLocal?_scope (f : FrameStack) (key : String) :
    f.scope.getLocal? key = f.getLocal? key := by
  rw [Scope.getLocal?, topStart_scope, scope, log_cons, List.drop_left, newest?_eq_last?, getLocal?]

end FrameStack

/-! ## Changes -/

namespace Scope

/-- A change of a scope. -/
inductive Edit where
  | push (frame : Frame)
  | insert (key : String) (value : Setting)
  | pop
deriving DecidableEq, Repr

/-- The scope after a change; the outermost frame cannot be left. -/
def Edit.after? (s : Scope) : Edit → Option Scope
  | .push frame => some (s.push frame)
  | .insert key value => some (s.insert key value)
  | .pop => s.pop?

/-- The scope after some changes, if all of them have a meaning. -/
def edit? (s : Scope) : List Edit → Option Scope
  | [] => some s
  | e :: es => (e.after? s).bind fun t => t.edit? es

end Scope

namespace FrameStack

/-- The stack after a change. -/
def change? (f : FrameStack) : Scope.Edit → Option FrameStack
  | .push frame => some (f.push frame)
  | .insert key value => some (f.insert key value)
  | .pop => f.pop?

/-- The stack after some changes. -/
def edit? (f : FrameStack) : List Scope.Edit → Option FrameStack
  | [] => some f
  | e :: es => (f.change? e).bind fun g => g.edit? es

/-- A change of a stack is the same change of its log. -/
theorem after?_scope (f : FrameStack) (e : Scope.Edit) :
    e.after? f.scope = (f.change? e).map scope := by
  cases e with
  | push frame => exact congrArg some (f.scope_push frame).symm
  | insert key value => exact congrArg some (f.scope_insert key value).symm
  | pop => exact f.scope_pop?

theorem edit?_scope (edits : List Scope.Edit) :
    ∀ f : FrameStack, f.scope.edit? edits = (f.edit? edits).map scope := by
  induction edits with
  | nil => exact fun _ => rfl
  | cons e es ih =>
    intro f
    rw [Scope.edit?, edit?, after?_scope, Option.bind_map, Option.map_bind]
    exact congrArg _ (funext ih)

end FrameStack

/-! ## Marks -/

namespace Scope

/-- A step in the use of a scope and of the marks that have been taken. -/
inductive Step where
  | edit (e : Edit)
  /-- Takes a mark. -/
  | mark
  /-- Goes back to a mark that has been taken, the first one being number 0. -/
  | rewind (i : Nat)
deriving DecidableEq, Repr

/-- A scope and the marks that have been taken, oldest first. -/
structure Marked where
  scope : Scope
  marks : List Mark
deriving DecidableEq, Repr

namespace Marked

/-- The scope and the marks after a step. -/
def after? (x : Marked) : Step → Option Marked
  | .edit e => (e.after? x.scope).map fun s => ⟨s, x.marks⟩
  | .mark => some ⟨x.scope, x.marks ++ [x.scope.mark]⟩
  | .rewind i => x.marks[i]?.map fun m => ⟨x.scope.rewind m, x.marks⟩

/-- What some steps lead to, if all of them have a meaning and none leaves fewer frames than
`depth`. -/
def run? (depth : Nat) (x : Marked) : List Step → Option Marked
  | [] => some x
  | step :: steps =>
    ((x.after? step).filter fun y => depth ≤ y.scope.depth).bind fun y => y.run? depth steps

end Marked

/-- Everything in `s` is at the bottom of `t`: its log, its frames, and no other frame begins
within that log. -/
structure Extends (s t : Scope) : Prop where
  entries : s.entries <+: t.entries
  starts : ∃ later, t.starts = s.starts ++ later ∧ ∀ n ∈ later, s.entries.length ≤ n

namespace Extends

variable {s t u : Scope}

theorem refl (s : Scope) : s.Extends s :=
  ⟨List.prefix_refl _, [], (List.append_nil _).symm, by simp⟩

theorem depth_le (h : s.Extends t) : s.depth ≤ t.depth := by
  obtain ⟨later, hstarts, -⟩ := h.starts
  rw [depth, depth, hstarts, List.length_append]
  omega

theorem push (h : s.Extends t) (frame : Frame) : s.Extends (t.push frame) := by
  obtain ⟨later, hstarts, hlater⟩ := h.starts
  refine ⟨h.entries.trans (List.prefix_append _ _), later ++ [t.entries.length], ?_, ?_⟩
  · rw [Scope.push, hstarts, List.append_assoc]
  · rw [List.forall_mem_append, List.forall_mem_singleton]
    exact ⟨hlater, h.entries.length_le⟩

theorem insert (h : s.Extends t) (key : String) (value : Setting) :
    s.Extends (t.insert key value) :=
  ⟨h.entries.trans (List.prefix_append _ _), h.starts⟩

/-- The frame that is left was entered later, because the frames of `s` are there still. -/
theorem pop? (h : s.Extends t) (hu : t.pop? = some u) (hdepth : s.depth ≤ u.depth) :
    s.Extends u := by
  obtain ⟨later, hstarts, hlater⟩ := h.starts
  rw [Scope.pop?, Option.ite_none_left_eq_some, Option.some.injEq] at hu
  obtain ⟨hempty, rfl⟩ := hu
  rcases List.eq_nil_or_concat later with rfl | ⟨init, last, rfl⟩
  · -- With no other frames than those of `s` there would be fewer now.
    rw [hstarts, List.append_nil, List.isEmpty_iff_length_eq_zero] at hempty
    simp only [depth, hstarts, List.append_nil, List.length_dropLast] at hdepth
    omega
  · rw [List.concat_eq_append, List.forall_mem_append, List.forall_mem_singleton] at hlater
    rw [List.concat_eq_append, ← List.append_assoc] at hstarts
    refine ⟨List.prefix_take_iff.mpr ⟨h.entries, ?_⟩, init, ?_, hlater.1⟩
    · rw [topStart, hstarts, List.getLast?_concat]
      exact hlater.2
    · rw [hstarts, List.dropLast_concat]

/-- A mark that was taken later goes back to a scope that has all of `s` in it. -/
theorem rewind (h : s.Extends t) {m : Mark} (hdepth : s.depth ≤ m.depth)
    (hlength : s.entries.length ≤ m.length) : s.Extends (t.rewind m) := by
  obtain ⟨later, hstarts, hlater⟩ := h.starts
  refine ⟨List.prefix_take_iff.mpr ⟨h.entries, hlength⟩, later.take (m.depth - 1 - s.starts.length),
    ?_, fun n hn => hlater n (List.mem_of_mem_take hn)⟩
  have hkept : s.starts.length ≤ m.depth - 1 := Nat.le_sub_of_add_le hdepth
  rw [Scope.rewind, hstarts, List.take_append, List.take_of_length_le hkept]

/-- Going back cuts off all that has come since. -/
theorem rewind_mark (h : s.Extends t) : t.rewind s.mark = s := by
  obtain ⟨later, hstarts, -⟩ := h.starts
  have hentries : t.entries.take s.entries.length = s.entries :=
    (List.prefix_iff_eq_take.mp h.entries).symm
  rw [Scope.rewind, mark, hentries, hstarts, depth, Nat.add_sub_cancel, List.take_left]

end Extends

namespace Marked

/-- The scope has all of `s` in it, and so will have every scope that a mark goes back to. -/
structure Above (s : Scope) (x : Marked) : Prop where
  scope : s.Extends x.scope
  marks : ∀ m ∈ x.marks, s.depth ≤ m.depth ∧ s.entries.length ≤ m.length

variable {s : Scope} {x y : Marked}

theorem Above.after? (h : Above s x) {step : Step} (hy : x.after? step = some y)
    (hdepth : s.depth ≤ y.scope.depth) : Above s y := by
  cases step with
  | edit e =>
    obtain ⟨t, ht, rfl⟩ := Option.map_eq_some_iff.mp hy
    refine ⟨?_, h.marks⟩
    cases e with
    | push frame =>
      cases ht
      exact h.scope.push frame
    | insert key value =>
      cases ht
      exact h.scope.insert key value
    | pop => exact h.scope.pop? ht hdepth
  | mark =>
    cases hy
    refine ⟨h.scope, ?_⟩
    rw [List.forall_mem_append, List.forall_mem_singleton]
    exact ⟨h.marks, h.scope.depth_le, h.scope.entries.length_le⟩
  | rewind i =>
    obtain ⟨m, hm, rfl⟩ := Option.map_eq_some_iff.mp hy
    obtain ⟨hmdepth, hmlength⟩ := h.marks m (List.mem_of_getElem? hm)
    exact ⟨h.scope.rewind hmdepth hmlength, h.marks⟩

theorem Above.run? (steps : List Step) : ∀ {x : Marked}, Above s x →
    x.run? s.depth steps = some y → Above s y := by
  induction steps with
  | nil =>
    rintro x hx ⟨⟩
    exact hx
  | cons step steps ih =>
    intro x hx hy
    obtain ⟨z, hz, hrun⟩ := Option.bind_eq_some_iff.mp hy
    obtain ⟨hstep, hdepth⟩ := Option.filter_eq_some_iff.mp hz
    exact ih (hx.after? hstep (of_decide_eq_true hdepth)) hrun

end Marked

/-! ## Scopes behave as stacks -/

/-- **A scope behaves as a stack of frames, and marks are exact.** Any frames that are entered and
left from an outermost one, and any settings made on the way, give the scope that holds the frames
of the stack after the same changes, and no scope exactly where the stack has no frame to leave.
Such a scope has as many frames as the stack, it finds what was set last in the topmost frame that
has the key, or in the top frame alone, and leaving a frame removes the top frame and nothing else.

Going back to a mark gives the scope in which it was taken, whatever has been done since, as long
as there never were fewer frames than at that time. -/
theorem behaves_as_frames :
    (∀ (root : Frame) (edits : List Edit),
      (ofFrame root).edit? edits = ((FrameStack.ofFrame root).edit? edits).map FrameStack.scope) ∧
    (∀ f : FrameStack,
      f.scope.depth = f.depth ∧
      (∀ key, f.scope.get? key = f.get? key ∧ f.scope.getLocal? key = f.getLocal? key) ∧
      f.scope.pop? = f.pop?.map FrameStack.scope) ∧
    ∀ (s : Scope) (steps : List Step) (x : Marked),
      Marked.run? s.depth ⟨s, []⟩ steps = some x → x.scope.rewind s.mark = s := by
  refine ⟨fun root edits => ?_, fun f => ⟨f.depth_scope, fun key => ?_, f.scope_pop?⟩, ?_⟩
  · rw [← FrameStack.scope_ofFrame, FrameStack.edit?_scope]
  · exact ⟨f.get?_scope key, f.getLocal?_scope key⟩
  · intro s steps x hx
    have hbegin : Marked.Above s ⟨s, []⟩ := ⟨.refl s, by simp⟩
    exact (hbegin.run? steps hx).scope.rewind_mark

/-- In the inner one of two frames a third one is entered and marked, left, and gone back to. -/
theorem behaves_as_frames_later_mark :
    let s := (ofFrame [("a", .flag true)]).push [("b", .number 1)]
    let steps : List Step :=
      [.edit (.push [("a", .flag false)]), .mark, .edit (.push []), .edit .pop, .edit .pop,
        .edit (.insert "b" (.number 2)), .edit (.push []), .rewind 0, .mark,
        .edit (.insert "c" (.text "x")), .rewind 1, .edit (.push [])]
    ∃ x, Marked.run? s.depth ⟨s, []⟩ steps = some x ∧ x.scope.depth = 4 ∧
      x.scope.get? "b" = some (.number 2) ∧ x.scope.rewind s.mark = s := by
  intro s steps
  exact ⟨_, rfl, by decide, by decide, behaves_as_frames.2.2 s steps _ rfl⟩

end Scope

end Bracemark
