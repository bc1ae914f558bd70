/-
Assembly loses nothing that is written.

Assembly takes braces off text that is no element and puts them back as text, takes groups
apart and makes others, makes pieces of text into one, leaves out groups of white space, and
forms paragraphs. What is written of the nodes stays the same through all of this, but for
white space.

That rests on three habits of writing, which HTML and plain text share (`Writes`): a piece of
text is written the same in parts as in one, text in braces is written as its braces with what
is inside between them, and a group is written as what is in it. Each pass of assembly is then
followed for any way of writing that has these habits. Paragraphs have tags in HTML, so for
them it is plain text that is followed.
-/
import Mathlib
import Bracemark.Render

set_option autoImplicit false

namespace Bracemark

/-! ## Texts without white space -/

namespace Text

/-- A text without its white space. -/
def withoutBlanks (s : String) : String :=
  String.ofList (s.toList.filter fun c => !isBlank c)

@[simp] theorem toList_withoutBlanks (s : String) :
    (withoutBlanks s).toList = s.toList.filter fun c => !isBlank c :=
  String.toList_ofList

@[simp] theorem withoutBlanks_append (s t : String) :
    withoutBlanks (s ++ t) = withoutBlanks s ++ withoutBlanks t := by
  apply String.toList_inj.mp
  simp

theorem isBlankText_append (s t : String) :
    isBlankText (s ++ t) = (isBlankText s && isBlankText t) := by
  simp [isBlankText, Text.allBlank]

theorem withoutBlanks_eq_empty_iff {s : String} : withoutBlanks s = "" ↔ isBlankText s = true := by
  rw [← String.toList_inj, toList_withoutBlanks, String.toList_empty, List.filter_eq_nil_iff,
    isBlankText, allBlank, List.all_eq_true]
  simp only [Bool.not_eq_true', Bool.not_eq_false]

theorem withoutBlanks_eq_empty {s : String} (h : isBlankText s = true) : withoutBlanks s = "" :=
  withoutBlanks_eq_empty_iff.mpr h

/-- White space at the beginning that is dropped is not missed. -/
theorem filter_dropLeadingBlanks (cs : List Char) :
    (dropLeadingBlanks cs).filter (fun c => !isBlank c) = cs.filter fun c => !isBlank c := by
  rw [dropLeadingBlanks]
  conv_rhs => rw [← List.takeWhile_append_dropWhile (p := isBlank) (l := cs)]
  have hdropped : (cs.takeWhile isBlank).filter (fun c => !isBlank c) = [] := by
    rw [List.filter_eq_nil_iff]
    intro c hc
    simp [List.mem_takeWhile_imp hc]
  rw [List.filter_append, hdropped, List.nil_append]

theorem withoutBlanks_trim (s : String) : withoutBlanks (trim s) = withoutBlanks s := by
  apply String.toList_inj.mp
  rw [toList_withoutBlanks, toList_withoutBlanks, toList_trim, trimBlanks, dropTrailingBlanks]
  -- The end of a text is the beginning of the text read backwards.
  rw [List.filter_reverse]
  show (List.filter _ (dropLeadingBlanks _)).reverse = _
  rw [filter_dropLeadingBlanks, List.filter_reverse, List.reverse_reverse,
    filter_dropLeadingBlanks]

theorem isBlankText_trim (s : String) : isBlankText (trim s) = isBlankText s := by
  rw [Bool.eq_iff_iff, ← withoutBlanks_eq_empty_iff, withoutBlanks_trim, withoutBlanks_eq_empty_iff]

theorem trim_eq_empty_iff {s : String} : trim s = "" ↔ isBlankText s = true := by
  constructor
  · intro h
    rw [← isBlankText_trim, h]
    rfl
  · intro h
    rw [trim, trimBlanks, dropLeadingBlanks,
      List.dropWhile_eq_nil_iff.mpr (List.all_eq_true.mp h)]
    rfl

/-- A reference is white space just as the character is. -/
theorem all_isBlank_reference (c : Char) : (reference c).all isBlank = isBlank c := by
  unfold reference
  split <;> first | rfl | exact Bool.and_true _

/-- White space means nothing in HTML and is written as it is, and nothing else is written as
white space. -/
theorem isBlankText_escapeHtml (s : String) : isBlankText (escapeHtml s) = isBlankText s := by
  rw [isBlankText, allBlank, toList_escapeHtml, List.all_flatMap]
  simp only [all_isBlank_reference]
  rfl

end Text

open Text

namespace Node

/-! ## Nodes one after another -/

/-- What some nodes are written as one after another, where `w` writes each of them. -/
def written (w : Node → String) (ns : List Node) : String :=
  String.join (ns.map w)

section

variable {w : Node → String} {ns ms : List Node}

@[simp] theorem written_nil : written w [] = "" := rfl

@[simp] theorem written_cons (n : Node) : written w (n :: ns) = w n ++ written w ns := by
  rw [written, List.map_cons, String.join_cons]
  rfl

@[simp] theorem written_append : written w (ns ++ ms) = written w ns ++ written w ms := by
  induction ns with
  | nil => rw [List.nil_append, written_nil, String.empty_append]
  | cons n ns ih => rw [List.cons_append, written_cons, ih, written_cons, String.append_assoc]

theorem written_flatMap {f : Node → List Node} (hf : ∀ n, written w (f n) = w n) :
    written w (ns.flatMap f) = written w ns := by
  induction ns with
  | nil => rfl
  | cons n ns ih => rw [List.flatMap_cons, written_append, hf, ih, written_cons]

end

theorem htmlAll_eq_written (c : Context) (ns : List Node) : htmlAll c ns = written (html c) ns := by
  induction ns with
  | nil => rfl
  | cons n ns ih => rw [htmlAll, ih, written_cons]

theorem plainAll_eq_written (c : Context) (ns : List Node) :
    plainAll c ns = written (plain c) ns := by
  induction ns with
  | nil => rfl
  | cons n ns ih => rw [plainAll, ih, written_cons]

/-! ## Habits of writing -/

/-- What any way of writing does with the nodes that assembly takes apart and puts together.
`text` is how it writes a piece of text. -/
structure Writes (w : Node → String) (text : String → String) : Prop where
  ofText (span : Span) (s : String) (children : List Node) (layout : Layout) :
    w (.mk span (.text s) children layout) = text s
  ofUnknown (span : Span) (closed : Bool) (children : List Node) (layout : Layout) :
    w (.mk span (.unknown closed) children layout) =
      "\x7b" ++ written w children ++ (if closed then "\x7d" else "")
  ofGroup (span : Span) (children : List Node) (layout : Layout) :
    w (.mk span .inlineGroup children layout) = written w children
  append (s t : String) : text (s ++ t) = text s ++ text t
  openingBrace : text "\x7b" = "\x7b"
  closingBrace : text "\x7d" = "\x7d"
  blank {s : String} : isBlankText s = true → isBlankText (text s) = true

theorem writes_html (c : Context) : Writes (html c) escapeHtml where
  ofText span s children layout := by rw [html]
  ofUnknown span closed children layout := by rw [html, htmlAll_eq_written]
  ofGroup span children layout := by
    rw [← htmlAll_eq_written]
    simp [html]
  append := escapeHtml_append
  openingBrace := rfl
  closingBrace := rfl
  blank h := by rw [isBlankText_escapeHtml, h]

theorem writes_plain (c : Context) : Writes (plain c) id where
  ofText span s children layout := by rw [plain, id]
  ofUnknown span closed children layout := by rw [plain, plainAll_eq_written]
  ofGroup span children layout := by
    rw [← plainAll_eq_written]
    simp [plain]
  append s t := rfl
  openingBrace := rfl
  closingBrace := rfl
  blank h := h

/-- Whatever a context is for, it writes in this way. -/
theorem exists_writes_write (c : Context) : ∃ text, Writes c.write text := by
  obtain ⟨target, settings, scope, numbering, assigned⟩ := c
  cases target with
  | html => exact ⟨escapeHtml, writes_html _⟩
  | plain => exact ⟨id, writes_plain _⟩

namespace Writes

variable {w : Node → String} {text : String → String}

/-! ## White space -/

mutual

/-- White space is written as white space, however deep in groups it stands. -/
theorem blank_of_isBlank (h : Writes w text) :
    ∀ n : Node, n.isBlank = true → withoutBlanks (w n) = ""
  | .mk span kind children layout, hn => by
    cases kind with
    | text s =>
      rw [h.ofText]
      exact withoutBlanks_eq_empty (h.blank (by simpa [isBlank] using hn))
    | inlineGroup =>
      rw [h.ofGroup]
      exact blank_of_allBlank h children (by simpa [isBlank] using hn)
    | _ => simp [isBlank] at hn

theorem blank_of_allBlank (h : Writes w text) :
    ∀ ns : List Node, allBlank ns = true → withoutBlanks (written w ns) = ""
  | [], _ => rfl
  | n :: ns, hns => by
    rw [allBlank, Bool.and_eq_true] at hns
    rw [written_cons, withoutBlanks_append, blank_of_isBlank h n hns.1,
      blank_of_allBlank h ns hns.2]
    rfl

end

variable (h : Writes w text) {n : Node} {ns : List Node}

include h

/-- A group that is left out holds nothing but white space. -/
theorem blank_of_isEmptyGroup (hn : n.isEmptyGroup = true) : withoutBlanks (w n) = "" := by
  apply h.blank_of_isBlank
  obtain ⟨span, kind, children, layout⟩ := n
  unfold isEmptyGroup at hn
  split at hn
  · next hkind hchildren =>
    obtain rfl : kind = .inlineGroup := hkind
    obtain rfl : children = [] := hchildren
    rfl
  · next only hkind hchildren =>
    obtain rfl : kind = .inlineGroup := hkind
    obtain rfl : children = [only] := hchildren
    obtain ⟨span', kind', children', layout'⟩ := only
    cases kind' with
    | text s => simpa [isBlank, allBlank, text?] using hn
    | _ => simp [text?] at hn
  · cases hn

/-- Leaving out groups of white space leaves out white space. -/
theorem withoutBlanks_written_filter (ns : List Node) :
    withoutBlanks (written w (ns.filter fun n => !n.isEmptyGroup)) =
      withoutBlanks (written w ns) := by
  induction ns with
  | nil => rfl
  | cons n ns ih =>
    rw [List.filter_cons]
    by_cases hn : n.isEmptyGroup = true
    · rw [if_neg (by simp [hn]), ih, written_cons, withoutBlanks_append,
        h.blank_of_isEmptyGroup hn, String.empty_append]
    · rw [if_pos (by simp [hn]), written_cons, withoutBlanks_append, ih, written_cons,
        withoutBlanks_append]

/-! ## Taking nodes apart -/

theorem write_text {s : String} (hn : n.kind = .text s) : w n = text s := by
  obtain ⟨span, kind, children, layout⟩ := n
  obtain rfl : kind = .text s := hn
  exact h.ofText span s children layout

theorem written_spreadUnknown (n : Node) : written w n.spreadUnknown = w n := by
  obtain ⟨span, kind, children, layout⟩ := n
  cases kind with
  | unknown closed =>
    rw [h.ofUnknown]
    simp only [spreadUnknown, kind_mk, span_mk, children_mk, List.cons_append, written_cons,
      written_append]
    rw [h.write_text (n := .text _ "\x7b") rfl, h.openingBrace]
    cases closed with
    | false => simp
    | true =>
      simp only [if_true, written_cons, written_nil, String.append_empty]
      rw [h.write_text (n := .text _ "\x7d") rfl, h.closingBrace, String.append_assoc]
  | _ => simp [spreadUnknown]

theorem written_spreadGroup (n : Node) : written w n.spreadGroup = w n := by
  obtain ⟨span, kind, children, layout⟩ := n
  cases kind with
  | inlineGroup => exact (h.ofGroup span children layout).symm
  | _ => simp [spreadGroup]

/-! ## Putting nodes together -/

theorem write_appendText {s t : String} (hn : n.kind = .text t) (stop : Nat) :
    w (n.appendText s stop) = w n ++ text s := by
  rw [h.write_text hn, ← h.append]
  apply h.write_text
  simp only [appendText, hn, kind_mk]

theorem written_joinTextAfter (last : Node) (ns : List Node) :
    written w (joinTextAfter last ns) = w last ++ written w ns := by
  fun_induction joinTextAfter last ns with
  | case1 last => rw [written_cons]
  | case2 last n ns t s hn hlast ih =>
    rw [ih, h.write_appendText hlast, written_cons, h.write_text hn, String.append_assoc]
  | case3 last n ns _ ih => rw [written_cons, ih, written_cons]

theorem written_joinText (ns : List Node) : written w (joinText ns) = written w ns := by
  cases ns with
  | nil => rfl
  | cons n ns => rw [joinText, h.written_joinTextAfter, written_cons]

theorem written_groupOf (run : List Node) : written w (groupOf run) = written w run := by
  unfold groupOf
  split
  · next hempty => rw [List.isEmpty_iff.mp hempty]
  · rw [written_cons, written_nil, String.append_empty]
    rw [branch, h.ofGroup, h.written_joinText]

theorem written_groupRunsAfter (run ns : List Node) :
    written w (groupRunsAfter run ns) = written w run.reverse ++ written w ns := by
  fun_induction groupRunsAfter run ns with
  | case1 run => rw [h.written_groupOf, written_nil, String.append_empty]
  | case2 run n ns _ ih =>
    rw [ih, List.reverse_cons, written_append, written_cons, written_cons, written_nil,
      String.append_empty, String.append_assoc]
  | case3 run n ns _ ih =>
    rw [written_append, h.written_groupOf, written_cons, ih, List.reverse_nil, written_nil,
      String.empty_append, written_cons]

end Writes

/-! ## Groups -/

/-- The children of a node in groups, before those with nothing in them are left out. -/
def grouped (ns : List Node) : List Node :=
  groupRuns ((ns.flatMap spreadUnknown).flatMap spreadGroup)

theorem normalize_eq_filter (ns : List Node) :
    normalize ns = (grouped ns).filter fun n => !n.isEmptyGroup := rfl

theorem Writes.written_grouped {w : Node → String} {text : String → String} (h : Writes w text)
    (ns : List Node) : written w (grouped ns) = written w ns := by
  rw [grouped, groupRuns, h.written_groupRunsAfter, List.reverse_nil, written_nil,
    String.empty_append, written_flatMap h.written_spreadGroup,
    written_flatMap h.written_spreadUnknown]

theorem Writes.withoutBlanks_written_normalize {w : Node → String} {text : String → String}
    (h : Writes w text) (ns : List Node) :
    withoutBlanks (written w (normalize ns)) = withoutBlanks (written w ns) := by
  rw [normalize_eq_filter, h.withoutBlanks_written_filter, h.written_grouped]

/-! ## Paragraphs -/

/-- The white space around a paragraph and the two line ends after it are all that a run gains
or loses as it becomes one. -/
theorem withoutBlanks_written_paragraphOf (c : Context) (run : List Node) :
    withoutBlanks (written (plain c) (paragraphOf run)) =
      withoutBlanks (written (plain c) run) := by
  unfold paragraphOf
  split
  · next hblank =>
    rw [← allBlank_eq_all] at hblank
    rw [(writes_plain c).blank_of_allBlank run hblank]
    rfl
  · rw [written_cons, written_nil, String.append_empty, branch, plain, withoutBlanks_append,
      withoutBlanks_trim, plainAll_eq_written, (writes_plain c).written_joinText]
    exact String.append_empty

/-- Blank lines are written as a line end, which is white space. -/
theorem withoutBlanks_plain_gap (c : Context) {n : Node} (hn : n.isGap = true) :
    withoutBlanks (n.plain c) = "" := by
  obtain ⟨span, kind, children, layout⟩ := n
  obtain rfl : kind = .gap := by simpa [isGap] using hn
  rw [plain]
  rfl

theorem withoutBlanks_written_paragraphsAfter (c : Context) (run ns : List Node) :
    withoutBlanks (written (plain c) (paragraphsAfter run ns)) =
      withoutBlanks (written (plain c) run.reverse) ++ withoutBlanks (written (plain c) ns) := by
  fun_induction paragraphsAfter run ns with
  | case1 run =>
    rw [withoutBlanks_written_paragraphOf, written_nil]
    exact String.append_empty.symm
  | case2 run n ns _ ih =>
    rw [ih, List.reverse_append, List.reverse_reverse, written_append,
      (writes_plain c).written_spreadGroup, written_cons, withoutBlanks_append,
      withoutBlanks_append, String.append_assoc]
  | case3 run n ns _ ih =>
    have hkept : withoutBlanks (written (plain c) (if n.isGap then [] else [n])) =
        withoutBlanks (n.plain c) := by
      by_cases hn : n.isGap = true
      · rw [if_pos hn, written_nil, withoutBlanks_plain_gap c hn]
        rfl
      · rw [if_neg hn, written_cons, written_nil, String.append_empty]
    rw [written_append, written_append, withoutBlanks_append, withoutBlanks_append,
      withoutBlanks_written_paragraphOf, hkept, ih, List.reverse_nil, written_nil, written_cons,
      withoutBlanks_append, String.append_assoc]
    rfl

/-! ## Assembly -/

theorem withoutBlanks_written_assemble (c : Context) (n : Node) :
    withoutBlanks (written (plain c) n.assemble.children) =
      withoutBlanks (written (plain c) n.children) := by
  obtain ⟨m, hm⟩ : ∃ m, m =
      if 1 < n.children.length then n.withChildren (normalize n.children) else n := ⟨_, rfl⟩
  have hgrouped : withoutBlanks (written (plain c) m.children) =
      withoutBlanks (written (plain c) n.children) := by
    rw [hm]
    split
    · exact (writes_plain c).withoutBlanks_written_normalize n.children
    · rfl
  rw [assemble, ← hm, ← hgrouped]
  split
  · show withoutBlanks (written (plain c) (paragraphsAfter [] m.children)) = _
    rw [withoutBlanks_written_paragraphsAfter, List.reverse_nil, written_nil]
    exact String.empty_append
  · rfl

/-- **Assembly keeps what is written.** Nodes of any kind that are brought into groups are
written as they were, in HTML and in plain text, but for white space; and to the letter where
no group is left out. The children of a node that has been assembled are written in plain text
as they were before, but for white space. -/
theorem written_assembled (c : Context) :
    (∀ ns : List Node,
      withoutBlanks (written c.write (normalize ns)) = withoutBlanks (written c.write ns) ∧
        ((∀ n ∈ grouped ns, n.isEmptyGroup = false) →
          written c.write (normalize ns) = written c.write ns)) ∧
      ∀ n : Node, withoutBlanks (written (plain c) n.assemble.children) =
        withoutBlanks (written (plain c) n.children) := by
  obtain ⟨text, hwrites⟩ := exists_writes_write c
  refine ⟨fun ns => ⟨hwrites.withoutBlanks_written_normalize ns, fun hkept => ?_⟩,
    withoutBlanks_written_assemble c⟩
  have hall : (grouped ns).filter (fun n => !n.isEmptyGroup) = grouped ns := by
    rw [List.filter_eq_self]
    intro n hn
    rw [hkept n hn]
    rfl
  rw [normalize_eq_filter, hall, hwrites.written_grouped]

/-- Open braces around a group with a bracket and with text in braces of its own, before blank
lines: the outer brace joins the text before it, the inner ones stay, and no group is left
out. -/
theorem written_assembled_braces :
    let c := Context.start .html .standard
    let ns := [text ⟨0, 2⟩ "a ", branch ⟨2, 7⟩ (.unknown false)
      [branch ⟨3, 7⟩ .inlineGroup [text ⟨3, 4⟩ "<", leaf ⟨4, 6⟩ (.unknown true), text ⟨6, 7⟩ "b"]],
      leaf ⟨7, 9⟩ .gap]
    (∀ n ∈ grouped ns, n.isEmptyGroup = false) ∧
      written c.write (normalize ns) = written c.write ns ∧
      written c.write (normalize ns) = "a \x7b&lt;\x7b\x7db\n" := by
  intro c ns
  have hkept : ∀ n ∈ grouped ns, n.isEmptyGroup = false := by decide
  exact ⟨hkept, ((written_assembled c).1 ns).2 hkept, by decide⟩

end Node

end Bracemark
