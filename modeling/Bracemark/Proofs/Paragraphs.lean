/-
Paragraphs of words.

Where nothing has been read but text, text in braces and blank lines, assembly comes to a
simple result: the runs between the blank lines become paragraphs, one for each run that is
not white space, and each is written as what is in it, without white space around it
(`written_assemble_document`). It does not matter in how many pieces a run has been read.

The way goes through all passes of assembly. Text in braces is taken apart, so what stands in
a run must be words all the way (`IsWording`), and a run that is left out as an empty group
must be one that would have had no paragraph.
-/
import Bracemark.Proofs.Kinds
import Bracemark.Proofs.WellShaped
import Bracemark.Proofs.Walk
import Bracemark.Proofs.WrittenContent

set_option autoImplicit false

namespace Bracemark

open Text

/-- What a run of text is written as: a paragraph without white space around it, or nothing
where there is nothing but white space. -/
def Text.paragraphText (s : String) : String :=
  if isBlankText s then "" else trim s ++ "\n\n"

theorem Text.paragraphText_of_blank {s : String} (h : isBlankText s = true) :
    paragraphText s = "" :=
  if_pos h

namespace Node

variable {n m : Node} {ns ms : List Node} {c : Context}

/-! ## Words -/

/-- Whether a node is a piece of text, or text in braces. -/
def isWord (n : Node) : Bool :=
  match n.kind with
  | .text _ | .unknown _ => true
  | _ => false

/-- All of some nodes are words. -/
def AreWords (ns : List Node) : Prop :=
  ∀ n ∈ ns, n.isWord = true

theorem areWords_nil : AreWords [] :=
  fun _ h => absurd h List.not_mem_nil

/-- A word, with nothing but words in it when it is taken apart. -/
structure IsWording (n : Node) : Prop where
  word : n.isWord = true
  inside : AreWords (n.children.flatMap spreadGroup)

theorem isWord_iff : n.isWord = true ↔ (∃ s, n.kind = .text s) ∨ ∃ b, n.kind = .unknown b := by
  unfold isWord
  cases n.kind <;> simp

theorem isInline_of_isWord (h : n.isWord = true) : n.isInline = true := by
  rcases isWord_iff.mp h with ⟨s, hkind⟩ | ⟨closed, hkind⟩ <;> rw [isInline, hkind] <;> rfl

theorem isGap_of_isInline (h : n.isInline = true) : n.isGap = false := by
  unfold isInline at h
  unfold isGap
  cases hkind : n.kind <;> simp_all [Kind.isInline]

theorem isInline_of_isGap (h : n.isGap = true) : n.isInline = false := by
  rw [isGap, beq_iff_eq] at h
  rw [isInline, h]
  rfl

theorem spreadGroup_of_isWord (h : n.isWord = true) : n.spreadGroup = [n] := by
  rcases isWord_iff.mp h with ⟨s, hkind⟩ | ⟨closed, hkind⟩ <;> rw [spreadGroup, hkind]

theorem isWording_text (span : Span) (s : String) : (text span s).IsWording :=
  ⟨rfl, areWords_nil⟩

/-- A word is white space exactly if it is written as white space: a brace is none. -/
theorem isBlank_of_isWord (h : n.isWord = true) (c : Context) :
    n.isBlank = isBlankText (n.plain c) := by
  obtain ⟨span, kind, children, l⟩ := n
  rcases isWord_iff.mp h with ⟨s, hkind⟩ | ⟨closed, hkind⟩
  · obtain rfl : kind = .text s := hkind
    rw [plain, isBlank]
  · obtain rfl : kind = .unknown closed := hkind
    have hbrace : isBlankText "\x7b" = false := by decide
    rw [plain, String.append_assoc, isBlankText_append, hbrace]
    simp [isBlank]

theorem AreWords.cons_iff : AreWords (n :: ns) ↔ n.isWord = true ∧ AreWords ns :=
  List.forall_mem_cons

theorem AreWords.append_iff : AreWords (ns ++ ms) ↔ AreWords ns ∧ AreWords ms :=
  List.forall_mem_append

theorem AreWords.reverse (h : AreWords ns) : AreWords ns.reverse :=
  fun n hn => h n (List.mem_reverse.mp hn)

theorem AreWords.all_isBlank (h : AreWords ns) (c : Context) :
    ns.all isBlank = isBlankText (written (plain c) ns) := by
  induction ns with
  | nil => rfl
  | cons n ns ih =>
    obtain ⟨hn, hns⟩ := AreWords.cons_iff.mp h
    rw [List.all_cons, written_cons, isBlankText_append, isBlank_of_isWord hn c, ih hns]

theorem isWord_appendText (n : Node) (s : String) (stop : Nat) :
    (n.appendText s stop).isWord = n.isWord := by
  unfold appendText
  split
  · next t hkind => simp [isWord, hkind]
  · rfl

theorem AreWords.joinTextAfter (last : Node) (ns : List Node) :
    AreWords (last :: ns) → AreWords (joinTextAfter last ns) := by
  fun_induction Node.joinTextAfter last ns with
  | case1 last => exact id
  | case2 last n ns t s hn hlast ih =>
    intro h
    obtain ⟨hword, hrest⟩ := AreWords.cons_iff.mp h
    refine ih (AreWords.cons_iff.mpr ⟨?_, (AreWords.cons_iff.mp hrest).2⟩)
    rw [isWord_appendText, hword]
  | case3 last n ns _ ih =>
    intro h
    obtain ⟨hword, hrest⟩ := AreWords.cons_iff.mp h
    exact AreWords.cons_iff.mpr ⟨hword, ih hrest⟩

theorem AreWords.joinText (h : AreWords ns) : AreWords (joinText ns) := by
  cases ns with
  | nil => exact h
  | cons n ns => exact .joinTextAfter n ns h

/-- Words that are white space are text, and all of them become one. -/
theorem AreWords.length_joinText_of_blank (h : AreWords ns) (hblank : ns.all isBlank = true) :
    (Node.joinText ns).length ≤ 1 := by
  have hwords := h.joinText
  have hapart := textsApart_joinText ns
  rw [← all_isBlank_joinText] at hblank
  have htext : ∀ n ∈ Node.joinText ns, n.isText = true := by
    intro n hn
    rcases isWord_iff.mp (hwords n hn) with hkind | ⟨closed, hkind⟩
    · exact isText_iff.mpr hkind
    · have := List.all_eq_true.mp hblank n hn
      obtain ⟨span, kind, children, l⟩ := n
      obtain rfl : kind = .unknown closed := hkind
      simp [isBlank] at this
  -- Two of them would stand next to each other.
  match hjoined : Node.joinText ns with
  | [] | [_] => simp
  | a :: b :: rest =>
    rw [hjoined] at hapart htext
    have hb := List.isChain_cons_cons.mp hapart |>.1 (htext a (by simp))
    simp [htext b (by simp)] at hb

/-- A run of words has a group unless it is white space. -/
theorem isEmptyGroup_branch (h : AreWords ns) (hne : ns ≠ []) (span : Span) :
    (branch span .inlineGroup (joinText ns)).isEmptyGroup = ns.all isBlank := by
  rw [← all_isBlank_joinText]
  have hwords := h.joinText
  have hshort := h.length_joinText_of_blank
  rw [← all_isBlank_joinText] at hshort
  match hjoined : joinText ns with
  | [] => exact absurd hjoined (joinText_ne_nil hne)
  | [only] =>
    rw [hjoined] at hwords
    rcases isWord_iff.mp (hwords only (by simp)) with ⟨s, hkind⟩ | ⟨closed, hkind⟩
    · simp [isEmptyGroup, branch, text?, hkind, isBlank_of_text hkind]
    · obtain ⟨span', kind, children, l⟩ := only
      obtain rfl : kind = .unknown closed := hkind
      simp [isEmptyGroup, branch, text?, isBlank]
  | a :: b :: rest =>
    have : ¬ (a :: b :: rest).all isBlank = true := by
      intro hblank
      rw [hjoined] at hshort
      simpa using hshort hblank
    simpa [isEmptyGroup, branch] using this

/-! ## Runs between blank lines -/

/-- What the runs between the blank lines among some nodes are written as. -/
def runTexts (c : Context) (ns : List Node) : List String :=
  (ns.splitOnP isGap).map (written (plain c))

/-- The text comes before the first run. -/
def prepend (s : String) (texts : List String) : List String :=
  texts.modifyHead (s ++ ·)

@[simp] theorem prepend_empty (texts : List String) : prepend "" texts = texts := by
  cases texts <;> simp [prepend]

@[simp] theorem prepend_prepend (s t : String) (texts : List String) :
    prepend s (prepend t texts) = prepend (s ++ t) texts := by
  cases texts <;> simp [prepend, String.append_assoc]

@[simp] theorem runTexts_nil : runTexts c [] = [""] := by
  simp [runTexts]

theorem runTexts_cons_gap (h : n.isGap = true) : runTexts c (n :: ns) = "" :: runTexts c ns := by
  rw [runTexts, List.splitOnP_cons_eq_if_modifyHead, if_pos h, List.map_cons, written_nil]
  rfl

theorem runTexts_cons (h : n.isGap = false) :
    runTexts c (n :: ns) = prepend (n.plain c) (runTexts c ns) := by
  rw [runTexts, List.splitOnP_cons_eq_if_modifyHead, if_neg (by simp [h]), runTexts]
  cases List.splitOnP isGap ns <;> simp [prepend]

theorem runTexts_append (h : ∀ n ∈ ns, n.isGap = false) :
    runTexts c (ns ++ ms) = prepend (written (plain c) ns) (runTexts c ms) := by
  induction ns with
  | nil => simp
  | cons n ns ih =>
    obtain ⟨hn, hns⟩ := List.forall_mem_cons.mp h
    rw [List.cons_append, runTexts_cons hn, ih hns, prepend_prepend, written_cons]

/-- It is the same for the paragraphs whether a run of white space begins the text. -/
theorem map_paragraphText_prepend {s : String} (h : isBlankText s = true) (texts : List String) :
    (prepend s ("" :: texts)).map paragraphText = ("" :: texts).map paragraphText := by
  simp [prepend, paragraphText_of_blank h, paragraphText_of_blank (s := "") rfl]

/-! ## Paragraphs -/

/-- What stands in a run: it flows, and what it holds as a group is words. -/
structure Flows (n : Node) : Prop where
  inline : n.isInline = true
  words : AreWords n.spreadGroup

theorem IsWording.flows (h : n.IsWording) : n.Flows where
  inline := isInline_of_isWord h.word
  words := by
    rw [spreadGroup_of_isWord h.word]
    exact AreWords.cons_iff.mpr ⟨h.word, areWords_nil⟩

theorem written_paragraphOf (h : AreWords ns) :
    written (plain c) (paragraphOf ns) = paragraphText (written (plain c) ns) := by
  rw [paragraphOf, h.all_isBlank c, paragraphText]
  split
  · rfl
  · rw [written_cons, written_nil, String.append_empty, branch, plain, plainAll_eq_written,
      (writes_plain c).written_joinText]

/-- Each run becomes the paragraph of what it is written as. -/
theorem written_paragraphsAfter {run : List Node} (hrun : AreWords run)
    (h : ∀ n ∈ ns, n.isGap = true ∨ n.Flows) :
    written (plain c) (paragraphsAfter run ns) =
      String.join
        ((prepend (written (plain c) run.reverse) (runTexts c ns)).map paragraphText) := by
  induction ns generalizing run with
  | nil =>
    rw [paragraphsAfter, written_paragraphOf hrun.reverse]
    simp [prepend]
  | cons n ns ih =>
    obtain ⟨hn, hns⟩ := List.forall_mem_cons.mp h
    rw [paragraphsAfter]
    rcases hn with hgap | hflows
    · rw [if_neg (by simp [isInline_of_isGap hgap]), if_pos hgap, List.append_nil,
        written_append, written_paragraphOf hrun.reverse, ih areWords_nil hns,
        runTexts_cons_gap hgap, List.reverse_nil, written_nil, prepend_empty, prepend,
        List.modifyHead_cons, String.append_empty, List.map_cons, String.join_cons]
    · rw [if_pos hflows.inline,
        ih (AreWords.append_iff.mpr ⟨hflows.words.reverse, hrun⟩) hns,
        runTexts_cons (isGap_of_isInline hflows.inline)]
      simp [(writes_plain c).written_spreadGroup]

/-! ## Groups -/

theorem grouped_flows (h : AreWords ns) : ∀ n ∈ groupOf ns, n.Flows := by
  intro n hn
  unfold groupOf at hn
  split at hn
  · cases hn
  · rw [List.mem_singleton.mp hn]
    exact ⟨rfl, h.joinText⟩

/-- A run becomes a group, or nothing where it is white space. -/
theorem filter_groupOf (h : AreWords ns) :
    (groupOf ns).filter (fun n => !n.isEmptyGroup) =
      if ns.all isBlank then [] else groupOf ns := by
  by_cases hne : ns = []
  · simp [hne]
  · have hgroup : groupOf ns =
        [branch (outerSpan (joinText ns)) .inlineGroup (joinText ns)] := by
      simp [groupOf, hne]
    rw [hgroup, List.filter_singleton, isEmptyGroup_branch h hne]
    by_cases hblank : ns.all isBlank = true <;> simp [hblank]

theorem isEmptyGroup_of_isGap (h : n.isGap = true) : n.isEmptyGroup = false := by
  rw [isGap, beq_iff_eq] at h
  simp [isEmptyGroup, h]

/-- Where a run ends, it is the same for the paragraphs whether it has become a group. -/
theorem runTexts_groupOf (h : AreWords ns) {texts : List String}
    (hms : runTexts c ms = "" :: texts) :
    (runTexts c ((groupOf ns).filter (fun n => !n.isEmptyGroup) ++ ms)).map paragraphText =
      (prepend (written (plain c) ns) (runTexts c ms)).map paragraphText := by
  rw [filter_groupOf h]
  by_cases hblank : ns.all isBlank = true
  · rw [if_pos hblank, List.nil_append, hms]
    rw [h.all_isBlank c] at hblank
    exact (map_paragraphText_prepend hblank texts).symm
  · rw [if_neg hblank, runTexts_append fun n hn => isGap_of_isInline (grouped_flows h n hn).inline,
      (writes_plain c).written_groupOf]

/-- The groups that are left out have no paragraph. -/
theorem runTexts_groupRunsAfter {run : List Node} (hrun : AreWords run)
    (h : ∀ n ∈ ns, n.isGap = true ∨ n.isWord = true) :
    (runTexts c ((groupRunsAfter run ns).filter fun n => !n.isEmptyGroup)).map paragraphText =
      (prepend (written (plain c) run.reverse) (runTexts c ns)).map paragraphText := by
  induction ns generalizing run with
  | nil =>
    have hend : runTexts c [] = "" :: [] := runTexts_nil
    have hlast := runTexts_groupOf hrun.reverse hend
    rwa [List.append_nil] at hlast
  | cons n ns ih =>
    obtain ⟨hn, hns⟩ := List.forall_mem_cons.mp h
    rw [groupRunsAfter]
    rcases hn with hgap | hword
    · have hnext : runTexts c (n :: (groupRunsAfter [] ns).filter fun n => !n.isEmptyGroup) = _ :=
        runTexts_cons_gap hgap
      rw [if_neg (by simp [isInline_of_isGap hgap]), List.filter_append,
        List.filter_cons_of_pos (by simp [isEmptyGroup_of_isGap hgap]),
        runTexts_groupOf hrun.reverse hnext, hnext, runTexts_cons_gap hgap]
      have hafter := ih areWords_nil hns
      rw [List.reverse_nil, written_nil, prepend_empty] at hafter
      simp only [prepend, List.modifyHead_cons, List.map_cons, hafter]
    · rw [if_pos (isInline_of_isWord hword), ih (AreWords.cons_iff.mpr ⟨hword, hrun⟩) hns,
        runTexts_cons (isGap_of_isInline (isInline_of_isWord hword))]
      simp

theorem flows_groupRunsAfter {run : List Node} (hrun : AreWords run)
    (h : ∀ n ∈ ns, n.isGap = true ∨ n.isWord = true) :
    ∀ n ∈ groupRunsAfter run ns, n.isGap = true ∨ n.Flows := by
  induction ns generalizing run with
  | nil => exact fun n hn => .inr (grouped_flows hrun.reverse n hn)
  | cons n ns ih =>
    obtain ⟨hn, hns⟩ := List.forall_mem_cons.mp h
    rw [groupRunsAfter]
    rcases hn with hgap | hword
    · rw [if_neg (by simp [isInline_of_isGap hgap])]
      refine List.forall_mem_append.mpr ⟨fun m hm => .inr (grouped_flows hrun.reverse m hm), ?_⟩
      exact List.forall_mem_cons.mpr ⟨.inl hgap, ih areWords_nil hns⟩
    · rw [if_pos (isInline_of_isWord hword)]
      exact ih (AreWords.cons_iff.mpr ⟨hword, hrun⟩) hns

/-! ## Taking words apart -/

theorem IsWording.words_spread (h : n.IsWording) :
    AreWords (n.spreadUnknown.flatMap spreadGroup) := by
  rcases isWord_iff.mp h.word with ⟨s, hkind⟩ | ⟨closed, hkind⟩
  · simp only [spreadUnknown, hkind, List.flatMap_singleton]
    exact h.flows.words
  · -- The braces stand around what is inside.
    have hbrace : ∀ (span : Span) (s : String),
        AreWords ([text span s].flatMap spreadGroup) := fun span s =>
      AreWords.cons_iff.mpr ⟨rfl, areWords_nil⟩
    simp only [spreadUnknown, hkind, List.cons_append, List.flatMap_cons, List.flatMap_append]
    refine AreWords.append_iff.mpr ⟨AreWords.cons_iff.mpr ⟨rfl, areWords_nil⟩, ?_⟩
    refine AreWords.append_iff.mpr ⟨h.inside, ?_⟩
    cases closed
    · exact areWords_nil
    · exact hbrace _ _

/-- The words of a run, taken apart. -/
def spread (ns : List Node) : List Node :=
  (ns.flatMap spreadUnknown).flatMap spreadGroup

theorem spread_cons (n : Node) (ns : List Node) :
    spread (n :: ns) = n.spreadUnknown.flatMap spreadGroup ++ spread ns := by
  rw [spread, List.flatMap_cons, List.flatMap_append, spread]

theorem normalize_eq_spread (ns : List Node) :
    normalize ns = (groupRuns (spread ns)).filter fun n => !n.isEmptyGroup := rfl

theorem spread_gap (h : n.isGap = true) : n.spreadUnknown.flatMap spreadGroup = [n] := by
  rw [isGap, beq_iff_eq] at h
  simp [spreadUnknown, spreadGroup, h]

theorem words_or_gaps_spread (h : ∀ n ∈ ns, n.isGap = true ∨ n.IsWording) :
    ∀ n ∈ spread ns, n.isGap = true ∨ n.isWord = true := by
  induction ns with
  | nil => exact fun _ h => absurd h List.not_mem_nil
  | cons n ns ih =>
    obtain ⟨hn, hns⟩ := List.forall_mem_cons.mp h
    rw [spread_cons]
    refine List.forall_mem_append.mpr ⟨?_, ih hns⟩
    rcases hn with hgap | hwording
    · rw [spread_gap hgap]
      exact List.forall_mem_singleton.mpr (.inl hgap)
    · exact fun m hm => .inr (hwording.words_spread m hm)

theorem written_spread (c : Context) (ns : List Node) :
    written (plain c) (spread ns) = written (plain c) ns := by
  rw [spread, written_flatMap fun n => (writes_plain c).written_spreadGroup n,
    written_flatMap fun n => (writes_plain c).written_spreadUnknown n]

theorem runTexts_spread (h : ∀ n ∈ ns, n.isGap = true ∨ n.IsWording) :
    runTexts c (spread ns) = runTexts c ns := by
  induction ns with
  | nil => rfl
  | cons n ns ih =>
    obtain ⟨hn, hns⟩ := List.forall_mem_cons.mp h
    rw [spread_cons]
    rcases hn with hgap | hwording
    · rw [spread_gap hgap, List.singleton_append, runTexts_cons_gap hgap, runTexts_cons_gap hgap,
        ih hns]
    · have hnogap : ∀ m ∈ n.spreadUnknown.flatMap spreadGroup, m.isGap = false := fun m hm =>
        isGap_of_isInline (isInline_of_isWord (hwording.words_spread m hm))
      rw [runTexts_append hnogap, ih hns, runTexts_cons (isGap_of_isInline hwording.flows.inline),
        written_flatMap fun n => (writes_plain c).written_spreadGroup n,
        (writes_plain c).written_spreadUnknown]

/-! ## Assembly -/

theorem children_assemble_document (span : Span) (ns : List Node) :
    (branch span .document ns).assemble.children =
      paragraphs (if 1 < ns.length then normalize ns else ns) := by
  unfold assemble
  by_cases hlength : 1 < ns.length <;>
    simp [hlength, branch, withChildren, formsParagraphs, Kind.formsParagraphs, formParagraphs]

theorem children_assemble {kind : Kind} (hkind : kind.formsParagraphs = false) (span : Span)
    (ns : List Node) :
    (branch span kind ns).assemble.children = if 1 < ns.length then normalize ns else ns := by
  unfold assemble
  by_cases hlength : 1 < ns.length <;>
    simp [hlength, branch, withChildren, formsParagraphs, hkind]

/-- **The paragraphs of a document of words** are those of its runs. -/
theorem written_assemble_document (h : ∀ n ∈ ns, n.isGap = true ∨ n.IsWording) (span : Span) :
    written (plain c) (branch span .document ns).assemble.children =
      String.join ((runTexts c ns).map paragraphText) := by
  -- Grouping changes nothing but that some white space is left out.
  have hgroups : ∀ ms, ms = (if 1 < ns.length then normalize ns else ns) →
      (∀ n ∈ ms, n.isGap = true ∨ n.Flows) ∧
        (runTexts c ms).map paragraphText = (runTexts c ns).map paragraphText := by
    rintro ms rfl
    by_cases hlength : 1 < ns.length
    · rw [if_pos hlength, normalize_eq_spread, groupRuns]
      have hwords := words_or_gaps_spread h
      have hruns := runTexts_groupRunsAfter (c := c) areWords_nil hwords
      rw [List.reverse_nil, written_nil, prepend_empty, runTexts_spread h] at hruns
      refine ⟨fun n hn => ?_, hruns⟩
      exact flows_groupRunsAfter areWords_nil hwords n (List.mem_of_mem_filter hn)
    · rw [if_neg hlength]
      exact ⟨fun n hn => (h n hn).imp_right IsWording.flows, rfl⟩
  obtain ⟨hflows, htexts⟩ := hgroups _ rfl
  rw [children_assemble_document, paragraphs, written_paragraphsAfter areWords_nil hflows,
    List.reverse_nil, written_nil, prepend_empty, htexts]

theorem groupRunsAfter_words (h : AreWords ns) (run : List Node) :
    groupRunsAfter run ns = groupOf (run.reverse ++ ns) := by
  induction ns generalizing run with
  | nil => rw [groupRunsAfter, List.append_nil]
  | cons n ns ih =>
    obtain ⟨hn, hns⟩ := AreWords.cons_iff.mp h
    rw [groupRunsAfter, if_pos (isInline_of_isWord hn), ih hns, List.reverse_cons,
      List.append_assoc, List.singleton_append]

theorem words_spread (h : ∀ n ∈ ns, n.IsWording) : AreWords (spread ns) := by
  intro n hn
  obtain ⟨m, hm, hnm⟩ := List.mem_flatMap.mp hn
  obtain ⟨k, hk, hmk⟩ := List.mem_flatMap.mp hm
  exact (h k hk).words_spread n (List.mem_flatMap.mpr ⟨m, hmk, hnm⟩)

/-- A run of words is one group, unless it is white space. -/
theorem normalize_wordings (h : ∀ n ∈ ns, n.IsWording) :
    normalize ns = if (spread ns).all isBlank then [] else groupOf (spread ns) := by
  have hwords := words_spread h
  rw [normalize_eq_spread, groupRuns, groupRunsAfter_words hwords, List.reverse_nil,
    List.nil_append, filter_groupOf hwords]

/-- **What words are written as is kept**, unless it is nothing but white space that has been read
in pieces: then nothing is left of it. -/
theorem written_assemble_words {kind : Kind} (hkind : kind.formsParagraphs = false)
    (h : ∀ n ∈ ns, n.IsWording) (span : Span) :
    written (plain c) (branch span kind ns).assemble.children =
      if 1 < ns.length ∧ isBlankText (written (plain c) ns) = true then ""
      else written (plain c) ns := by
  rw [children_assemble hkind]
  by_cases hlength : 1 < ns.length
  · rw [if_pos hlength, normalize_wordings h, (words_spread h).all_isBlank c, written_spread]
    by_cases hblank : isBlankText (written (plain c) ns) = true
    · rw [if_pos hblank, if_pos ⟨hlength, hblank⟩, written_nil]
    · rw [if_neg hblank, if_neg fun hboth => hblank hboth.2, (writes_plain c).written_groupOf,
        written_spread]
  · rw [if_neg hlength, if_neg fun hboth => hlength hboth.1]

/-- Text in braces is a word, with nothing but words in it if it was read so. -/
theorem isWording_assemble_unknown (h : ∀ n ∈ ns, n.IsWording) (span : Span) (closed : Bool) :
    (branch span (.unknown closed) ns).assemble.IsWording where
  word := by simp [isWord, branch]
  inside := by
    rw [children_assemble rfl]
    by_cases hlength : 1 < ns.length
    · -- What has become a group is taken out of it again.
      rw [if_pos hlength, normalize_wordings h]
      split
      · exact areWords_nil
      · intro n hn
        obtain ⟨m, hm, hnm⟩ := List.mem_flatMap.mp hn
        exact (grouped_flows (words_spread h) m hm).words n hnm
    · rw [if_neg hlength]
      intro n hn
      obtain ⟨m, hm, hnm⟩ := List.mem_flatMap.mp hn
      exact (h m hm).flows.words n hnm

end Node

/-! ## Preparing words -/

/-- Whether a kind has nothing that preparation finds out. -/
def Kind.isProse : Kind → Bool
  | .element _ | .table _ => false
  | _ => true

namespace Node

mutual

/-- Where there are no elements and no tables, a tree is written the same once it is prepared. -/
theorem plain_prepare (c : Context) {d e : Context} : ∀ {n m : Node},
    n.EveryKind (fun k => k.isProse = true) → n.prepare d = .ok (m, e) → m.plain c = n.plain c
  | .mk span k children l, m, h, hm => by
    obtain ⟨ns, d', hns, rfl, -⟩ := prepare_mk hm
    have hchildren := plainAll_prepareAll c h.children hns
    have hk : k.isProse = true := h.kind
    cases k with
    | element e => cases hk
    | table t => cases hk
    | text s => rfl
    | gap => rfl
    | unknown closed => simp only [Kind.enter, plain, children_mk] at *; rw [hchildren]
    | paragraph => simp only [Kind.enter, plain, children_mk] at *; rw [hchildren]
    | _ => exact hchildren

theorem plainAll_prepareAll (c : Context) {d e : Context} : ∀ {ns ms : List Node},
    AllKinds (fun k => k.isProse = true) ns → prepareAll d ns = .ok (ms, e) →
      plainAll c ms = plainAll c ns
  | [], ms, _, hms => by
    cases hms
    rfl
  | n :: ns, ms, h, hms => by
    obtain ⟨m, ms', d', hm, hms', rfl, -⟩ := prepareAll_cons hms
    obtain ⟨hn, hns⟩ := allKinds_cons.mp h
    rw [plainAll, plainAll, plain_prepare c hn hm, plainAll_prepareAll c hns hms']

end

theorem allowsAssembled_isProse : AllowsAssembled fun n => n.kind.isProse = true := by
  intro n hn
  unfold Kind.isAssembled at hn
  cases hkind : n.kind <;> simp_all [Kind.isProse]

/-- A document adds nothing to what is inside it. -/
theorem plain_of_document {n : Node} (h : n.kind = .document) (c : Context) :
    n.plain c = written (plain c) n.children := by
  obtain ⟨span, kind, children, l⟩ := n
  obtain rfl : kind = .document := h
  rw [← plainAll_eq_written]
  rfl

end Node

namespace Document

variable {d : Document} {ns : List Node} {span : Span}

/-- **A document of words and blank lines** is written in plain text as the paragraphs of its
runs. -/
theorem render_words (hroot : d.root = (Node.branch span .document ns).assemble)
    (hwords : ∀ n ∈ ns, n.isGap = true ∨ n.IsWording)
    (hprose : Node.AllKinds (fun k => k.isProse = true) ns) {texts : List String}
    (htexts : ∀ c, Node.runTexts c ns = texts) (s : Settings) :
    (d.render .plain s).map Prod.fst = .ok (String.join (texts.map paragraphText)) := by
  have hkinds : d.root.EveryKind fun k => k.isProse = true := by
    rw [hroot]
    refine Node.everyKind_iff.mpr ⟨by rw [Node.kind_assemble]; rfl, ?_⟩
    exact Node.AllEvery.assemble Node.allowsAssembled_isProse hprose
  obtain ⟨m, c, hm, hc⟩ := Node.prepare_restores (Context.start .plain s).reset d.root
  have htarget : c.reset.target = .plain := hc.target
  have hkind : d.root.kind = .document := by rw [hroot, Node.kind_assemble]; rfl
  rw [← htexts c.reset, ← Node.written_assemble_document hwords span, ← hroot,
    ← Node.plain_of_document hkind c.reset, ← Node.plain_prepare c.reset hkinds hm]
  simp only [render, Context.run, hm, bind, Except.bind, pure, Except.pure, Context.write, htarget,
    Except.map]

end Document

end Bracemark
