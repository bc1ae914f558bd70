/-
The text of a cell.

The white space at the two ends of a cell is taken off its first and its last piece, so it
matters how the text has been cut into pieces. Where it is a single blank at an end it always
stands in one piece with no other white space (`flatten_trimPieces`), and what is left in the
cell is the text between the blanks (`Node.plainText_cellNode`).
-/
import Bracemark.Proofs.Paragraphs
import Bracemark.Proofs.Spans

set_option autoImplicit false

namespace Bracemark

open Text

/-! ## Trimming pieces -/

namespace Text

variable {cs ds lead trail : List Char} {css : List (List Char)}

/-- Some pieces of a text with the white space taken off the first one and off the last one. -/
def trimPieces (css : List (List Char)) : List (List Char) :=
  let started := css.modifyHead dropLeadingBlanks
  started.modify (started.length - 1) dropTrailingBlanks

theorem dropLeadingBlanks_of_trimmed (h : trimBlanks cs = cs) : dropLeadingBlanks cs = cs := by
  have hsuffix : dropLeadingBlanks cs <:+ cs := List.dropWhile_suffix isBlank
  refine hsuffix.eq_of_length_le ?_
  have hlength := congrArg List.length h
  have hle : (trimBlanks cs).length ≤ (dropLeadingBlanks cs).length := by
    rw [trimBlanks, dropTrailingBlanks, List.length_reverse]
    exact (List.dropWhile_suffix isBlank).length_le.trans (by rw [List.length_reverse])
  omega

theorem dropTrailingBlanks_of_trimmed (h : trimBlanks cs = cs) : dropTrailingBlanks cs = cs := by
  rw [trimBlanks, dropLeadingBlanks_of_trimmed h] at h
  exact h

/-- A text that is not changed by trimming does not begin with white space. -/
theorem isBlank_of_trimmed {c : Char} (h : trimBlanks (c :: cs) = c :: cs) : isBlank c = false := by
  by_contra hblank
  have hself := dropLeadingBlanks_of_trimmed h
  rw [dropLeadingBlanks, List.dropWhile_cons_of_pos (by simpa using hblank)] at hself
  have hle := (List.dropWhile_suffix isBlank : cs.dropWhile isBlank <:+ _).length_le
  rw [hself, List.length_cons] at hle
  omega

theorem dropLeadingBlanks_of_blank (h : allBlank cs = true) : dropLeadingBlanks cs = [] :=
  List.dropWhile_eq_nil_iff.mpr (List.all_eq_true.mp h)

theorem dropTrailingBlanks_of_blank (h : allBlank cs = true) : dropTrailingBlanks cs = [] := by
  rw [dropTrailingBlanks, List.reverse_eq_nil_iff]
  exact dropLeadingBlanks_of_blank (by rwa [allBlank, List.all_reverse])

/-- At most one blank before a text comes off with the first piece. -/
theorem flatten_modifyHead (hfirst : ∀ ds ∈ css.head?, ds ≠ []) (hlead : allBlank lead = true)
    (hshort : lead.length ≤ 1) (hcs : dropLeadingBlanks cs = cs) (h : css.flatten = lead ++ cs) :
    (css.modifyHead dropLeadingBlanks).flatten = cs := by
  -- What begins where the text begins has no blank to lose.
  have hkept : ∀ ds es : List Char, ds ++ es = cs → dropLeadingBlanks ds = ds := by
    intro ds es hsplit
    subst hsplit
    cases ds with
    | nil => rfl
    | cons d ds =>
      refine List.dropWhile_cons_of_neg fun hblank => ?_
      rw [dropLeadingBlanks, List.cons_append, List.dropWhile_cons_of_pos hblank] at hcs
      have hle := (List.dropWhile_suffix isBlank : (ds ++ es).dropWhile isBlank <:+ _).length_le
      rw [hcs, List.length_cons] at hle
      omega
  cases css with
  | nil =>
    obtain ⟨-, rfl⟩ := List.append_eq_nil_iff.mp h.symm
    rfl
  | cons ds css =>
    rw [List.modifyHead_cons, List.flatten_cons]
    rw [List.flatten_cons] at h
    rcases lead with _ | ⟨b, _ | ⟨b', lead⟩⟩
    · rw [hkept ds _ h]
      exact h
    · obtain ⟨d, ds, rfl⟩ := List.exists_cons_of_ne_nil (hfirst ds rfl)
      obtain ⟨rfl, hrest⟩ := List.cons.inj h
      have hb : isBlank d = true := by simpa [allBlank] using hlead
      rw [dropLeadingBlanks, List.dropWhile_cons_of_pos hb]
      exact (congrArg (· ++ css.flatten) (hkept ds _ hrest)).trans hrest
    · simp at hshort

/-- At most one blank after a text comes off with the last piece. -/
theorem flatten_modify_last (hlast : ∀ ds ∈ css.getLast?, ds ≠ []) (htrail : allBlank trail = true)
    (hshort : trail.length ≤ 1) (hcs : dropTrailingBlanks cs = cs) (h : css.flatten = cs ++ trail) :
    (css.modify (css.length - 1) dropTrailingBlanks).flatten = cs := by
  rcases List.eq_nil_or_concat css with rfl | ⟨init, ds, rfl⟩
  · obtain ⟨rfl, -⟩ := List.append_eq_nil_iff.mp h.symm
    rfl
  · -- Read backwards, the last piece is the first one.
    rw [List.concat_eq_append] at h hlast ⊢
    rw [List.flatten_append, List.flatten_singleton] at h
    have hback : [ds.reverse, init.flatten.reverse].flatten = trail.reverse ++ cs.reverse := by
      simpa using congrArg List.reverse h
    have hfirst : ∀ es ∈ [ds.reverse, init.flatten.reverse].head?, es ≠ [] := by
      intro es hes
      obtain rfl : ds.reverse = es := Option.some.inj hes
      simpa using hlast ds (by simp)
    have hcs' : dropLeadingBlanks cs.reverse = cs.reverse := List.reverse_eq_iff.mp hcs
    have hmodify := flatten_modifyHead hfirst (by rwa [allBlank, List.all_reverse])
      (by rwa [List.length_reverse]) hcs' hback
    have hmodified : (init ++ [ds]).modify init.length dropTrailingBlanks =
        init ++ [dropTrailingBlanks ds] := List.modifyTailIdx_add _ 0 init [ds]
    have hresult := congrArg List.reverse hmodify
    rw [List.length_append, List.length_singleton, Nat.add_sub_cancel, hmodified]
    simpa [dropTrailingBlanks, dropLeadingBlanks] using hresult

/-- **The white space around a text comes off with its pieces**, where it is at most one blank at
each end and no piece is empty. -/
theorem flatten_trimPieces (hne : ∀ ds ∈ css, ds ≠ []) (hlead : allBlank lead = true)
    (hlead' : lead.length ≤ 1) (htrail : allBlank trail = true) (htrail' : trail.length ≤ 1)
    (hcs : trimBlanks cs = cs) (h : css.flatten = lead ++ (cs ++ trail)) :
    (trimPieces css).flatten = cs := by
  cases cs with
  | nil =>
    -- All is white space, in two pieces at most.
    have hblank : ∀ ds ∈ css, allBlank ds = true := by
      intro ds hds
      have hall : allBlank css.flatten = true := by
        rw [h, List.nil_append, allBlank, List.all_append, Bool.and_eq_true]
        exact ⟨hlead, htrail⟩
      exact List.all_eq_true.mpr fun c hc =>
        List.all_eq_true.mp hall c (List.mem_flatten.mpr ⟨ds, hds, hc⟩)
    have hlength := congrArg List.length h
    rcases css with _ | ⟨a, _ | ⟨b, _ | ⟨d, more⟩⟩⟩
    · rfl
    · simp [trimPieces, dropLeadingBlanks_of_blank (hblank a (by simp))]
    · simp [trimPieces, dropLeadingBlanks_of_blank (hblank a (by simp)),
        dropTrailingBlanks_of_blank (hblank b (by simp))]
    · have ha := List.length_pos_iff.mpr (hne a (by simp))
      have hb := List.length_pos_iff.mpr (hne b (by simp))
      have hd := List.length_pos_iff.mpr (hne d (by simp))
      simp only [List.flatten_cons, List.length_append, List.nil_append] at hlength
      omega
  | cons c cs =>
    have hstart : dropLeadingBlanks (c :: cs ++ trail) = c :: cs ++ trail :=
      List.dropWhile_cons_of_neg (by simp [isBlank_of_trimmed hcs])
    have hstarted := flatten_modifyHead
      (fun ds hds => hne ds (List.mem_of_mem_head? hds)) hlead hlead' hstart h
    refine flatten_modify_last (fun ds hds => ?_) htrail htrail'
      (dropTrailingBlanks_of_trimmed hcs) hstarted
    -- Unless it is the first piece, too, the last piece is as it was.
    rcases css with _ | ⟨a, _ | ⟨b, more⟩⟩
    · cases hds
    · obtain rfl : dropLeadingBlanks a = ds := Option.some.inj hds
      intro hnil
      simp [hnil] at hstarted
    · rw [List.modifyHead_cons, List.getLast?_cons_cons] at hds
      exact hne ds (List.mem_cons_of_mem a (List.mem_of_getLast? hds))

end Text

namespace Node

variable {n : Node} {ns : List Node}

/-! ## Pieces of text -/

/-- The text of a node that is no text itself is that of its children. -/
theorem plainText_eq_written (h : n.text? = none) :
    n.plainText = written plainText n.children := by
  obtain ⟨span, kind, children, l⟩ := n
  rw [plainText, nodes_mk, List.filterMap_cons_none h, children_mk]
  clear h
  induction children with
  | nil => rfl
  | cons n ns ih =>
    rw [List.flatMap_cons, List.filterMap_append, String.join_append, ih, written_cons]
    rfl

/-- The text of a node that is no text itself does not depend on its kind. -/
theorem plainText_withKind {kind : Kind} (h : n.text? = none)
    (h' : (n.withKind kind).text? = none) : (n.withKind kind).plainText = n.plainText := by
  rw [plainText_eq_written h, plainText_eq_written h']
  rfl

/-- The nodes are pieces of text with these characters. -/
def ArePieces (ns : List Node) (css : List (List Char)) : Prop :=
  List.Forall₂ (fun n cs => ∃ span, n = text span (String.ofList cs)) ns css

variable {css : List (List Char)}

theorem ArePieces.wordings (h : ArePieces ns css) : ∀ n ∈ ns, n.IsWording := by
  induction h with
  | nil => exact fun _ h => absurd h List.not_mem_nil
  | cons hn _ ih =>
    obtain ⟨span, rfl⟩ := hn
    exact List.forall_mem_cons.mpr ⟨isWording_text _ _, ih⟩

theorem ArePieces.written_plainText (h : ArePieces ns css) :
    written plainText ns = String.ofList css.flatten := by
  induction h with
  | nil => rfl
  | @cons n cs ns css hn _ ih =>
    obtain ⟨span, rfl⟩ := hn
    have hplain : (text span (String.ofList cs)).plainText = String.ofList cs := by
      simp [plainText, nodes_mk, text, leaf, branch, text?]
    rw [written_cons, ih, hplain, ← String.ofList_append, List.flatten_cons]

theorem ArePieces.all_isBlank (h : ArePieces ns css) :
    ns.all isBlank = Text.allBlank css.flatten := by
  induction h with
  | nil => rfl
  | @cons n cs ns css hn _ ih =>
    obtain ⟨span, rfl⟩ := hn
    have hblank : (text span (String.ofList cs)).isBlank = Text.allBlank cs := by
      rw [isBlank_of_text rfl, isBlankText, String.toList_ofList]
    rw [List.all_cons, ih, hblank, List.flatten_cons, Text.allBlank, Text.allBlank, Text.allBlank,
      List.all_append]

theorem ArePieces.spread_eq (h : ArePieces ns css) : spread ns = ns := by
  induction h with
  | nil => rfl
  | cons hn _ ih =>
    obtain ⟨span, rfl⟩ := hn
    rw [spread_cons, ih]
    rfl

/-- Pieces of text become one piece. -/
theorem ArePieces.joinText (h : ArePieces ns css) (hne : ns ≠ []) :
    ArePieces (joinText ns) [css.flatten] := by
  suffices hafter : ∀ {ns : List Node} {css : List (List Char)}, ArePieces ns css →
      ∀ (span : Span) (cs : List Char),
        ArePieces (joinTextAfter (text span (String.ofList cs)) ns) [cs ++ css.flatten] by
    cases h with
    | nil => exact absurd rfl hne
    | cons hn hns =>
      obtain ⟨span, rfl⟩ := hn
      exact hafter hns span _
  intro ns css h
  induction h with
  | nil => exact fun span cs => .cons ⟨span, by simp⟩ .nil
  | @cons n ds ns css hn _ ih =>
    obtain ⟨span', rfl⟩ := hn
    intro span cs
    have hstep := ih ⟨span.start, max span.stop span'.stop⟩ (cs ++ ds)
    rw [String.ofList_append, List.append_assoc] at hstep
    exact hstep

/-- **Pieces of a text in a node have that text** when they have been put together, if there is
no white space around it. -/
theorem ArePieces.plainText_assemble (h : ArePieces ns css) (kind : Kind)
    (hkind : kind.formsParagraphs = false) (htext : ∀ s, kind ≠ .text s)
    (htrim : trimBlanks css.flatten = css.flatten) (span : Span) :
    (branch span kind ns).assemble.plainText = String.ofList css.flatten := by
  have hnone : (branch span kind ns).assemble.text? = none := by
    unfold text?
    rw [kind_assemble]
    split
    · next s hs => exact absurd hs (htext s)
    · rfl
  rw [plainText_eq_written hnone, children_assemble hkind]
  by_cases hlength : 1 < ns.length
  · rw [if_pos hlength, normalize_wordings h.wordings, h.spread_eq, h.all_isBlank]
    cases hblank : Text.allBlank css.flatten with
    | true =>
      rw [if_pos rfl, ← dropLeadingBlanks_of_trimmed htrim, dropLeadingBlanks_of_blank hblank]
      rfl
    | false =>
      have hne : ns ≠ [] := List.ne_nil_of_length_pos (by omega)
      rw [if_neg Bool.false_ne_true, groupOf, if_neg (by simpa using hne), written_cons,
        plainText_eq_written rfl, written_nil, String.append_empty]
      exact (h.joinText hne).written_plainText.trans (by simp)
  · rw [if_neg hlength, h.written_plainText]

/-! ## Cells -/

theorem ArePieces.modify (h : ArePieces ns css) {f : Node → Node} {g : List Char → List Char}
    (hfg : ∀ span cs, f (text span (String.ofList cs)) = text span (String.ofList (g cs)))
    (i : Nat) : ArePieces (ns.modify i f) (css.modify i g) := by
  induction h generalizing i with
  | nil =>
    rw [List.modify_nil, List.modify_nil]
    exact .nil
  | cons hn hns ih =>
    obtain ⟨span, rfl⟩ := hn
    cases i with
    | zero => exact .cons ⟨span, hfg span _⟩ hns
    | succ i => exact .cons ⟨span, rfl⟩ (ih i)

theorem ArePieces.filter (h : ArePieces ns css) :
    ArePieces (ns.filter fun n => !isEmptyText n) (css.filter fun cs => !cs.isEmpty) := by
  induction h with
  | nil => exact .nil
  | @cons n cs ns css hn _ ih =>
    obtain ⟨span, rfl⟩ := hn
    have hempty : isEmptyText (text span (String.ofList cs)) = cs.isEmpty := by
      cases cs <;> simp [isEmptyText, text?, text, leaf, branch]
    cases hcs : cs.isEmpty with
    | true =>
      rw [List.filter_cons_of_neg (by simp [hempty, hcs]), List.filter_cons_of_neg (by simp [hcs])]
      exact ih
    | false =>
      rw [List.filter_cons_of_pos (by simp [hempty, hcs]), List.filter_cons_of_pos (by simp [hcs])]
      exact .cons ⟨span, rfl⟩ ih

theorem ArePieces.trimEdges (h : ArePieces ns css) :
    ArePieces (trimEdges ns) ((trimPieces css).filter fun cs => !cs.isEmpty) := by
  have hstart := h.modify (f := trimTextStart) (g := dropLeadingBlanks)
    (fun span cs => by simp [trimTextStart, text, leaf, branch, withKind, trimStart]) 0
  rw [← List.modifyHead_eq_modify_zero, ← List.modifyHead_eq_modify_zero] at hstart
  have hend := hstart.modify (f := trimTextEnd) (g := dropTrailingBlanks)
    (fun span cs => by simp [trimTextEnd, text, leaf, branch, withKind, trimEnd])
    ((css.modifyHead dropLeadingBlanks).length - 1)
  have hlength := h.length_eq
  rw [Bracemark.trimEdges, List.length_modifyHead, hlength]
  rw [List.length_modifyHead] at hend
  simpa [trimPieces] using hend.filter

/-- **A cell has the text that was between the blanks**, in whatever pieces it was read. -/
theorem plainText_cellNode {cs lead trail : List Char} (h : ArePieces ns css)
    (hne : ∀ ds ∈ css, ds ≠ []) (hlead : Text.allBlank lead = true) (hlead' : lead.length ≤ 1)
    (htrail : Text.allBlank trail = true) (htrail' : trail.length ≤ 1)
    (hcs : trimBlanks cs = cs) (hchars : css.flatten = lead ++ (cs ++ trail)) (span : Span)
    (cell : Cell) : (cellNode span cell ns).plainText = String.ofList cs := by
  have hflatten := flatten_trimPieces hne hlead hlead' htrail htrail' hcs hchars
  rw [← List.flatten_filter_not_isEmpty] at hflatten
  have hcell := h.trimEdges.plainText_assemble (.cell cell) rfl (fun s => by simp)
    (by rw [hflatten, hcs]) span
  rw [cellNode, hcell, hflatten]

end Node

end Bracemark
