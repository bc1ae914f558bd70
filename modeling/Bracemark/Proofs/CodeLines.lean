/-
The lines of preformatted text.

Preformatted text is what has been read inside the element without the blank lines at its two
ends. `Text.IsBody` says where it begins and where it ends in terms of the text alone: whole blank
lines before it, a line end and blank lines after it, and no blank line at either end of it. There
is one such part of every text that is not white space (`Text.exists_isBody`), and it is what is
kept (`Text.trimBlankLines_eq`).

It is not kept as it stands. The text is taken apart into lines and put together again with
newlines, and a carriage return before a newline counts as a part of the line end. So the returns
inside the text that is kept go (`Text.withoutReturns`), while everything else in it stays.

The proofs follow the lines of a text one by one (`Text.lines_induction`).
-/
import Bracemark.Proofs.DocumentShape

set_option autoImplicit false

namespace Bracemark

namespace Text

variable {cs ds l lead kept tail : List Char}

/-! ## First and last lines -/

theorem allBlank_append (cs ds : List Char) :
    allBlank (cs ++ ds) = (allBlank cs && allBlank ds) :=
  List.all_append

theorem allBlank_cons {c : Char} (hc : isBlank c = true) (cs : List Char) :
    allBlank (c :: cs) = allBlank cs := by
  rw [allBlank, List.all_cons, hc, Bool.true_and]
  rfl

/-- The characters before the first newline. -/
def firstLine (cs : List Char) : List Char :=
  cs.takeWhile (· != '\n')

/-- The characters after the last newline. -/
def lastLine (cs : List Char) : List Char :=
  (cs.reverse.takeWhile (· != '\n')).reverse

/-- What holds of single lines, and of a line before a text that it holds of, holds of every
text. -/
theorem lines_induction {P : List Char → Prop} (single : ∀ l, '\n' ∉ l → P l)
    (next : ∀ l cs, '\n' ∉ l → P cs → P (l ++ '\n' :: cs)) (cs : List Char) : P cs := by
  induction hlength : cs.length using Nat.strong_induction_on generalizing cs with
  | _ n ih =>
    by_cases hline : '\n' ∈ cs
    · obtain ⟨l, rest, rfl, hl⟩ := List.eq_append_cons_of_mem hline
      refine next l rest hl (ih rest.length ?_ rest rfl)
      rw [← hlength, List.length_append, List.length_cons]
      omega
    · exact single cs hline

theorem takeWhile_line (hl : '\n' ∉ l) (cs : List Char) :
    (l ++ '\n' :: cs).takeWhile (· != '\n') = l ∧ l.takeWhile (· != '\n') = l := by
  have hline : ∀ c ∈ l, (c != '\n') = true := fun c hc => bne_iff_ne.mpr fun h => hl (h ▸ hc)
  exact ⟨(takeWhile_run hline (by simp)).1, List.takeWhile_eq_self_iff.mpr hline⟩

theorem firstLine_single (hl : '\n' ∉ l) : firstLine l = l :=
  (takeWhile_line hl []).2

theorem firstLine_append (hl : '\n' ∉ l) (cs : List Char) : firstLine (l ++ '\n' :: cs) = l :=
  (takeWhile_line hl cs).1

theorem lastLine_single (hl : '\n' ∉ l) : lastLine l = l := by
  rw [lastLine, (takeWhile_line (by rwa [List.mem_reverse]) []).2, List.reverse_reverse]

theorem lastLine_append (l : List Char) : lastLine (l ++ '\n' :: cs) = lastLine cs := by
  by_cases hcs : '\n' ∈ cs
  · obtain ⟨k, rest, hsplit, hk⟩ := List.eq_append_cons_of_mem (List.mem_reverse.mpr hcs)
    have hrest : (l ++ '\n' :: cs).reverse = k ++ '\n' :: (rest ++ '\n' :: l.reverse) := by
      rw [List.reverse_append, List.reverse_cons, hsplit]
      simp
    rw [lastLine, lastLine, hrest, hsplit, (takeWhile_line hk _).1, (takeWhile_line hk _).1]
  · have hrest : (l ++ '\n' :: cs).reverse = cs.reverse ++ '\n' :: l.reverse := by simp
    rw [lastLine_single hcs, lastLine, hrest,
      (takeWhile_line (by rwa [List.mem_reverse]) _).1, List.reverse_reverse]

/-! ## Lines -/

/-- A line without the carriage return at its end. -/
def dropReturn (l : List Char) : List Char :=
  if l.getLast? = some '\r' then l.dropLast else l

theorem dropReturn_concat (l : List Char) : dropReturn (l ++ ['\r']) = l := by
  simp [dropReturn]

theorem dropReturn_of_ne (h : l.getLast? ≠ some '\r') : dropReturn l = l :=
  if_neg h

theorem dropReturn_append (hds : ds ≠ []) (cs : List Char) :
    dropReturn (cs ++ ds) = cs ++ dropReturn ds := by
  rw [dropReturn, dropReturn, List.getLast?_append_of_ne_nil _ hds]
  split
  · rw [List.dropLast_append_of_ne_nil hds]
  · rfl

theorem isBlankLine_dropReturn (l : List Char) : isBlankLine (dropReturn l) = allBlank l := by
  rw [dropReturn, isBlankLine]
  split
  · next h =>
    obtain ⟨l, rfl⟩ := List.getLast?_eq_some_iff.mp h
    have hreturn : allBlank ['\r'] = true := by decide
    rw [List.dropLast_concat, allBlank_append, hreturn, Bool.and_true]
  · rfl

theorem linesAfter_cons {c : Char} (hc : c ≠ '\n') (before cs : List Char) :
    linesOf.linesAfter before (c :: cs) = linesOf.linesAfter (c :: before) cs :=
  if_neg hc

/-- A newline ends the line, and a return before it is no part of the line. -/
theorem linesAfter_newline (before cs : List Char) :
    linesOf.linesAfter before ('\n' :: cs) = dropReturn before.reverse :: linesOf cs := by
  refine (if_pos rfl).trans (congrArg₂ List.cons ?_ rfl)
  split
  · rw [List.reverse_cons, dropReturn_concat]
  · next hreturn =>
    refine (dropReturn_of_ne fun h => ?_).symm
    rw [List.getLast?_reverse] at h
    obtain ⟨rest, rfl⟩ := List.head?_eq_some_iff.mp h
    exact hreturn rest rfl

theorem linesAfter_append (hl : '\n' ∉ l) (cs : List Char) : ∀ before : List Char,
    linesOf.linesAfter before (l ++ '\n' :: cs) =
      dropReturn (before.reverse ++ l) :: linesOf cs := by
  induction l with
  | nil =>
    intro before
    rw [List.nil_append, linesAfter_newline, List.append_nil]
  | cons c l ih =>
    intro before
    rw [List.mem_cons, not_or] at hl
    rw [List.cons_append, linesAfter_cons (Ne.symm hl.1), ih hl.2, List.reverse_cons,
      List.append_assoc]
    rfl

theorem linesAfter_single (hl : '\n' ∉ l) : ∀ before : List Char,
    linesOf.linesAfter before l =
      if (before.reverse ++ l).isEmpty then [] else [before.reverse ++ l] := by
  induction l with
  | nil =>
    intro before
    rw [linesOf.linesAfter, List.append_nil, List.isEmpty_reverse]
  | cons c l ih =>
    intro before
    rw [List.mem_cons, not_or] at hl
    rw [linesAfter_cons (Ne.symm hl.1), ih hl.2, List.reverse_cons, List.append_assoc]
    rfl

/-- The first line of a text is followed by the lines of the rest. -/
theorem linesOf_append (hl : '\n' ∉ l) (cs : List Char) :
    linesOf (l ++ '\n' :: cs) = dropReturn l :: linesOf cs :=
  linesAfter_append hl cs []

theorem linesOf_single (hl : '\n' ∉ l) : linesOf l = if l.isEmpty then [] else [l] :=
  linesAfter_single hl []

theorem linesOf_single_of_ne (hl : '\n' ∉ l) (hne : l ≠ []) : linesOf l = [l] := by
  rw [linesOf_single hl, if_neg (by simpa using hne)]

/-- After whole lines come the lines of the rest. -/
theorem linesOf_wholeLines (cs : List Char) : (∀ c ∈ lead.getLast?, c = '\n') →
    linesOf (lead ++ cs) = linesOf lead ++ linesOf cs := by
  induction lead using lines_induction with
  | single l hl =>
    intro hends
    rcases List.eq_nil_or_concat l with rfl | ⟨l, c, rfl⟩
    · rfl
    · have hc : c = '\n' := hends c (by simp)
      exact absurd (by simp [hc]) hl
  | next l lead hl ih =>
    intro hends
    have hrest : ∀ c ∈ lead.getLast?, c = '\n' := by
      intro c hc
      refine hends c ?_
      rw [Option.mem_def] at hc ⊢
      rw [List.getLast?_append, List.getLast?_cons, hc]
      rfl
    rw [List.append_assoc, List.cons_append, linesOf_append hl, linesOf_append hl, ih hrest,
      List.cons_append]

/-- The lines of white space are blank. -/
theorem isBlankLine_of_allBlank : allBlank cs = true → ∀ l ∈ linesOf cs, isBlankLine l = true := by
  induction cs using lines_induction with
  | single l hl =>
    intro hblank l' hl'
    rw [linesOf_single hl] at hl'
    split at hl'
    · cases hl'
    · rw [List.mem_singleton.mp hl']
      exact hblank
  | next l cs hl ih =>
    intro hblank l' hl'
    rw [allBlank_append, allBlank_cons (by decide), Bool.and_eq_true] at hblank
    rw [linesOf_append hl] at hl'
    rcases List.mem_cons.mp hl' with rfl | hl'
    · rw [isBlankLine_dropReturn]
      exact hblank.1
    · exact ih hblank.2 l' hl'

/-! ## Returns -/

/-- A text without the carriage returns that stand before newlines. -/
def withoutReturns : List Char → List Char
  | '\r' :: '\n' :: cs => '\n' :: withoutReturns cs
  | c :: cs => c :: withoutReturns cs
  | [] => []

theorem withoutReturns_cons {c d : Char} (hd : d ≠ '\n') (cs : List Char) :
    withoutReturns (c :: d :: cs) = c :: withoutReturns (d :: cs) := by
  rw [withoutReturns]
  rintro cs' rfl h
  exact hd (List.cons.inj h).1

theorem withoutReturns_single (hl : '\n' ∉ l) : withoutReturns l = l := by
  fun_induction withoutReturns l with
  | case1 cs => exact absurd (by simp) hl
  | case2 c cs _ ih => rw [ih fun h => hl (List.mem_cons_of_mem _ h)]
  | case3 => rfl

theorem withoutReturns_append (hl : '\n' ∉ l) (cs : List Char) :
    withoutReturns (l ++ '\n' :: cs) = dropReturn l ++ '\n' :: withoutReturns cs := by
  induction l with
  | nil => rfl
  | cons c l ih =>
    rw [List.mem_cons, not_or] at hl
    cases l with
    | nil =>
      by_cases hc : c = '\r'
      · subst hc
        rfl
      · rw [dropReturn_of_ne (by simpa using hc), List.singleton_append, withoutReturns]
        · rfl
        · exact fun _ h => absurd h hc
    | cons d l =>
      have hd : d ≠ '\n' := fun h => hl.2 (h ▸ List.mem_cons_self)
      have hdrop : dropReturn (c :: d :: l) = c :: dropReturn (d :: l) := by
        rw [dropReturn, dropReturn, List.getLast?_cons_cons]
        split <;> rfl
      rw [List.cons_append, List.cons_append, withoutReturns_cons hd, hdrop, List.cons_append]
      exact congrArg _ (ih hl.2)

theorem withoutReturns_ne_nil (h : cs ≠ []) : withoutReturns cs ≠ [] := by
  fun_cases withoutReturns cs with
  | case1 => exact List.cons_ne_nil _ _
  | case2 => exact List.cons_ne_nil _ _
  | case3 => exact absurd rfl h

/-- A text stays as it is exactly if no return stands before a newline in it. -/
theorem withoutReturns_eq_iff (cs : List Char) :
    withoutReturns cs = cs ↔ ¬ ['\r', '\n'] <:+: cs := by
  fun_induction withoutReturns cs with
  | case1 cs ih =>
    refine iff_of_false (fun h => ?_) (not_not_intro (List.prefix_append _ cs).isInfix)
    exact absurd (List.cons.inj h).1 (by decide)
  | case2 c cs hreturn ih =>
    have hbegins : ¬ ['\r', '\n'] <+: c :: cs := by
      rintro ⟨rest, h⟩
      obtain ⟨hc, hrest⟩ := List.cons.inj h
      exact hreturn rest hc.symm hrest.symm
    rw [List.cons_inj_right, ih, List.infix_cons_iff, or_iff_right hbegins]
  | case3 => exact iff_of_true rfl (by simp)

/-! ## Where the body is -/

/-- `kept` is the text `cs` from the beginning of its first line that is not blank to the end of its
last one. A return before the newline that ends the last line is a part of the line end. -/
structure IsBody (cs lead kept tail : List Char) : Prop where
  split : cs = lead ++ (kept ++ tail)
  /-- What comes before are whole lines. -/
  wholeLines : ∀ c ∈ lead.getLast?, c = '\n'
  leadBlank : allBlank lead = true
  firstLine : allBlank (firstLine kept) = false
  lastLine : allBlank (lastLine kept) = false
  /-- What comes after begins with a line end. -/
  lineEnd : tail = [] ∨ ['\r', '\n'] <+: tail ∨ (['\n'] <+: tail ∧ kept.getLast? ≠ some '\r')
  tailBlank : allBlank tail = true

theorem ne_nil_of_lastLine (h : allBlank (lastLine cs) = false) : cs ≠ [] := by
  rintro rfl
  cases h

/-- The first line that is not blank is among the lines, with nothing before it. -/
theorem exists_head_linesOf (h : allBlank (firstLine cs) = false) :
    ∃ l ls, linesOf cs = l :: ls ∧ isBlankLine l = false := by
  induction cs using lines_induction with
  | single l hl =>
    rw [firstLine_single hl] at h
    have hne : l ≠ [] := by
      rintro rfl
      cases h
    exact ⟨l, [], linesOf_single_of_ne hl hne, h⟩
  | next l cs hl _ =>
    rw [firstLine_append hl] at h
    exact ⟨_, _, linesOf_append hl cs, by rw [isBlankLine_dropReturn, h]⟩

theorem exists_last_linesOf (h : allBlank (lastLine cs) = false) :
    ∃ ls l, linesOf cs = ls ++ [l] ∧ isBlankLine l = false := by
  induction cs using lines_induction with
  | single l hl =>
    have hne := ne_nil_of_lastLine h
    rw [lastLine_single hl] at h
    exact ⟨[], l, linesOf_single_of_ne hl hne, h⟩
  | next l cs hl ih =>
    rw [lastLine_append] at h
    obtain ⟨ls, last, hlines, hlast⟩ := ih h
    exact ⟨dropReturn l :: ls, last, by rw [linesOf_append hl, hlines, List.cons_append], hlast⟩

/-- The lines after a body are those after the newline that ends it. -/
theorem linesOf_body {e : List Char} (t : List Char) (hlast : allBlank (lastLine cs) = false)
    (hend : dropReturn (cs ++ e) = cs) (he : '\n' ∉ e) :
    linesOf (cs ++ (e ++ '\n' :: t)) = linesOf cs ++ linesOf t := by
  induction cs using lines_induction with
  | single l hl =>
    have hle : '\n' ∉ l ++ e := by simp [hl, he]
    rw [← List.append_assoc, linesOf_append hle, hend,
      linesOf_single_of_ne hl (ne_nil_of_lastLine hlast), List.singleton_append]
  | next l cs hl ih =>
    rw [lastLine_append] at hlast
    have hend' : dropReturn (cs ++ e) = cs := by
      have hne : '\n' :: (cs ++ e) ≠ [] := List.cons_ne_nil _ _
      have hne' : cs ++ e ≠ [] := by simp [ne_nil_of_lastLine hlast]
      rw [List.append_assoc, List.cons_append, dropReturn_append hne,
        ← List.singleton_append, dropReturn_append hne'] at hend
      exact List.append_cancel_left (List.append_cancel_left hend)
    rw [List.append_assoc, List.cons_append, linesOf_append hl, linesOf_append hl,
      ih hlast hend', List.cons_append]

/-- The lines of a body put together again are the body without its returns. -/
theorem intercalate_linesOf (hlast : allBlank (lastLine cs) = false) :
    ['\n'].intercalate (linesOf cs) = withoutReturns cs := by
  induction cs using lines_induction with
  | single l hl =>
    rw [linesOf_single_of_ne hl (ne_nil_of_lastLine hlast), withoutReturns_single hl]
    simp
  | next l cs hl ih =>
    rw [lastLine_append] at hlast
    obtain ⟨ls, last, hlines, -⟩ := exists_last_linesOf hlast
    have hne : linesOf cs ≠ [] := by simp [hlines]
    rw [linesOf_append hl, withoutReturns_append hl, ← ih hlast]
    rw [List.intercalate_cons_of_ne_nil hne]
    simp

/-! ## Blank lines at the ends -/

/-- Of some values between others that are dropped all are left if none of them is dropped at either
end. -/
theorem drop_both_ends {α : Type} {p : α → Bool} {before between after : List α}
    (hbefore : ∀ a ∈ before, p a = true) (hafter : ∀ a ∈ after, p a = true)
    (hfirst : ∃ a as, between = a :: as ∧ p a = false)
    (hlast : ∃ as a, between = as ++ [a] ∧ p a = false) :
    (((before ++ (between ++ after)).dropWhile p).reverse.dropWhile p).reverse = between := by
  have hstart : (before ++ (between ++ after)).dropWhile p = between ++ after := by
    obtain ⟨a, as, rfl, ha⟩ := hfirst
    rw [List.dropWhile_append_of_pos hbefore, List.cons_append,
      List.dropWhile_cons_of_neg (by simp [ha])]
  obtain ⟨as, a, rfl, ha⟩ := hlast
  have hafter' : ∀ a ∈ after.reverse, p a = true := fun a h => hafter a (List.mem_reverse.mp h)
  rw [hstart, List.reverse_append, List.dropWhile_append_of_pos hafter', List.reverse_append,
    List.reverse_singleton, List.singleton_append, List.dropWhile_cons_of_neg (by simp [ha]),
    List.reverse_cons, List.reverse_reverse]

/-- **What is kept of a text** is its body without returns before newlines. -/
theorem trimBlankLines_eq (h : IsBody cs lead kept tail) :
    trimBlankLines cs = withoutReturns kept := by
  obtain ⟨after, hafter, hlines⟩ : ∃ after, (∀ l ∈ after, isBlankLine l = true) ∧
      linesOf (kept ++ tail) = linesOf kept ++ after := by
    have htail := h.tailBlank
    rcases h.lineEnd with hend | ⟨t, ht⟩ | ⟨⟨t, ht⟩, hreturn⟩
    · exact ⟨[], by simp, by simp [hend]⟩
    · rw [← ht] at htail ⊢
      rw [allBlank_append, Bool.and_eq_true] at htail
      exact ⟨linesOf t, isBlankLine_of_allBlank htail.2, linesOf_body (e := ['\r']) t h.lastLine
        (dropReturn_concat kept) (by decide)⟩
    · rw [← ht] at htail ⊢
      rw [allBlank_append, Bool.and_eq_true] at htail
      have hend : dropReturn (kept ++ []) = kept := by
        rw [List.append_nil, dropReturn_of_ne hreturn]
      exact ⟨linesOf t, isBlankLine_of_allBlank htail.2,
        linesOf_body (e := []) t h.lastLine hend (by decide)⟩
  rw [trimBlankLines, h.split, linesOf_wholeLines _ h.wholeLines, hlines,
    drop_both_ends (isBlankLine_of_allBlank h.leadBlank) hafter (exists_head_linesOf h.firstLine)
    (exists_last_linesOf h.lastLine), intercalate_linesOf h.lastLine]

/-- White space is not kept. -/
theorem trimBlankLines_of_blank (h : allBlank cs = true) : trimBlankLines cs = [] := by
  have hdrop : (linesOf cs).dropWhile isBlankLine = [] :=
    List.dropWhile_eq_nil_iff.mpr (isBlankLine_of_allBlank h)
  rw [trimBlankLines, hdrop]
  rfl

/-! ## There is a body -/

/-- A text that is not white space is whole blank lines and a text whose first line is not
blank. -/
theorem exists_wholeLines : allBlank cs = false → ∃ lead rest, cs = lead ++ rest ∧
    (∀ c ∈ lead.getLast?, c = '\n') ∧ allBlank lead = true ∧ allBlank (firstLine rest) = false := by
  induction cs using lines_induction with
  | single l hl => exact fun h => ⟨[], l, rfl, by simp, rfl, by rwa [firstLine_single hl]⟩
  | next l cs hl ih =>
    intro h
    cases hblank : allBlank l with
    | false => exact ⟨[], l ++ '\n' :: cs, rfl, by simp, rfl, by rwa [firstLine_append hl]⟩
    | true =>
      rw [allBlank_append, hblank, Bool.true_and, allBlank_cons (by decide)] at h
      obtain ⟨lead, rest, rfl, hwhole, hlead, hrest⟩ := ih h
      refine ⟨l ++ '\n' :: lead, rest, by simp, ?_, ?_, hrest⟩
      · intro c hc
        rw [List.getLast?_append, List.getLast?_cons] at hc
        cases hlast : lead.getLast? with
        | none => simpa [hlast] using hc.symm
        | some d =>
          rw [hlast] at hc
          obtain rfl : d = c := by simpa using hc
          exact hwhole d hlast
      · rw [allBlank_append, hblank, Bool.true_and, allBlank_cons (by decide), hlead]

/-- A text that is not white space is a text whose last line is not blank, and white space that
begins with a line end. -/
theorem exists_lineEnd : allBlank cs = false → ∃ kept tail, cs = kept ++ tail ∧
    allBlank (lastLine kept) = false ∧ allBlank tail = true ∧
      (tail = [] ∨ ['\r', '\n'] <+: tail ∨ (['\n'] <+: tail ∧ kept.getLast? ≠ some '\r')) := by
  induction cs using lines_induction with
  | single l hl => exact fun h => ⟨l, [], by simp, by rwa [lastLine_single hl], rfl, .inl rfl⟩
  | next l cs hl ih =>
    intro h
    cases hblank : allBlank cs with
    | false =>
      obtain ⟨kept, tail, rfl, hlast, htail, hend⟩ := ih hblank
      refine ⟨l ++ '\n' :: kept, tail, by simp, by rwa [lastLine_append], htail, ?_⟩
      have hne := ne_nil_of_lastLine hlast
      have hends : (l ++ '\n' :: kept).getLast? = kept.getLast? := by
        rw [List.append_cons, List.getLast?_append_of_ne_nil _ hne]
      rwa [hends]
    | true =>
      rw [allBlank_append, allBlank_cons (by decide), hblank, Bool.and_true] at h
      by_cases hreturn : l.getLast? = some '\r'
      · obtain ⟨k, rfl⟩ := List.getLast?_eq_some_iff.mp hreturn
        have hk : '\n' ∉ k := fun hmem => hl (by simp [hmem])
        rw [allBlank_append, show allBlank ['\r'] = true by decide, Bool.and_true] at h
        refine ⟨k, '\r' :: '\n' :: cs, by simp, by rwa [lastLine_single hk], ?_, .inr (.inl ?_)⟩
        · rw [allBlank_cons (by decide), allBlank_cons (by decide), hblank]
        · exact List.prefix_append _ cs
      · refine ⟨l, '\n' :: cs, rfl, by rwa [lastLine_single hl], ?_, .inr (.inr ⟨?_, hreturn⟩)⟩
        · rw [allBlank_cons (by decide), hblank]
        · exact List.prefix_append _ cs

/-- **Every text that is not white space has a body.** -/
theorem exists_isBody (h : allBlank cs = false) : ∃ lead kept tail, IsBody cs lead kept tail := by
  obtain ⟨lead, rest, rfl, hwhole, hlead, hfirst⟩ := exists_wholeLines h
  rw [allBlank_append, hlead, Bool.true_and] at h
  obtain ⟨kept, tail, rfl, hlast, htail, hend⟩ := exists_lineEnd h
  refine ⟨lead, kept, tail, rfl, hwhole, hlead, ?_, hlast, hend, htail⟩
  -- The first line is that of the body, unless the body is a single line.
  by_cases hline : '\n' ∈ kept
  · obtain ⟨l, more, rfl, hl⟩ := List.eq_append_cons_of_mem hline
    rw [List.append_assoc, List.cons_append, firstLine_append hl] at hfirst
    rwa [firstLine_append hl]
  · rw [lastLine_single hline] at hlast
    rwa [firstLine_single hline]

end Text

/-! ## The element -/

section

variable {ns : List Node}

/-- The texts of the pieces of text among some nodes, put together. -/
def Node.joined (ns : List Node) : List Char :=
  (String.join (ns.filterMap Node.text?)).toList

theorem codeBody_of_blank (h : Text.allBlank (Node.joined ns) = true) : codeBody ns = [] := by
  rw [codeBody, show (String.join (ns.filterMap Node.text?)).toList = Node.joined ns from rfl,
    Text.trimBlankLines_of_blank h]
  simp

theorem codeBody_of_isBody {lead kept tail : List Char}
    (h : Text.IsBody (Node.joined ns) lead kept tail) :
    codeBody ns = [.text (Node.outerSpan ns) (String.ofList (Text.withoutReturns kept))] := by
  have hkept := Text.ne_nil_of_lastLine h.lastLine
  have hns : ns ≠ [] := by
    rintro rfl
    have hnil : ([] : List Char) = lead ++ (kept ++ tail) := h.split
    simp [hkept] at hnil
  rw [codeBody, show (String.join (ns.filterMap Node.text?)).toList = Node.joined ns from rfl,
    Text.trimBlankLines_eq h, if_neg (by simpa using hns)]
  dsimp only
  rw [if_neg (by simpa using Text.withoutReturns_ne_nil hkept)]

/-- The node of an element of preformatted text holds what is kept and nothing else. -/
theorem children_code (h : Header) (ns : List Node) :
    ∃ n, (Shape.element .code).node? h (Form.code.keptContent ns) = some n ∧
      n.children = codeBody ns := by
  have hshort : (codeBody ns).length ≤ 1 := by
    obtain hbody | ⟨s, hbody⟩ := codeBody_cases ns <;> simp [hbody]
  refine ⟨_, rfl, ?_⟩
  have hself : (Node.branch h.span (.element ⟨h.name, h.arguments, .code⟩) (codeBody ns)).assemble =
      .branch h.span (.element ⟨h.name, h.arguments, .code⟩) (codeBody ns) :=
    assemble_of_short rfl hshort
  exact congrArg Node.children hself

end

/-- **What preformatted text keeps.** An element of preformatted text holds nothing if nothing but
white space has been read inside it. Otherwise what has been read has a body, from the beginning of
its first line that is not blank to the end of its last one, and the element holds this body as one
piece of text, without the carriage returns that stand before newlines in it. So it holds the body
character for character exactly if there are none. -/
theorem Form.code_keepsLines (h : Header) (ns : List Node) :
    ∃ n, (Shape.element .code).node? h (Form.code.keptContent ns) = some n ∧
      (Text.allBlank (Node.joined ns) = true → n.children = []) ∧
      (Text.allBlank (Node.joined ns) = false →
        ∃ lead kept tail, Text.IsBody (Node.joined ns) lead kept tail) ∧
      ∀ lead kept tail, Text.IsBody (Node.joined ns) lead kept tail →
        n.children = [.text (Node.outerSpan ns) (String.ofList (Text.withoutReturns kept))] ∧
        (n.children = [.text (Node.outerSpan ns) (String.ofList kept)] ↔
          ¬ ['\r', '\n'] <:+: kept) := by
  obtain ⟨n, hn, hchildren⟩ := children_code h ns
  refine ⟨n, hn, fun hblank => ?_, Text.exists_isBody, fun lead kept tail hbody => ?_⟩
  · rw [hchildren, codeBody_of_blank hblank]
  · have hheld := hchildren.trans (codeBody_of_isBody hbody)
    refine ⟨hheld, ?_⟩
    rw [hheld, ← Text.withoutReturns_eq_iff]
    simp [Node.text, Node.leaf, Node.branch, String.ofList_inj]

/-- A return at the end of an inner line is lost. -/
theorem Form.code_losesReturn :
    let ns := [Node.text ⟨6, 8⟩ "a\r", Node.text ⟨8, 9⟩ "\n", Node.text ⟨9, 10⟩ "b"]
    Text.IsBody (Node.joined ns) [] ['a', '\r', '\n', 'b'] [] ∧
      codeBody ns = [.text ⟨6, 10⟩ "a\nb"] := by
  refine ⟨⟨by decide +kernel, by simp, by decide, by decide, by decide, by decide, by decide⟩, rfl⟩

end Bracemark
