/-
The normal form that assembly comes to.

Grouping takes groups and text in braces apart one level only, so it could leave
something for a second pass to do: a group inside a group, a piece of text that has
come to stand next to another one, a group that is empty. It does not. What it leaves
is told by `InGroups`: what flows stands in groups, no two groups are neighbours, and
every group is one that grouping its members would make again. These lists are exactly
those that grouping does not change (`normalize_eq_iff`), because taking such a list
apart and collecting its runs puts the same groups together (`InGroups.groupRuns_spread`).

Assembly on top of it skips an only child and forms paragraphs. Neither depends on
anything that a second pass would find changed, since paragraphs do not flow.
-/
import Bracemark.Proofs.WellShaped

set_option autoImplicit false

namespace Bracemark

open Text

namespace Node

variable {n : Node} {ns ms run : List Node}

/-! ## Normal form -/

/-- A group as grouping makes it: nodes that flow, with no two pieces of text next to
each other, and neither nothing nor one blank piece of text. -/
structure IsGroup (n : Node) : Prop where
  kind_eq : n.kind = .inlineGroup
  span_eq : n.span = outerSpan n.children
  layout_eq : n.layout = .unset
  inline : ∀ c ∈ n.children, c.isInline = true
  textsApart : TextsApart n.children
  nonempty : n.children ≠ []
  notBlank : ∀ c s, n.children = [c] → c.text? = some s → isBlankText s = false

/-- What flows stands in groups, and no two groups are neighbours. -/
structure InGroups (ns : List Node) : Prop where
  groups : ∀ n ∈ ns, n.isInline = false ∨ n.IsGroup
  apart : ns.IsChain fun a b => a.kind = .inlineGroup → b.kind ≠ .inlineGroup

theorem IsGroup.eq_branch (h : n.IsGroup) :
    n = branch (outerSpan n.children) .inlineGroup n.children := by
  have hself : n = .mk n.span n.kind n.children n.layout := by cases n; rfl
  rw [h.kind_eq, h.span_eq, h.layout_eq] at hself
  exact hself

theorem ne_group_of_not_inline (h : n.isInline = false) : n.kind ≠ .inlineGroup := by
  intro hkind
  rw [isInline, hkind] at h
  cases h

theorem inGroups_nil : InGroups [] :=
  ⟨List.forall_mem_nil _, .nil⟩

theorem inGroups_singleton (h : n.IsGroup) : InGroups [n] :=
  ⟨List.forall_mem_singleton.mpr (.inr h), .singleton n⟩

/-- What does not flow may stand before anything. -/
theorem InGroups.block_cons (hn : n.isInline = false) (h : InGroups ns) : InGroups (n :: ns) where
  groups := List.forall_mem_cons.mpr ⟨.inl hn, h.groups⟩
  apart := List.isChain_cons.mpr
    ⟨fun _ _ hkind => absurd hkind (ne_group_of_not_inline hn), h.apart⟩

/-- A group may stand before what does not flow. -/
theorem InGroups.group_cons {g : Node} (hg : g.IsGroup) (hn : n.isInline = false)
    (h : InGroups ns) : InGroups (g :: n :: ns) where
  groups := List.forall_mem_cons.mpr ⟨.inr hg, (h.block_cons hn).groups⟩
  apart := List.isChain_cons_cons.mpr
    ⟨fun _ => ne_group_of_not_inline hn, (h.block_cons hn).apart⟩

/-! ## Grouping comes to it -/

theorem isInline_appendText (n : Node) (s : String) (stop : Nat) :
    (n.appendText s stop).isInline = n.isInline := by
  unfold appendText
  split
  · next t hkind =>
    rw [isInline, isInline, hkind]
    rfl
  · rfl

/-- Joining texts leaves nothing that does not flow, if nothing was there. -/
theorem inline_joinText (h : ∀ m ∈ ms, m.isInline = true) :
    ∀ c ∈ joinText ms, c.isInline = true := by
  suffices hafter : ∀ {last : Node} {ms : List Node}, last.isInline = true →
      (∀ m ∈ ms, m.isInline = true) → ∀ c ∈ joinTextAfter last ms, c.isInline = true by
    cases ms with
    | nil => exact List.forall_mem_nil _
    | cons m ms => exact hafter (List.forall_mem_cons.mp h).1 (List.forall_mem_cons.mp h).2
  intro last ms
  fun_induction joinTextAfter last ms with
  | case1 last => exact fun hlast _ => List.forall_mem_singleton.mpr hlast
  | case2 last m ms _ s _ _ ih =>
    intro hlast hms
    exact ih ((isInline_appendText last s _).trans hlast) (List.forall_mem_cons.mp hms).2
  | case3 last m ms _ ih =>
    intro hlast hms
    obtain ⟨hm, hms⟩ := List.forall_mem_cons.mp hms
    exact List.forall_mem_cons.mpr ⟨hlast, ih hm hms⟩

theorem notBlank_of_not_isEmptyGroup (hkind : n.kind = .inlineGroup)
    (h : n.isEmptyGroup = false) (c : Node) (s : String) (hc : n.children = [c])
    (hs : c.text? = some s) : isBlankText s = false := by
  simpa [isEmptyGroup, hkind, hc, hs] using h

/-- Of a run nothing is left, or one group. -/
theorem filter_groupOf_cases (h : ∀ m ∈ run, m.isInline = true) :
    (groupOf run).filter (fun n => !n.isEmptyGroup) = [] ∨
      ∃ g, (groupOf run).filter (fun n => !n.isEmptyGroup) = [g] ∧ g.IsGroup := by
  unfold groupOf
  split
  · exact .inl rfl
  · next hne =>
    dsimp only
    cases hempty : (branch (outerSpan (joinText run)) .inlineGroup (joinText run)).isEmptyGroup with
    | true => exact .inl (List.filter_cons_of_neg (by simp [hempty]))
    | false =>
      refine .inr ⟨_, List.filter_cons_of_pos (by simp [hempty]), rfl, rfl, rfl,
        inline_joinText h, textsApart_joinText run, joinText_ne_nil (by simpa using hne), ?_⟩
      exact notBlank_of_not_isEmptyGroup rfl hempty

theorem inGroups_groupRunsAfter (hrun : ∀ m ∈ run, m.isInline = true) (ns : List Node) :
    InGroups ((groupRunsAfter run ns).filter fun n => !n.isEmptyGroup) := by
  have hback : ∀ {run : List Node}, (∀ m ∈ run, m.isInline = true) →
      ∀ m ∈ run.reverse, m.isInline = true := fun h m hm => h m (List.mem_reverse.mp hm)
  induction ns generalizing run with
  | nil =>
    rw [groupRunsAfter]
    rcases filter_groupOf_cases (hback hrun) with hnone | ⟨g, hsome, hg⟩
    · rw [hnone]
      exact inGroups_nil
    · rw [hsome]
      exact inGroups_singleton hg
  | cons n ns ih =>
    rw [groupRunsAfter]
    cases hn : n.isInline with
    | true =>
      rw [if_pos rfl]
      exact ih (List.forall_mem_cons.mpr ⟨hn, hrun⟩)
    | false =>
      have hrest := ih (List.forall_mem_nil _)
      -- What does not flow is no group, so it is kept and keeps the groups apart.
      have hkept : n.isEmptyGroup = false := by
        unfold isEmptyGroup
        split
        · next hkind _ => exact absurd hkind (ne_group_of_not_inline hn)
        · next hkind _ => exact absurd hkind (ne_group_of_not_inline hn)
        · rfl
      rw [if_neg Bool.false_ne_true, List.filter_append,
        List.filter_cons_of_pos (by rw [hkept]; rfl)]
      rcases filter_groupOf_cases (hback hrun) with hnone | ⟨g, hsome, hg⟩
      · rw [hnone]
        exact hrest.block_cons hn
      · rw [hsome]
        exact hrest.group_cons hg hn

theorem inGroups_normalize (ns : List Node) : InGroups (normalize ns) :=
  inGroups_groupRunsAfter (List.forall_mem_nil _) _

/-! ## Grouping leaves it -/

theorem flatMap_eq_self {f : Node → List Node} (h : ∀ n ∈ ns, f n = [n]) : ns.flatMap f = ns := by
  induction ns with
  | nil => rfl
  | cons n ns ih =>
    obtain ⟨hn, hns⟩ := List.forall_mem_cons.mp h
    rw [List.flatMap_cons, hn, ih hns, List.singleton_append]

/-- Pieces of text that do not stand next to each other are left as they are. -/
theorem joinText_eq_self (h : TextsApart ms) : joinText ms = ms := by
  suffices hafter : ∀ {last : Node} {ms : List Node}, TextsApart (last :: ms) →
      joinTextAfter last ms = last :: ms by
    cases ms with
    | nil => rfl
    | cons m ms => exact hafter h
  intro last ms
  fun_induction joinTextAfter last ms with
  | case1 last => exact fun _ => rfl
  | case2 last m ms t s hm hlast ih =>
    intro h
    have htext := (List.isChain_cons_cons.mp h).1 (isText_iff.mpr ⟨t, hlast⟩)
    rw [isText_iff.mpr ⟨s, hm⟩] at htext
    cases htext
  | case3 last m ms _ ih =>
    intro h
    rw [ih (List.isChain_cons_cons.mp h).2]

/-- A group is what grouping its members makes. -/
theorem IsGroup.groupOf_children (h : n.IsGroup) : groupOf n.children = [n] := by
  have hne : n.children.isEmpty = false := by simpa using h.nonempty
  rw [groupOf, hne, if_neg Bool.false_ne_true, joinText_eq_self h.textsApart]
  exact congrArg (fun m => [m]) h.eq_branch.symm

theorem groupRunsAfter_inline (h : ∀ m ∈ ms, m.isInline = true) (run ns : List Node) :
    groupRunsAfter run (ms ++ ns) = groupRunsAfter (ms.reverse ++ run) ns := by
  induction ms generalizing run with
  | nil => rfl
  | cons m ms ih =>
    obtain ⟨hm, hms⟩ := List.forall_mem_cons.mp h
    rw [List.cons_append, groupRunsAfter, if_pos hm, ih hms, List.reverse_cons, List.append_assoc,
      List.singleton_append]

theorem spreadGroup_of_not_inline (h : n.isInline = false) : n.spreadGroup = [n] := by
  unfold spreadGroup
  split
  · next hkind => exact absurd hkind (ne_group_of_not_inline h)
  · rfl

theorem IsGroup.spreadGroup_eq (h : n.IsGroup) : n.spreadGroup = n.children := by
  rw [spreadGroup, h.kind_eq]

/-- **Taking groups apart and collecting the runs again puts the same groups together**,
because each group is a whole run: it ends at the end or before what does not flow. -/
theorem InGroups.groupRuns_spread (h : InGroups ns) : groupRuns (ns.flatMap spreadGroup) = ns := by
  unfold groupRuns
  induction ns with
  | nil => rfl
  | cons n ns ih =>
    obtain ⟨hn, hns⟩ := List.forall_mem_cons.mp h.groups
    have hrest := ih ⟨hns, h.apart.tail⟩
    rw [List.flatMap_cons]
    rcases hn with hblock | hgroup
    · rw [spreadGroup_of_not_inline hblock, List.singleton_append, groupRunsAfter,
        if_neg (by simp [hblock]), hrest]
      rfl
    · rw [hgroup.spreadGroup_eq, groupRunsAfter_inline hgroup.inline, List.append_nil]
      cases ns with
      | nil =>
        rw [List.flatMap_nil, groupRunsAfter, List.reverse_reverse, hgroup.groupOf_children]
      | cons m ms =>
        have hm : m.isInline = false := by
          refine (hns m (List.mem_cons_self ..)).resolve_right fun hm => ?_
          exact (List.isChain_cons_cons.mp h.apart).1 hgroup.kind_eq hm.kind_eq
        rw [List.flatMap_cons, spreadGroup_of_not_inline hm, List.singleton_append, groupRunsAfter,
          if_neg (by simp [hm])] at hrest ⊢
        rw [List.reverse_reverse, hgroup.groupOf_children]
        exact congrArg (n :: ·) hrest

theorem IsGroup.isEmptyGroup_eq (h : n.IsGroup) : n.isEmptyGroup = false := by
  unfold isEmptyGroup
  split
  · next hnil => exact absurd hnil h.nonempty
  · next only _ honly =>
    cases htext : only.text? with
    | none => rfl
    | some s => exact h.notBlank only s honly htext
  · rfl

theorem InGroups.normalize_eq_self (h : InGroups ns) : normalize ns = ns := by
  have hunknown : ∀ n ∈ ns, n.spreadUnknown = [n] := by
    intro n hn
    unfold spreadUnknown
    split
    · next closed hkind =>
      -- Text in braces flows and is no group.
      rcases h.groups n hn with hblock | hgroup
      · rw [isInline, hkind] at hblock
        cases hblock
      · rw [hgroup.kind_eq] at hkind
        cases hkind
    · rfl
  have hkept : ∀ n ∈ ns, (!n.isEmptyGroup) = true := by
    intro n hn
    rcases h.groups n hn with hblock | hgroup
    · unfold isEmptyGroup
      split
      · next hkind _ => exact absurd hkind (ne_group_of_not_inline hblock)
      · next hkind _ => exact absurd hkind (ne_group_of_not_inline hblock)
      · rfl
    · rw [hgroup.isEmptyGroup_eq]
      rfl
  simp only [normalize, flatMap_eq_self hunknown, h.groupRuns_spread, List.filter_eq_self.mpr hkept]

/-- **The lists in normal form are those that grouping does not change.** -/
theorem normalize_eq_iff : normalize ns = ns ↔ InGroups ns :=
  ⟨fun h => h ▸ inGroups_normalize ns, InGroups.normalize_eq_self⟩

/-! ## Paragraphs -/

/-- Forming paragraphs leaves nothing that flows and no blank lines. -/
theorem blocks_paragraphs (run ns : List Node) :
    ∀ c ∈ paragraphsAfter run ns, c.isInline = false ∧ c.kind ≠ .gap := by
  have hparagraph : ∀ run : List Node,
      ∀ c ∈ paragraphOf run, c.isInline = false ∧ c.kind ≠ .gap := by
    intro run
    unfold paragraphOf
    split
    · exact List.forall_mem_nil _
    · exact List.forall_mem_singleton.mpr ⟨rfl, by simp [branch]⟩
  fun_induction paragraphsAfter run ns with
  | case1 run => exact hparagraph _
  | case2 run n ns _ ih => exact ih
  | case3 run n ns hn ih =>
    refine List.forall_mem_append.mpr ⟨List.forall_mem_append.mpr ⟨hparagraph _, ?_⟩, ih⟩
    split
    · exact List.forall_mem_nil _
    · next hgap =>
      refine List.forall_mem_singleton.mpr ⟨by simpa using hn, fun hkind => ?_⟩
      exact hgap (beq_iff_eq.mpr hkind)

/-- Where nothing flows and there are no blank lines, there are no paragraphs to form. -/
theorem paragraphs_eq_self (h : ∀ c ∈ ns, c.isInline = false ∧ c.kind ≠ .gap) :
    paragraphs ns = ns := by
  unfold paragraphs
  induction ns with
  | nil => rfl
  | cons n ns ih =>
    obtain ⟨⟨hn, hgap⟩, hns⟩ := List.forall_mem_cons.mp h
    have hnogap : n.isGap = false := by simpa [isGap] using hgap
    rw [paragraphsAfter, if_neg (by simp [hn]), ih hns, hnogap]
    rfl

/-! ## Assembly -/

/-- What assembly puts in the place of the children of a node. -/
theorem assemble_eq (n : Node) : n.assemble = n.withChildren
    (if n.formsParagraphs then
      paragraphs (if 1 < n.children.length then normalize n.children else n.children)
    else if 1 < n.children.length then normalize n.children else n.children) := by
  obtain ⟨span, kind, children, layout⟩ := n
  unfold assemble
  by_cases hlength : 1 < children.length <;> cases hforms : kind.formsParagraphs <;>
    simp [hlength, hforms, withChildren, formsParagraphs, formParagraphs]

/-- A node is left as it is when its children are in normal form, or too few to be
grouped, and are blocks where they would become paragraphs. -/
theorem assemble_eq_self (hgroups : 1 < n.children.length → InGroups n.children)
    (hblocks : n.formsParagraphs = true → ∀ c ∈ n.children, c.isInline = false ∧ c.kind ≠ .gap) :
    n.assemble = n := by
  have hgrouped : (if 1 < n.children.length then normalize n.children else n.children) =
      n.children := by
    split
    · next hlength => exact (hgroups hlength).normalize_eq_self
    · rfl
  have hchildren : (if n.formsParagraphs then paragraphs n.children else n.children) =
      n.children := by
    split
    · next hforms => exact paragraphs_eq_self (hblocks hforms)
    · rfl
  rw [assemble_eq, hgrouped, hchildren]
  cases n
  rfl

theorem blocks_assemble (h : n.formsParagraphs = true) :
    ∀ c ∈ n.assemble.children, c.isInline = false ∧ c.kind ≠ .gap := by
  rw [assemble_eq, if_pos h]
  exact blocks_paragraphs [] _

theorem inGroups_of_blocks (h : ∀ c ∈ ns, c.isInline = false) : InGroups ns := by
  induction ns with
  | nil => exact inGroups_nil
  | cons n ns ih =>
    obtain ⟨hn, hns⟩ := List.forall_mem_cons.mp h
    exact (ih hns).block_cons hn

theorem assemble_assemble (n : Node) : n.assemble.assemble = n.assemble := by
  have hforms : n.assemble.formsParagraphs = n.formsParagraphs := by
    rw [formsParagraphs, kind_assemble, formsParagraphs]
  refine assemble_eq_self (fun hlength => ?_) fun h => blocks_assemble (hforms.symm.trans h)
  cases hkind : n.formsParagraphs with
  | true => exact inGroups_of_blocks fun c hc => (blocks_assemble hkind c hc).1
  | false =>
    have hchildren : n.assemble.children =
        if 1 < n.children.length then normalize n.children else n.children := by
      rw [assemble_eq, hkind]
      rfl
    rw [hchildren] at hlength ⊢
    -- An only child has been left as it was and is so again.
    by_cases hmany : 1 < n.children.length
    · rw [if_pos hmany]
      exact inGroups_normalize n.children
    · rw [if_neg hmany] at hlength
      exact absurd hlength hmany

/-- **Assembly comes to a normal form.** Whatever nodes are grouped, what flows stands in
groups afterwards, no two groups are neighbours, and no group has two pieces of text next to
each other, is empty or is one blank piece of text; grouping the result again changes nothing.
Assembling any node a second time changes nothing either, and where it forms paragraphs, no
child is left that flows or stands for blank lines. -/
theorem normal_assembled :
    (∀ ns : List Node, InGroups (normalize ns) ∧ normalize (normalize ns) = normalize ns) ∧
      ∀ n : Node, n.assemble.assemble = n.assemble ∧
        (n.formsParagraphs = true →
          ∀ c ∈ n.assemble.children, c.isInline = false ∧ c.kind ≠ .gap) :=
  ⟨fun ns => ⟨inGroups_normalize ns, normalize_eq_iff.mpr (inGroups_normalize ns)⟩,
    fun n => ⟨assemble_assemble n, blocks_assemble⟩⟩

/-- A document with blank text in pieces, text in braces two levels deep and a group in a
group. -/
theorem normal_assembled_nested :
    let ns := [text ⟨0, 1⟩ " ", text ⟨1, 2⟩ "\n", leaf ⟨2, 4⟩ .gap, text ⟨4, 5⟩ "a",
      branch ⟨5, 10⟩ (.unknown true) [branch ⟨6, 9⟩ (.unknown true) [text ⟨7, 8⟩ "b"]],
      branch ⟨10, 12⟩ .inlineGroup [text ⟨10, 11⟩ "c", branch ⟨11, 12⟩ .inlineGroup []]]
    let n := branch ⟨0, 12⟩ .document ns
    (normalize ns).map (·.span) = [⟨2, 4⟩, ⟨4, 12⟩] ∧ InGroups (normalize ns) ∧
      normalize (normalize ns) = normalize ns ∧ n.formsParagraphs = true ∧
      n.assemble.assemble = n.assemble ∧
      ∀ c ∈ n.assemble.children, c.isInline = false ∧ c.kind ≠ .gap := by
  intro ns n
  obtain ⟨hgrouped, hassembled⟩ := normal_assembled
  obtain ⟨hgroups, hagain⟩ := hgrouped ns
  obtain ⟨hself, hblocks⟩ := hassembled n
  exact ⟨by decide, hgroups, hagain, rfl, hself, hblocks rfl⟩

end Node

end Bracemark
