/-
The numbers of tables and figures.

The number of a table says how many have been counted under the same outermost section when the
walk comes to it (`number?_of_split`). That is its place among them where no table lies inside
another (`read_captions_numbered`). But a table is counted when the walk has passed it, so a
table inside another is shown the same number as the one around it if nothing has been counted
in between, and no other tables share a number (`read_number?_eq_iff`).
-/
import Bracemark.Proofs.CaptionCounts
import Bracemark.Proofs.Markup
import Bracemark.Proofs.SectionNumbers
import Bracemark.Render

set_option autoImplicit false

namespace Bracemark

open Text

/-! ## Numbers as text -/

/-- The text of a number, inside a section of some number or outside all sections. -/
def captionText : Option Int → Int → String
  | none, number => toString number
  | some outermost, number => toString outermost ++ "-" ++ toString number

theorem joinNumbers_take (numbers : List Int) (number : Int) :
    joinNumbers "-" (numbers.take 1 ++ [number]) = captionText numbers.head? number := by
  cases numbers with
  | nil => simp [joinNumbers, captionText]
  | cons n ns => simp [joinNumbers, captionText, String.intercalate_cons_of_ne_nil]

theorem toString_int_injective {m n : Int} (h : toString m = toString n) : m = n := by
  have hread := congrArg String.toInt? h
  rw [Int.toString_eq_repr, Int.toString_eq_repr, Int.toInt?_repr, Int.toInt?_repr] at hread
  exact Option.some.inj hread

theorem minus_notMem_toString {n : Int} (h : 0 ≤ n) : '-' ∉ (toString n).toList := by
  obtain ⟨k, rfl⟩ := Int.eq_ofNat_of_zero_le h
  exact fun hmem => absurd (Html.isDigit_of_mem_toString k '-' hmem) (by decide)

theorem toList_captionText_some (n number : Int) :
    (captionText (some n) number).toList =
      (toString n).toList ++ '-' :: (toString number).toList := by
  rw [captionText, String.toList_append, String.toList_append, List.append_assoc]
  rfl

/-- Numbers that are not negative can be read off their text. -/
theorem captionText_inj {outermost outermost' : Option Int} {number number' : Int}
    (h : ∀ n ∈ outermost, 0 ≤ n) (hnumber : 0 ≤ number) (hnumber' : 0 ≤ number') :
    captionText outermost number = captionText outermost' number' ↔
      outermost = outermost' ∧ number = number' := by
  refine ⟨fun heq => ?_, fun ⟨ho, hn⟩ => by rw [ho, hn]⟩
  cases outermost with
  | none =>
    cases outermost' with
    | none => exact ⟨rfl, toString_int_injective heq⟩
    | some n' =>
      -- Outside all sections there is no hyphen.
      have hmem : '-' ∈ (captionText none number).toList := by
        rw [heq, toList_captionText_some]
        exact List.mem_append_cons_self
      exact absurd hmem (minus_notMem_toString hnumber)
  | some n =>
    cases outermost' with
    | none =>
      have hmem : '-' ∈ (captionText none number').toList := by
        rw [← heq, toList_captionText_some]
        exact List.mem_append_cons_self
      exact absurd hmem (minus_notMem_toString hnumber')
    | some n' =>
      -- No number has a sign, so that the hyphen is where the text parts.
      have hlist := congrArg String.toList heq
      rw [toList_captionText_some, toList_captionText_some, List.append_cons_inj_of_notMem
        (minus_notMem_toString (h n rfl)) (minus_notMem_toString hnumber)] at hlist
      obtain ⟨hn, -, hk⟩ := hlist
      rw [toString_int_injective (String.toList_injective hn),
        toString_int_injective (String.toList_injective hk)]
      exact ⟨rfl, rfl⟩

section

variable {x : Captioned} {c : Context} {root : Node} {before after : List Visit} {v : Visit}

theorem captionsAgree_start (hc : c.numbering = .start) : CaptionsAgree x [] .start c := by
  refine ⟨sectionsAgree_start (by rw [hc]; rfl), ?_⟩
  rw [hc]
  cases x <;> rfl

/-- The number of a table is the number of the outermost section around it and the number that
the counter has come to under that section. -/
theorem number?_of_split (hc : c.numbering = .start)
    (hsplit : root.visits .start c = before ++ v :: after) (hv : x.isItem v.node.kind = true) :
    x.number? v.kind = some (joinNumbers (x.separator c.settings)
      (((v.position.enclosing before).map Visit.number).take 1 ++
        [reached (x.count v.position v.position.sections.head? before)])) := by
  obtain ⟨-, hagree⟩ := (stable_captionsAgree x).of_split (captionsAgree_start hc) hsplit
  obtain ⟨-, hsettings⟩ := (stable_settings c.settings).of_split rfl hsplit
  have hnumbers : (x.counter v.context.numbering).numbers v.context.numbering.sections.numbers =
      v.context.numbering.sections.numbers.take 1 ++
        [reached (x.count v.position v.position.sections.head? before)] := by
    rw [hagree.counter]
    cases hp : v.position.sections.head? with
    | none =>
      have hnil : v.context.numbering.sections.numbers = [] := by
        rw [← List.length_eq_zero_iff, Sections.length_numbers, hagree.sections.level,
          List.head?_eq_none_iff.mp hp, List.length_nil]
      rw [Captioned.slots_of_none hp, hnil]
      rfl
    | some s =>
      rw [Captioned.slots_of_some hp]
      rfl
  rw [Visit.kind, Visit.entered, Captioned.number?_enter hv, hagree.resize, Captions.text,
    hnumbers, hsettings, hagree.sections.numbers]

/-- Where no item is inside another and nothing counts the variable up, what has been counted
are the items before. -/
theorem count_of_split
    (hapart : ∀ u ∈ root.visits .start c, ∀ v ∈ root.visits .start c,
      x.isItem u.node.kind = true → x.isItem v.node.kind = true →
        u.position.index ∉ v.position.above)
    (hsteps : ∀ v ∈ root.visits .start c, x.isStep v.node.kind = false)
    (hsplit : root.visits .start c = before ++ v :: after) (hv : x.isItem v.node.kind = true)
    (outermost : Option Nat) :
    x.count v.position outermost before =
      before.countP fun b => x.isItem b.node.kind && b.position.sections.head? == outermost := by
  refine List.countP_congr fun b hb => ?_
  have hmem : b ∈ root.visits .start c := mem_of_mem_before hsplit hb
  have hcounted : x.isCounted v.position b = x.isItem b.node.kind := by
    rw [Captioned.isCounted, hsteps b hmem, Bool.false_or]
    by_cases hitem : x.isItem b.node.kind = true
    · have hnot : v.position.above.contains b.position.index = false := by
        rw [← Bool.not_eq_true, List.contains_iff_mem]
        exact hapart b hmem v (mem_of_split hsplit) hitem hv
      rw [hitem, hnot]
      rfl
    · rw [Bool.not_eq_true] at hitem
      rw [hitem, Bool.false_and]
  rw [hcounted]

end

/-! ## Items with the same number -/

/-- Where a counter has not come to its end, its number says how often it has been counted
up. -/
theorem reached_inj {m n : Nat} (hm : (m : Int) < maxNumber) (hn : (n : Int) < maxNumber) :
    reached m = reached n ↔ m = n := by
  rw [reached, reached, min_eq_left (by omega), min_eq_left (by omega)]
  omega

theorem reached_nonneg (count : Nat) : 0 ≤ reached count := by
  unfold reached maxNumber
  omega

section

variable {x : Captioned} {c : Context} {root : Node} {before mid after : List Visit} {u v : Visit}
  (hsplit : root.visits .start c = before ++ u :: (mid ++ v :: after))
include hsplit

theorem split_later : root.visits .start c = (before ++ u :: mid) ++ v :: after := by
  rw [hsplit, List.append_assoc, List.cons_append]

/-- What has been counted at a visit has been counted at all later ones. -/
theorem isCounted_mono {b : Visit} (hb : b ∈ before) (h : x.isCounted u.position b = true) :
    x.isCounted v.position b = true := by
  obtain ⟨hordered, -⟩ := stable_index.of_split (c := c) rfl hsplit
  obtain ⟨-, hnested⟩ := stable_nested.of_split (c := c) nested_start (split_later hsplit)
  rw [Captioned.isCounted, Bool.or_eq_true, Bool.and_eq_true, Bool.not_eq_true',
    ← Bool.not_eq_true, List.contains_iff_mem] at h ⊢
  refine h.imp_right ?_
  rintro ⟨hitem, hleft⟩
  refine ⟨hitem, fun hmem => hleft ?_⟩
  exact hnested.earlier u List.mem_append_cons_self _ hmem
    (hordered.earlier b hb).2

/-- Inside a node, what comes before the node has been counted as it had been at the node. -/
theorem isCounted_of_inside {b : Visit} (hb : b ∈ before)
    (hinside : u.position.index ∈ v.position.above) :
    x.isCounted v.position b = x.isCounted u.position b := by
  rw [Bool.eq_iff_iff]
  refine ⟨fun h => ?_, isCounted_mono hsplit hb⟩
  obtain ⟨-, hnested⟩ := stable_nested.of_split (c := c) nested_start (split_later hsplit)
  obtain ⟨js, hjs⟩ := hnested.above u List.mem_append_cons_self hinside
  rw [Captioned.isCounted, Bool.or_eq_true, Bool.and_eq_true, Bool.not_eq_true',
    ← Bool.not_eq_true, List.contains_iff_mem] at h ⊢
  refine h.imp_right ?_
  rintro ⟨hitem, hleft⟩
  refine ⟨hitem, fun hmem => hleft ?_⟩
  rw [hjs]
  exact List.mem_append_left _ hmem

/-- The counter stands still between an item and a later visit exactly if the visit is inside
the item and nothing in between has been counted. -/
theorem count_eq_iff (hu : x.isItem u.node.kind = true)
    (hsame : u.position.sections.head? = v.position.sections.head?) :
    x.count u.position u.position.sections.head? before =
        x.count v.position v.position.sections.head? (before ++ u :: mid) ↔
      u.position.index ∈ v.position.above ∧
        ∀ b ∈ mid, b.position.sections.head? = v.position.sections.head? →
          x.isCounted v.position b = false := by
  have hitem : x.isCounted v.position u = !v.position.above.contains u.position.index := by
    rw [Captioned.isCounted, Captioned.isStep_of_isItem hu, hu, Bool.false_or, Bool.true_and]
  have hmid : x.count v.position v.position.sections.head? mid = 0 ↔
      ∀ b ∈ mid, b.position.sections.head? = v.position.sections.head? →
        x.isCounted v.position b = false := by
    rw [Captioned.count, List.countP_eq_zero]
    refine forall₂_congr fun b _ => ?_
    rw [Bool.and_eq_true, beq_iff_eq, not_and', Bool.not_eq_true]
  rw [← hmid, hsame, Captioned.count_append, Captioned.count_cons, hitem, hsame, beq_self_eq_true,
    Bool.and_true]
  constructor
  · intro heq
    -- What is counted at `u` is counted at `v`, so that neither `u` nor anything in between is.
    have hmono : x.count u.position v.position.sections.head? before ≤
        x.count v.position v.position.sections.head? before := by
      refine List.countP_mono_left fun b hb h => ?_
      rw [Bool.and_eq_true] at h ⊢
      exact ⟨isCounted_mono hsplit hb h.1, h.2⟩
    by_cases hinside : u.position.index ∈ v.position.above
    · exact ⟨hinside, by omega⟩
    · rw [← List.contains_iff_mem, Bool.not_eq_true] at hinside
      rw [hinside, Bool.not_false, if_pos rfl] at heq
      omega
  · rintro ⟨hinside, hzero⟩
    -- Inside `u`, the earlier items that are around are those around `u`.
    have hbefore : x.count v.position v.position.sections.head? before =
        x.count u.position v.position.sections.head? before := by
      refine List.countP_congr fun b hb => ?_
      rw [isCounted_of_inside hsplit hb hinside]
    rw [← List.contains_iff_mem] at hinside
    rw [hbefore, hzero, hinside, Bool.not_true, if_neg Bool.false_ne_true, Nat.add_zero]

end

section

variable {x : Captioned} {c : Context} {root : Node} {before after : List Visit} {v : Visit}
  (hsplit : root.visits .start c = before ++ v :: after)
include hsplit

/-- No more is counted than there is. -/
theorem count_le (p : Position) (outermost : Option Nat) :
    x.count p outermost before ≤ (root.visits .start c).countP fun b =>
      (x.isStep b.node.kind || x.isItem b.node.kind) &&
        b.position.sections.head? == outermost := by
  rw [hsplit, List.countP_append]
  refine Nat.le_add_right_of_le (List.countP_mono_left fun b _ h => ?_)
  rw [Captioned.isCounted, Bool.and_eq_true, Bool.or_eq_true, Bool.and_eq_true] at h
  rw [Bool.and_eq_true, Bool.or_eq_true]
  exact ⟨h.1.imp_right And.left, h.2⟩

/-- The outermost section around a visit has a number that is not negative. -/
theorem outermost_nonneg (hgoes : GoesOn (root.visits .start c)) :
    ∀ n ∈ (v.position.enclosing before).head?.map Visit.number, 0 ≤ n := by
  rintro n hn
  obtain ⟨b, hb, rfl⟩ := Option.map_eq_some_iff.mp hn
  obtain ⟨hbefore, hmem⟩ := mem_enclosing.mp (List.mem_of_head? hb)
  obtain ⟨-, hnested⟩ := stable_nested.of_split (c := c) nested_start hsplit
  obtain ⟨l₁, l₂, rfl⟩ := List.append_of_mem hbefore
  have hone := hgoes.one_le_number _ l₁ b (l₂ ++ v :: after) rfl
    (by rw [hsplit, List.append_assoc, List.cons_append]) (hnested.sections b hbefore hmem).1
  omega

end

/-- **Two items have the same number** exactly if the later one is inside the earlier one, under
the same outermost section, and nothing in between has been counted there. -/
theorem number?_eq_iff {x : Captioned} {c : Context} {root : Node} {before mid after : List Visit}
    {u v : Visit} (hc : c.numbering = .start) (hseparator : x.separator c.settings = "-")
    (hgoes : GoesOn (root.visits .start c))
    (hfits : ∀ outermost, (((root.visits .start c).countP fun b =>
      (x.isStep b.node.kind || x.isItem b.node.kind) &&
        b.position.sections.head? == outermost : Nat) : Int) < maxNumber)
    (hsplit : root.visits .start c = before ++ u :: (mid ++ v :: after))
    (hu : x.isItem u.node.kind = true) (hv : x.isItem v.node.kind = true) :
    x.number? u.kind = x.number? v.kind ↔
      u.position.index ∈ v.position.above ∧
        u.position.sections.head? = v.position.sections.head? ∧
        ∀ b ∈ mid, b.position.sections.head? = v.position.sections.head? →
          x.isCounted v.position b = false := by
  have hlater := split_later hsplit
  have hsections : c.numbering.sections = .start := by
    rw [hc]
    rfl
  have hle : ∀ (p : Position) (o : Option Nat), (x.count p o before : Int) < maxNumber :=
    fun p o => lt_of_le_of_lt (Int.ofNat_le.mpr (count_le hsplit p o)) (hfits o)
  have hle' : ∀ (p : Position) (o : Option Nat),
      (x.count p o (before ++ u :: mid) : Int) < maxNumber :=
    fun p o => lt_of_le_of_lt (Int.ofNat_le.mpr (count_le hlater p o)) (hfits o)
  rw [number?_of_split hc hsplit hu, number?_of_split hc hlater hv, hseparator, joinNumbers_take,
    joinNumbers_take, List.head?_map, List.head?_map, Option.some.injEq,
    captionText_inj (outermost_nonneg hsplit hgoes) (reached_nonneg _) (reached_nonneg _),
    outermost_number_eq_iff hsections hlater hsplit hgoes, reached_inj (hle _ _) (hle' _ _)]
  constructor
  · rintro ⟨hsame, hcount⟩
    obtain ⟨hinside, hmid⟩ := (count_eq_iff hsplit hu hsame).mp hcount
    exact ⟨hinside, hsame, hmid⟩
  · rintro ⟨hinside, hsame, hmid⟩
    exact ⟨hsame, (count_eq_iff hsplit hu hsame).mpr ⟨hinside, hmid⟩⟩

/-! ## Documents -/

namespace Document

theorem render_of_prepare {d : Document} {target : Target} {s : Settings} {m : Node} {c : Context}
    (h : d.root.prepare (Context.start target s).reset = .ok (m, c)) :
    ∃ text, d.render target s = .ok (text, { d with root := m }) := by
  refine ⟨c.reset.write m, ?_⟩
  simp only [render, Context.run, h, bind, Except.bind, pure, Except.pure]

/-- **Tables are numbered by their place**, and so are figures. A document where no table lies
inside another and nothing counts up the variable can be written with the settings where nothing
else is chosen. A table outside all sections then has its place among the tables outside all
sections; one inside a section has its place among those under the same outermost section, after
the number of that section. -/
theorem read_captions_numbered (x : Captioned) (forms : Catalog) (source : String)
    (target : Target) :
    let root := (read forms source).root
    let visits := root.visits .start (Context.start target .standard).reset
    (∀ u ∈ visits, ∀ v ∈ visits, x.isItem u.node.kind = true → x.isItem v.node.kind = true →
      u.position.index ∉ v.position.above) →
    (∀ v ∈ visits, x.isStep v.node.kind = false) →
    ∃ text d, (read forms source).render target .standard = .ok (text, d) ∧
      d.root.nodes.map Node.kind = visits.map Visit.kind ∧
      ∀ (before : List Visit) (v : Visit) (after : List Visit),
        visits = before ++ v :: after → x.isItem v.node.kind = true →
        x.number? v.kind = some (captionText
          ((v.position.enclosing before).head?.map Visit.number)
          (min (1 + before.countP fun b => x.isItem b.node.kind &&
            b.position.sections.head? == v.position.sections.head?) maxNumber)) := by
  intro root visits hapart hsteps
  obtain ⟨m, d, hm, -⟩ := Node.prepare_restores (Context.start target .standard).reset root
  obtain ⟨text, htext⟩ := render_of_prepare hm
  refine ⟨text, _, htext, Node.map_kind_visits .start hm, fun before v after hsplit hv => ?_⟩
  have hnumber := number?_of_split (c := (Context.start target .standard).reset) rfl hsplit hv
  rw [hnumber]
  show some (joinNumbers (x.separator .standard) _) = _
  rw [x.separator_standard, joinNumbers_take, List.head?_map,
    count_of_split hapart hsteps hsplit hv]
  rfl

/-- Two tables after each other and two more in a section, one of them in a section of its
own. -/
theorem read_captions_numbered_sections :
    let source := "\x7btable|\na\n\x7d\x7btable|\nb\n\x7d" ++
      "\x7bs|\x7btable|\nc\n\x7d\x7bs|\x7btable|\nd\n\x7d\x7d\x7d"
    ∃ text d, (read .standard source).render .plain .standard = .ok (text, d) ∧
      d.root.nodes.filterMap (fun n => Captioned.table.number? n.kind) =
        ["1", "2", "1-1", "1-2"] := by
  intro source
  let visits := (read .standard source).root.visits .start (Context.start .plain .standard).reset
  have hapart : ∀ u ∈ visits, ∀ v ∈ visits, Captioned.table.isItem u.node.kind = true →
      Captioned.table.isItem v.node.kind = true → u.position.index ∉ v.position.above := by
    decide +kernel
  have hsteps : ∀ v ∈ visits, Captioned.table.isStep v.node.kind = false := by
    decide +kernel
  obtain ⟨text, d, htext, hkinds, -⟩ :=
    read_captions_numbered .table .standard source .plain hapart hsteps
  refine ⟨text, d, htext, ?_⟩
  have hnumbers : (visits.map Visit.kind).filterMap Captioned.table.number? =
      ["1", "2", "1-1", "1-2"] := by
    decide +kernel
  rw [← hnumbers, ← hkinds, List.filterMap_map]
  rfl

/-- **A table may share its number with the tables inside it**, and likewise a figure. Where no
section asks for a number and no counter comes to its end, two of them have the same number
exactly if the later one is inside the earlier one, under the same outermost section, and
nothing in between has been counted there. So those that do not lie in each other are told
apart by their numbers. -/
theorem read_number?_eq_iff (x : Captioned) (forms : Catalog) (source : String)
    (target : Target) :
    let root := (read forms source).root
    let visits := root.visits .start (Context.start target .standard).reset
    (∀ v ∈ visits, v.isSection = true → v.start? = none) →
    SectionsFit visits →
    (∀ outermost, ((visits.countP fun b => (x.isStep b.node.kind || x.isItem b.node.kind) &&
      b.position.sections.head? == outermost : Nat) : Int) < maxNumber) →
    ∃ text d, (read forms source).render target .standard = .ok (text, d) ∧
      d.root.nodes.map Node.kind = visits.map Visit.kind ∧
      ∀ u ∈ visits, ∀ v ∈ visits, u.position.index < v.position.index →
        x.isItem u.node.kind = true → x.isItem v.node.kind = true →
        (x.number? u.kind = x.number? v.kind ↔
          u.position.index ∈ v.position.above ∧
          u.position.sections.head? = v.position.sections.head? ∧
          ∀ b ∈ visits, u.position.index < b.position.index →
            b.position.index < v.position.index →
            b.position.sections.head? = v.position.sections.head? →
            x.isCounted v.position b = false) := by
  intro root visits hstarts hfits hcounts
  obtain ⟨m, d, hm, -⟩ := Node.prepare_restores (Context.start target .standard).reset root
  obtain ⟨text, htext⟩ := render_of_prepare hm
  refine ⟨text, _, htext, Node.map_kind_visits .start hm, fun u hu v hv hlt hitem hitem' => ?_⟩
  obtain ⟨before, mid, after, hsplit, hmid⟩ := Node.exists_split hu hv hlt
  have hgoes : GoesOn visits :=
    goesOn_of_no_start rfl (startsAsAsked_read forms source) hstarts hfits
  rw [number?_eq_iff rfl x.separator_standard hgoes hcounts hsplit hitem hitem']
  refine and_congr_right fun _ => and_congr_right fun _ => ?_
  refine ⟨fun h b hb hgt hlt => ?_, fun h b hb => ?_⟩
  · exact h b ((hmid b hb).mpr ⟨hgt, hlt⟩)
  · have hvisited : b ∈ visits := by
      show b ∈ root.visits .start _
      rw [hsplit]
      exact List.mem_append_right _ (List.mem_cons_of_mem _ (List.mem_append_left _ hb))
    obtain ⟨hgt, hlt⟩ := (hmid b hvisited).mp hb
    exact h b hvisited hgt hlt

/-- A table in a cell of a table shares its number; the table after both does not. -/
theorem read_number?_eq_iff_nested :
    let source := "\x7btable|\n\x7btable|\nx\n\x7d\n\x7d\x7btable|\ny\n\x7d"
    let visits := (read .standard source).root.visits .start (Context.start .plain .standard).reset
    ∃ u ∈ visits, ∃ v ∈ visits, ∃ w ∈ visits,
      Captioned.table.isItem u.node.kind = true ∧ Captioned.table.isItem v.node.kind = true ∧
      Captioned.table.isItem w.node.kind = true ∧ u.position.index < v.position.index ∧
      v.position.index < w.position.index ∧
      Captioned.table.number? u.kind = Captioned.table.number? v.kind ∧
      Captioned.table.number? v.kind ≠ Captioned.table.number? w.kind := by
  intro source visits
  have hstarts : ∀ v ∈ visits, v.isSection = true → v.start? = none := by
    decide +kernel
  have hsmall : ∀ b ∈ visits, b.number < maxNumber := by
    decide +kernel
  have hlength : (visits.length : Int) < maxNumber := by
    decide +kernel
  obtain ⟨text, d, -, -, hiff⟩ := read_number?_eq_iff .table .standard source .plain hstarts
    (.of_small hsmall) fun outermost =>
      lt_of_le_of_lt (Int.ofNat_le.mpr List.countP_le_length) hlength
  have hfound : ∃ u ∈ visits, ∃ v ∈ visits, ∃ w ∈ visits,
      Captioned.table.isItem u.node.kind = true ∧ Captioned.table.isItem v.node.kind = true ∧
      Captioned.table.isItem w.node.kind = true ∧ u.position.index < v.position.index ∧
      v.position.index < w.position.index ∧ u.position.index ∈ v.position.above ∧
      u.position.sections.head? = v.position.sections.head? ∧
      (∀ b ∈ visits, u.position.index < b.position.index →
        b.position.index < v.position.index →
        b.position.sections.head? = v.position.sections.head? →
        Captioned.table.isCounted v.position b = false) ∧
      v.position.index ∉ w.position.above := by
    decide +kernel
  obtain ⟨u, hu, v, hv, w, hw, hitem, hitem', hitem'', hlt, hlt', hinside, hsame, hbetween,
    houtside⟩ := hfound
  refine ⟨u, hu, v, hv, w, hw, hitem, hitem', hitem'', hlt, hlt', ?_, fun heq => houtside ?_⟩
  · exact (hiff u hu v hv hlt hitem hitem').mpr ⟨hinside, hsame, hbetween⟩
  · exact ((hiff v hv w hw hlt' hitem' hitem'').mp heq).1

/-- A table in a cell of a table has the number of that table, and the next one skips a
number. -/
theorem read_tables_share_number :
    let source := "\x7btable|\n\x7btable|\nx\n\x7d\n\x7d\x7btable|\ny\n\x7d"
    ((read .standard source).render .plain .standard).toOption.map (fun r =>
      r.2.root.nodes.filterMap fun n => Captioned.table.number? n.kind) =
        some ["1", "1", "3"] := by
  decide +kernel

end Document

end Bracemark
