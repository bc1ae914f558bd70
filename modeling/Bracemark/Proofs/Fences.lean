/-
Where verbatim text ends.

A run of backticks opens verbatim text, and what closes it is searched for as a text: the same
number of backticks, wherever they stand together. So shorter runs are content, while the first
run that is long enough closes the text, even when it is longer than the run that opened it.
As many backticks as were opened with are then taken from that run and the others are left
(`Cursor.tryRead_verbatim`). Where the run has the same length, nothing of it is left.

Runs are maximal here (`IsRun`). The search knows nothing of runs. What connects the two is that a
text holds so many backticks side by side just if one of its runs is as long
(`fence_infix_iff`).
-/
import Bracemark.Proofs.Surroundings
import Bracemark.Proofs.TextReading

set_option autoImplicit false

namespace Bracemark

open Reading

/-! ## Runs of backticks -/

/-- So many backticks. -/
def fence (n : Nat) : List Char :=
  List.replicate n '\x60'

/-- In the text stand `n` backticks between `before` and `after`, and no more of them on either
side. -/
structure IsRun (cs before : List Char) (n : Nat) (after : List Char) : Prop where
  pos : 0 < n
  text : cs = before ++ fence n ++ after
  before : before.getLast? ≠ some '\x60'
  after : after.head? ≠ some '\x60'

theorem fence_add (i j : Nat) : fence (i + j) = fence i ++ fence j :=
  List.replicate_add ..

theorem fence_split {n k : Nat} (h : n ≤ k) : fence k = fence n ++ fence (k - n) := by
  rw [← fence_add, Nat.add_sub_cancel' h]

theorem mem_fence {n : Nat} {c : Char} (h : c ∈ fence n) : c = '\x60' :=
  List.eq_of_mem_replicate h

theorem reverse_fence (n : Nat) : (fence n).reverse = fence n :=
  List.reverse_replicate ..

theorem fence_ne_nil {n : Nat} (hn : 0 < n) : fence n ≠ [] := by
  simp [fence, hn.ne']

theorem head?_fence {n : Nat} (hn : 0 < n) : (fence n).head? = some '\x60' := by
  rw [fence, List.head?_replicate, if_neg hn.ne']

theorem getLast?_fence {n : Nat} (hn : 0 < n) : (fence n).getLast? = some '\x60' := by
  rw [fence, List.getLast?_replicate, if_neg hn.ne']

theorem getLast?_of_cons {c : Char} {cs : List Char} (h : (c :: cs).getLast? ≠ some '\x60') :
    cs.getLast? ≠ some '\x60' := by
  cases cs with
  | nil => simp
  | cons d cs => rwa [List.getLast?_cons_cons] at h

/-- Every text begins with some backticks, perhaps none, and then something else. -/
theorem exists_fence_append (cs : List Char) :
    ∃ n rest, cs = fence n ++ rest ∧ rest.head? ≠ some '\x60' := by
  induction cs with
  | nil => exact ⟨0, [], rfl, by simp⟩
  | cons c cs ih =>
    by_cases hc : c = '\x60'
    · obtain ⟨n, rest, rfl, hrest⟩ := ih
      subst hc
      exact ⟨n + 1, rest, rfl, hrest⟩
    · exact ⟨0, c :: cs, rfl, by simpa using hc⟩

/-- Every text ends with some backticks, perhaps none. -/
theorem exists_append_fence (cs : List Char) :
    ∃ rest n, cs = rest ++ fence n ∧ rest.getLast? ≠ some '\x60' := by
  obtain ⟨n, rest, hcs, hrest⟩ := exists_fence_append cs.reverse
  refine ⟨rest.reverse, n, ?_, by rwa [List.getLast?_reverse]⟩
  rw [← List.reverse_reverse cs, hcs, List.reverse_append, reverse_fence]

/-- A text begins with a run of backticks unless it begins with another character. -/
theorem exists_opening {cs : List Char} (h : cs.head? = some '\x60') :
    ∃ n body, IsRun cs [] n body := by
  obtain ⟨n, body, rfl, hbody⟩ := exists_fence_append cs
  cases n with
  | zero => exact absurd h hbody
  | succ n => exact ⟨n + 1, body, Nat.succ_pos n, rfl, by simp, hbody⟩

/-- **Backticks side by side are part of a run**, which is as long at least. -/
theorem fence_infix_iff {n : Nat} (hn : 0 < n) {cs : List Char} :
    fence n <:+: cs ↔ ∃ before k after, IsRun cs before k after ∧ n ≤ k := by
  constructor
  · rintro ⟨a, b, rfl⟩
    obtain ⟨before, i, rfl, hbefore⟩ := exists_append_fence a
    obtain ⟨j, after, rfl, hafter⟩ := exists_fence_append b
    refine ⟨before, i + n + j, after, ⟨by omega, ?_, hbefore, hafter⟩, by omega⟩
    simp only [fence_add, List.append_assoc]
  · rintro ⟨before, k, after, hrun, hk⟩
    refine ⟨before, fence (k - n) ++ after, ?_⟩
    rw [hrun.text, fence_split hk]
    simp only [List.append_assoc]

/-- All runs are shorter where the backticks do not stand side by side. -/
theorem runs_shorter_iff {n : Nat} (hn : 0 < n) {cs : List Char} :
    (∀ before k after, IsRun cs before k after → k < n) ↔ ¬ fence n <:+: cs := by
  rw [fence_infix_iff hn]
  push Not
  rfl

/-- What comes before a run has the runs that the text has there. -/
theorem IsRun.of_before {cs before between tail after : List Char} {j k : Nat}
    (hrun : IsRun cs before k after) (h : IsRun before between j tail) :
    IsRun cs between j (tail ++ fence k ++ after) := by
  refine ⟨h.pos, ?_, h.before, ?_⟩
  · rw [hrun.text, h.text]
    simp only [List.append_assoc]
  · cases tail with
    | nil =>
      -- Nothing between the two runs would make one run of them, before which a backtick stands.
      refine absurd ?_ hrun.before
      rw [h.text, List.append_nil, List.getLast?_append, getLast?_fence h.pos]
      rfl
    | cons c tail => exact h.after

/-! ## The closing run -/

/-- A text that begins with `n` backticks, no more, and after them has `content` up to the first
run of at least as many, which are `k`; then comes `after`. -/
structure IsFenced (cs : List Char) (n : Nat) (content : List Char) (k : Nat)
    (after : List Char) : Prop where
  opens : IsRun cs [] n (content ++ fence k ++ after)
  closes : IsRun (content ++ fence k ++ after) content k after
  enough : n ≤ k
  shorter : ∀ before j between, IsRun content before j between → j < n

/-- Where any later run is long enough, one of them is the first. -/
theorem exists_isFenced {cs body : List Char} {n : Nat} (hopen : IsRun cs [] n body)
    (h : ∃ before k after, IsRun body before k after ∧ n ≤ k) :
    ∃ content k after, IsFenced cs n content k after := by
  obtain ⟨before, k, after, hrun, hk⟩ := h
  -- A run in the content that is long enough comes before the one that was found.
  induction hlength : before.length using Nat.strong_induction_on generalizing before k after with
  | _ length ih =>
    by_cases hshorter : ∀ before' j between, IsRun before before' j between → j < n
    · have htext := hrun.text
      subst htext
      exact ⟨before, k, after, hopen, hrun, hk, hshorter⟩
    · push Not at hshorter
      obtain ⟨before', j, between, hearlier, hj⟩ := hshorter
      refine ih before'.length ?_ before' j _ (hrun.of_before hearlier) hj rfl
      rw [← hlength, hearlier.text]
      have hpos := hearlier.pos
      simp only [List.length_append, fence, List.length_replicate]
      omega

namespace Parser

/-! ## Searching for a fence -/

/-- The search finds nothing just if there is nothing. -/
theorem cutAtFence_eq_none_iff {pat : List Char} (hne : pat ≠ []) (cs : List Char) :
    cutAtFence pat cs = none ↔ ¬ pat <:+: cs := by
  induction cs with
  | nil => simp [cutAtFence, hne]
  | cons c cs ih =>
    rw [cutAtFence, List.infix_cons_iff, not_or, ← ih]
    split
    · next hp => simp [List.isPrefixOf_iff_prefix.mp hp]
    · next hp => simp [← List.isPrefixOf_iff_prefix, hp]

/-- The search stops at the first place: neither does the fence occur before it, nor does it begin
with the backticks before it. -/
theorem cutAtFence_append {n : Nat} (hn : 0 < n) {content : List Char} (rest : List Char)
    (hlast : content.getLast? ≠ some '\x60') (hfree : ¬ fence n <:+: content) :
    cutAtFence (fence n) (content ++ fence n ++ rest) = some (content, rest) := by
  induction content with
  | nil =>
    obtain ⟨m, rfl⟩ := Nat.exists_eq_succ_of_ne_zero hn.ne'
    rw [List.nil_append]
    have hprefix : (fence (m + 1)).isPrefixOf ('\x60' :: (fence m ++ rest)) = true :=
      List.isPrefixOf_iff_prefix.mpr ⟨rest, rfl⟩
    have hdrop : ('\x60' :: (fence m ++ rest)).drop (fence (m + 1)).length = rest :=
      List.drop_left
    show cutAtFence (fence (m + 1)) ('\x60' :: (fence m ++ rest)) = _
    rw [cutAtFence, if_pos hprefix, hdrop]
  | cons c content ih =>
    rw [List.infix_cons_iff, not_or] at hfree
    have hprefix : ¬ fence n <+: c :: (content ++ fence n ++ rest) := by
      intro h
      rcases List.prefix_or_prefix_of_prefix h
        (show c :: content <+: c :: (content ++ fence n ++ rest) from
          ⟨fence n ++ rest, by simp⟩) with hin | hin
      · exact hfree.1 hin
      · -- All of the content would be backticks, its last character too.
        obtain ⟨d, hd⟩ := Option.isSome_iff_exists.mp
          (show (c :: content).getLast?.isSome from by simp)
        obtain rfl := mem_fence (hin.subset (List.mem_of_getLast? hd))
        exact hlast hd
    have hlast' := getLast?_of_cons hlast
    rw [List.cons_append, List.cons_append, cutAtFence,
      if_neg (by rwa [List.isPrefixOf_iff_prefix]), ih hlast' hfree.2]
    rfl

/-- What is found is the content up to the first run that is long enough. -/
theorem upToFence_of_isFenced {place : Place} {n k : Nat} {content after : List Char}
    {cs : List Char} (h : IsFenced cs n content k after)
    (hrest : place.rest = content ++ fence k ++ after) :
    upToFence (fence n) place =
      some (content, place.skip (content ++ fence n) (fence (k - n) ++ after)) := by
  have hn := h.opens.pos
  have hfree : ¬ fence n <:+: content := (runs_shorter_iff hn).mp h.shorter
  cases content with
  | nil =>
    -- The opening run would go on.
    have hk := h.closes.pos
    refine absurd ?_ h.opens.after
    rw [List.nil_append, List.head?_append, head?_fence hk]
    rfl
  | cons c content =>
    rw [List.infix_cons_iff, not_or] at hfree
    have hcut := cutAtFence_append hn (fence (k - n) ++ after)
      (getLast?_of_cons h.closes.before) hfree.2
    have hrest' : place.rest = c :: (content ++ fence n ++ (fence (k - n) ++ after)) := by
      rw [hrest, fence_split h.enough]
      simp only [List.cons_append, List.append_assoc]
    rw [upToFence, hrest']
    dsimp only
    rw [hcut]
    rfl

/-- Nothing is found where all later runs are shorter. -/
theorem upToFence_eq_none {place : Place} {n : Nat} (hn : 0 < n)
    (h : ¬ ∃ before k after, IsRun place.rest before k after ∧ n ≤ k) :
    upToFence (fence n) place = none := by
  rw [← fence_infix_iff hn] at h
  rw [upToFence]
  cases hrest : place.rest with
  | nil => rfl
  | cons c cs =>
    rw [hrest, List.infix_cons_iff, not_or] at h
    dsimp only
    rw [(cutAtFence_eq_none_iff (fence_ne_nil hn) cs).mpr h.2]
    rfl

/-! ## Verbatim text -/

variable {s : Scope} {place : Place} {m : Memory}

theorem verbatim_eq_none (h : place.rest.head? ≠ some '\x60') :
    (verbatim : Parser Node) s place m = (none, m) := by
  have hopen : Pattern.backticks.capture? place.rest = none := by
    refine runOf?_eq_none fun c hc => ?_
    rw [beq_eq_false_iff_ne]
    rintro rfl
    exact h hc
  rw [verbatim, bind_apply, here_apply]
  dsimp only
  rw [bind_apply, pattern_apply, hopen]
  rfl

/-- After the run that opens it, verbatim text is what the search finds. -/
theorem verbatim_of_isRun {n : Nat} {body : List Char} (hopen : IsRun place.rest [] n body) :
    (verbatim : Parser Node) s place m =
      ((upToFence (fence n) (place.skip (fence n) body)).map fun (content, q) =>
        (textFrom place q content, q), m) := by
  have hcapture : Pattern.backticks.capture? place.rest = some (.plain (fence n) body) := by
    rw [hopen.text, List.nil_append]
    refine runOf?_append (fence_ne_nil hopen.pos) (fun c hc => by simp [mem_fence hc])
      fun c hc => ?_
    rw [beq_eq_false_iff_ne]
    rintro rfl
    exact hopen.after hc
  rw [verbatim, bind_apply, here_apply]
  dsimp only
  rw [bind_apply, pattern_apply, hcapture]
  dsimp only [Option.map_some]
  rw [bind_apply, ofPlace_apply, Capture.text_plain, Capture.rest_plain]
  cases upToFence (fence n) (place.skip (fence n) body) with
  | none => rfl
  | some found => rfl

theorem read_verbatim_apply (s : Scope) (place : Place) (m : Memory) :
    (Grammar.read (.rule .verbatim) : Parser Node) s place m =
      (verbatim : Parser Node) s place m :=
  Grammar.read_apply (.rule .verbatim) s place m

end Parser

namespace Cursor

variable {c : Cursor} {n k : Nat} {content after : List Char}

theorem tryRead_of_isFenced (hc : c.Sound) (h : IsFenced c.place.rest n content k after) :
    let stop := c.place.skip (fence n ++ content ++ fence n) (fence (k - n) ++ after)
    c.tryRead (.rule .verbatim) =
      (.ok (.text (c.place.spanTo stop) (String.ofList content)), { c with place := stop }) := by
  rw [tryRead_eq hc, Parser.read_verbatim_apply, Parser.verbatim_of_isRun h.opens,
    Parser.upToFence_of_isFenced h rfl]
  dsimp only [Option.map_some]
  rw [Place.skip_skip, List.append_assoc]
  rfl

/-- Where no run begins, or all later runs are shorter, the cursor stays as it is. -/
theorem tryRead_of_not_fenced (hc : c.Sound)
    (hnone : ¬ ∃ n body before k after, IsRun c.place.rest [] n body ∧
      IsRun body before k after ∧ n ≤ k) :
    c.tryRead (.rule .verbatim) = (.error .noMatch, c) := by
  rw [tryRead_eq hc, Parser.read_verbatim_apply]
  by_cases hhead : c.place.rest.head? = some '\x60'
  · obtain ⟨n, body, hopen⟩ := exists_opening hhead
    rw [Parser.verbatim_of_isRun hopen, Parser.upToFence_eq_none hopen.pos]
    · rfl
    · rintro ⟨before, k, after, hrun, hk⟩
      exact hnone ⟨n, body, before, k, after, hopen, hrun, hk⟩
  · rw [Parser.verbatim_eq_none hhead]

/-- **Verbatim text ends at the first run of backticks that is long enough.** It is there to be
read just if a run of backticks begins where the cursor stands and a later run is as long at
least. The text up to the first such run is taken as it stands, with the shorter runs in it. From
the closing run as many backticks are taken as the opening run has; the others, if there are any,
are left. Where nothing is read the cursor stays as it is. -/
theorem tryRead_verbatim {c : Cursor} (hc : c.Sound) :
    ((∃ node, (c.tryRead (.rule .verbatim)).1 = .ok node) ↔
      ∃ n body before k after, IsRun c.place.rest [] n body ∧
        IsRun body before k after ∧ n ≤ k) ∧
    (∀ n content k after, IsFenced c.place.rest n content k after →
      let stop := c.place.skip (fence n ++ content ++ fence n) (fence (k - n) ++ after)
      c.tryRead (.rule .verbatim) =
        (.ok (.text (c.place.spanTo stop) (String.ofList content)), { c with place := stop })) ∧
    ∀ miss, (c.tryRead (.rule .verbatim)).1 = .error miss →
      c.tryRead (.rule .verbatim) = (.error .noMatch, c) := by
  have hreads : (∃ n body before k after, IsRun c.place.rest [] n body ∧
      IsRun body before k after ∧ n ≤ k) → ∃ node, (c.tryRead (.rule .verbatim)).1 = .ok node := by
    rintro ⟨n, body, before, k, after, hopen, hlater⟩
    obtain ⟨content, k, after, h⟩ := exists_isFenced hopen ⟨before, k, after, hlater⟩
    exact ⟨_, congrArg Prod.fst (tryRead_of_isFenced hc h)⟩
  refine ⟨⟨?_, hreads⟩, fun n content k after => tryRead_of_isFenced hc, ?_⟩
  · rintro ⟨node, hnode⟩
    by_contra hnone
    rw [tryRead_of_not_fenced hc hnone] at hnode
    cases hnode
  · intro miss hmiss
    refine tryRead_of_not_fenced hc fun hfenced => ?_
    obtain ⟨node, hnode⟩ := hreads hfenced
    rw [hnode] at hmiss
    cases hmiss

/-- Of a run of three backticks two close what two have opened, and a single one before it is
content. -/
theorem tryRead_verbatim_three :
    let source := "\x60\x60é\x60b\x60\x60\x60c"
    let c := first source (Document.scope .standard)
    c.Sound ∧ IsFenced c.place.rest 2 ['é', '\x60', 'b'] 3 ['c'] ∧
      c.tryRead (.rule .verbatim) =
        (.ok (.text ⟨0, 8⟩ "é\x60b"), { c with place := ⟨8, 10, ['\x60', 'c']⟩ }) := by
  intro source c
  have hc : c.Sound := .of_empty (.first source.toList) _
  have h : IsFenced c.place.rest 2 ['é', '\x60', 'b'] 3 ['c'] := by
    refine ⟨⟨by decide, by decide +kernel, by decide, by decide⟩,
      ⟨by decide, rfl, by decide, by decide⟩, by decide, ?_⟩
    rw [runs_shorter_iff (by decide)]
    decide
  have hstop : c.place.skip (fence 2 ++ ['é', '\x60', 'b'] ++ fence 2) (fence (3 - 2) ++ ['c']) =
      ⟨8, 10, ['\x60', 'c']⟩ := by decide +kernel
  have hread := (tryRead_verbatim hc).2.1 2 _ 3 _ h
  rw [hstop] at hread
  exact ⟨hc, h, hread⟩

/-- A run of two backticks closes what one has opened, although a later run has the length of the
one that opened it and there is none of that length before. -/
theorem tryRead_verbatim_past_longer :
    let source := "\x60a\x60\x60b\x60"
    let c := first source (Document.scope .standard)
    let body := ['a', '\x60', '\x60', 'b', '\x60']
    let content := ['a', '\x60', '\x60', 'b']
    IsRun c.place.rest [] 1 body ∧ IsRun body content 1 [] ∧
      (∀ before between, ¬ IsRun content before 1 between) ∧
      (c.tryRead (.rule .verbatim)).1.toOption.map (·.plainText) = some "a" ∧
      (c.tryRead (.rule .verbatim)).2.place.rest = ['\x60', 'b', '\x60'] := by
  intro source c body content
  refine ⟨⟨by decide, by decide +kernel, by decide, by decide⟩,
    ⟨by decide, rfl, by decide, by decide⟩, ?_, by decide +kernel, by decide +kernel⟩
  rintro before between ⟨-, htext, hbefore, hafter⟩
  simp only [content, fence, List.replicate_succ, List.replicate_zero, List.append_assoc,
    List.singleton_append] at htext
  match before with
  | [] => simp at htext
  | [x] =>
    obtain ⟨-, rfl⟩ : 'a' = x ∧ ['\x60', 'b'] = between := by simpa using htext
    exact hafter rfl
  | [x, y] =>
    obtain ⟨-, rfl, -⟩ : 'a' = x ∧ '\x60' = y ∧ ['b'] = between := by simpa using htext
    exact hbefore rfl
  | [x, y, z] => simp at htext
  | x :: y :: z :: u :: more => simp at htext

end Cursor

end Bracemark
