/-
Repetition.

A repetition reads one match after another until the limit is reached, nothing more matches, or a
match takes nothing. `Cursor.Loop` says so without a bound on the number of rounds; it holds of what
comes of the loop at most (`Loop.unique`), but it need not come to an end. That it does is due to
the places: on a sound cursor a match never goes back, so a round that goes on leaves fewer bytes,
and one round more than there are bytes left is enough (`Cursor.collect_loop`).

The last round is taken back or takes nothing. Either way the cursor stands where it stood before,
so what ends the repetition is how the grammar reads at the place where the repetition ends.
-/
import Bracemark.Proofs.Surroundings

set_option autoImplicit false

namespace Bracemark

open Reading

/-! ## Rounds -/

namespace Cursor

/-- The grammar does not get the cursor any further: it does not match, or takes nothing. -/
def Rests (c : Cursor) (g : Grammar) : Prop :=
  (c.tryRead g).1 = .error .noMatch ∨
    (∃ node, (c.tryRead g).1 = .ok node) ∧ (c.tryRead g).2.place = c.place

/-- The nodes are read one after another, each from where the one before it ended, and each goes
further. -/
inductive Advances (g : Grammar) : Cursor → List Node → Cursor → Prop
  | none (c : Cursor) : Advances g c [] c
  | more {c d e : Cursor} {node : Node} {nodes : List Node}
    (hread : c.tryRead g = (.ok node, d)) (hfurther : c.place.offset < d.place.offset)
    (hrest : Advances g d nodes e) : Advances g c (node :: nodes) e

/-- What the loop of a repetition comes to, after how many rounds and with which nodes: it goes on
as long as the limit allows it and a round gets further. -/
inductive Loop (g : Grammar) : Option Nat → Cursor → Nat → List Node → Cursor → Prop
  | full (c : Cursor) : Loop g (some 0) c 0 [] c
  | last {most : Option Nat} {c : Cursor} (hmost : most ≠ some 0) (hrests : c.Rests g) :
    Loop g most c 1 [] (c.tryRead g).2
  | more {most : Option Nat} {c d e : Cursor} {rounds : Nat} {node : Node} {nodes : List Node}
    (hmost : most ≠ some 0) (hread : c.tryRead g = (.ok node, d))
    (hfurther : c.place.offset < d.place.offset)
    (hrest : Loop g (most.map (· - 1)) d rounds nodes e) :
    Loop g most c (rounds + 1) (node :: nodes) e

section

variable {g : Grammar} {c d : Cursor}

/-- Where the grammar gets further, it does not rest. -/
theorem Rests.not_further (h : c.Rests g) {node : Node} (hread : c.tryRead g = (.ok node, d)) :
    ¬ c.place.offset < d.place.offset := by
  rw [Rests, hread] at h
  rcases h with hfails | ⟨-, hplace⟩
  · cases hfails
  · have hoffset : d.place.offset = c.place.offset := congrArg Place.offset hplace
    omega

/-- Nothing more can be read on the way than up to where the grammar rests. -/
theorem Advances.length_le {e f : Cursor} {nodes : List Node} (h : Advances g c nodes e)
    (hrests : e.Rests g) : ∀ {others : List Node}, Advances g c others f →
      others.length ≤ nodes.length := by
  induction h with
  | none c =>
    intro others hothers
    cases hothers with
    | none => exact Nat.le_refl _
    | more hread hfurther hrest => exact absurd hfurther (hrests.not_further hread)
  | more hread hfurther hrest ih =>
    intro others hothers
    cases hothers with
    | none => exact Nat.zero_le _
    | more hread' hfurther' hrest' =>
      cases hread.symm.trans hread'
      exact Nat.succ_le_succ (ih hrests hrest')

/-- There is one way only in which the loop can go. -/
theorem Loop.unique {most : Option Nat} {rounds rounds' : Nat} {nodes nodes' : List Node}
    {e e' : Cursor} (h : Loop g most c rounds nodes e) (h' : Loop g most c rounds' nodes' e') :
    rounds' = rounds ∧ nodes' = nodes ∧ e' = e := by
  induction h generalizing rounds' nodes' e' with
  | full c =>
    cases h' with
    | full => exact ⟨rfl, rfl, rfl⟩
    | last hmost => exact absurd rfl hmost
    | more hmost => exact absurd rfl hmost
  | last hmost hrests =>
    cases h' with
    | full => exact absurd rfl hmost
    | last => exact ⟨rfl, rfl, rfl⟩
    | more _ hread hfurther => exact absurd hfurther (hrests.not_further hread)
  | more hmost hread hfurther hrest ih =>
    cases h' with
    | full => exact absurd rfl hmost
    | last _ hrests => exact absurd hfurther (hrests.not_further hread)
    | more _ hread' _ hrest' =>
      cases hread.symm.trans hread'
      obtain ⟨hrounds, hnodes, hlast⟩ := ih hrest'
      exact ⟨congrArg (· + 1) hrounds, congrArg (_ :: ·) hnodes, hlast⟩

end

/-! ## Sound cursors -/

section

variable {g : Grammar} {c d : Cursor}

theorem Sound.left_eq (h : c.Sound) : c.place.left = width c.source.toList - c.place.offset := by
  obtain ⟨-, -, -, hsize⟩ := h.place
  rw [Place.left, hsize]

/-- On a sound cursor a round gets further and leaves less, or the grammar rests. -/
theorem Sound.round (hc : c.Sound) (g : Grammar) :
    (∃ node d, c.tryRead g = (.ok node, d) ∧ d.Sound ∧ d.scope = c.scope ∧
      c.place.offset < d.place.offset ∧ d.place.left < c.place.left) ∨
      c.Rests g ∧ (c.tryRead g).2.scope = c.scope ∧ (c.tryRead g).2.place = c.place := by
  have hscope := scope_tryRead hc g
  have hsound := hc.tryRead g
  rcases tryRead_cases hc g with ⟨node, q, m, hq, -, hread⟩ | ⟨m, -, hread⟩
  · by_cases hstay : q.offset = c.place.offset
    · have hplace : (c.tryRead g).2.place = c.place := by
        rw [hread]
        exact hq.eq_of_offset hstay
      exact .inr ⟨.inr ⟨⟨node, congrArg Prod.fst hread⟩, hplace⟩, hscope, hplace⟩
    · have hfurther : c.place.offset < q.offset := lt_of_le_of_ne hq.offset_le (Ne.symm hstay)
      have hend := (hc.place.of_before hq).offset_le
      rw [hread] at hscope hsound
      have hless : q.left < c.place.left := by
        have hleft : q.left = width c.source.toList - q.offset := hsound.left_eq
        rw [hc.left_eq, hleft]
        omega
      exact .inl ⟨node, _, hread, hsound, hscope, hfurther, hless⟩
  · exact .inr ⟨.inl (congrArg Prod.fst hread), hscope, congrArg (·.2.place) hread⟩

end

end Cursor

/-! ## The loop ends -/

namespace Grammar

/-- A repetition reads its grammar on the same level. -/
theorem readAt_many {m : Type → Type} [Reading m] (levels : Nat) (g : Grammar) (least : Nat)
    (most : Option Nat) :
    (readAt levels (.many g least most) : m Node) =
      readSequence (Reading.many (readAt levels g) least most) := by
  cases levels <;> rfl

end Grammar

theorem Action.readSequence_apply (p : Action (List Node)) (c : Cursor) :
    (Grammar.readSequence p : Action Node) c =
      match p c with
      | (.error e, d) => (.error e, d)
      | (.ok nodes, d) => (.ok (.branch (c.place.spanTo d.place) .sequence nodes), d) := by
  -- Reading the place first changes nothing, so what `p` comes to decides.
  change (p >>= fun nodes => Reading.here >>= fun stop =>
    (pure (.branch (c.place.spanTo stop) .sequence nodes) : Action Node)) c = _
  rw [bind_apply]
  rcases p c with ⟨e | nodes, d⟩ <;> rfl

namespace Cursor

variable {c : Cursor}

theorem tryRead_apply (c : Cursor) (g : Grammar) :
    c.tryRead g = c.attempt (Grammar.readAt (maxNesting - c.scope.nesting) g : Action Node) := rfl

/-- **The loop ends.** One round more than there are bytes left is enough for it, and what bounds
the number of rounds does not cut it short. -/
theorem collect_loop (g : Grammar) (p : Action Node) (fuel : Nat) :
    ∀ (most : Option Nat) {c : Cursor}, c.Sound →
      p = Grammar.readAt (maxNesting - c.scope.nesting) g → c.place.left < fuel →
        ∃ rounds nodes d, Loop g most c rounds nodes d ∧ rounds ≤ fuel ∧
          Action.collect p fuel most c = (.ok nodes, d) ∧ d.scope = c.scope := by
  induction fuel with
  | zero => exact fun _ _ _ _ hfuel => absurd hfuel (Nat.not_lt_zero _)
  | succ fuel ih =>
    intro most c hc hp hfuel
    have hround : c.attempt p = c.tryRead g := by rw [hp, tryRead_apply]
    by_cases hmost : most = some 0
    · subst hmost
      exact ⟨0, [], c, .full c, Nat.zero_le _, rfl, rfl⟩
    rw [Action.collect_succ c p fuel hmost, hround]
    rcases hc.round g with ⟨node, d, hread, hd, hscope, hfurther, hless⟩ | ⟨hrests, hscope, hplace⟩
    · have hnesting : p = Grammar.readAt (maxNesting - d.scope.nesting) g := by rw [hscope, hp]
      obtain ⟨rounds, nodes, e, hloop, hrounds, hcollect, hscope'⟩ :=
        ih (most.map (· - 1)) hd hnesting (by omega)
      refine ⟨rounds + 1, node :: nodes, e, .more hmost hread hfurther hloop,
        Nat.succ_le_succ hrounds, ?_, hscope'.trans hscope⟩
      rw [hread]
      dsimp only
      rw [if_neg (Nat.ne_of_gt hfurther), hcollect]
    · refine ⟨1, [], (c.tryRead g).2, .last hmost hrests, Nat.succ_le_succ (Nat.zero_le _), ?_,
        hscope⟩
      -- A match that takes nothing is not kept.
      rcases hrests with hfails | ⟨⟨node, hmatch⟩, -⟩
      · generalize c.tryRead g = result at *
        obtain ⟨value, d⟩ := result
        obtain rfl : value = _ := hfails
        rfl
      · generalize c.tryRead g = result at *
        obtain ⟨value, d⟩ := result
        obtain rfl : value = _ := hmatch
        dsimp only at hplace ⊢
        rw [hplace, if_pos rfl]

/-- What a repetition reads: the nodes of the loop, if there are enough of them. -/
theorem tryRead_many (hc : c.Sound) (g : Grammar) (least : Nat) (most : Option Nat) :
    ∃ rounds nodes d, Loop g most c rounds nodes d ∧ rounds ≤ c.place.left + 1 ∧
      c.tryRead (.many g least most) =
        if nodes.length < least then (.error .noMatch, { d with place := c.place })
        else (.ok (.branch (c.place.spanTo d.place) .sequence nodes), d) := by
  let p : Action Node := Grammar.readAt (maxNesting - c.scope.nesting) g
  obtain ⟨rounds, nodes, d, hloop, hrounds, hcollect, hscope⟩ :=
    collect_loop g p (c.place.left + 1) most hc rfl (Nat.lt_succ_self _)
  have hmany : (Reading.many p least most : Action (List Node)) c =
      if nodes.length < least then (.error .noMatch, d) else (.ok nodes, d) := by
    rw [Action.many_apply, hcollect]
  have hsequence : (Grammar.readSequence (Reading.many p least most) : Action Node) c =
      if nodes.length < least then (.error .noMatch, d)
      else (.ok (.branch (c.place.spanTo d.place) .sequence nodes), d) := by
    rw [Action.readSequence_apply, hmany]
    by_cases hfew : nodes.length < least
    · rw [if_pos hfew, if_pos hfew]
    · rw [if_neg hfew, if_neg hfew]
  refine ⟨rounds, nodes, d, hloop, hrounds, ?_⟩
  rw [tryRead_apply, Grammar.readAt_many]
  unfold attempt
  rw [hsequence]
  by_cases hfew : nodes.length < least
  · rw [if_pos hfew, if_pos hfew]
    simp only [goBack, bookmark, ← hscope, Scope.rewind_mark]
  · rw [if_neg hfew, if_neg hfew]

/-! ## Where it ends -/

/-- The nodes of the loop are read one after another, no more of them than the limit allows. The
loop ends because they are as many as that or because the grammar rests there. -/
theorem Loop.advances {g : Grammar} {most : Option Nat} {rounds : Nat} {nodes : List Node}
    {d : Cursor} (h : Loop g most c rounds nodes d) (hc : c.Sound) :
    (∀ m ∈ most, nodes.length ≤ m) ∧ ∃ e, Advances g c nodes e ∧ e.place = d.place ∧
      (most = some nodes.length ∨ e.Rests g) := by
  induction h with
  | full c => exact ⟨fun m _ => Nat.zero_le m, c, .none c, rfl, .inl rfl⟩
  | @last most c hmost hrests =>
    refine ⟨fun m _ => Nat.zero_le m, c, .none c, ?_, .inr hrests⟩
    rcases hc.round g with ⟨node, d, hread, -, -, hfurther, -⟩ | ⟨-, -, hplace⟩
    · exact absurd hfurther (hrests.not_further hread)
    · exact hplace.symm
  | @more most c d e rounds node nodes hmost hread hfurther hrest ih =>
    have hd : d.Sound := by
      have hsound := hc.tryRead g
      rwa [hread] at hsound
    obtain ⟨hle, f, hadvances, hplace, hends⟩ := ih hd
    cases most with
    | none =>
      refine ⟨fun m hm => (nomatch hm), f, .more hread hfurther hadvances, hplace, .inr ?_⟩
      exact hends.resolve_left (by simp)
    | some m =>
      -- One node less was allowed after the first.
      have hpos : m ≠ 0 := fun hzero => hmost (congrArg some hzero)
      have hless : nodes.length ≤ m - 1 := hle (m - 1) rfl
      refine ⟨?_, f, .more hread hfurther hadvances, hplace, ?_⟩
      · intro k hk
        cases hk
        rw [List.length_cons]
        omega
      · apply hends.imp_left
        intro hfull
        have hlength : m - 1 = nodes.length := Option.some.inj hfull
        rw [List.length_cons, ← hlength, Nat.sub_add_cancel (Nat.one_le_iff_ne_zero.mpr hpos)]

/-- **Repetition is greedy and comes to an end.** On a sound cursor the loop of a repetition ends,
in one way only and after at most one round more than there are bytes left, and what is tried is
what comes of it. Where it matches, there are between `least` and `most` nodes, each of which has
been read from where the one before it ended and went further. They are as many as the limit
allows, or at the place where they end the grammar does not match or takes nothing. Where it does
not match, the place is restored, and the limit is below `least` or fewer than `least` nodes can be
read in this way. -/
theorem many_greedy (hc : c.Sound) (g : Grammar) (least : Nat) (most : Option Nat) :
    (∃ rounds nodes d, Loop g most c rounds nodes d ∧ rounds ≤ c.place.left + 1 ∧
      (∀ rounds' nodes' d', Loop g most c rounds' nodes' d' →
        rounds' = rounds ∧ nodes' = nodes ∧ d' = d) ∧
      c.tryRead (.many g least most) =
        if nodes.length < least then (.error .noMatch, { d with place := c.place })
        else (.ok (.branch (c.place.spanTo d.place) .sequence nodes), d)) ∧
      (∀ node d, c.tryRead (.many g least most) = (.ok node, d) →
        least ≤ node.children.length ∧ (∀ m ∈ most, node.children.length ≤ m) ∧
          ∃ e, Advances g c node.children e ∧ e.place = d.place ∧
            (most = some node.children.length ∨ e.Rests g)) ∧
      ((∀ node, (c.tryRead (.many g least most)).1 ≠ .ok node) →
        (c.tryRead (.many g least most)).1 = .error .noMatch ∧
          (c.tryRead (.many g least most)).2.place = c.place ∧
          ((∃ m ∈ most, m < least) ∨
            ∀ nodes e, Advances g c nodes e → nodes.length < least)) := by
  obtain ⟨rounds, nodes, d, hloop, hrounds, hread⟩ := tryRead_many hc g least most
  obtain ⟨hle, e, hadvances, hplace, hends⟩ := hloop.advances hc
  refine ⟨⟨rounds, nodes, d, hloop, hrounds, fun _ _ _ => hloop.unique, hread⟩, ?_, ?_⟩
  · intro node last hmatch
    rw [hread] at hmatch
    by_cases hfew : nodes.length < least
    · rw [if_pos hfew] at hmatch
      cases hmatch
    · rw [if_neg hfew] at hmatch
      cases hmatch
      exact ⟨Nat.le_of_not_lt hfew, hle, e, hadvances, hplace, hends⟩
  · intro hfails
    rw [hread] at hfails ⊢
    by_cases hfew : nodes.length < least
    · rw [if_pos hfew]
      refine ⟨rfl, rfl, ?_⟩
      rcases hends with hfull | hrests
      · exact .inl ⟨nodes.length, hfull, hfew⟩
      · refine .inr fun others f hothers => ?_
        exact Nat.lt_of_le_of_lt (hadvances.length_le hrests hothers) hfew
    · rw [if_neg hfew] at hfails
      exact absurd rfl (hfails _)

/-- An element that may be missing is read twice, and at the letter after the second one it is
missing without end. Where three are asked for, the place is restored. -/
theorem many_greedy_optional :
    let c := first "\x7bb|x\x7d\x7bi|y\x7dé" (Document.scope .standard)
    let g : Grammar := .optional (.rule .element)
    c.Sound ∧
      (∃ node d e, c.tryRead (.many g 1 none) = (.ok node, d) ∧ node.children.length = 2 ∧
        Advances g c node.children e ∧ e.place = d.place ∧ e.Rests g) ∧
      (c.tryRead (.many g 3 none)).2.place = c.place ∧
      ∀ nodes e, Advances g c nodes e → nodes.length < 3 := by
  intro c g
  have hc : c.Sound := Sound.of_empty (.first _) _
  obtain ⟨-, hmatches, -⟩ := many_greedy hc g 1 none
  obtain ⟨-, -, hfails⟩ := many_greedy hc g 3 none
  have htwo : (c.tryRead (.many g 1 none)).1.toOption.map (·.children.length) = some 2 := by
    decide +kernel
  have hthree : (c.tryRead (.many g 3 none)).1.toOption = none := by
    decide +kernel
  obtain ⟨-, hplace, hfew⟩ := hfails (fun node hmatch => by rw [hmatch] at hthree; cases hthree)
  refine ⟨hc, ?_, hplace, hfew.resolve_left ?_⟩
  · rcases hread : c.tryRead (.many g 1 none) with ⟨fault | node, d⟩
    · rw [hread] at htwo
      cases htwo
    · rw [hread] at htwo
      obtain ⟨-, -, e, hadvances, hends, hrests⟩ := hmatches node d hread
      exact ⟨node, d, e, rfl, Option.some.inj htwo, hadvances, hends,
        hrests.resolve_left (by simp)⟩
  · rintro ⟨m, hm, -⟩
    cases hm

end Cursor

end Bracemark
