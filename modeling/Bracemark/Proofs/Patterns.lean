/-
A match cuts the text in two.

Every pattern of the grammar takes a beginning of the text and leaves the rest,
and the pieces of a match put together are what was taken
(`Pattern.text_append_rest`). From this every step of reading that looks at the
text alone goes on in the source in the sense of `Place.Before`.
-/
import Bracemark.Proofs.Places
import Bracemark.Parser.Reading

set_option autoImplicit false

namespace Bracemark

open Text

/-! ## Pieces of patterns -/

/-- Characters of a class are taken up to the first that is of another one. -/
theorem takeWhile_run {inClass : Char → Bool} {run tail : List Char}
    (hrun : ∀ c ∈ run, inClass c = true) (htail : ∀ c ∈ tail.head?, inClass c = false) :
    (run ++ tail).takeWhile inClass = run ∧ (run ++ tail).dropWhile inClass = tail := by
  rw [List.takeWhile_append_of_pos hrun, List.dropWhile_append_of_pos hrun]
  cases tail with
  | nil => exact ⟨List.append_nil run, rfl⟩
  | cons c cs => simp [htail c rfl]

@[simp] theorem Capture.text_plain (taken rest : List Char) :
    (Capture.plain taken rest).text = taken := by
  simp [Capture.text, Capture.plain]

@[simp] theorem Capture.rest_plain (taken rest : List Char) :
    (Capture.plain taken rest).rest = rest := rfl

theorem runOf?_cuts {inClass : Char → Bool} {cs : List Char} {c : Capture}
    (h : runOf? inClass cs = some c) : c.text ++ c.rest = cs := by
  simp only [runOf?] at h
  split at h
  · cases h
  · cases h
    simp [List.takeWhile_append_dropWhile]

theorem spacedName?_cuts {cs : List Char} {c : Capture} (h : spacedName? cs = some c) :
    c.text ++ c.rest = cs := by
  simp only [spacedName?] at h
  split at h
  · cases h
  · cases h
    simp [Capture.text, List.takeWhile_append_dropWhile]

/-- What is left of a run when its last characters in a class are dropped is a
beginning of it. -/
theorem trimmed_run_begins (inClass : Char → Bool) (cs : List Char) :
    (cs.reverse.dropWhile inClass).reverse <+: cs := by
  rw [← List.reverse_suffix, List.reverse_reverse]
  exact List.dropWhile_suffix _

theorem blockBreak?_cuts {cs : List Char} {c : Capture} (h : blockBreak? cs = some c) :
    c.text ++ c.rest = cs := by
  unfold blockBreak? at h
  split at h
  case h_2 => cases h
  case h_1 cs =>
    obtain ⟨lines, hlines⟩ : ∃ lines, lines =
      ((cs.takeWhile fun c => isLineSpace c || c == '\n').reverse.dropWhile isLineSpace).reverse :=
      ⟨_, rfl⟩
    have hbegins : lines <+: cs := by
      rw [hlines]
      exact (trimmed_run_begins _ _).trans <| List.takeWhile_prefix _
    simp only [← hlines] at h
    split at h
    · cases h
    · cases h
      simp only [Capture.text_plain, Capture.rest_plain, List.cons_append]
      rw [List.prefix_iff_eq_append.mp hbegins]

theorem quotedBody?_cuts (quote : Char) (cs : List Char) :
    ∀ {body rest : List Char}, quotedBody? quote cs = some (body, rest) →
      body ++ quote :: rest = cs := by
  fun_induction quotedBody? quote cs with
  | case1 => intro body rest h; cases h
  | case2 => intro body rest h; cases h
  | case3 c cs ih =>
    intro body rest h
    simp only [Option.map_eq_some_iff] at h
    obtain ⟨⟨b, r⟩, hb, hbr⟩ := h
    cases hbr
    simp [ih hb]
  | case4 cs =>
    intro body rest h
    cases h
    rfl
  | case5 c cs _ _ _ ih =>
    intro body rest h
    simp only [Option.map_eq_some_iff] at h
    obtain ⟨⟨b, r⟩, hb, hbr⟩ := h
    cases hbr
    simp [ih hb]

theorem quoted?_cuts {quote : Char} {cs : List Char} {c : Capture}
    (h : quoted? quote cs = some c) : c.text ++ c.rest = cs := by
  simp only [quoted?] at h
  split at h
  · cases h
  · next q body hbody =>
    split at h
    · next hq =>
      subst hq
      simp only [Option.map_eq_some_iff] at h
      obtain ⟨⟨b, r⟩, hb, hbr⟩ := h
      cases hbr
      have hcs := List.takeWhile_append_dropWhile (p := isBlank) (l := cs)
      rw [hbody, ← quotedBody?_cuts q body hb] at hcs
      simpa [Capture.text] using hcs
    · cases h

theorem bareBody_cuts (cs : List Char) : (bareBody cs).1 ++ (bareBody cs).2 = cs := by
  fun_induction bareBody cs <;> simp_all

/-! ## Patterns -/

/-- **The pieces of a match put together are what was read.** -/
theorem Pattern.text_append_rest {p : Pattern} {cs : List Char} {c : Capture}
    (h : p.capture? cs = some c) : c.text ++ c.rest = cs := by
  have hblank := List.takeWhile_append_dropWhile (p := isBlank) (l := cs)
  have hspace := List.takeWhile_append_dropWhile (p := isLineSpace) (l := cs)
  cases p with
  | name => exact spacedName?_cuts h
  | split =>
    simp only [Pattern.capture?] at h
    split at h <;> cases h
    next rest hrest => simpa [hrest] using hblank
  | close =>
    simp only [Pattern.capture?] at h
    split at h <;> cases h
    · simp
    · next rest hrest => simpa [hrest] using hblank
  | textRun =>
    simp only [Pattern.capture?] at h
    split at h
    · cases h; simp
    · exact runOf?_cuts h
  | cellTextRun => exact runOf?_cuts h
  | escape =>
    simp only [Pattern.capture?] at h
    split at h
    · split at h <;> cases h <;> simp [Capture.text]
    · cases h; simp [Capture.text]
    · cases h
  | blockBreak => exact blockBreak?_cuts h
  | backticks => exact runOf?_cuts h
  | groupBreak =>
    simp only [Pattern.capture?] at h
    split at h
    · cases h
    · have hdash := List.takeWhile_append_dropWhile (p := (· == '-'))
        (l := cs.dropWhile isLineSpace)
      have htail := List.takeWhile_append_dropWhile (p := fun c => c != '\n' && c != '}')
        (l := (cs.dropWhile isLineSpace).dropWhile (· == '-'))
      split at h <;> cases h
      · next rest hrest =>
        rw [hrest] at htail
        simp only [Capture.text, Option.getD_some, List.append_assoc, List.singleton_append]
        rw [htail, hdash, hspace]
      · simp only [Capture.text, Option.getD_some, List.append_nil, List.append_assoc]
        rw [htail, hdash, hspace]
  | blank => exact runOf?_cuts h
  | spaces =>
    cases h
    simp
  | rowEnd =>
    simp only [Pattern.capture?] at h
    split at h <;> cases h
    · simp
    · next rest hrest => simpa [hrest] using hspace
  | argumentName =>
    simp only [Pattern.capture?, Option.bind_eq_some_iff] at h
    obtain ⟨d, hd, h⟩ := h
    have hname := spacedName?_cuts hd
    have hafter := List.takeWhile_append_dropWhile (p := isBlank) (l := d.rest)
    split at h <;> cases h
    next rest hrest =>
      have htail : d.tail = [] := by
        simp only [spacedName?] at hd
        split at hd <;> cases hd
        rfl
      rw [hrest] at hafter
      simp only [Capture.text, htail, List.append_nil] at hname ⊢
      rw [← hname, List.append_assoc, List.append_assoc _ ['='], List.singleton_append, hafter]
  | doubleQuoted => exact quoted?_cuts h
  | singleQuoted => exact quoted?_cuts h
  | bare =>
    simp only [Pattern.capture?] at h
    split at h <;> cases h
    have hbody := bareBody_cuts (cs.dropWhile isBlank)
    simp only [Capture.text, Option.getD_some, List.append_nil, List.append_assoc]
    rw [hbody, hblank]

/-! ## Steps that look at the text alone -/

/-- Wherever a step matches it goes on. -/
def Advances {α : Type} (step : Place → Option (α × Place)) : Prop :=
  ∀ p a q, step p = some (a, q) → p.Before q

theorem advances_pattern (p : Pattern) :
    Advances fun place => (p.capture? place.rest).map fun c => (c, place.skip c.text c.rest) := by
  intro place c q h
  simp only [Option.map_eq_some_iff] at h
  obtain ⟨d, hd, h⟩ := h
  cases h
  exact Place.before_skip (Pattern.text_append_rest hd)

theorem advances_exactly (cs : List Char) :
    Advances fun place =>
      if cs.isPrefixOf place.rest then some ((), place.skip cs (place.rest.drop cs.length))
      else none := by
  intro place a q h
  simp only at h
  split at h <;> cases h
  next hp =>
    refine Place.before_skip ?_
    exact List.prefix_append_drop (List.isPrefixOf_iff_prefix.mp hp) |>.symm

theorem Place.before_argument? {p q : Place} {a : WrittenArgument}
    (h : p.argument? = some (a, q)) : p.Before q := by
  have hvalue : ∀ {cs : List Char} {c : Capture}, value? cs = some c → c.text ++ c.rest = cs := by
    intro cs c h
    simp only [value?, Option.or_eq_some_iff] at h
    rcases h with h | ⟨-, h | ⟨-, h⟩⟩ <;> exact Pattern.text_append_rest h
  simp only [Place.argument?] at h
  split at h
  · next c hc =>
    simp only [Option.map_eq_some_iff] at h
    obtain ⟨d, hd, h⟩ := h
    cases h
    exact (Place.before_skip (Pattern.text_append_rest hc)).trans
      (Place.before_skip (hvalue hd))
  · simp only [Option.map_eq_some_iff] at h
    obtain ⟨d, hd, h⟩ := h
    cases h
    exact Place.before_skip (hvalue hd)

theorem Place.before_argumentsLoop (fuel : Nat) (as : Arguments) (p : Place) :
    p.Before (Place.argumentsLoop fuel as p).2 := by
  induction fuel generalizing as p with
  | zero => exact Before.refl p
  | succ fuel ih =>
    simp only [Place.argumentsLoop]
    split
    · exact Before.refl p
    · next a q h => exact (before_argument? h).trans (ih _ q)

theorem advances_arguments : Advances fun place => some place.arguments := by
  intro p as q h
  simp only [Option.some.injEq] at h
  have hp := Place.before_argumentsLoop p.left .empty p
  rwa [show (Place.argumentsLoop p.left .empty p) = (as, q) from h] at hp

namespace Parser

theorem pattern_apply (p : Pattern) (s : Scope) (place : Place) (m : Memory) :
    (Reading.pattern p : Parser Capture) s place m =
      ((p.capture? place.rest).map fun c => (c, place.skip c.text c.rest), m) := rfl

theorem ofOption_apply {α : Type} (o : Option α) (s : Scope) (place : Place) (m : Memory) :
    (Reading.ofOption o : Parser α) s place m = (o.map fun a => (a, place), m) := by
  cases o <;> rfl

theorem require_apply {condition : Bool} (h : condition = true) (s : Scope) (place : Place)
    (m : Memory) :
    (Reading.require condition : Parser Unit) s place m = (some ((), place), m) := by
  subst h
  rfl

theorem exactly_apply {cs rest : List Char} {place : Place} (h : place.rest = cs ++ rest)
    (s : Scope) (m : Memory) :
    (Reading.exactly cs : Parser Unit) s place m = (some ((), place.skip cs rest), m) := by
  rw [Reading.exactly, ofPlace_apply, if_pos (by simp [h]), h, List.drop_left]

theorem cutAtFence_cuts (fence cs : List Char) :
    ∀ {before after : List Char}, cutAtFence fence cs = some (before, after) →
      before ++ fence ++ after = cs := by
  induction cs with
  | nil =>
    intro before after h
    simp only [cutAtFence] at h
    split at h <;> cases h
    next hf => simpa using hf
  | cons c cs ih =>
    intro before after h
    simp only [cutAtFence] at h
    split at h
    · next hp =>
      cases h
      simpa using (List.prefix_append_drop (List.isPrefixOf_iff_prefix.mp hp)).symm
    · simp only [Option.map_eq_some_iff] at h
      obtain ⟨⟨b, a⟩, hb, h⟩ := h
      cases h
      simp [← ih hb]

theorem advances_upToFence (fence : List Char) : Advances (upToFence fence) := by
  intro p cs q h
  simp only [upToFence] at h
  split at h
  · cases h
  · next c rest hrest =>
    simp only [Option.map_eq_some_iff] at h
    obtain ⟨⟨b, a⟩, hb, h⟩ := h
    cases h
    refine Place.before_skip ?_
    rw [hrest, ← cutAtFence_cuts fence rest hb]
    simp

theorem advances_nextChar : Advances nextChar := by
  intro p c q h
  simp only [nextChar, Place.step?] at h
  split at h
  · cases h
  · next c rest hrest =>
    cases h
    exact Place.before_skip (by simp [hrest])

end Parser

end Bracemark
