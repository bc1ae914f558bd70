/-
What is read at a character.

Which part is read at a place depends on the first character there, and on whether the place
is in a cell, in the outermost text, or too deep for another element. Each lemma of this module
says what one such case comes to: a gap, a run of text, a newline, an escape, a brace that stands
for itself, text in braces, or nothing where content stops (`refuses_part`).
-/
import Bracemark.Proofs.Delimiters
import Bracemark.Proofs.Readings

set_option autoImplicit false

namespace Bracemark

namespace Parser

variable {s : Scope} {place : Place} {c : Char} {cs run tail : List Char}
  {inner : Grammar → Parser Node}

/-! ## What is refused -/

theorem refuses_gap (h : s.localFlag Key.cellText = true ∨ blockBreak? place.rest = none) :
    Refuses s place gap := by
  refine .localFlag_bind (.require_bind fun hcell => .here_bind (.bind_left (.pattern ?_)))
  exact h.resolve_left (by simpa using hcell)

theorem refuses_element (h : place.startsWith '{' = false ∨ s.exhausted = true) :
    Refuses s place (element inner) := by
  refine .here_bind (.exhausted_bind (.require_bind fun hbegins => ?_))
  rcases h with h | h <;> simp [h] at hbegins

theorem runOf?_eq_none {inClass : Char → Bool} (h : ∀ c ∈ cs.head?, inClass c = false) :
    runOf? inClass cs = none := by
  cases cs with
  | nil => rfl
  | cons c cs => simp [runOf?, h c rfl]

/-- A run is cut off where it is followed by a character of another class. -/
theorem runOf?_append {inClass : Char → Bool} (hne : run ≠ [])
    (hrun : ∀ c ∈ run, inClass c = true) (htail : ∀ c ∈ tail.head?, inClass c = false) :
    runOf? inClass (run ++ tail) = some (.plain run tail) := by
  obtain ⟨htake, hdrop⟩ := takeWhile_run hrun htail
  unfold runOf?
  rw [htake, hdrop]
  simp [hne]

/-- A run goes on up to a character of another class, or to the end. -/
theorem exists_run {inClass : Char → Bool} (hc : inClass c = true) (cs : List Char) :
    ∃ run tail, cs = run ++ tail ∧ (∀ d ∈ c :: run, inClass d = true) ∧
      ∀ d ∈ tail.head?, inClass d = false := by
  refine ⟨cs.takeWhile inClass, cs.dropWhile inClass, List.takeWhile_append_dropWhile.symm,
    List.forall_mem_cons.mpr ⟨hc, fun d hd => List.mem_takeWhile_imp hd⟩, fun d hd => ?_⟩
  have hstop := List.head?_dropWhile_not inClass cs
  rw [hd] at hstop
  simpa using hstop

theorem refuses_verbatim (h : place.rest.head? ≠ some '\x60') : Refuses s place verbatim := by
  refine .here_bind (.bind_left (.pattern (runOf?_eq_none fun c hc => ?_)))
  rw [beq_eq_false_iff_ne]
  rintro rfl
  exact h hc

theorem refuses_escape (h : place.rest.head? ≠ some '\\') : Refuses s place escape := by
  refine .here_bind (.bind_left (.pattern ?_))
  unfold Pattern.capture?
  cases hrest : place.rest with
  | nil => rfl
  | cons c cs =>
    have hc : c ≠ '\\' := by
      rintro rfl
      exact h (by rw [hrest]; rfl)
    simp [hc]

/-- Whether a character belongs to a run of plain text. -/
def isPlain (inCell : Bool) (c : Char) : Bool :=
  !isMarkup c && !(inCell && c == '|')

/-- A run of plain text, or a newline where there is no cell to be ended by it. -/
theorem capture?_text (inCell : Bool) (cs : List Char)
    (hline : inCell = false → cs.head? ≠ some '\n') :
    (if inCell then Pattern.cellTextRun else .textRun).capture? cs =
      runOf? (isPlain inCell) cs := by
  cases inCell with
  | true => rfl
  | false =>
    have hplain : (fun c => !isMarkup c) = isPlain false := by
      funext c
      simp [isPlain]
    rw [← hplain]
    simp only [Bool.false_eq_true, if_false, Pattern.capture?]
    split
    · exact absurd rfl (hline rfl)
    · rfl

theorem refuses_text (hline : s.localFlag Key.cellText = false → place.rest.head? ≠ some '\n')
    (h : ∀ c ∈ place.rest.head?, isPlain (s.localFlag Key.cellText) c = false) :
    Refuses s place text := by
  refine .here_bind (.localFlag_bind (.bind_left (.pattern ?_)))
  rw [capture?_text _ _ hline, runOf?_eq_none h]

theorem refuses_stray (h : ∀ c ∈ place.rest.head?,
    isStray (s.localFlag Key.topLevel) s.exhausted c = false) : Refuses s place stray := by
  refine .here_bind (.localFlag_bind (.exhausted_bind ?_))
  cases hrest : place.rest with
  | nil =>
    exact .bind_left (.ofPlace (by simp [nextChar, Place.step?, hrest]))
  | cons c cs =>
    have hstep : nextChar place = some (c, place.skip [c] cs) := by
      simp [nextChar, Place.step?, hrest]
    refine .ofPlace_bind hstep (.bind_left (.require ?_))
    exact h c (by rw [hrest]; rfl)

/-- What content stops at is neither plain text nor the beginning of anything. -/
theorem head_of_stopsAt (h : s.StopsAt place) (hc : c ∈ place.rest.head?) :
    (c = '}' ∧ s.localFlag Key.topLevel = false) ∨
      (s.localFlag Key.cellText = true ∧ (c = '|' ∨ c = '\n')) := by
  simp only [Scope.StopsAt, Place.startsWith, beq_iff_eq] at h
  rcases h with hend | ⟨hclose, htop⟩ | ⟨hcell, hbar | hline⟩
  · simp [hend] at hc
  · exact .inl ⟨Option.some.inj (hc.symm.trans hclose), htop⟩
  · exact .inr ⟨hcell, .inl (Option.some.inj (hc.symm.trans hbar))⟩
  · exact .inr ⟨hcell, .inr (Option.some.inj (hc.symm.trans hline))⟩

theorem isPlain_of_stopsAt (h : s.StopsAt place) (hc : c ∈ place.rest.head?) :
    isPlain (s.localFlag Key.cellText) c = false := by
  rcases head_of_stopsAt h hc with ⟨rfl, -⟩ | ⟨hcell, rfl | rfl⟩
  · rfl
  · rw [hcell]
    rfl
  · rfl

/-- **Where content stops, nothing is read.** -/
theorem refuses_part (h : s.StopsAt place) : Refuses s place (part inner) := by
  have hne : ∀ d : Char, d = '{' ∨ d = '\x60' ∨ d = '\\' → place.rest.head? ≠ some d := by
    intro d hd hhead
    rcases head_of_stopsAt h hhead with ⟨rfl, -⟩ | ⟨-, rfl | rfl⟩ <;> revert hd <;> decide
  have hline : s.localFlag Key.cellText = false → place.rest.head? ≠ some '\n' := by
    intro hcell hhead
    rcases head_of_stopsAt h hhead with ⟨hclose, -⟩ | ⟨hcell', -⟩
    · cases hclose
    · rw [hcell] at hcell'
      cases hcell'
  refine .orElse (refuses_gap ?_) (.orElse (refuses_element (.inl ?_)) (.orElse
    (refuses_verbatim (hne _ (.inr (.inl rfl)))) (.orElse (refuses_escape (hne _ (.inr (.inr rfl))))
      (.orElse (refuses_text hline fun c hc => isPlain_of_stopsAt h hc)
        (refuses_stray fun c hc => ?_)))))
  · cases hcell : s.localFlag Key.cellText with
    | true => exact .inl rfl
    | false =>
      refine .inr ?_
      unfold blockBreak?
      split
      · next cs hrest => exact absurd (by rw [hrest]; rfl) (hline hcell)
      · rfl
  · simpa [Place.startsWith] using hne '{' (.inl rfl)
  · rcases head_of_stopsAt h hc with ⟨rfl, htop⟩ | ⟨-, rfl | rfl⟩
    · simpa [isStray] using htop
    · rfl
    · rfl

/-! ## What is read -/

theorem offset_lt_skip (hrun : run ≠ []) : place.offset < (place.skip run tail).offset := by
  have := width_pos hrun
  simp only [Place.skip_offset]
  omega

theorem ne_of_isPlain {inCell : Bool} (h : isPlain inCell c = true) {d : Char}
    (hd : isMarkup d = true) : c ≠ d := by
  rintro rfl
  simp [isPlain, hd] at h

/-- What is no beginning of a gap, of an element or of verbatim text is left to the others. -/
theorem reads_part {Q : Node → Place → Prop} (hgap : Refuses s place gap)
    (hbrace : place.startsWith '{' = false ∨ s.exhausted = true)
    (hverbatim : place.rest.head? ≠ some '\x60')
    (h : Reads s place (Reading.orElse escape (Reading.orElse text stray)) Q) :
    Reads s place (part inner) Q :=
  .orElse_right hgap (.orElse_right (refuses_element hbrace)
    (.orElse_right (refuses_verbatim hverbatim) h))

/-- A run of plain text is read up to its end. -/
theorem reads_run (hrest : place.rest = run ++ tail) (hne : run ≠ [])
    (hrun : ∀ c ∈ run, isPlain (s.localFlag Key.cellText) c = true)
    (htail : ∀ c ∈ tail.head?, isPlain (s.localFlag Key.cellText) c = false) :
    Reads s place (part inner) fun n q =>
      n = textFrom place q run ∧ q = place.skip run tail := by
  obtain ⟨c, cs, rfl⟩ := List.exists_cons_of_ne_nil hne
  have hc := hrun c (List.mem_cons_self ..)
  have hhead : place.rest.head? = some c := by rw [hrest]; rfl
  have hother : ∀ d, isMarkup d = true → place.rest.head? ≠ some d := by
    intro d hd h
    exact ne_of_isPlain hc hd (Option.some.inj (hhead.symm.trans h))
  have hgap : blockBreak? place.rest = none := by
    unfold blockBreak?
    split
    · next cs hline => exact absurd (by rw [hline]; rfl) (hother '\n' rfl)
    · rfl
  refine reads_part (refuses_gap (.inr hgap)) (.inl ?_) (hother _ rfl)
    (.orElse_right (refuses_escape (hother _ rfl)) (.orElse_left ?_))
  · simpa [Place.startsWith] using hother '{' rfl
  · have hcapture : (if s.localFlag Key.cellText then Pattern.cellTextRun else .textRun).capture?
        place.rest = some (.plain (c :: cs) tail) := by
      rw [capture?_text _ _ fun _ => hother '\n' rfl, hrest, runOf?_append hne hrun htail]
    refine .here_bind (.localFlag_bind (.pattern_bind hcapture (.here_bind (.pure ?_))))
    rw [Capture.text_plain]
    exact ⟨rfl, rfl⟩

/-- A newline that begins no gap is a piece of text of its own. -/
theorem reads_newline (hrest : place.rest = '\n' :: cs)
    (hcell : s.localFlag Key.cellText = false) (hgap : blockBreak? place.rest = none) :
    Reads s place (part inner) fun n q =>
      n = textFrom place q ['\n'] ∧ q = place.skip ['\n'] cs := by
  have hhead : place.rest.head? = some '\n' := by rw [hrest]; rfl
  have hcapture : (if s.localFlag Key.cellText then Pattern.cellTextRun else .textRun).capture?
      place.rest = some (.plain ['\n'] cs) := by
    rw [hcell, hrest]
    rfl
  refine reads_part (refuses_gap (.inr hgap)) (.inl ?_) (by simp [hhead])
    (.orElse_right (refuses_escape (by simp [hhead])) (.orElse_left ?_))
  · simp [Place.startsWith, hhead]
  · refine .here_bind (.localFlag_bind (.pattern_bind hcapture (.here_bind (.pure ?_))))
    rw [Capture.text_plain]
    exact ⟨rfl, rfl⟩

/-- A backslash is taken off the character that it protects. -/
theorem reads_escape (hrest : place.rest = '\\' :: c :: cs) (hc : isEscapable c = true) :
    Reads s place (part inner) fun n q =>
      n = textFrom place q [c] ∧ q = place.skip ['\\', c] cs := by
  have hhead : place.rest.head? = some '\\' := by rw [hrest]; rfl
  have hgap : blockBreak? place.rest = none := by
    rw [hrest]
    rfl
  have hcapture : Pattern.escape.capture? place.rest = some ⟨['\\'], some [c], [], cs⟩ := by
    rw [hrest]
    simp [Pattern.capture?, hc]
  refine reads_part (refuses_gap (.inr hgap)) (.inl ?_) (by simp [hhead]) (.orElse_left ?_)
  · simp [Place.startsWith, hhead]
  · refine .here_bind (.pattern_bind hcapture (.here_bind (.pure ?_)))
    exact ⟨rfl, rfl⟩

/-- Blank lines are a gap, but for those in a cell. -/
theorem reads_gap {b : Capture} (hcell : s.localFlag Key.cellText = false)
    (hgap : blockBreak? place.rest = some b) :
    Reads s place (part inner) fun n q =>
      n = .leaf (place.spanTo q) .gap ∧ q = place.skip b.text b.rest := by
  refine .orElse_left (.localFlag_bind (.require_bind (by simp [hcell]) ?_))
  refine .here_bind (.pattern_bind hgap (.here_bind (.pure ?_)))
  exact ⟨rfl, rfl⟩

/-- A brace that means nothing is a piece of text of its own. -/
theorem reads_stray (hrest : place.rest = c :: cs) (hbrace : c = '{' ∨ c = '}')
    (hstray : isStray (s.localFlag Key.topLevel) s.exhausted c = true) :
    Reads s place (part inner) fun n q =>
      n = textFrom place q [c] ∧ q = place.skip [c] cs := by
  have hhead : place.rest.head? = some c := by rw [hrest]; rfl
  have hgap : blockBreak? place.rest = none := by
    rw [hrest]
    rcases hbrace with rfl | rfl <;> rfl
  have hdeep : place.startsWith '{' = false ∨ s.exhausted = true := by
    rcases hbrace with rfl | rfl
    · exact .inr (by simpa [isStray] using hstray)
    · exact .inl (by simp [Place.startsWith, hhead])
  have hne : ∀ d : Char, d ≠ '{' → d ≠ '}' → place.rest.head? ≠ some d := by
    intro d hopen hclose h
    have hcd : c = d := Option.some.inj (hhead.symm.trans h)
    rcases hbrace with rfl | rfl
    · exact hopen hcd.symm
    · exact hclose hcd.symm
  have hplain : ∀ d ∈ place.rest.head?, isPlain (s.localFlag Key.cellText) d = false := by
    intro d hd
    obtain rfl : c = d := Option.some.inj (hhead.symm.trans hd)
    rcases hbrace with rfl | rfl <;> rfl
  have hstep : nextChar place = some (c, place.skip [c] cs) := by
    simp [nextChar, Place.step?, hrest]
  refine reads_part (refuses_gap (.inr hgap)) hdeep (hne _ (by decide) (by decide))
    (.orElse_right (refuses_escape (hne _ (by decide) (by decide))) (.orElse_right
      (refuses_text (fun _ => hne _ (by decide) (by decide)) hplain) ?_))
  refine .here_bind (.localFlag_bind (.exhausted_bind (.ofPlace_bind hstep ?_)))
  exact .require_bind hstray (.here_bind (.pure ⟨rfl, rfl⟩))

/-- At an opening brace an element is read, unless it would be nested too deeply. -/
theorem reads_element {Q : Node → Place → Prop} (hrest : place.rest = '{' :: cs)
    (hfits : s.exhausted = false) (h : Reads s place (ofCatalog inner s.catalog) Q) :
    Reads s place (part inner) Q := by
  have hgap : blockBreak? place.rest = none := by
    rw [hrest]
    rfl
  refine .orElse_right (refuses_gap (.inr hgap)) (.orElse_left ?_)
  refine .here_bind (.exhausted_bind (.require_bind ?_ (.catalog_bind (.recalling h))))
  simp [Place.startsWith, hrest, hfits]

/-- Where no form is known, text in braces is content up to where that stops, and a closing
brace if there is one. -/
theorem reads_unknown {J : List Node → Place → Prop} (hrest : place.rest = '{' :: cs)
    (hforms : s.catalog = []) (hfits : s.exhausted = false)
    (hinner : Reads (s.push (s.deeper [])) (place.skip ['{'] cs) (inner .parts)
      fun n q => J n.children q) :
    Reads s place (part inner) fun n q => ∃ ns r, J ns r ∧
      ((∃ rest, r.rest = '}' :: rest ∧ q = r.skip ['}'] rest ∧
          n = (Node.branch (place.spanTo q) (.unknown true) ns).assemble) ∨
        (¬ ['}'] <+: r.rest ∧ q = r ∧
          n = (Node.branch (place.spanTo q) (.unknown false) ns).assemble)) := by
  refine reads_element hrest hfits ?_
  rw [hforms]
  refine .here_bind (.exactly_bind hrest ((Reads.nested hfits hinner).bind fun n r hJ => ?_))
  by_cases hclose : ['}'] <+: r.rest
  · obtain ⟨rest, hr⟩ := hclose
    have hread : Reads s r (Reading.exactly ['}']) fun _ q => q = r.skip ['}'] rest := by
      refine (Reads.ofPlace (a := ()) (q := r.skip ['}'] rest) ?_).imp fun _ _ h => h.2
      simp [← hr]
    refine (Reads.optional_some hread).bind ?_
    rintro o q ⟨_, rfl, rfl⟩
    exact .here_bind (.pure ⟨n.children, r, hJ, .inl ⟨rest, hr.symm, rfl, rfl⟩⟩)
  · refine (Reads.optional_none (.exactly hclose)).bind ?_
    rintro o q ⟨rfl, rfl⟩
    exact .here_bind (.pure ⟨n.children, q, hJ, .inr ⟨hclose, rfl, rfl⟩⟩)

/-! ## Elements -/

theorem refuses_ofForm (form : Form) (h : place.rest.head? ≠ some '{') :
    Refuses s place (ofForm inner form) := by
  refine .here_bind (.bind_left (.exactly ?_))
  rintro ⟨rest, hrest⟩
  exact h (by rw [← hrest]; rfl)

variable {form : Form} {name : Capture}

/-- A form refuses an element with a name that is not one of its own. -/
theorem refuses_ofForm_of_name (hrest : place.rest = '{' :: cs)
    (hname : Pattern.name.capture? cs = some name)
    (haccepts : form.accepts (String.ofList name.word) = false) :
    Refuses s place (ofForm inner form) := by
  have hopen : (if ['{'].isPrefixOf place.rest then
      some ((), place.skip ['{'] (place.rest.drop 1)) else none) =
      some ((), place.skip ['{'] cs) := by
    rw [hrest]
    rfl
  exact .here_bind (.ofPlace_bind hopen (.pattern_bind hname (.bind_left (.require haccepts))))

/-- The first form of a catalogue that does not refuse is the one that is read. -/
theorem reads_ofCatalog {Q : Node → Place → Prop} {before : Catalog} (after : Catalog)
    (hbefore : ∀ f ∈ before, Refuses s place (ofForm inner f))
    (h : Reads s place (ofForm inner form) Q) :
    Reads s place (ofCatalog inner (before ++ form :: after)) Q := by
  induction before with
  | nil => exact .orElse_left h
  | cons f before ih =>
    obtain ⟨hf, hbefore⟩ := List.forall_mem_cons.mp hbefore
    exact .orElse_right hf (ih hbefore)

/-- After a bar the content of a form is read, one level deeper. -/
theorem reads_content {Q : List Node → Place → Prop} (hrest : place.rest = '|' :: cs)
    (hallows : form.allowsContent = true) (hfits : s.exhausted = false)
    (h : Reads (s.push (s.deeper [])) (place.skip ['|'] cs) (inner form.content)
      fun n q => Q n.children q) : Reads s place (content inner form) Q := by
  have hsplit : Pattern.split.capture? place.rest = some (.plain ['|'] cs) := by
    rw [hrest]
    rfl
  refine (Reads.optional_some (.pattern hsplit)).bind ?_
  rintro _ _ ⟨c, rfl, rfl, rfl⟩
  rw [Capture.text_plain]
  refine .here_bind (.require_bind (by simp [hallows]) ((Reads.nested hfits h).bind ?_))
  exact fun n q hn => .require_bind (by simp [hallows]) (.pure hn)

/-- An element is read step by step: a name that its form accepts, arguments that it finds fit,
content, and the closing brace. -/
theorem reads_ofForm {Q : Node → Place → Prop} {args : Arguments} {shape : Shape} {start : Place}
    (hrest : place.rest = '{' :: cs) (hname : Pattern.name.capture? cs = some name)
    (haccepts : form.accepts (String.ofList name.word) = true)
    (hargs : ((place.skip ['{'] cs).skip name.text name.rest).arguments = (args, start))
    (hshape : form.shape? (String.ofList name.word) args = some shape)
    (hcontent : Reads s start (content inner form) fun ns q => ∃ close n,
      Pattern.close.capture? q.rest = some close ∧
        shape.node? ⟨String.ofList name.word, args, place.spanTo (q.skip close.text close.rest)⟩
          (form.keptContent ns) = some n ∧ Q n (q.skip close.text close.rest)) :
    Reads s place (ofForm inner form) Q := by
  refine .here_bind (.exactly_bind hrest (.pattern_bind hname (.require_bind haccepts
    (.ofPlace_bind (congrArg some hargs) (.ofOption_bind hshape (hcontent.bind ?_))))))
  rintro ns q ⟨close, n, hclose, hn, hQ⟩
  refine .pattern_bind hclose (.here_bind ?_)
  rw [hn]
  exact .pure hQ

end Parser

end Bracemark
