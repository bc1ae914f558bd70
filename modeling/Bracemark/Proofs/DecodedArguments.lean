/-
Values are decoded by the form that was matched, but for one case.

A value is matched in double quotes, else in single quotes, else bare, and its body is a sequence
of pieces: a character by itself, or one with a backslash before it. Between quotes a backslash
protects the quote and itself, in a bare value any character. Decoding does not know which form
was matched and looks at the first character of the value. Between quotes that is the quote; but a
bare value may begin with a quote, too, if that is never closed, and is then decoded as if it stood
between quotes (`Place.arguments_decoded`).

The pieces of a body are found by the recursion that reads it (`exists_pieces_of_quotedBody?`,
`exists_pieces_of_bareBody`), and decoding goes from one piece to the next (`Divides.unprotect`).
-/
import Bracemark.Proofs.QuotedArguments

set_option autoImplicit false

namespace Bracemark

open Text

/-! ## Pieces of a body -/

/-- A step of the body of a value: a character by itself, or one with a backslash before it. -/
inductive BodyPiece where
  | plain (c : Char)
  | escaped (c : Char)
deriving DecidableEq, Repr

namespace BodyPiece

/-- A piece as it is written. -/
def text : BodyPiece → List Char
  | .plain c => [c]
  | .escaped c => ['\\', c]

/-- What a piece stands for where a backslash protects these characters: elsewhere it is a
character like any other. -/
def decoded (protects : Char → Bool) : BodyPiece → List Char
  | .plain c => [c]
  | .escaped c => if protects c then [c] else ['\\', c]

/-- The character of a piece. -/
def char : BodyPiece → Char
  | .plain c => c
  | .escaped c => c

variable {protects : Char → Bool} {pieces : List BodyPiece}

theorem length_le_flatMap_decoded (protects : Char → Bool) (pieces : List BodyPiece) :
    pieces.length ≤ (pieces.flatMap (decoded protects)).length := by
  induction pieces with
  | nil => exact Nat.le_refl 0
  | cons x xs ih =>
    have hone : 1 ≤ (x.decoded protects).length := by
      cases x with
      | plain c => exact Nat.le_refl 1
      | escaped c =>
        rw [decoded]
        split <;> simp
    rw [List.flatMap_cons, List.length_append, List.length_cons]
    omega

/-- Every piece comes to its character exactly if no backslash is left. A backslash that is left
makes the value longer. -/
theorem flatMap_decoded_eq_iff :
    pieces.flatMap (decoded protects) = pieces.map char ↔
      ∀ c, escaped c ∈ pieces → protects c = true := by
  induction pieces with
  | nil => simp
  | cons x xs ih =>
    rw [List.flatMap_cons, List.map_cons]
    cases x with
    | plain c => simpa [decoded, char] using ih
    | escaped c =>
      by_cases hc : protects c = true
      · simpa [decoded, char, hc] using ih
      · refine iff_of_false (fun heq => ?_) fun h => hc (h c (List.mem_cons_self ..))
        have hlength := congrArg List.length heq
        have hxs := length_le_flatMap_decoded protects xs
        rw [decoded, if_neg hc] at hlength
        simp only [List.length_append, List.length_cons, List.length_nil, List.length_map]
          at hlength
        omega

end BodyPiece

/-! ## Forms of a value -/

/-- The forms that a value may be written in. -/
inductive ValueForm where
  | quoted (q : Quote)
  | bare
deriving DecidableEq, Repr

namespace ValueForm

/-- The forms in the order in which they are tried. -/
def inOrder : List ValueForm :=
  [.quoted .double, .quoted .single, .bare]

/-- The pattern that a form is matched with. -/
def pattern : ValueForm → Pattern
  | .quoted .double => .doubleQuoted
  | .quoted .single => .singleQuoted
  | .bare => .bare

/-- Whether the body of a value may have a piece in it. A quote ends a quoted value, white space,
a closing brace or a bar a bare one, and in a bare value no newline is protected. -/
def Admits : ValueForm → BodyPiece → Prop
  | .quoted q, .plain c => c ≠ q.char ∧ c ≠ '\\'
  | .quoted _, .escaped _ => True
  | .bare, .plain c => isBlank c = false ∧ c ≠ '}' ∧ c ≠ '|' ∧ c ≠ '\\'
  | .bare, .escaped c => c ≠ '\n'

instance (form : ValueForm) (x : BodyPiece) : Decidable (form.Admits x) :=
  match form, x with
  | .quoted _, .plain _ => inferInstanceAs (Decidable (_ ∧ _))
  | .quoted _, .escaped _ => .isTrue trivial
  | .bare, .plain _ => inferInstanceAs (Decidable (_ ∧ _ ∧ _ ∧ _))
  | .bare, .escaped _ => inferInstanceAs (Decidable (_ ≠ _))

/-- Whether the pieces may make up the body of a value in this form and do make up `body`. -/
def Divides (form : ValueForm) (pieces : List BodyPiece) (body : List Char) : Prop :=
  (∀ x ∈ pieces, form.Admits x) ∧ pieces.flatMap BodyPiece.text = body

instance (form : ValueForm) (pieces : List BodyPiece) (body : List Char) :
    Decidable (form.Divides pieces body) :=
  inferInstanceAs (Decidable (_ ∧ _))

theorem Divides.nil (form : ValueForm) : form.Divides [] [] :=
  ⟨by simp, rfl⟩

theorem Divides.cons {form : ValueForm} {x : BodyPiece} {pieces : List BodyPiece}
    {body : List Char} (hx : form.Admits x) (h : form.Divides pieces body) :
    form.Divides (x :: pieces) (x.text ++ body) := by
  obtain ⟨hpieces, rfl⟩ := h
  exact ⟨List.forall_mem_cons.mpr ⟨hx, hpieces⟩, rfl⟩

/-- **Decoding goes from piece to piece.** No other piece begins with a backslash than those in
which it stands before a character. -/
theorem Divides.unprotect {form : ValueForm} {pieces : List BodyPiece} {body : List Char}
    (h : form.Divides pieces body) (protects : Char → Bool) :
    unprotect protects body = pieces.flatMap (BodyPiece.decoded protects) := by
  obtain ⟨hpieces, rfl⟩ := h
  induction pieces with
  | nil => rfl
  | cons x xs ih =>
    obtain ⟨hx, hxs⟩ := List.forall_mem_cons.mp hpieces
    rw [List.flatMap_cons, List.flatMap_cons]
    cases x with
    | plain c =>
      have hc : c ≠ '\\' := by
        cases form with
        | quoted q => exact hx.2
        | bare => exact hx.2.2.2
      rw [BodyPiece.text, List.singleton_append, unprotect_cons hc, ih hxs]
      rfl
    | escaped c =>
      rw [BodyPiece.text, List.cons_append, List.singleton_append, Bracemark.unprotect, ih hxs,
        BodyPiece.decoded]
      split <;> rfl

/-- The form that matches a text first, with its match. -/
def match? (cs : List Char) : Option (ValueForm × Capture) :=
  inOrder.findSome? fun form => (form.pattern.capture? cs).map fun c => (form, c)

/-- A value is what the first form that matches has matched. -/
theorem value?_eq (cs : List Char) : value? cs = (match? cs).map Prod.snd := by
  simp only [value?, match?, inOrder, List.findSome?, pattern]
  cases Pattern.doubleQuoted.capture? cs with
  | some c => rfl
  | none =>
    cases Pattern.singleQuoted.capture? cs with
    | some c => rfl
    | none => cases Pattern.bare.capture? cs <;> rfl

theorem capture?_of_match? {cs : List Char} {form : ValueForm} {c : Capture}
    (h : match? cs = some (form, c)) : form.pattern.capture? cs = some c := by
  obtain ⟨other, -, hother⟩ := List.exists_of_findSome?_eq_some h
  obtain ⟨d, hd, heq⟩ := Option.map_eq_some_iff.mp hother
  cases heq
  exact hd

end ValueForm

/-! ## The pieces that are read -/

/-- What is neither a last backslash nor one before a character is no backslash. -/
theorem ne_backslash_of_alone {c : Char} {cs : List Char} (hlast : c = '\\' → cs = [] → False)
    (hescape : ∀ d ds, c = '\\' → cs = d :: ds → False) : c ≠ '\\' := by
  intro hc
  cases cs with
  | nil => exact hlast hc rfl
  | cons d ds => exact hescape d ds hc rfl

/-- What stands between quotes is made of pieces. -/
theorem exists_pieces_of_quotedBody? (q : Quote) (cs : List Char) :
    ∀ {body rest : List Char}, quotedBody? q.char cs = some (body, rest) →
      ∃ pieces, (ValueForm.quoted q).Divides pieces body := by
  fun_induction quotedBody? q.char cs with
  | case1 => intro body rest h; cases h
  | case2 => intro body rest h; cases h
  | case3 c cs ih =>
    intro body rest h
    obtain ⟨⟨b, r⟩, hb, hbr⟩ := Option.map_eq_some_iff.mp h
    cases hbr
    obtain ⟨pieces, hpieces⟩ := ih hb
    exact ⟨.escaped c :: pieces, hpieces.cons trivial⟩
  | case4 cs =>
    intro body rest h
    cases h
    exact ⟨[], .nil _⟩
  | case5 c cs hlast hescape hc ih =>
    intro body rest h
    obtain ⟨⟨b, r⟩, hb, hbr⟩ := Option.map_eq_some_iff.mp h
    cases hbr
    obtain ⟨pieces, hpieces⟩ := ih hb
    have hne : c ≠ '\\' := ne_backslash_of_alone hlast hescape
    exact ⟨.plain c :: pieces, hpieces.cons ⟨hc, hne⟩⟩

/-- A bare value is made of pieces. -/
theorem exists_pieces_of_bareBody (cs : List Char) :
    ∃ pieces, ValueForm.bare.Divides pieces (bareBody cs).1 := by
  fun_induction bareBody cs with
  | case1 | case2 | case3 | case5 => exact ⟨[], .nil _⟩
  | case4 c cs hc body rest hbody ih =>
    rw [hbody] at ih
    obtain ⟨pieces, hpieces⟩ := ih
    exact ⟨.escaped c :: pieces, hpieces.cons hc⟩
  | case6 c cs hlast hescape hends body rest hbody ih =>
    rw [hbody] at ih
    obtain ⟨pieces, hpieces⟩ := ih
    have hne : c ≠ '\\' := ne_backslash_of_alone hlast hescape
    simp only [Bool.or_eq_true, beq_iff_eq, not_or, Bool.not_eq_true] at hends
    obtain ⟨⟨hblank, hbrace⟩, hbar⟩ := hends
    exact ⟨.plain c :: pieces, hpieces.cons ⟨hblank, hbrace, hbar, hne⟩⟩

/-! ## Values -/

theorem dropLeadingBlanks_append {margin cs : List Char} (hmargin : allBlank margin = true)
    (hcs : ∀ c ∈ cs.head?, isBlank c = false) : dropLeadingBlanks (margin ++ cs) = cs :=
  (takeWhile_run (List.all_eq_true.mp hmargin) hcs).2

theorem allBlank_takeWhile (cs : List Char) : allBlank (cs.takeWhile isBlank) = true :=
  List.all_takeWhile

namespace Quote

/-- Whether a backslash protects a character between quotes of this kind: the quote or the
backslash. -/
def protects (q : Quote) (c : Char) : Bool :=
  c == q.char || c == '\\'

theorem protects_iff {q : Quote} {c : Char} : q.protects c = true ↔ c = q.char ∨ c = '\\' := by
  rw [protects, Bool.or_eq_true, beq_iff_eq, beq_iff_eq]

theorem protectedBy_char (q : Quote) : protectedBy (some q.char) = q.protects := by
  cases q <;> rfl

end Quote

/-- Where no quote comes first a backslash protects anything. -/
theorem protectedBy_of_ne_quote {c : Option Char} (h : ∀ q : Quote, c ≠ some q.char) :
    protectedBy c = fun _ => true := by
  unfold protectedBy
  split
  · exact absurd rfl (h .double)
  · exact absurd rfl (h .single)
  · rfl

/-- What is matched in quotes has its quote in front, and its body is made of pieces. -/
theorem pieces_of_quoted {q : Quote} {cs : List Char} {c : Capture}
    (h : (ValueForm.quoted q).pattern.capture? cs = some c) :
    (dropLeadingBlanks c.text).head? = some q.char ∧
      ∃ pieces, (ValueForm.quoted q).Divides pieces c.word := by
  have hquoted : quoted? q.char cs = some c := by
    cases q <;> exact h
  unfold quoted? at hquoted
  split at hquoted
  · cases hquoted
  · next d body hd =>
    split at hquoted
    · obtain ⟨⟨b, r⟩, hb, rfl⟩ := Option.map_eq_some_iff.mp hquoted
      refine ⟨?_, exists_pieces_of_quotedBody? q body hb⟩
      dsimp only [Capture.text]
      rw [List.append_assoc, List.append_assoc, List.singleton_append,
        dropLeadingBlanks_append (allBlank_takeWhile cs) (q.not_isBlank_head? _), List.head?_cons]
    · cases hquoted

/-- What is matched bare is its body, after white space, and the body is made of pieces. -/
theorem pieces_of_bare {cs : List Char} {c : Capture}
    (h : ValueForm.bare.pattern.capture? cs = some c) :
    (dropLeadingBlanks c.text).head? = c.word.head? ∧
      ∃ pieces, ValueForm.bare.Divides pieces c.word := by
  obtain ⟨pieces, hpieces⟩ := exists_pieces_of_bareBody (cs.dropWhile isBlank)
  simp only [ValueForm.pattern, Pattern.capture?] at h
  split at h
  · cases h
  · cases h
    refine ⟨?_, pieces, hpieces⟩
    -- No body begins with white space: a backslash is none, and neither is another piece.
    have hhead : ∀ d ∈ (bareBody (cs.dropWhile isBlank)).1.head?, isBlank d = false := by
      rw [← hpieces.2]
      rintro d hd
      cases pieces with
      | nil => cases hd
      | cons x xs =>
        have hx := hpieces.1 x (List.mem_cons_self ..)
        cases x with
        | plain c =>
          cases hd
          exact hx.1
        | escaped c =>
          cases hd
          decide
    dsimp only [Capture.text, Capture.word]
    rw [List.append_nil, Option.getD_some, dropLeadingBlanks_append (allBlank_takeWhile cs) hhead]

/-- **A value is decoded by its first character**, which is that of the body unless it is a
quote around it. -/
theorem valueOf_of_match? {cs : List Char} {form : ValueForm} {c : Capture}
    (h : ValueForm.match? cs = some (form, c)) : ∃ pieces, form.Divides pieces c.word ∧
      (∀ q : Quote, form = .quoted q ∨ form = .bare ∧ c.word.head? = some q.char →
        valueOf c = .ofList (pieces.flatMap (BodyPiece.decoded q.protects))) ∧
      (form = .bare → (∀ q : Quote, c.word.head? ≠ some q.char) →
        valueOf c = .ofList (pieces.map BodyPiece.char)) := by
  have hcapture := ValueForm.capture?_of_match? h
  have hvalue : ∀ {first : Option Char} {pieces : List BodyPiece},
      (dropLeadingBlanks c.text).head? = first → form.Divides pieces c.word →
        valueOf c = .ofList (pieces.flatMap (BodyPiece.decoded (protectedBy first))) := by
    rintro first pieces rfl hpieces
    rw [valueOf, hpieces.unprotect]
  cases form with
  | quoted q =>
    obtain ⟨hhead, pieces, hpieces⟩ := pieces_of_quoted hcapture
    refine ⟨pieces, hpieces, fun q' hq' => ?_, fun hbare => by cases hbare⟩
    obtain rfl : q = q' := by
      rcases hq' with heq | ⟨hbare, -⟩
      · exact ValueForm.quoted.inj heq
      · cases hbare
    rw [hvalue hhead hpieces, q.protectedBy_char]
  | bare =>
    obtain ⟨hhead, pieces, hpieces⟩ := pieces_of_bare hcapture
    refine ⟨pieces, hpieces, fun q hq => ?_, fun _ hnone => ?_⟩
    · rcases hq with heq | ⟨-, hfirst⟩
      · cases heq
      · rw [hvalue (hhead.trans hfirst) hpieces, q.protectedBy_char]
    · rw [hvalue hhead hpieces, protectedBy_of_ne_quote hnone,
        BodyPiece.flatMap_decoded_eq_iff.mpr fun _ _ => rfl]

/-! ## Arguments -/

/-- An argument as it was matched. -/
structure ArgumentMatch where
  /-- The name before the equals sign, if there is one. -/
  name : Option String
  /-- Where the value was looked for. -/
  place : Place
  form : ValueForm
  capture : Capture
  matched : ValueForm.match? place.rest = some (form, capture)

namespace Place

/-- The name of an argument, if there is one with an equals sign, and the place after these. -/
def afterName (p : Place) : Option String × Place :=
  match Pattern.argumentName.capture? p.rest with
  | some c => (some (String.ofList c.word), p.skip c.text c.rest)
  | none => (none, p)

theorem argument?_eq (p : Place) :
    p.argument? = (value? p.afterName.2.rest).map fun c =>
      (⟨p.afterName.1, valueOf c⟩, p.afterName.2.skip c.text c.rest) := rfl

end Place

/-- Arguments are matched one after another from one place to another. -/
inductive MatchesArguments : Place → List ArgumentMatch → Place → Prop where
  | nil (p : Place) : MatchesArguments p [] p
  | cons {p q : Place} {m : ArgumentMatch} {ms : List ArgumentMatch}
      (named : p.afterName = (m.name, m.place))
      (later : MatchesArguments (m.place.skip m.capture.text m.capture.rest) ms q) :
      MatchesArguments p (m :: ms) q

/-- The argument that is kept of a match. -/
def ArgumentMatch.argument (m : ArgumentMatch) : Argument :=
  ⟨m.name.map lowered, valueOf m.capture⟩

namespace Place

/-- Each round matches an argument. By induction on the rounds. -/
theorem matches_argumentsLoop (fuel : Nat) : ∀ (read : Arguments) (p : Place), ∃ ms,
    MatchesArguments p ms (argumentsLoop fuel read p).2 ∧
      (argumentsLoop fuel read p).1.entries = read.entries ++ ms.map ArgumentMatch.argument := by
  induction fuel with
  | zero => exact fun read p => ⟨[], .nil p, (List.append_nil _).symm⟩
  | succ fuel ih =>
    intro read p
    rw [argumentsLoop, argument?_eq, ValueForm.value?_eq]
    cases hmatch : ValueForm.match? p.afterName.2.rest with
    | none => exact ⟨[], .nil p, (List.append_nil _).symm⟩
    | some found =>
      obtain ⟨form, c⟩ := found
      let m : ArgumentMatch := ⟨p.afterName.1, p.afterName.2, form, c, hmatch⟩
      obtain ⟨ms, hms, hentries⟩ := ih (read.push m.name (valueOf c)) (m.place.skip c.text c.rest)
      refine ⟨m :: ms, .cons rfl hms, ?_⟩
      rw [List.map_cons, List.append_cons]
      exact hentries

/-- **Arguments are decoded by the form that was matched, but for one case.** Wherever reading
begins, every argument was matched in one of the three forms, and its body is made of the pieces
of that form. Between quotes the protected quotes and backslashes are replaced by themselves, and
no other backslash is taken away. In a bare value every protected character is replaced by itself
if the body does not begin with a quote. If it does, only that quote and the backslash are, which
makes a difference exactly if another character is protected. -/
theorem arguments_decoded (p : Place) : ∃ ms, MatchesArguments p ms p.arguments.2 ∧
    List.Forall₂ (fun m a => a.name = m.name.map lowered ∧
      ∃ pieces, m.form.Divides pieces m.capture.word ∧
        (∀ q, m.form = .quoted q →
          a.value = .ofList (pieces.flatMap (BodyPiece.decoded q.protects))) ∧
        (m.form = .bare → (∀ q : Quote, m.capture.word.head? ≠ some q.char) →
          a.value = .ofList (pieces.map BodyPiece.char)) ∧
        (m.form = .bare → ∀ q : Quote, m.capture.word.head? = some q.char →
          a.value = .ofList (pieces.flatMap (BodyPiece.decoded q.protects)) ∧
          (a.value = .ofList (pieces.map BodyPiece.char) ↔
            ∀ c, BodyPiece.escaped c ∈ pieces → c = q.char ∨ c = '\\')))
      ms p.arguments.1.entries := by
  obtain ⟨ms, hms, hentries⟩ := matches_argumentsLoop p.left .empty p
  refine ⟨ms, hms, ?_⟩
  rw [arguments, hentries, Arguments.empty, List.nil_append, List.forall₂_map_right_iff,
    List.forall₂_same]
  intro m _
  obtain ⟨pieces, hpieces, hquote, hbare⟩ := valueOf_of_match? m.matched
  refine ⟨rfl, pieces, hpieces, fun q hq => hquote q (.inl hq), hbare, fun hform q hq => ?_⟩
  have hvalue : m.argument.value = .ofList (pieces.flatMap (BodyPiece.decoded q.protects)) :=
    hquote q (.inr ⟨hform, hq⟩)
  refine ⟨hvalue, ?_⟩
  rw [hvalue, String.ofList_inj, BodyPiece.flatMap_decoded_eq_iff]
  exact forall₂_congr fun c _ => Quote.protects_iff

/-- A bare value that begins with a quote keeps the backslash before a space, so that it is not
its body with all protected characters replaced by themselves. -/
theorem arguments_unclosed_quote :
    let p := first "\"a\\ b".toList
    let pieces : List BodyPiece := [.plain '"', .plain 'a', .escaped ' ', .plain 'b']
    p.afterName = (none, p) ∧
      (ValueForm.match? p.rest).map (fun (form, c) => (form, c.word)) =
        some (.bare, "\"a\\ b".toList) ∧
      ValueForm.bare.Divides pieces "\"a\\ b".toList ∧
      p.arguments.1 = ⟨[⟨none, "\"a\\ b"⟩]⟩ ∧
      "\"a\\ b" ≠ String.ofList (pieces.map BodyPiece.char) := by
  decide +kernel

end Place

end Bracemark
