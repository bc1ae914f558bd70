/-
Quoted arguments are read back.

A value in quotes may be any text, because a backslash takes the meaning away from the quote and
from itself. `QuotedArgument.text` writes an argument in this way, with the quote that is chosen
for it and with its name if it has one. A list of arguments that is written so is read back as the
same list (`Place.arguments_quoted`).

Writing and reading meet twice. The body of the value must be found between its quotes
(`quotedBody?_protect`), and then the backslashes must be taken out again (`unprotect_protect`).
Both are by induction on the value, one character of which is one or two characters of the body.
-/
import Bracemark.Proofs.Readings

set_option autoImplicit false

namespace Bracemark

open Text

/-! ## Writing -/

/-- The two quotes. -/
inductive Quote where
  | double
  | single
deriving DecidableEq, Repr

/-- The character that a quote is written as. -/
def Quote.char : Quote → Char
  | .double => '"'
  | .single => '\x27'

/-- A text with a backslash before each backslash and each quote of one kind. -/
def protect (quote : Char) (cs : List Char) : List Char :=
  cs.flatMap fun c => if c = quote ∨ c = '\\' then ['\\', c] else [c]

/-- An argument that is to be written in quotes. A name has characters, all of them characters
of names. -/
structure QuotedArgument where
  name : Option String
  value : String
  quote : Quote
  named : ∀ n ∈ name, n.toList ≠ [] ∧ ∀ c ∈ n.toList, isNameChar c = true

namespace QuotedArgument

/-- The name and an equals sign, if there is a name. -/
def nameText (a : QuotedArgument) : List Char :=
  match a.name with
  | none => []
  | some n => n.toList ++ ['=']

/-- The value between its quotes. -/
def valueText (a : QuotedArgument) : List Char :=
  a.quote.char :: (protect a.quote.char a.value.toList ++ [a.quote.char])

/-- An argument as it is written, after a space. -/
def text (a : QuotedArgument) : List Char :=
  ' ' :: (a.nameText ++ a.valueText)

/-- An argument as it is kept, with its name in small letters. -/
def argument (a : QuotedArgument) : Argument :=
  ⟨a.name.map lowered, a.value⟩

end QuotedArgument

/-! ## Characters -/

variable {cs margin more after : List Char} {quote : Char}

theorem Quote.not_isBlank (q : Quote) : isBlank q.char = false := by
  cases q <;> decide

/-- White space ends at a quote. -/
theorem Quote.not_isBlank_head? (q : Quote) (cs : List Char) :
    ∀ c ∈ (q.char :: cs).head?, isBlank c = false := by
  rintro c ⟨⟩
  exact q.not_isBlank

theorem Quote.not_isNameChar (q : Quote) : isNameChar q.char = false := by
  cases q <;> decide

theorem Quote.ne_backslash (q : Quote) : q.char ≠ '\\' := by
  cases q <;> decide

/-- White space is no part of a name. -/
theorem isBlank_of_isNameChar {c : Char} (h : isNameChar c = true) : isBlank c = false := by
  rw [← Bool.not_eq_true]
  intro hblank
  simp only [isBlank, Bool.or_eq_true, Bool.and_eq_true, decide_eq_true_eq, beq_iff_eq] at hblank
  simp only [isNameChar, Char.isAlphanum, Char.isAlpha, Char.isUpper, Char.isLower, Char.isDigit,
    Bool.or_eq_true, Bool.and_eq_true, decide_eq_true_eq, beq_iff_eq, ge_iff_le,
    UInt32.le_iff_toNat_le] at h
  change (((65 ≤ c.toNat ∧ c.toNat ≤ 90) ∨ 97 ≤ c.toNat ∧ c.toNat ≤ 122) ∨
    48 ≤ c.toNat ∧ c.toNat ≤ 57) ∨ c = '_' at h
  rcases h with h | rfl
  · omega
  · revert hblank
    decide

/-! ## The body of a value -/

theorem quotedBody?_cons {c : Char} (hc : c ≠ '\\') (cs : List Char) :
    quotedBody? quote (c :: cs) =
      if c = quote then some ([], cs)
      else (quotedBody? quote cs).map fun (body, rest) => (c :: body, rest) := by
  conv_lhs => unfold quotedBody?
  split <;> simp_all

/-- **The body of a value is found between its quotes.** -/
theorem quotedBody?_protect (hquote : quote ≠ '\\') (cs more : List Char) :
    quotedBody? quote (protect quote cs ++ quote :: more) = some (protect quote cs, more) := by
  induction cs with
  | nil =>
    show quotedBody? quote (quote :: more) = some ([], more)
    rw [quotedBody?_cons hquote, if_pos rfl]
  | cons c cs ih =>
    by_cases hc : c = quote ∨ c = '\\'
    · have hprotect : protect quote (c :: cs) = '\\' :: c :: protect quote cs := by
        simp [protect, hc]
      rw [hprotect, List.cons_append, List.cons_append, quotedBody?, ih]
      rfl
    · have hprotect : protect quote (c :: cs) = c :: protect quote cs := by
        simp [protect, hc]
      rw [not_or] at hc
      rw [hprotect, List.cons_append, quotedBody?_cons hc.2, if_neg hc.1, ih]
      rfl

theorem unprotect_cons {protects : Char → Bool} {c : Char} (hc : c ≠ '\\') (cs : List Char) :
    unprotect protects (c :: cs) = c :: unprotect protects cs := by
  conv_lhs => unfold unprotect
  split <;> simp_all

/-- **The backslashes that were put in are taken out again**, and no others. -/
theorem unprotect_protect {protects : Char → Bool}
    (h : ∀ c, protects c = true ↔ c = quote ∨ c = '\\') (cs : List Char) :
    unprotect protects (protect quote cs) = cs := by
  induction cs with
  | nil => rfl
  | cons c cs ih =>
    by_cases hc : c = quote ∨ c = '\\'
    · have hprotect : protect quote (c :: cs) = '\\' :: c :: protect quote cs := by
        simp [protect, hc]
      rw [hprotect, unprotect, if_pos ((h c).mpr hc), ih]
    · have hprotect : protect quote (c :: cs) = c :: protect quote cs := by
        simp [protect, hc]
      rw [not_or] at hc
      rw [hprotect, unprotect_cons hc.2, ih]

theorem Quote.protectedBy_iff (q : Quote) (c : Char) :
    protectedBy (some q.char) c = true ↔ c = q.char ∨ c = '\\' := by
  cases q <;> simp [protectedBy, Quote.char]

/-! ## A value -/

theorem quoted?_protect (q : Quote) (hmargin : allBlank margin = true) (cs more : List Char) :
    quoted? q.char (margin ++ q.char :: (protect q.char cs ++ q.char :: more)) =
      some ⟨margin ++ [q.char], some (protect q.char cs), [q.char], more⟩ := by
  obtain ⟨htake, hdrop⟩ := takeWhile_run (List.all_eq_true.mp hmargin)
    (q.not_isBlank_head? (protect q.char cs ++ q.char :: more))
  rw [quoted?, hdrop]
  dsimp only
  rw [if_pos rfl, quotedBody?_protect q.ne_backslash, htake]
  rfl

/-- There is no value in quotes where the first character that is not white space is another
one. -/
theorem quoted?_eq_none (hmargin : allBlank margin = true)
    (hafter : ∀ c ∈ after.head?, isBlank c = false ∧ c ≠ quote) :
    quoted? quote (margin ++ after) = none := by
  obtain ⟨-, hdrop⟩ := takeWhile_run (List.all_eq_true.mp hmargin) fun c hc => (hafter c hc).1
  rw [quoted?, hdrop]
  cases after with
  | nil => rfl
  | cons c cs =>
    dsimp only
    rw [if_neg (hafter c rfl).2]

/-- A value is read in the quotes that it was written in. -/
theorem value?_protect (q : Quote) (hmargin : allBlank margin = true) (cs more : List Char) :
    value? (margin ++ q.char :: (protect q.char cs ++ q.char :: more)) =
      some ⟨margin ++ [q.char], some (protect q.char cs), [q.char], more⟩ := by
  have hquoted := quoted?_protect q hmargin cs more
  cases q with
  | double =>
    show (quoted? '"' _).or _ = _
    rw [show quoted? '"' _ = _ from hquoted, Option.some_or]
  | single =>
    show (quoted? '"' _).or ((quoted? '\x27' _).or _) = _
    rw [show quoted? '\x27' _ = _ from hquoted, Option.some_or,
      quoted?_eq_none hmargin fun c hc => by cases hc; decide, Option.none_or]

theorem valueOf_protect (q : Quote) (hmargin : allBlank margin = true) (cs more : List Char) :
    valueOf ⟨margin ++ [q.char], some (protect q.char cs), [q.char], more⟩ = String.ofList cs := by
  have hraw : (dropLeadingBlanks (Capture.text
      ⟨margin ++ [q.char], some (protect q.char cs), [q.char], more⟩)).head? = some q.char := by
    obtain ⟨-, hdrop⟩ := takeWhile_run (List.all_eq_true.mp hmargin)
      (q.not_isBlank_head? (protect q.char cs ++ [q.char]))
    simp only [Capture.text, Option.getD_some, List.append_assoc, List.cons_append,
      List.nil_append, dropLeadingBlanks, hdrop, List.head?_cons]
  rw [valueOf, hraw]
  exact congrArg String.ofList (unprotect_protect q.protectedBy_iff cs)

/-! ## The name -/

theorem argumentName_eq_none (hmargin : allBlank margin = true)
    (hafter : ∀ c ∈ after.head?, isBlank c = false ∧ isNameChar c = false) :
    Pattern.argumentName.capture? (margin ++ after) = none := by
  obtain ⟨-, hdrop⟩ := takeWhile_run (List.all_eq_true.mp hmargin) fun c hc => (hafter c hc).1
  have hname : after.takeWhile isNameChar = [] := by
    cases after with
    | nil => rfl
    | cons c cs => simp [(hafter c rfl).2]
  simp only [Pattern.capture?, spacedName?, hdrop, hname, List.isEmpty_nil, if_true,
    Option.bind_none]

theorem argumentName_written {name : List Char} (hne : name ≠ [])
    (hname : ∀ c ∈ name, isNameChar c = true) (more : List Char) :
    Pattern.argumentName.capture? (' ' :: (name ++ '=' :: more)) =
      some ⟨[' '], some name, ['='], more⟩ := by
  obtain ⟨c, cs, rfl⟩ := List.exists_cons_of_ne_nil hne
  have hblank : isBlank c = false := isBlank_of_isNameChar (hname c (List.mem_cons_self ..))
  have hspace : ∀ d ∈ (c :: cs ++ '=' :: more).head?, isBlank d = false := by
    rintro d ⟨⟩
    exact hblank
  have hequals : ∀ d ∈ ('=' :: more).head?, isNameChar d = false := by
    rintro d ⟨⟩
    decide
  obtain ⟨htake, hdrop⟩ := takeWhile_run
    (List.forall_mem_singleton.mpr (rfl : isBlank ' ' = true)) hspace
  obtain ⟨htake', hdrop'⟩ := takeWhile_run hname hequals
  rw [List.singleton_append] at htake hdrop
  have hbody : ('=' :: more).dropWhile isBlank = '=' :: more ∧
      ('=' :: more).takeWhile isBlank = [] := ⟨rfl, rfl⟩
  simp only [Pattern.capture?, spacedName?, htake, hdrop, htake', hdrop', List.isEmpty_cons,
    Bool.false_eq_true, if_false, Option.bind_some, hbody.1, hbody.2, List.nil_append]

/-! ## Arguments -/

namespace Place

variable {p : Place}

/-- One argument is read back, and reading goes on after its closing quote. -/
theorem argument?_text (a : QuotedArgument) (hrest : p.rest = a.text ++ more) :
    p.argument? = some (⟨a.name, a.value⟩, p.skip a.text more) := by
  obtain ⟨name, value, q, hnamed⟩ := a
  cases name with
  | none =>
    have hrest' : p.rest = [' '] ++ q.char :: (protect q.char value.toList ++ q.char :: more) := by
      rw [hrest]
      simp [QuotedArgument.text, QuotedArgument.nameText, QuotedArgument.valueText]
    have hname : Pattern.argumentName.capture? p.rest = none := by
      rw [hrest']
      refine argumentName_eq_none (by decide) fun c hc => ?_
      cases hc
      exact ⟨q.not_isBlank, q.not_isNameChar⟩
    simp only [Place.argument?, hname]
    rw [hrest', value?_protect q (by decide), Option.map_some, valueOf_protect q (by decide),
      String.ofList_toList]
    simp [Capture.text, QuotedArgument.text, QuotedArgument.nameText, QuotedArgument.valueText]
  | some n =>
    obtain ⟨hne, hchars⟩ := hnamed n rfl
    have hrest' : p.rest = ' ' :: (n.toList ++ '=' ::
        ([] ++ q.char :: (protect q.char value.toList ++ q.char :: more))) := by
      rw [hrest]
      simp [QuotedArgument.text, QuotedArgument.nameText, QuotedArgument.valueText]
    have hname := argumentName_written hne hchars
      ([] ++ q.char :: (protect q.char value.toList ++ q.char :: more))
    rw [← hrest'] at hname
    simp only [Place.argument?, hname, skip_rest]
    rw [value?_protect q (by decide), Option.map_some, valueOf_protect q (by decide),
      String.ofList_toList, skip_skip]
    simp [Capture.text, Capture.word, QuotedArgument.text, QuotedArgument.nameText,
      QuotedArgument.valueText]

/-- At the end of the text, and before a closing brace or a bar, there is no argument. -/
theorem argument?_eq_none (hmargin : allBlank margin = true)
    (hafter : ∀ c ∈ after.head?, c = '}' ∨ c = '|') (hrest : p.rest = margin ++ after) :
    p.argument? = none := by
  have hends : ∀ c ∈ after.head?, isBlank c = false ∧ isNameChar c = false ∧ c ≠ '"' ∧
      c ≠ '\x27' := by
    intro c hc
    rcases hafter c hc with rfl | rfl <;> decide
  have hname : Pattern.argumentName.capture? p.rest = none := by
    rw [hrest]
    exact argumentName_eq_none hmargin fun c hc => ⟨(hends c hc).1, (hends c hc).2.1⟩
  have hbare : Pattern.bare.capture? p.rest = none := by
    obtain ⟨-, hdrop⟩ := takeWhile_run (List.all_eq_true.mp hmargin) fun c hc => (hends c hc).1
    simp only [Pattern.capture?, hrest, hdrop]
    cases after with
    | nil => rfl
    | cons c cs => rcases hafter c rfl with rfl | rfl <;> rfl
  have hvalue : value? p.rest = none := by
    rw [value?, hbare, hrest]
    show (quoted? '"' _).or ((quoted? '\x27' _).or none) = none
    rw [quoted?_eq_none hmargin fun c hc => ⟨(hends c hc).1, (hends c hc).2.2.1⟩,
      quoted?_eq_none hmargin fun c hc => ⟨(hends c hc).1, (hends c hc).2.2.2⟩]
    rfl
  simp [Place.argument?, hname, hvalue]

/-- Round after round one argument is read and added at the end, until none is left. -/
theorem argumentsLoop_text (as : List QuotedArgument) (hmargin : allBlank margin = true)
    (hafter : ∀ c ∈ after.head?, c = '}' ∨ c = '|') :
    ∀ (fuel : Nat) (read : Arguments) (p : Place), as.length ≤ fuel →
      p.rest = as.flatMap QuotedArgument.text ++ (margin ++ after) →
        argumentsLoop fuel read p = (⟨read.entries ++ as.map QuotedArgument.argument⟩,
          p.skip (as.flatMap QuotedArgument.text) (margin ++ after)) := by
  induction as with
  | nil =>
    intro fuel read p _ hrest
    have hstay : p.skip [] (margin ++ after) = p := by
      rw [List.flatMap_nil, List.nil_append] at hrest
      rw [← hrest, skip_nil]
    rw [List.map_nil, List.append_nil, List.flatMap_nil, hstay]
    cases fuel with
    | zero => rfl
    | succ fuel => rw [argumentsLoop, argument?_eq_none hmargin hafter hrest]
  | cons a as ih =>
    intro fuel read p hfuel hrest
    obtain ⟨fuel, rfl⟩ : ∃ n, fuel = n + 1 :=
      Nat.exists_eq_succ_of_ne_zero (by rintro rfl; cases hfuel)
    rw [List.flatMap_cons, List.append_assoc] at hrest
    rw [argumentsLoop, argument?_text a hrest]
    dsimp only
    rw [ih fuel _ _ (Nat.le_of_succ_le_succ hfuel) rfl, skip_skip, List.flatMap_cons]
    simp only [Arguments.push, QuotedArgument.argument, List.map_cons, List.append_assoc,
      List.singleton_append]

theorem length_le_width_flatMap (as : List QuotedArgument) :
    as.length ≤ width (as.flatMap QuotedArgument.text) := by
  induction as with
  | nil => exact Nat.le_refl 0
  | cons a as ih =>
    have hspace : ' '.utf8Size = 1 := rfl
    rw [List.flatMap_cons, width_append, QuotedArgument.text, width_cons, List.length_cons]
    omega

/-- **Quoted arguments are read back.** Each of some arguments is written after a space, with its
name and an equals sign if it has a name, and its value in quotes of either kind. Where they stand
before the end of the text, a closing brace or a bar, perhaps with white space between, reading
gives these arguments, in this order and with their names in small letters, and it comes to the
place after the last closing quote. -/
theorem arguments_quoted (hp : p.Fits) (as : List QuotedArgument)
    (hmargin : allBlank margin = true) (hafter : ∀ c ∈ after.head?, c = '}' ∨ c = '|')
    (hrest : p.rest = as.flatMap QuotedArgument.text ++ (margin ++ after)) :
    p.arguments = (⟨as.map QuotedArgument.argument⟩,
      p.skip (as.flatMap QuotedArgument.text) (margin ++ after)) := by
  have hfuel : as.length ≤ p.left := by
    have hlength := length_le_width_flatMap as
    rw [hp.left, hrest, width_append]
    omega
  rw [arguments, argumentsLoop_text as hmargin hafter p.left .empty p hfuel hrest]
  rfl

/-- Both quotes, with and without a name, a name that is given twice, and values with all that
could end them. -/
theorem arguments_quoted_mixed :
    let alt (value : String) (quote : Quote) : QuotedArgument :=
      ⟨some "Alt", value, quote, by rintro _ ⟨⟩; exact ⟨by decide, List.all_eq_true.mp rfl⟩⟩
    let plain (value : String) (quote : Quote) : QuotedArgument :=
      ⟨none, value, quote, by rintro _ ⟨⟩⟩
    let as := [alt "it\x27s \"\x7bb|x\x7d\"" .double, plain "a=\n\\" .single, plain "" .double,
      alt "\x27\\\"" .single]
    let p := first (as.flatMap QuotedArgument.text ++ ([' ', '\n'] ++ ['|', '"', 'x']))
    String.ofList (as.flatMap QuotedArgument.text) = " Alt=\"it\x27s \\\"\x7bb|x\x7d\\\"\"" ++
        " \x27a=\n\\\\\x27 \"\" Alt=\x27\\\x27\\\\\"\x27" ∧
      p.Fits ∧ allBlank [' ', '\n'] = true ∧
      (∀ c ∈ ['|', '"', 'x'].head?, c = '}' ∨ c = '|') ∧
      p.arguments = (⟨[⟨some "alt", "it\x27s \"\x7bb|x\x7d\""⟩, ⟨none, "a=\n\\"⟩, ⟨none, ""⟩,
          ⟨some "alt", "\x27\\\""⟩]⟩,
        p.skip (as.flatMap QuotedArgument.text) [' ', '\n', '|', '"', 'x']) := by
  intro alt plain as p
  have hp : p.Fits := fits_first _
  have hmargin : allBlank [' ', '\n'] = true := by decide
  have hafter : ∀ c ∈ ['|', '"', 'x'].head?, c = '}' ∨ c = '|' := by
    rintro _ ⟨⟩
    exact .inr rfl
  refine ⟨by decide +kernel, hp, hmargin, hafter, ?_⟩
  exact arguments_quoted hp as hmargin hafter rfl

end Place

end Bracemark
