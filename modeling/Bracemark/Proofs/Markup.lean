/-
Well nested HTML.

HTML is taken as a sequence of pieces: character data, opening tags with their attributes,
and closing tags. Character data and the values of attributes consist of characters that
mean nothing to a reader of HTML and of character references. `WellNested` says that a text
is made of such pieces and that every tag is closed in its place, by a stack of the tags
that are open.

For pieces of a document, which are put together, the stack must not matter: `IsMarkup` says
that a text is made of pieces that leave every stack as they find it. It is kept by putting
texts one after another, by putting an element around a text, and by taking away the white
space at the ends of a text, for white space is character data and no tag or reference begins
or ends with it.
-/
import Mathlib
import Bracemark.Text.Escape
import Bracemark.Text.Blank

set_option autoImplicit false

namespace Bracemark

open Text

namespace Html

/-! ## Character data -/

/-- A character that stands for itself, or a reference to one by name or number. -/
inductive Datum where
  | char (c : Char)
  | reference (name : List Char)
deriving DecidableEq, Repr

/-- The names of characters that documents refer to. -/
def referenceNames : List String :=
  ["amp", "lt", "gt", "quot", "nbsp", "shy", "ndash", "mdash", "hellip", "lsquo", "rsquo",
    "ldquo", "rdquo", "laquo", "raquo", "copy", "reg", "trade", "deg", "plusmn", "times",
    "divide", "larr", "rarr", "euro", "sect", "para", "alpha", "Alpha", "beta", "pi"]

/-- What may stand between the ampersand and the semicolon of a reference: a name, or a
number in hexadecimal digits. -/
def isReferenceName : List Char → Bool
  | '#' :: 'x' :: digits =>
    !digits.isEmpty && digits.all fun c => c.isDigit || ('a' ≤ c && c ≤ 'f') || ('A' ≤ c && c ≤ 'F')
  | name => referenceNames.any fun known => known.toList == name

namespace Datum

/-- How it is written. -/
def chars : Datum → List Char
  | char c => [c]
  | reference name => '&' :: name ++ [';']

/-- Nothing in it can be taken for a tag or for the beginning of another reference. -/
def Proper : Datum → Prop
  | char c => c ≠ '<' ∧ c ≠ '>' ∧ c ≠ '&'
  | reference name => isReferenceName name = true

end Datum

/-! ## Tags -/

/-- Whether some characters may be the name of a tag or an attribute: letters, digits and
hyphens, one at least. -/
def isName (name : List Char) : Bool :=
  !name.isEmpty && name.all fun c => c.isAlphanum || c == '-'

/-- Whether an element has no content and no closing tag. -/
def isVoid (tag : List Char) : Bool :=
  tag == ['b', 'r'] || tag == ['i', 'm', 'g']

/-- An attribute of a tag. -/
structure Attribute where
  name : List Char
  value : List Datum
deriving DecidableEq, Repr

namespace Attribute

/-- How it is written, with the space before it. -/
def chars (a : Attribute) : List Char :=
  ' ' :: a.name ++ '=' :: '"' :: a.value.flatMap Datum.chars ++ ['"']

/-- The value ends where it seems to end. -/
def Proper (a : Attribute) : Prop :=
  isName a.name = true ∧ ∀ d ∈ a.value, d.Proper ∧ d ≠ .char '"'

end Attribute

/-! ## Pieces -/

/-- A piece of HTML. -/
inductive Piece where
  | data (d : Datum)
  | opening (tag : List Char) (attributes : List Attribute)
  | closing (tag : List Char)
deriving DecidableEq, Repr

namespace Piece

/-- How it is written. -/
def chars : Piece → List Char
  | data d => d.chars
  | opening tag attributes => '<' :: tag ++ attributes.flatMap Attribute.chars ++ ['>']
  | closing tag => '<' :: '/' :: tag ++ ['>']

/-- It is the piece that it seems to be. -/
def Proper : Piece → Prop
  | data d => d.Proper
  | opening tag attributes => isName tag = true ∧ ∀ a ∈ attributes, a.Proper
  | closing tag => isName tag = true

/-- Whether it is a tag. -/
def isTag : Piece → Bool
  | data _ => false
  | _ => true

/-- Whether it is white space. -/
def isBlank : Piece → Bool
  | data (.char c) => Text.isBlank c
  | _ => false

end Piece

/-- Whether some pieces close all elements that are open and all that they open, the last
one opened first. `opened` holds the tags of the open elements, innermost first. -/
def closes (opened : List (List Char)) : List Piece → Bool
  | [] => opened.isEmpty
  | .data _ :: ps => closes opened ps
  | .opening tag _ :: ps => if isVoid tag then closes opened ps else closes (tag :: opened) ps
  | .closing tag :: ps =>
    match opened with
    | [] => false
    | innermost :: outer => tag == innermost && closes outer ps

/-- The text is made of character data and tags, and each opening tag, but for those of void
elements, is closed by the matching closing tag, the last one opened first. -/
def WellNested (html : String) : Prop :=
  ∃ ps : List Piece, (∀ p ∈ ps, p.Proper) ∧ closes [] ps = true ∧
    html.toList = ps.flatMap Piece.chars

/-! ## Stacks -/

/-- Character data does not matter to the stack. -/
theorem closes_filter (ps : List Piece) : ∀ opened : List (List Char),
    closes opened (ps.filter Piece.isTag) = closes opened ps := by
  induction ps with
  | nil => exact fun _ => rfl
  | cons p ps ih =>
    intro opened
    cases p with
    | data d => exact ih opened
    | opening tag attributes =>
      rw [List.filter_cons_of_pos rfl, closes, closes, ih, ih]
    | closing tag =>
      rw [List.filter_cons_of_pos rfl]
      cases opened with
      | nil => rfl
      | cons innermost outer => simp only [closes, ih]

/-- The pieces leave any stack as they find it. -/
def Neutral (ps : List Piece) : Prop :=
  ∀ (opened : List (List Char)) (rest : List Piece), closes opened (ps ++ rest) = closes opened rest

theorem Neutral.append {ps qs : List Piece} (hp : Neutral ps) (hq : Neutral qs) :
    Neutral (ps ++ qs) := by
  intro opened rest
  rw [List.append_assoc, hp, hq]

/-- An element around neutral pieces is neutral. -/
theorem Neutral.element {ps : List Piece} (h : Neutral ps) {tag : List Char}
    (htag : isVoid tag = false) (as : List Attribute) :
    Neutral (.opening tag as :: ps ++ [.closing tag]) := by
  intro opened rest
  rw [List.cons_append, List.cons_append, closes, htag, List.append_assoc]
  simp only [Bool.false_eq_true, if_false]
  rw [h]
  show (tag == tag && closes opened rest) = closes opened rest
  rw [beq_self_eq_true, Bool.true_and]

/-- Pieces with the same tags are neutral together. -/
theorem Neutral.of_filter {ps qs : List Piece} (h : Neutral ps)
    (htags : qs.filter Piece.isTag = ps.filter Piece.isTag) : Neutral qs := by
  intro opened rest
  rw [← closes_filter, List.filter_append, htags, ← List.filter_append, closes_filter, h]

/-! ## Numbers -/

theorem isDigit_of_mem_toString (n : Nat) (c : Char) (hc : c ∈ (toString n).toList) :
    c.isDigit = true :=
  Nat.isDigit_of_mem_toDigits (b := 10) (by decide) (by decide)
    (by simpa [toString, Nat.repr] using hc)

theorem isDigit_or_eq_of_mem_toString (n : Int) (c : Char) (hc : c ∈ (toString n).toList) :
    c.isDigit = true ∨ c = '-' := by
  cases n with
  | ofNat n => exact .inl (isDigit_of_mem_toString n c hc)
  | negSucc n =>
    have hsplit : (toString (Int.negSucc n)).toList = '-' :: (toString (n + 1)).toList := by
      rw [show toString (Int.negSucc n) = "-" ++ toString (n + 1) from rfl, String.toList_append]
      rfl
    rw [hsplit] at hc
    rcases List.mem_cons.mp hc with hc | hc
    · exact .inr hc
    · exact .inl (isDigit_of_mem_toString (n + 1) c hc)

/-! ## White space -/

/-- A piece begins with white space only if it is white space. -/
theorem Piece.chars_begin (p : Piece) : ∃ c cs, p.chars = c :: cs ∧
    Text.isBlank c = p.isBlank ∧ (p.isBlank = true → cs = []) := by
  match p with
  | .data (.char c) => exact ⟨c, [], rfl, rfl, fun _ => rfl⟩
  | .data (.reference name) => exact ⟨'&', _, rfl, rfl, by simp [Piece.isBlank]⟩
  | .opening tag as => exact ⟨'<', _, rfl, rfl, by simp [Piece.isBlank]⟩
  | .closing tag => exact ⟨'<', _, rfl, rfl, by simp [Piece.isBlank]⟩

/-- A piece ends with white space only if it is white space. -/
theorem Piece.chars_end (p : Piece) : ∃ c cs, p.chars.reverse = c :: cs ∧
    Text.isBlank c = p.isBlank ∧ (p.isBlank = true → cs = []) := by
  match p with
  | .data (.char c) => exact ⟨c, [], rfl, rfl, fun _ => rfl⟩
  | .data (.reference name) =>
    exact ⟨';', _, List.reverse_concat, rfl, by simp [Piece.isBlank]⟩
  | .opening tag as => exact ⟨'>', _, List.reverse_concat, rfl, by simp [Piece.isBlank]⟩
  | .closing tag => exact ⟨'>', _, List.reverse_concat, rfl, by simp [Piece.isBlank]⟩

/-- White space at the beginning of a text is taken away piece by piece. -/
theorem dropWhile_flatMap {f : Piece → List Char}
    (hf : ∀ p, ∃ c cs, f p = c :: cs ∧ Text.isBlank c = p.isBlank ∧ (p.isBlank = true → cs = []))
    (ps : List Piece) :
    (ps.flatMap f).dropWhile Text.isBlank = (ps.dropWhile Piece.isBlank).flatMap f := by
  induction ps with
  | nil => rfl
  | cons p ps ih =>
    obtain ⟨c, cs, hp, hc, hcs⟩ := hf p
    rw [List.flatMap_cons, hp, List.cons_append, List.dropWhile_cons, List.dropWhile_cons, hc]
    cases hblank : p.isBlank with
    | true =>
      rw [if_pos rfl, if_pos rfl, hcs hblank, List.nil_append, ih]
    | false =>
      rw [if_neg Bool.false_ne_true, if_neg Bool.false_ne_true, List.flatMap_cons, hp,
        List.cons_append]

theorem filter_dropWhile (ps : List Piece) :
    (ps.dropWhile Piece.isBlank).filter Piece.isTag = ps.filter Piece.isTag := by
  induction ps with
  | nil => rfl
  | cons p ps ih =>
    rw [List.dropWhile_cons]
    split
    · next hblank =>
      have htag : p.isTag = false := by
        cases p <;> simp_all [Piece.isBlank, Piece.isTag]
      rw [ih, List.filter_cons_of_neg (by simp [htag])]
    · rfl

/-! ## Text -/

/-- The text is character data that may also stand in the value of an attribute. -/
def IsText (s : String) : Prop :=
  ∃ ds : List Datum, (∀ d ∈ ds, d.Proper ∧ d ≠ .char '"') ∧ s.toList = ds.flatMap Datum.chars

/-- A character that means nothing in HTML. -/
def isPlain (c : Char) : Bool :=
  c != '<' && c != '>' && c != '&' && c != '"'

namespace IsText

theorem append {a b : String} (ha : IsText a) (hb : IsText b) : IsText (a ++ b) := by
  obtain ⟨ds, hds, ha⟩ := ha
  obtain ⟨es, hes, hb⟩ := hb
  refine ⟨ds ++ es, List.forall_mem_append.mpr ⟨hds, hes⟩, ?_⟩
  rw [String.toList_append, ha, hb, List.flatMap_append]

theorem of_plain {s : String} (h : s.toList.all isPlain = true) : IsText s := by
  refine ⟨s.toList.map .char, fun d hd => ?_, ?_⟩
  · obtain ⟨c, hc, rfl⟩ := List.mem_map.mp hd
    have hplain := List.all_eq_true.mp h c hc
    simp only [isPlain, Bool.and_eq_true, bne_iff_ne, ne_eq] at hplain
    obtain ⟨⟨⟨hlt, hgt⟩, hamp⟩, hquote⟩ := hplain
    exact ⟨⟨hlt, hgt, hamp⟩, fun h => hquote (by cases h; rfl)⟩
  · rw [List.flatMap_map]
    exact (List.flatMap_singleton' _).symm

theorem empty : IsText "" :=
  of_plain rfl

theorem ite {p : Prop} [Decidable p] {a b : String} (ha : IsText a) (hb : IsText b) :
    IsText (if p then a else b) := by
  split
  · exact ha
  · exact hb

/-- A reference is text. -/
theorem of_reference {s : String} {name : List Char} (hs : s.toList = '&' :: name ++ [';'])
    (hname : isReferenceName name = true) : IsText s := by
  refine ⟨[.reference name], ?_, ?_⟩
  · simp [Datum.Proper, hname]
  · simpa [Datum.chars] using hs

/-- **Whatever is escaped is text.** -/
theorem escapeHtml (s : String) : IsText (Text.escapeHtml s) := by
  have hchar : ∀ c : Char, ∃ d : Datum, (d.Proper ∧ d ≠ .char '"') ∧ reference c = d.chars := by
    intro c
    unfold reference
    split
    · exact ⟨.reference ['a', 'm', 'p'], by simp [Datum.Proper]; decide, rfl⟩
    · exact ⟨.reference ['l', 't'], by simp [Datum.Proper]; decide, rfl⟩
    · exact ⟨.reference ['g', 't'], by simp [Datum.Proper]; decide, rfl⟩
    · exact ⟨.reference ['q', 'u', 'o', 't'], by simp [Datum.Proper]; decide, rfl⟩
    · exact ⟨.reference ['#', 'x', '2', '7'], by simp [Datum.Proper]; decide, rfl⟩
    · next h1 h2 h3 h4 _ => exact ⟨.char c, ⟨⟨h2, h3, h1⟩, fun h => h4 (by cases h; rfl)⟩, rfl⟩
  choose datum hproper hdatum using hchar
  refine ⟨s.toList.map datum, fun d hd => ?_, ?_⟩
  · obtain ⟨c, -, rfl⟩ := List.mem_map.mp hd
    exact hproper c
  · rw [toList_escapeHtml, List.flatMap_map]
    exact List.flatMap_congr fun c _ => hdatum c

theorem join {l : List String} (h : ∀ s ∈ l, IsText s) : IsText (String.join l) := by
  induction l with
  | nil => exact empty
  | cons s l ih =>
    obtain ⟨hs, hl⟩ := List.forall_mem_cons.mp h
    rw [String.join_cons]
    exact hs.append (ih hl)

theorem intercalate {separator : String} (hseparator : IsText separator) {l : List String}
    (h : ∀ s ∈ l, IsText s) : IsText (separator.intercalate l) := by
  induction l with
  | nil => exact empty
  | cons s l ih =>
    obtain ⟨hs, hl⟩ := List.forall_mem_cons.mp h
    by_cases hnil : l = []
    · subst hnil
      exact hs
    · rw [String.intercalate_cons_of_ne_nil hnil]
      exact (hs.append hseparator).append (ih hl)

/-- Numbers are written in digits and a sign. -/
theorem toString_int (n : Int) : IsText (toString n) := by
  refine of_plain (List.all_eq_true.mpr fun c hc => ?_)
  rcases isDigit_or_eq_of_mem_toString n c hc with hdigit | rfl
  · simp only [isPlain, Bool.and_eq_true, bne_iff_ne, ne_eq]
    refine ⟨⟨⟨?_, ?_⟩, ?_⟩, ?_⟩ <;> rintro rfl <;> cases hdigit
  · rfl

theorem toString_nat (n : Nat) : IsText (toString n) :=
  toString_int n

end IsText

/-! ## Attributes -/

/-- The text is made of attributes. -/
def IsAttributes (s : String) : Prop :=
  ∃ as : List Attribute, (∀ a ∈ as, a.Proper) ∧ s.toList = as.flatMap Attribute.chars

namespace IsAttributes

theorem empty : IsAttributes "" :=
  ⟨[], by simp, rfl⟩

theorem append {a b : String} (ha : IsAttributes a) (hb : IsAttributes b) :
    IsAttributes (a ++ b) := by
  obtain ⟨as, has, ha⟩ := ha
  obtain ⟨bs, hbs, hb⟩ := hb
  refine ⟨as ++ bs, List.forall_mem_append.mpr ⟨has, hbs⟩, ?_⟩
  rw [String.toList_append, ha, hb, List.flatMap_append]

theorem ite {p : Prop} [Decidable p] {a b : String} (ha : IsAttributes a) (hb : IsAttributes b) :
    IsAttributes (if p then a else b) := by
  split
  · exact ha
  · exact hb

/-- One attribute, whose value is what follows the quote in `opening` and then some text. -/
theorem of_text (opening name first : String) {value : String}
    (ho : opening = " " ++ name ++ "=\"" ++ first) (hname : isName name.toList = true)
    (hfirst : IsText first) (hvalue : IsText value) :
    IsAttributes (opening ++ value ++ "\"") := by
  obtain ⟨ds, hds, hvalue⟩ := hfirst.append hvalue
  refine ⟨[⟨name.toList, ds⟩], ?_, ?_⟩
  · simpa using ⟨hname, hds⟩
  · rw [String.toList_append] at hvalue
    simp [Attribute.chars, ho, ← hvalue]

end IsAttributes

/-! ## Markup -/

/-- The text is made of pieces that close what they open and nothing else. -/
def IsMarkup (s : String) : Prop :=
  ∃ ps : List Piece, (∀ p ∈ ps, p.Proper) ∧ Neutral ps ∧ s.toList = ps.flatMap Piece.chars

theorem IsText.isMarkup {s : String} (h : IsText s) : IsMarkup s := by
  obtain ⟨ds, hds, hs⟩ := h
  refine ⟨ds.map .data, fun p hp => ?_, fun opened rest => ?_, ?_⟩
  · obtain ⟨d, hd, rfl⟩ := List.mem_map.mp hp
    exact (hds d hd).1
  · rw [← closes_filter, List.filter_append]
    rw [show (ds.map Piece.data).filter Piece.isTag = [] by simp [Piece.isTag], List.nil_append,
      closes_filter]
  · rw [hs, List.flatMap_map]
    rfl

namespace IsMarkup

theorem empty : IsMarkup "" :=
  IsText.empty.isMarkup

theorem append {a b : String} (ha : IsMarkup a) (hb : IsMarkup b) : IsMarkup (a ++ b) := by
  obtain ⟨ps, hps, hneutral, ha⟩ := ha
  obtain ⟨qs, hqs, hneutral', hb⟩ := hb
  refine ⟨ps ++ qs, List.forall_mem_append.mpr ⟨hps, hqs⟩, hneutral.append hneutral', ?_⟩
  rw [String.toList_append, ha, hb, List.flatMap_append]

/-- An element around some markup is markup. -/
theorem element (opening tag closing : String) {attributes inside : String}
    (ho : opening = "<" ++ tag) (hc : closing = "</" ++ tag ++ ">")
    (htag : isName tag.toList = true) (hvoid : isVoid tag.toList = false)
    (ha : IsAttributes attributes) (hi : IsMarkup inside) :
    IsMarkup (opening ++ attributes ++ ">" ++ inside ++ closing) := by
  obtain ⟨as, has, ha⟩ := ha
  obtain ⟨ps, hps, hneutral, hi⟩ := hi
  refine ⟨.opening tag.toList as :: ps ++ [.closing tag.toList], ?_, hneutral.element hvoid as, ?_⟩
  · refine List.forall_mem_append.mpr ⟨List.forall_mem_cons.mpr ⟨⟨htag, has⟩, hps⟩, ?_⟩
    exact List.forall_mem_singleton.mpr htag
  · simp [Piece.chars, ho, hc, ha, hi]

/-- The tag of a void element is markup. -/
theorem void (opening tag : String) {attributes : String} (ho : opening = "<" ++ tag)
    (htag : isName tag.toList = true) (hvoid : isVoid tag.toList = true)
    (ha : IsAttributes attributes) : IsMarkup (opening ++ attributes ++ ">") := by
  obtain ⟨as, has, ha⟩ := ha
  refine ⟨[.opening tag.toList as], by simpa using ⟨htag, has⟩, fun opened rest => ?_, ?_⟩
  · rw [List.singleton_append, closes, hvoid, if_pos rfl]
  · simp [Piece.chars, ho, ha]

/-- **White space may be taken away at both ends.** -/
theorem trim {s : String} (h : IsMarkup s) : IsMarkup (Text.trim s) := by
  obtain ⟨ps, hps, hneutral, hs⟩ := h
  -- What is taken away are whole pieces, and no tags are among them.
  have hleading : dropLeadingBlanks s.toList =
      (ps.dropWhile Piece.isBlank).flatMap Piece.chars := by
    rw [hs, dropLeadingBlanks]
    exact dropWhile_flatMap Piece.chars_begin ps
  refine ⟨((ps.dropWhile Piece.isBlank).reverse.dropWhile Piece.isBlank).reverse, fun p hp => ?_,
    hneutral.of_filter ?_, ?_⟩
  · have hp := (List.dropWhile_sublist _).subset (List.mem_reverse.mp hp)
    exact hps p ((List.dropWhile_sublist _).subset (List.mem_reverse.mp hp))
  · rw [List.filter_reverse, filter_dropWhile, List.filter_reverse, List.reverse_reverse,
      filter_dropWhile]
  · rw [toList_trim, trimBlanks, hleading, dropTrailingBlanks, List.reverse_flatMap]
    rw [show List.reverse ∘ Piece.chars = fun p => p.chars.reverse from rfl,
      dropWhile_flatMap Piece.chars_end, List.reverse_flatMap]
    simp only [Function.comp_def, List.reverse_reverse]

theorem wellNested {s : String} (h : IsMarkup s) : WellNested s := by
  obtain ⟨ps, hps, hneutral, hs⟩ := h
  refine ⟨ps, hps, ?_, hs⟩
  have hclosed := hneutral [] []
  rw [List.append_nil] at hclosed
  rw [hclosed]
  rfl

end IsMarkup

end Html

end Bracemark
