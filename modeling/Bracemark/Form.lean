/-
The forms of element.

A form is the way one kind of element is written: the names it goes by and
whether it has content. A catalogue lists the forms that are recognised, in the
order in which they are tried. The standard catalogue leaves out the three forms
that have a meaning only inside another element: items, cells and captions.
-/
import Bracemark.Text.Case

set_option autoImplicit false

namespace Bracemark

open Text

/-! ## Character entities -/

/-- A named character. -/
structure Entity where
  name : String
  plain : String
  html : String
deriving DecidableEq, Repr, Inhabited

/-- The named characters. -/
def entities : List Entity :=
  [⟨"nbsp", "\u00a0", "&nbsp;"⟩,
   ⟨"shy", "\u00ad", "&shy;"⟩,
   ⟨"ndash", "\u2013", "&ndash;"⟩,
   ⟨"mdash", "\u2014", "&mdash;"⟩,
   ⟨"hellip", "\u2026", "&hellip;"⟩,
   ⟨"lsquo", "\u2018", "&lsquo;"⟩,
   ⟨"rsquo", "\u2019", "&rsquo;"⟩,
   ⟨"ldquo", "\u201c", "&ldquo;"⟩,
   ⟨"rdquo", "\u201d", "&rdquo;"⟩,
   ⟨"laquo", "\u00ab", "&laquo;"⟩,
   ⟨"raquo", "\u00bb", "&raquo;"⟩,
   ⟨"copy", "\u00a9", "&copy;"⟩,
   ⟨"reg", "\u00ae", "&reg;"⟩,
   ⟨"trade", "\u2122", "&trade;"⟩,
   ⟨"deg", "\u00b0", "&deg;"⟩,
   ⟨"plusmn", "\u00b1", "&plusmn;"⟩,
   ⟨"times", "\u00d7", "&times;"⟩,
   ⟨"divide", "\u00f7", "&divide;"⟩,
   ⟨"larr", "\u2190", "&larr;"⟩,
   ⟨"rarr", "\u2192", "&rarr;"⟩,
   ⟨"euro", "\u20ac", "&euro;"⟩,
   ⟨"sect", "\u00a7", "&sect;"⟩,
   ⟨"para", "\u00b6", "&para;"⟩,
   ⟨"alpha", "\u03b1", "&alpha;"⟩,
   ⟨"Alpha", "\u0391", "&Alpha;"⟩,
   ⟨"beta", "\u03b2", "&beta;"⟩,
   ⟨"pi", "\u03c0", "&pi;"⟩,
   ⟨"amp", "&", "&amp;"⟩,
   ⟨"lt", "<", "&lt;"⟩,
   ⟨"gt", ">", "&gt;"⟩]

/-- The entity that an element name stands for: an underscore and the name of the
entity, in which case counts. -/
def Entity.ofElementName? (name : String) : Option Entity :=
  match name.toList with
  | '_' :: rest => entities.find? fun e => e.name.toList == rest
  | _ => none

/-! ## Name sets -/

/-- A set of names that are compared with or without regard to case. -/
structure NameSet where
  names : List String
  caseSensitive : Bool
deriving DecidableEq, Repr

/-- Whether a name is in the set. -/
def NameSet.contains (s : NameSet) (name : String) : Bool :=
  if s.caseSensitive then s.names.contains name
  else s.names.any fun known => sameLetters known name

/-! ## Forms -/

/-- The forms of element. -/
inductive Form where
  /-- Italic, bold and underlined text. -/
  | emphasis
  /-- A line break. -/
  | line
  /-- A paragraph that says so. -/
  | paragraph
  | heading
  /-- A numbered section. -/
  | division
  | list
  | item
  | link
  /-- The value of a variable. -/
  | get
  /-- A new value for a variable. -/
  | assign
  /-- A step of a variable that counts. -/
  | increment
  | entity
  /-- Preformatted text. -/
  | code
  /-- A block beside the text. -/
  | float
  /-- An aligned block. -/
  | align
  | image
  | table
  /-- A table cell with settings. -/
  | cell
  /-- The caption of a table. -/
  | caption
deriving DecidableEq, Repr, Inhabited

/-- The forms that are recognised, in the order in which they are tried. -/
abbrev Catalog := List Form

namespace Form

/-- Whether a name consists of one to three different letters among i, b and u. -/
def isEmphasisName (name : String) : Bool :=
  let letters := (lowered name).toList
  !letters.isEmpty && letters.length ≤ 3 &&
    letters.all (fun c => c == 'i' || c == 'b' || c == 'u') && decide letters.Nodup

/-- The names of a form that has a fixed set of them. -/
def names : Form → List String
  | .line => ["l"]
  | .paragraph => ["p"]
  | .heading => ["h"]
  | .division => ["s", "section"]
  | .list => ["list"]
  | .item => ["item"]
  | .link => ["link"]
  | .get => ["get"]
  | .assign => ["set"]
  | .increment => ["inc"]
  | .code => ["code"]
  | .float => ["float"]
  | .align => ["align"]
  | .image => ["image"]
  | .table => ["table"]
  | .cell => ["cell"]
  | .caption => ["caption"]
  | .emphasis | .entity => []

/-- Whether an element with this name may have this form. -/
def accepts (form : Form) (name : String) : Bool :=
  match form with
  | .emphasis => isEmphasisName name
  | .entity => (Entity.ofElementName? name).isSome
  | form => (NameSet.mk form.names false).contains name

/-- Whether elements of this form may have content. -/
def allowsContent : Form → Bool
  | .get | .increment | .entity => false
  | _ => true

end Form

/-! ## The standard catalogue -/

/-- All forms that are recognised wherever an element may stand. -/
def Catalog.standard : Catalog :=
  [.emphasis, .line, .paragraph, .heading, .division, .list, .link, .get, .assign, .increment,
    .entity, .code, .float, .align, .image, .table]

/-! ## Names belong to one form -/

namespace Form

/-- The only form that a name in small letters may stand for. -/
def ofSmallName? (small : String) : Option Form :=
  if small.toList.head? = some '_' then some .entity
  else if small.toList.all (fun c => c == 'i' || c == 'b' || c == 'u') then some .emphasis
  else (Catalog.standard ++ [Form.item, Form.cell, Form.caption]).find? fun form =>
    form.names.contains small

theorem all_of_isEmphasisName {name : String} (h : isEmphasisName name = true) :
    (lowered name).toList.all (fun c => c == 'i' || c == 'b' || c == 'u') = true := by
  unfold isEmphasisName at h
  simp only [Bool.and_eq_true] at h
  exact h.1.2

/-- Emphasis has a name of letters that are tags. -/
theorem letter_of_isEmphasisName {name : String} (h : isEmphasisName name = true) :
    ∀ c ∈ (lowered name).toList, c = 'i' ∨ c = 'b' ∨ c = 'u' := by
  intro c hc
  have hletter := List.all_eq_true.mp (all_of_isEmphasisName h) c hc
  simp only [Bool.or_eq_true, beq_iff_eq] at hletter
  exact or_assoc.mp hletter

/-- The name of an entity begins with an underscore, which has no other case. -/
theorem head?_lowered_of_ofElementName? {name : String}
    (h : (Entity.ofElementName? name).isSome = true) : (lowered name).toList.head? = some '_' := by
  unfold Entity.ofElementName? at h
  split at h
  · next rest hname =>
    rw [toList_lowered, hname]
    rfl
  · cases h

/-- A form with fixed names accepts these in any case, and no others. -/
theorem lowered_mem_names {form : Form} {name : String}
    (h : (NameSet.mk form.names false).contains name = true) : lowered name ∈ form.names := by
  simp only [NameSet.contains, Bool.false_eq_true, if_false, List.any_eq_true, sameLetters,
    beq_iff_eq] at h
  obtain ⟨known, hknown, hsame⟩ := h
  have hsmall : ∀ known ∈ form.names, lowered known = known := by
    cases form <;> decide
  rwa [← hsame, hsmall known hknown]

theorem ofSmallName?_of_mem_names (form : Form) :
    ∀ small ∈ form.names, ofSmallName? small = some form := by
  cases form <;> decide

/-- A name that a form accepts may stand for no other form. -/
theorem ofSmallName?_of_accepts {form : Form} {name : String} (h : form.accepts name = true) :
    ofSmallName? (lowered name) = some form := by
  cases form with
  | emphasis =>
    have hhead : (lowered name).toList.head? ≠ some '_' := by
      intro hhead
      exact absurd (letter_of_isEmphasisName h '_' (List.mem_of_head? hhead)) (by decide)
    rw [ofSmallName?, if_neg hhead, if_pos (all_of_isEmphasisName h)]
  | entity => rw [ofSmallName?, if_pos (head?_lowered_of_ofElementName? h)]
  | _ => exact ofSmallName?_of_mem_names _ _ (lowered_mem_names h)

/-- **A name is accepted by one form at most.** -/
theorem eq_of_accepts {form other : Form} {name : String} (h : form.accepts name = true)
    (h' : other.accepts name = true) : form = other :=
  Option.some.inj ((ofSmallName?_of_accepts h).symm.trans (ofSmallName?_of_accepts h'))

end Form

end Bracemark
