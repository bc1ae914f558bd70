/-
The tags of a text in HTML.

A reader of HTML takes it character by character. A less-than sign in the text begins a tag, and
the first greater-than sign after it that is not inside the value of an attribute ends the tag.
`Html.tags` is this reader, with values in double quotes only, as they are written here. It asks
nothing of the text, so it also says what becomes of one that is not as it should be.

Two texts have the same tags if the reader finds the same tags in both and stands in the text
afterwards, so that nothing of one text can be taken for a part of what follows
(`Html.SameTags`). Some elements are written only where there is anything but white space to put
into them, so texts that take the place of each other must agree in that, too (`Html.Alike`).
-/
import Bracemark.Proofs.Markup
import Bracemark.Proofs.WrittenContent

set_option autoImplicit false

namespace Bracemark

open Text

namespace Html

/-! ## Reading tags -/

/-- A tag: whether it closes an element, its name, and the names of its attributes. -/
structure Tag where
  closing : Bool
  name : List Char
  attributes : List (List Char)
deriving DecidableEq, Repr

/-- A tag with one more attribute. -/
def Tag.withAttribute (t : Tag) (name : List Char) : Tag :=
  { t with attributes := t.attributes ++ [name] }

/-- Where the reader is: in the text or in some part of a tag, with what it has read of that. -/
inductive Mode where
  | text
  /-- In the name of a tag. -/
  | tag (t : Tag)
  /-- In a tag, past its name or past one of its attributes. -/
  | inside (t : Tag)
  /-- In the name of an attribute. -/
  | key (t : Tag) (name : List Char)
  /-- In the value of an attribute. -/
  | value (t : Tag)
deriving DecidableEq, Repr

/-- The reader, with the tags that it has found. -/
structure Reader where
  mode : Mode
  found : List Tag
deriving DecidableEq, Repr

namespace Reader

/-- A tag has come to its end. -/
def finish (r : Reader) (t : Tag) : Reader :=
  ⟨.text, r.found ++ [t]⟩

/-- What the reader makes of a character. -/
def step (r : Reader) (c : Char) : Reader :=
  match r.mode with
  | .text => if c = '<' then { r with mode := .tag ⟨false, [], []⟩ } else r
  | .tag t =>
    if c = '>' then r.finish t
    else if c = '/' ∧ t.name = [] then { r with mode := .tag { t with closing := true } }
    else if c.isWhitespace then { r with mode := .inside t }
    else { r with mode := .tag { t with name := t.name ++ [c] } }
  | .inside t =>
    if c = '>' then r.finish t
    else if c = '"' then { r with mode := .value t }
    else if c.isWhitespace then r
    else { r with mode := .key t [c] }
  | .key t name =>
    if c = '>' then r.finish (t.withAttribute name)
    else if c = '=' ∨ c.isWhitespace then { r with mode := .inside (t.withAttribute name) }
    else { r with mode := .key t (name ++ [c]) }
  | .value t => if c = '"' then { r with mode := .inside t } else r

/-- What the reader makes of some characters. -/
def run (r : Reader) (cs : List Char) : Reader :=
  cs.foldl step r

@[simp] theorem run_nil (r : Reader) : r.run [] = r := rfl

@[simp] theorem run_cons (r : Reader) (c : Char) (cs : List Char) :
    r.run (c :: cs) = (r.step c).run cs := rfl

theorem run_append (r : Reader) (cs ds : List Char) : r.run (cs ++ ds) = (r.run cs).run ds :=
  List.foldl_append

end Reader

/-- The tags of a text. -/
def tags (s : String) : List Tag :=
  (Reader.run ⟨.text, []⟩ s.toList).found

/-- The reader finds some tags in a text that begins where no tag is open, and none is open
after it. -/
def Scans (s : String) (ts : List Tag) : Prop :=
  ∀ found, Reader.run ⟨.text, found⟩ s.toList = ⟨.text, found ++ ts⟩

theorem Scans.tags {s : String} {ts : List Tag} (h : Scans s ts) : tags s = ts := by
  rw [Html.tags, h]
  exact List.nil_append ts

example : tags "<p class=\"a>b\">x &lt; y</p><br>" =
    [⟨false, ['p'], [['c', 'l', 'a', 's', 's']]⟩, ⟨true, ['p'], []⟩, ⟨false, ['b', 'r'], []⟩] := by
  decide

/-! ## Text -/

namespace Scans

variable {s t : String} {ts us : List Tag}

theorem append (hs : Scans s ts) (ht : Scans t us) : Scans (s ++ t) (ts ++ us) := by
  intro found
  rw [String.toList_append, Reader.run_append, hs, ht, List.append_assoc]

/-- Without a less-than sign there are no tags. -/
theorem of_text (hs : '<' ∉ s.toList) : Scans s [] := by
  intro found
  rw [List.append_nil]
  generalize s.toList = cs at hs
  induction cs with
  | nil => rfl
  | cons c cs ih =>
    rw [List.mem_cons, not_or] at hs
    rw [Reader.run_cons, Reader.step, if_neg (Ne.symm hs.1)]
    exact ih hs.2

end Scans

/-! ## White space at the ends -/

namespace Reader

variable {r : Reader} {c : Char} {cs : List Char} {found : List Tag}

theorem step_blank (hc : isBlank c = true) : step ⟨.text, found⟩ c = ⟨.text, found⟩ := by
  have hne : c ≠ '<' := by
    rintro rfl
    cases hc
  exact if_neg hne

/-- No tag ends with white space. -/
theorem eq_of_step_blank (hc : isBlank c = true) (h : r.step c = ⟨.text, found⟩) :
    r = ⟨.text, found⟩ := by
  have hne : c ≠ '>' := by
    rintro rfl
    cases hc
  obtain ⟨mode, before⟩ := r
  cases mode with
  | text => rwa [step_blank hc] at h
  | tag t | inside t | key t name | value t =>
    -- Only a greater-than sign leads from here into the text.
    simp only [step, if_neg hne] at h
    split_ifs at h <;> cases h

theorem run_dropLeadingBlanks :
    run ⟨.text, found⟩ (dropLeadingBlanks cs) = run ⟨.text, found⟩ cs := by
  induction cs with
  | nil => rfl
  | cons c cs ih =>
    rw [dropLeadingBlanks, List.dropWhile_cons]
    split
    · next hc =>
      rw [run_cons, step_blank hc]
      exact ih
    · rfl

theorem run_dropTrailingBlanks (h : r.run cs = ⟨.text, found⟩) :
    r.run (dropTrailingBlanks cs) = ⟨.text, found⟩ := by
  induction cs using List.reverseRecOn with
  | nil => exact h
  | append_singleton cs c ih =>
    rw [dropTrailingBlanks, List.reverse_append, List.reverse_singleton, List.singleton_append,
      List.dropWhile_cons]
    split
    · next hc =>
      rw [run_append] at h
      exact ih (eq_of_step_blank hc h)
    · rwa [List.reverse_cons, List.reverse_reverse]

end Reader

theorem Scans.trim {s : String} {ts : List Tag} (h : Scans s ts) : Scans (trim s) ts := by
  intro found
  rw [toList_trim, trimBlanks]
  apply Reader.run_dropTrailingBlanks
  rw [Reader.run_dropLeadingBlanks]
  exact h found

/-! ## Character data -/

/-- No reference has a character in its name that would begin a tag or end a value. -/
theorem not_mem_of_isReferenceName {name : List Char} (h : isReferenceName name = true) :
    '<' ∉ name ∧ '"' ∉ name := by
  unfold isReferenceName at h
  split at h
  · next digits =>
    rw [Bool.and_eq_true, List.all_eq_true] at h
    have hdigits : '<' ∉ digits ∧ '"' ∉ digits := by
      constructor <;> intro hc <;> cases h.2 _ hc
    simpa using hdigits
  · have hall : ∀ known ∈ referenceNames, '<' ∉ known.toList ∧ '"' ∉ known.toList := by decide
    obtain ⟨known, hknown, hname⟩ := List.any_eq_true.mp h
    rw [← beq_iff_eq.mp hname]
    exact hall known hknown

theorem Datum.quote_not_mem {d : Datum} (hd : d.Proper) (hne : d ≠ .char '"') :
    '"' ∉ d.chars := by
  cases d with
  | char c => simpa [Datum.chars, eq_comm] using hne
  | reference name =>
    have hname := (not_mem_of_isReferenceName hd).2
    simpa [Datum.chars] using hname

theorem Datum.less_not_mem {d : Datum} (hd : d.Proper) : '<' ∉ d.chars := by
  cases d with
  | char c => simpa [Datum.chars, eq_comm] using hd.1
  | reference name =>
    have hname := (not_mem_of_isReferenceName hd).1
    simpa [Datum.chars] using hname

/-- Character data begins no tag. -/
theorem IsText.less_not_mem {s : String} (h : IsText s) : '<' ∉ s.toList := by
  obtain ⟨ds, hds, hs⟩ := h
  rw [hs]
  intro hmem
  obtain ⟨d, hd, hmem⟩ := List.mem_flatMap.mp hmem
  exact Datum.less_not_mem (hds d hd).1 hmem

/-- Character data ends no value. -/
theorem IsText.quote_not_mem {s : String} (h : IsText s) : '"' ∉ s.toList := by
  obtain ⟨ds, hds, hs⟩ := h
  rw [hs]
  intro hmem
  obtain ⟨d, hd, hmem⟩ := List.mem_flatMap.mp hmem
  exact Datum.quote_not_mem (hds d hd).1 (hds d hd).2 hmem

/-! ## Tags -/

/-- A character that ends no name. -/
def isNamed (c : Char) : Bool :=
  c != '>' && c != '/' && c != '=' && c != '"' && !c.isWhitespace

theorem isNamed_of_isName {name : List Char} (h : isName name = true) :
    ∀ c ∈ name, isNamed c = true := by
  intro c hc
  rw [isName, Bool.and_eq_true, List.all_eq_true] at h
  have hletter := h.2 c hc
  have hspace : c.isWhitespace = false := by
    rw [Bool.eq_false_iff]
    intro hspace
    simp only [Char.isWhitespace, Bool.or_eq_true, decide_eq_true_eq] at hspace
    rcases hspace with ((rfl | rfl) | rfl) | rfl <;> cases hletter
  simp only [isNamed, hspace, Bool.not_false, Bool.and_true, Bool.and_eq_true, bne_iff_ne, ne_eq]
  refine ⟨⟨⟨?_, ?_⟩, ?_⟩, ?_⟩ <;> rintro rfl <;> cases hletter

namespace Reader

variable {found : List Tag} {t : Tag}

theorem run_tag {name : List Char} (hname : ∀ c ∈ name, isNamed c = true) :
    run ⟨.tag t, found⟩ name = ⟨.tag { t with name := t.name ++ name }, found⟩ := by
  induction name generalizing t with
  | nil => simp
  | cons c name ih =>
    obtain ⟨hc, hname⟩ := List.forall_mem_cons.mp hname
    have hstep : step ⟨.tag t, found⟩ c = ⟨.tag { t with name := t.name ++ [c] }, found⟩ := by
      simp only [isNamed, Bool.and_eq_true, bne_iff_ne, ne_eq, Bool.not_eq_true'] at hc
      simp [step, hc]
    rw [run_cons, hstep, ih hname]
    simp

theorem run_key {name more : List Char} (hmore : ∀ c ∈ more, isNamed c = true) :
    run ⟨.key t name, found⟩ more = ⟨.key t (name ++ more), found⟩ := by
  induction more generalizing name with
  | nil => simp
  | cons c more ih =>
    obtain ⟨hc, hmore⟩ := List.forall_mem_cons.mp hmore
    have hstep : step ⟨.key t name, found⟩ c = ⟨.key t (name ++ [c]), found⟩ := by
      simp only [isNamed, Bool.and_eq_true, bne_iff_ne, ne_eq, Bool.not_eq_true'] at hc
      simp [step, hc]
    rw [run_cons, hstep, ih hmore]
    simp

theorem run_value {value : List Char} (hvalue : '"' ∉ value) :
    run ⟨.value t, found⟩ value = ⟨.value t, found⟩ := by
  induction value with
  | nil => rfl
  | cons c value ih =>
    rw [List.mem_cons, not_or] at hvalue
    have hstep : step ⟨.value t, found⟩ c = ⟨.value t, found⟩ := if_neg (Ne.symm hvalue.1)
    rw [run_cons, hstep]
    exact ih hvalue.2

end Reader

/-! ## Attributes -/

/-- The reader is in a tag where another attribute may begin. -/
def Mode.IsIn (m : Mode) (t : Tag) : Prop :=
  m = .tag t ∨ m = .inside t

/-- In a tag the reader finds attributes with these names in the text, and another one may begin
after them. -/
def HasAttributes (cs : List Char) (names : List (List Char)) : Prop :=
  ∀ (m : Mode) (t : Tag) (found : List Tag), m.IsIn t →
    ∃ m' : Mode, m'.IsIn { t with attributes := t.attributes ++ names } ∧
      Reader.run ⟨m, found⟩ cs = ⟨m', found⟩

namespace HasAttributes

variable {cs ds : List Char} {names more : List (List Char)}

theorem nil : HasAttributes [] [] := by
  intro m t found hm
  refine ⟨m, ?_, rfl⟩
  rwa [List.append_nil]

theorem append (hcs : HasAttributes cs names) (hds : HasAttributes ds more) :
    HasAttributes (cs ++ ds) (names ++ more) := by
  intro m t found hm
  obtain ⟨m', hm', hrun⟩ := hcs m t found hm
  obtain ⟨m'', hm'', hrun'⟩ := hds m' _ found hm'
  refine ⟨m'', ?_, ?_⟩
  · rwa [List.append_assoc] at hm''
  · rw [Reader.run_append, hrun, hrun']

/-- An attribute is read whole if its value has no quotes in it. -/
theorem single {name value : List Char} (hname : isName name = true) (hvalue : '"' ∉ value) :
    HasAttributes (' ' :: name ++ '=' :: '"' :: value ++ ['"']) [name] := by
  intro m t found hm
  refine ⟨.inside (t.withAttribute name), .inr rfl, ?_⟩
  have hspace : Reader.step ⟨m, found⟩ ' ' = ⟨.inside t, found⟩ := by
    rcases hm with rfl | rfl <;> simp [Reader.step, Char.isWhitespace]
  obtain ⟨first, more, rfl⟩ : ∃ first more, name = first :: more := by
    refine List.exists_cons_of_ne_nil ?_
    rintro rfl
    cases hname
  obtain ⟨hfirst, hmore⟩ := List.forall_mem_cons.mp (isNamed_of_isName hname)
  have hkey : Reader.step ⟨.inside t, found⟩ first = ⟨.key t [first], found⟩ := by
    simp only [isNamed, Bool.and_eq_true, bne_iff_ne, ne_eq, Bool.not_eq_true'] at hfirst
    simp [Reader.step, hfirst]
  have hequals : ∀ key, Reader.step ⟨.key t key, found⟩ '=' =
      ⟨.inside (t.withAttribute key), found⟩ := fun _ => rfl
  -- The first quote begins the value, and the next one ends it, as there are none inside.
  have hopen : ∀ t, Reader.step ⟨.inside t, found⟩ '"' = ⟨.value t, found⟩ := fun _ => rfl
  have hclose : ∀ t, Reader.step ⟨.value t, found⟩ '"' = ⟨.inside t, found⟩ := fun _ => rfl
  simp only [Reader.run_append, Reader.run_cons, Reader.run_nil, hspace, hkey,
    Reader.run_key hmore, hequals, hopen, Reader.run_value hvalue, hclose, List.cons_append,
    List.nil_append]

/-- What is made of attributes is read as such. -/
theorem of_isAttributes {s : String} (h : IsAttributes s) :
    ∃ names, HasAttributes s.toList names := by
  obtain ⟨as, has, hs⟩ := h
  refine ⟨as.map Attribute.name, ?_⟩
  rw [hs]
  -- The induction is on the attributes, and the text that they make is forgotten.
  clear hs
  induction as with
  | nil => exact nil
  | cons a as ih =>
    obtain ⟨⟨hname, hvalue⟩, has⟩ := List.forall_mem_cons.mp has
    have hquotes : '"' ∉ a.value.flatMap Datum.chars := by
      intro hmem
      obtain ⟨d, hd, hmem⟩ := List.mem_flatMap.mp hmem
      exact Datum.quote_not_mem (hvalue d hd).1 (hvalue d hd).2 hmem
    exact (single hname hquotes).append (ih has)

end HasAttributes

/-! ## Tags as a whole -/

/-- An opening tag is read as one tag. -/
theorem Scans.opening {tag attributes : String} {names : List (List Char)}
    (htag : isName tag.toList = true) (h : HasAttributes attributes.toList names) :
    Scans ("<" ++ tag ++ attributes ++ ">") [⟨false, tag.toList, names⟩] := by
  intro found
  have hopen : Reader.step ⟨.text, found⟩ '<' = ⟨.tag ⟨false, [], []⟩, found⟩ := rfl
  have hname : Reader.run ⟨.tag ⟨false, [], []⟩, found⟩ tag.toList =
      ⟨.tag ⟨false, tag.toList, []⟩, found⟩ := Reader.run_tag (isNamed_of_isName htag)
  obtain ⟨m, hm, hrun⟩ := h (.tag ⟨false, tag.toList, []⟩) _ found (.inl rfl)
  simp only [String.toList_append, List.append_assoc]
  show Reader.run _ ('<' :: (tag.toList ++ (attributes.toList ++ ['>']))) = _
  rw [Reader.run_cons, hopen, Reader.run_append, hname, Reader.run_append]
  show Reader.run (Reader.run ⟨.tag ⟨false, tag.toList, []⟩, found⟩ attributes.toList) ['>'] = _
  rw [hrun]
  rcases hm with rfl | rfl <;> rfl

/-- A closing tag is read as one tag. -/
theorem Scans.closing {tag : String} (htag : isName tag.toList = true) :
    Scans ("</" ++ tag ++ ">") [⟨true, tag.toList, []⟩] := by
  intro found
  have hopen : Reader.step ⟨.text, found⟩ '<' = ⟨.tag ⟨false, [], []⟩, found⟩ := rfl
  have hslash : Reader.step ⟨.tag ⟨false, [], []⟩, found⟩ '/' = ⟨.tag ⟨true, [], []⟩, found⟩ := rfl
  have hname : Reader.run ⟨.tag ⟨true, [], []⟩, found⟩ tag.toList =
      ⟨.tag ⟨true, tag.toList, []⟩, found⟩ := Reader.run_tag (isNamed_of_isName htag)
  simp only [String.toList_append, List.append_assoc]
  show Reader.run _ ('<' :: '/' :: (tag.toList ++ ['>'])) = _
  rw [Reader.run_cons, hopen, Reader.run_cons, hslash, Reader.run_append, hname]
  rfl

/-! ## Texts with the same attributes -/

/-- The reader finds attributes with the same names in both texts. -/
def SameAttributes (s t : String) : Prop :=
  ∃ names, HasAttributes s.toList names ∧ HasAttributes t.toList names

namespace SameAttributes

variable {s t u v : String}

theorem refl (h : IsAttributes s) : SameAttributes s s := by
  obtain ⟨names, hs⟩ := HasAttributes.of_isAttributes h
  exact ⟨names, hs, hs⟩

theorem empty : SameAttributes "" "" :=
  refl .empty

theorem append (h : SameAttributes s t) (h' : SameAttributes u v) :
    SameAttributes (s ++ u) (t ++ v) := by
  obtain ⟨names, hs, ht⟩ := h
  obtain ⟨more, hu, hv⟩ := h'
  refine ⟨names ++ more, ?_, ?_⟩
  · rw [String.toList_append]
    exact hs.append hu
  · rw [String.toList_append]
    exact ht.append hv

/-- Attributes of one name, whatever their values are. -/
theorem single (opening name : String) (ho : opening = " " ++ name ++ "=\"")
    (hname : isName name.toList = true) (hs : '"' ∉ s.toList) (ht : '"' ∉ t.toList) :
    SameAttributes (opening ++ s ++ "\"") (opening ++ t ++ "\"") := by
  have hvalue : ∀ value : String, '"' ∉ value.toList →
      HasAttributes (opening ++ value ++ "\"").toList [name.toList] := by
    intro value hquotes
    have h := HasAttributes.single hname hquotes
    simpa [ho] using h
  exact ⟨[name.toList], hvalue s hs, hvalue t ht⟩

end SameAttributes

/-! ## Texts with the same tags -/

/-- The reader finds the same tags in both texts. -/
def SameTags (s t : String) : Prop :=
  ∃ ts, Scans s ts ∧ Scans t ts

/-- The texts have the same tags, and both are white space or neither is. -/
structure Alike (s t : String) : Prop where
  tags : SameTags s t
  blank : isBlankText s = isBlankText t

variable {s t u v : String}

namespace SameTags

theorem eq (h : SameTags s t) : tags s = tags t := by
  obtain ⟨ts, hs, ht⟩ := h
  rw [hs.tags, ht.tags]

theorem of_text (hs : '<' ∉ s.toList) (ht : '<' ∉ t.toList) : SameTags s t :=
  ⟨[], .of_text hs, .of_text ht⟩

/-- What is escaped begins no tag, whatever it is. -/
theorem escaped (s t : String) : SameTags (escapeHtml s) (escapeHtml t) :=
  of_text (IsText.escapeHtml s).less_not_mem (IsText.escapeHtml t).less_not_mem

theorem append (h : SameTags s t) (h' : SameTags u v) : SameTags (s ++ u) (t ++ v) := by
  obtain ⟨ts, hs, ht⟩ := h
  obtain ⟨us, hu, hv⟩ := h'
  exact ⟨ts ++ us, hs.append hu, ht.append hv⟩

theorem trim (h : SameTags s t) : SameTags (trim s) (Text.trim t) := by
  obtain ⟨ts, hs, ht⟩ := h
  exact ⟨ts, hs.trim, ht.trim⟩

end SameTags

namespace Alike

theorem of_text (hs : '<' ∉ s.toList) (ht : '<' ∉ t.toList)
    (hblank : isBlankText s = isBlankText t) : Alike s t :=
  ⟨.of_text hs ht, hblank⟩

theorem text (h : IsText s) : Alike s s :=
  of_text h.less_not_mem h.less_not_mem rfl

theorem empty : Alike "" "" :=
  text .empty

theorem escaped (h : isBlankText s = isBlankText t) : Alike (escapeHtml s) (escapeHtml t) := by
  refine ⟨.escaped s t, ?_⟩
  rw [isBlankText_escapeHtml, isBlankText_escapeHtml, h]

theorem append (h : Alike s t) (h' : Alike u v) : Alike (s ++ u) (t ++ v) := by
  refine ⟨h.tags.append h'.tags, ?_⟩
  rw [isBlankText_append, isBlankText_append, h.blank, h'.blank]

theorem trim (h : Alike s t) : Alike (trim s) (Text.trim t) := by
  refine ⟨h.tags.trim, ?_⟩
  rw [isBlankText_trim, isBlankText_trim, h.blank]

/-- A tag that opens an element, or that of an element without content. -/
theorem opening (opening tag : String) (ho : opening = "<" ++ tag)
    (htag : isName tag.toList = true) (ha : SameAttributes u v) :
    Alike (opening ++ u ++ ">") (opening ++ v ++ ">") := by
  obtain ⟨names, hu, hv⟩ := ha
  have hless : isBlankText "<" = false := rfl
  subst ho
  refine ⟨⟨_, .opening htag hu, .opening htag hv⟩, ?_⟩
  simp only [isBlankText_append, hless, Bool.false_and]

/-- Elements around texts with the same tags have the same tags. An element is never white
space, so it does not matter whether there is anything inside it. -/
theorem element (opening tag closing : String) (ho : opening = "<" ++ tag)
    (hc : closing = "</" ++ tag ++ ">") (htag : isName tag.toList = true)
    (ha : SameAttributes u v) (hi : SameTags s t) :
    Alike (opening ++ u ++ ">" ++ s ++ closing) (opening ++ v ++ ">" ++ t ++ closing) := by
  have hopening := Alike.opening opening tag ho htag ha
  have hless : isBlankText opening = false := by
    rw [ho, isBlankText_append]
    rfl
  subst hc
  refine ⟨(hopening.tags.append hi).append ⟨_, .closing htag, .closing htag⟩, ?_⟩
  simp only [isBlankText_append, hless, Bool.false_and]

/-- Elements on lines of their own. -/
theorem line (opening tag closing : String) {before before' after after' : String}
    (ho : opening = "<" ++ tag) (hc : closing = "</" ++ tag ++ ">")
    (htag : isName tag.toList = true) (hb : Alike before before') (ha : SameAttributes u v)
    (hi : SameTags s t) (hafter : Alike after after') :
    Alike (before ++ opening ++ u ++ ">" ++ s ++ closing ++ after)
      (before' ++ opening ++ v ++ ">" ++ t ++ closing ++ after') := by
  have h := hb.append ((element opening tag closing ho hc htag ha hi).append hafter)
  simpa only [String.append_assoc] using h

/-- Elements whose tags stand on lines of their own. -/
theorem lines (opening tag closing : String) {before before' after after' : String}
    (ho : opening = "<" ++ tag) (hc : closing = "</" ++ tag ++ ">")
    (htag : isName tag.toList = true) (hb : Alike before before') (ha : SameAttributes u v)
    (hi : SameTags s t) (hafter : Alike after after') :
    Alike (before ++ opening ++ u ++ ">" ++ after ++ s ++ before ++ closing ++ after)
      (before' ++ opening ++ v ++ ">" ++ after' ++ t ++ before' ++ closing ++ after') := by
  have hinside := (hafter.tags.append hi).append hb.tags
  have h := line opening tag closing ho hc htag hb ha hinside hafter
  simpa only [String.append_assoc] using h

end Alike

end Html

end Bracemark
