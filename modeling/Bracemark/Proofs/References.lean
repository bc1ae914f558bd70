/-
Reading character references.

Escaping writes five characters as references. A reference begins with an ampersand, and none of
the five characters stands in the rest of it. So the ampersands of an escaped text begin the
references that were written, and nothing else (`exists_reference_of_ampersand`).

A reader replaces references by their characters, from left to right. No reference begins as
another one does, so which one it finds does not depend on what follows
(`referenceAt?_eq_some_iff`), and what follows is read as if it stood alone
(`unescapeAfter_flatMap`). A text that has something like a reference in it is no exception: the
ampersand of that is written as a reference, and what is left of it begins none.
-/
import Mathlib
import Bracemark.Text.Escape

set_option autoImplicit false

namespace Bracemark.Text

/-! ## The references -/

/-- A character that means something in HTML, and what is written for it. -/
structure Reference where
  char : Char
  text : String
deriving DecidableEq, Repr

/-- The references that escaping writes. -/
def references : List Reference :=
  [⟨'&', "&amp;"⟩, ⟨'<', "&lt;"⟩, ⟨'>', "&gt;"⟩, ⟨'"', "&quot;"⟩, ⟨'\x27', "&#x27;"⟩]

variable {r r' : Reference} {c d : Char} {cs before after : List Char}

theorem reference_of_mem (hr : r ∈ references) : reference r.char = r.text.toList := by
  have hall : ∀ r ∈ references, reference r.char = r.text.toList := by decide
  exact hall r hr

theorem reference_of_ne (hc : ∀ r ∈ references, r.char ≠ c) : reference c = [c] := by
  simp only [references, List.forall_mem_cons] at hc
  obtain ⟨hamp, hlt, hgt, hquot, hapos, -⟩ := hc
  simp [reference, hamp.symm, hlt.symm, hgt.symm, hquot.symm, hapos.symm]

/-- Every character is written as a reference or as itself. -/
theorem reference_cases (c : Char) :
    (∃ r ∈ references, r.char = c) ∨ reference c = [c] ∧ ∀ r ∈ references, r.char ≠ c := by
  by_cases hc : ∃ r ∈ references, r.char = c
  · exact .inl hc
  · push Not at hc
    exact .inr ⟨reference_of_ne hc, hc⟩

/-- A reference is an ampersand and then characters that are written as themselves. -/
theorem Reference.exists_name (hr : r ∈ references) :
    ∃ name, r.text.toList = '&' :: name ∧ ∀ d ∈ name, ∀ r' ∈ references, r'.char ≠ d := by
  have hall : ∀ r ∈ references, r.text.toList = '&' :: r.text.toList.tail ∧
      ∀ d ∈ r.text.toList.tail, ∀ r' ∈ references, r'.char ≠ d := by
    simp [references]
  exact ⟨_, hall r hr⟩

/-- No reference begins as another one does. -/
theorem Reference.eq_of_isPrefix (hr : r ∈ references) (hr' : r' ∈ references)
    (h : r.text.toList <+: r'.text.toList) : r = r' := by
  have hall : ∀ r ∈ references, ∀ r' ∈ references,
      r.text.toList <+: r'.text.toList → r = r' := by decide
  exact hall r hr r' hr' h

/-- The ampersand is written as a reference itself. -/
theorem Reference.exists_ampersand : ∃ r ∈ references, r.char = '&' :=
  ⟨⟨'&', "&amp;"⟩, List.mem_cons_self, rfl⟩

/-! ## Escaped text -/

theorem mem_reference (h : d ∈ reference c) : d = '&' ∨ ∀ r ∈ references, r.char ≠ d := by
  rcases reference_cases c with ⟨r, hr, rfl⟩ | ⟨hself, hc⟩
  · obtain ⟨name, htext, hname⟩ := Reference.exists_name hr
    rw [reference_of_mem hr, htext, List.mem_cons] at h
    exact h.imp_right (hname d)
  · rw [hself, List.mem_singleton] at h
    exact .inr (h ▸ hc)

/-- Of the characters that are written as references an escaped text has only the ampersand. -/
theorem not_mem_escapeHtml (hr : r ∈ references) (hne : r.char ≠ '&') (s : String) :
    r.char ∉ (escapeHtml s).toList := by
  rw [toList_escapeHtml, List.mem_flatMap]
  rintro ⟨c, -, hmem⟩
  rcases mem_reference hmem with hamp | hself
  · exact hne hamp
  · exact hself r hr rfl

/-- An ampersand in what is written for a character is the beginning of a reference. -/
theorem eq_nil_of_reference_eq (h : reference c = before ++ '&' :: after) :
    before = [] ∧ ∃ r ∈ references, r.char = c := by
  obtain ⟨amp, hamp, hchar⟩ := Reference.exists_ampersand
  rcases reference_cases c with ⟨r, hr, rfl⟩ | ⟨hself, hc⟩
  · obtain ⟨name, htext, hname⟩ := Reference.exists_name hr
    rw [reference_of_mem hr, htext] at h
    cases before with
    | nil => exact ⟨rfl, r, hr, rfl⟩
    | cons d before =>
      -- A later ampersand would be in the name, which has none.
      have hmem : '&' ∈ name := by
        rw [List.tail_eq_of_cons_eq h]
        exact List.mem_append_right _ List.mem_cons_self
      exact absurd hchar (hname '&' hmem amp hamp)
  · have hmem : '&' ∈ reference c := by
      rw [h]
      exact List.mem_append_right _ List.mem_cons_self
    rw [hself, List.mem_singleton] at hmem
    exact absurd (hchar.trans hmem) (hc amp hamp)

/-- A character in one text after another stands in the second of them or in the first. -/
theorem append_eq_append_cons {as bs : List Char} (h : as ++ bs = before ++ c :: after) :
    (∃ more, before = as ++ more ∧ bs = more ++ c :: after) ∨
      ∃ more, as = before ++ c :: more ∧ after = more ++ bs := by
  rcases List.append_eq_append_iff.mp h with hsecond | ⟨more, has, hafter⟩
  · exact .inl hsecond
  · cases more with
    | nil =>
      -- The second text begins with the character.
      exact .inl ⟨[], by simpa using has.symm, by simpa using hafter.symm⟩
    | cons d more =>
      obtain ⟨rfl, hrest⟩ := List.cons_eq_cons.mp hafter
      exact .inr ⟨more, has, hrest⟩

/-- **An ampersand begins a reference that was written.** Before it stands what is written for the
characters before, and after the reference what is written for those after. -/
theorem exists_reference_of_ampersand (h : cs.flatMap reference = before ++ '&' :: after) :
    ∃ r ∈ references, ∃ as bs, cs = as ++ r.char :: bs ∧ before = as.flatMap reference ∧
      '&' :: after = r.text.toList ++ bs.flatMap reference := by
  -- The ampersand is looked for in what is written for one character after the other.
  induction cs generalizing before with
  | nil => exact absurd h (by simp)
  | cons c cs ih =>
    rw [List.flatMap_cons] at h
    rcases append_eq_append_cons h with ⟨more, rfl, hcs⟩ | ⟨more, hc, rfl⟩
    · obtain ⟨r, hr, as, bs, rfl, rfl, hafter⟩ := ih hcs
      exact ⟨r, hr, c :: as, bs, rfl, rfl, hafter⟩
    · obtain ⟨rfl, r, hr, rfl⟩ := eq_nil_of_reference_eq hc
      refine ⟨r, hr, [], cs, rfl, rfl, ?_⟩
      rw [← reference_of_mem hr, hc]
      rfl

theorem exists_reference_of_escapeHtml {s before after : String}
    (h : escapeHtml s = before ++ "&" ++ after) :
    ∃ r ∈ references, ∃ a b : String, s = a ++ String.singleton r.char ++ b ∧
      before = escapeHtml a ∧ "&" ++ after = r.text ++ escapeHtml b := by
  have hchars : s.toList.flatMap reference = before.toList ++ '&' :: after.toList := by
    rw [← toList_escapeHtml, h]
    simp
  obtain ⟨r, hr, as, bs, hs, hbefore, hafter⟩ := exists_reference_of_ampersand hchars
  refine ⟨r, hr, String.ofList as, String.ofList bs, ?_, ?_, ?_⟩
  · apply String.toList_inj.mp
    simp [hs]
  · apply String.toList_inj.mp
    simp [hbefore]
  · apply String.toList_inj.mp
    simpa using hafter

/-! ## Reading -/

/-- The reference that a text begins with. -/
def referenceAt? (cs : List Char) : Option Reference :=
  references.find? fun r => r.text.toList.isPrefixOf cs

/-- A text with its references replaced by their characters. A number of characters at the
beginning still belongs to a reference that has been read and is left out. -/
def unescapeAfter : Nat → List Char → List Char
  | _, [] => []
  | left + 1, _ :: cs => unescapeAfter left cs
  | 0, c :: cs =>
    match referenceAt? (c :: cs) with
    | some r => r.char :: unescapeAfter (r.text.length - 1) cs
    | none => c :: unescapeAfter 0 cs

/-- `unescapeHtml s` is `s` with its references replaced by the characters that they stand for. -/
def unescapeHtml (s : String) : String :=
  String.ofList (unescapeAfter 0 s.toList)

/-- The reader finds the reference that stands there. -/
theorem referenceAt?_eq_some_iff :
    referenceAt? cs = some r ↔ r ∈ references ∧ r.text.toList <+: cs := by
  have hfound : ∀ r, referenceAt? cs = some r → r ∈ references ∧ r.text.toList <+: cs := by
    intro r h
    have hprefix := List.find?_some h
    exact ⟨List.mem_of_find?_eq_some h, List.isPrefixOf_iff_prefix.mp hprefix⟩
  refine ⟨hfound r, fun ⟨hr, hprefix⟩ => ?_⟩
  have hsome : (referenceAt? cs).isSome :=
    List.find?_isSome.mpr ⟨r, hr, List.isPrefixOf_iff_prefix.mpr hprefix⟩
  obtain ⟨r', hread⟩ := Option.isSome_iff_exists.mp hsome
  obtain ⟨hr', hprefix'⟩ := hfound r' hread
  -- Of two beginnings of one text, the shorter one begins the other.
  rcases List.prefix_or_prefix_of_prefix hprefix hprefix' with h | h
  · rw [hread, Reference.eq_of_isPrefix hr hr' h]
  · rw [hread, Reference.eq_of_isPrefix hr' hr h]

theorem referenceAt?_of_ne (hc : c ≠ '&') (cs : List Char) : referenceAt? (c :: cs) = none := by
  rw [Option.eq_none_iff_forall_ne_some]
  intro r h
  obtain ⟨hr, hprefix⟩ := referenceAt?_eq_some_iff.mp h
  obtain ⟨name, htext, -⟩ := Reference.exists_name hr
  rw [htext, List.cons_prefix_cons] at hprefix
  exact hc hprefix.1.symm

theorem unescapeAfter_eq_drop (left : Nat) (cs : List Char) :
    unescapeAfter left cs = unescapeAfter 0 (cs.drop left) := by
  induction cs generalizing left with
  | nil => rw [List.drop_nil]; cases left <;> rfl
  | cons c cs ih =>
    cases left with
    | zero => rfl
    | succ left => exact ih left

theorem unescapeAfter_text (hr : r ∈ references) (rest : List Char) :
    unescapeAfter 0 (r.text.toList ++ rest) = r.char :: unescapeAfter 0 rest := by
  have hread : referenceAt? (r.text.toList ++ rest) = some r :=
    referenceAt?_eq_some_iff.mpr ⟨hr, List.prefix_append _ _⟩
  obtain ⟨name, htext, -⟩ := Reference.exists_name hr
  have hlength : r.text.length - 1 = name.length := by
    rw [← String.length_toList, htext, List.length_cons, Nat.add_sub_cancel]
  rw [htext, List.cons_append] at hread ⊢
  rw [unescapeAfter, hread]
  dsimp only
  rw [unescapeAfter_eq_drop, hlength, List.drop_left]

theorem unescapeAfter_cons_of_ne (hc : c ≠ '&') (cs : List Char) :
    unescapeAfter 0 (c :: cs) = c :: unescapeAfter 0 cs := by
  rw [unescapeAfter, referenceAt?_of_ne hc]

/-- What is written for a character is read as this character, whatever follows. -/
theorem unescapeAfter_reference (c : Char) (rest : List Char) :
    unescapeAfter 0 (reference c ++ rest) = c :: unescapeAfter 0 rest := by
  rcases reference_cases c with ⟨r, hr, rfl⟩ | ⟨hself, hc⟩
  · rw [reference_of_mem hr, unescapeAfter_text hr]
  · obtain ⟨amp, hamp, hchar⟩ := Reference.exists_ampersand
    have hne : c ≠ '&' := fun h => hc amp hamp (hchar.trans h.symm)
    rw [hself, List.singleton_append, unescapeAfter_cons_of_ne hne]

/-- **What is written for a text is read as this text**, whatever follows. -/
theorem unescapeAfter_flatMap (cs rest : List Char) :
    unescapeAfter 0 (cs.flatMap reference ++ rest) = cs ++ unescapeAfter 0 rest := by
  induction cs with
  | nil => rfl
  | cons c cs ih =>
    rw [List.flatMap_cons, List.append_assoc, unescapeAfter_reference, ih, List.cons_append]

theorem unescapeHtml_escapeHtml (s : String) : unescapeHtml (escapeHtml s) = s := by
  have hread := unescapeAfter_flatMap s.toList []
  rw [List.append_nil, unescapeAfter, List.append_nil] at hread
  rw [unescapeHtml, toList_escapeHtml, hread, String.ofList_toList]

example : unescapeHtml "&amp;lt; &am&lt;" = "&lt; &am<" := by decide

/-! ## Escaping and reading -/

/-- **Escaping can be taken back.** An escaped text has no angle brackets and no quotes. Each
ampersand in it begins one of the five references: the text has the character of the reference
there, what comes before the ampersand is the escaped text before that character, and what comes
after the reference is the escaped text after it. Replacing the references by their characters gives
the text back, so different texts are escaped differently. Two texts are escaped one after another
just as each of them alone. -/
theorem escapeHtml_reversible :
    (∀ s : String, ∀ c ∈ ['<', '>', '"', '\x27'], c ∉ (escapeHtml s).toList) ∧
      (∀ s before after : String, escapeHtml s = before ++ "&" ++ after →
        ∃ r ∈ references, ∃ a b : String, s = a ++ String.singleton r.char ++ b ∧
          before = escapeHtml a ∧ "&" ++ after = r.text ++ escapeHtml b) ∧
      (∀ s : String, unescapeHtml (escapeHtml s) = s) ∧
      Function.Injective escapeHtml ∧
      ∀ a b : String, escapeHtml (a ++ b) = escapeHtml a ++ escapeHtml b := by
  refine ⟨?_, ?_, unescapeHtml_escapeHtml, ?_, escapeHtml_append⟩
  · intro s c hc
    have hwritten : ∀ c ∈ ['<', '>', '"', '\x27'], ∃ r ∈ references, r.char = c ∧ c ≠ '&' := by
      simp [references]
    obtain ⟨r, hr, rfl, hne⟩ := hwritten c hc
    exact not_mem_escapeHtml hr hne s
  · intro s before after h
    exact exists_reference_of_escapeHtml h
  · exact Function.LeftInverse.injective unescapeHtml_escapeHtml

/-- A text that looks like a reference before a character that is written as this reference. Both
ampersands of what is written begin references, and the text is not taken for the character. -/
theorem escapeHtml_reversible_lookalike :
    let s := "&lt;<"
    '<' ∈ ['<', '>', '"', '\x27'] ∧ '<' ∉ (escapeHtml s).toList ∧
      escapeHtml s = "&amp;lt;" ++ "&" ++ "lt;" ∧
      (∃ r ∈ references, ∃ a b : String, s = a ++ String.singleton r.char ++ b ∧
        "&amp;lt;" = escapeHtml a ∧ "&" ++ "lt;" = r.text ++ escapeHtml b) ∧
      unescapeHtml (escapeHtml s) = s ∧ escapeHtml "&lt;" ≠ escapeHtml "<" ∧
      escapeHtml ("&lt;" ++ "<") = escapeHtml "&lt;" ++ escapeHtml "<" := by
  intro s
  obtain ⟨habsent, hbegins, hread, hinjective, happend⟩ := escapeHtml_reversible
  have hmem : '<' ∈ ['<', '>', '"', '\x27'] := List.mem_cons_self
  have hwritten : escapeHtml s = "&amp;lt;" ++ "&" ++ "lt;" := by decide
  refine ⟨hmem, habsent s '<' hmem, hwritten, hbegins s _ _ hwritten, hread s, ?_, happend _ _⟩
  exact hinjective.ne (by decide)

end Bracemark.Text
